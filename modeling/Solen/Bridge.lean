import Solen.Types

/-!
# Bridge contract

One vault per rollup with its withdrawals, and the registry of rollups
that may post batches. The vault counters are plain additions and wrap
at 128 bits.
-/

namespace Solen

open Machine

def defaultChallengeWindow : U64 := 100#64

def defaultWithdrawalDelay : U64 := 50#64

/-- 100 SOLEN at 8 decimals. -/
def disputeBond : U128 := 10000000000#128

inductive BridgeError where
  | vaultNotFound (rollupId : U64)
  | insufficientVaultBalance (got need : U128)
  | withdrawalNotFound
  | withdrawalNotReady (remaining : U64)
  | withdrawalDisputed
  | vaultAlreadyExists (rollupId : U64)
  | rollupAlreadyRegistered (rollupId : U64)
deriving DecidableEq

def BridgeError.message : BridgeError → String
  | vaultNotFound id => s!"vault not found for rollup {id.toNat}"
  | insufficientVaultBalance got need =>
      s!"insufficient vault balance: have {got.toNat}, need {need.toNat}"
  | withdrawalNotFound => "withdrawal not found"
  | withdrawalNotReady remaining => s!"withdrawal not ready: {remaining.toNat} blocks remaining"
  | withdrawalDisputed => "withdrawal disputed"
  | vaultAlreadyExists id => s!"vault already exists for rollup {id.toNat}"
  | rollupAlreadyRegistered id => s!"rollup already registered: {id.toNat}"

inductive WithdrawalStatus where
  | pending
  | disputed
  | finalized
deriving DecidableEq

structure PendingWithdrawal where
  id : U64
  rollupId : U64
  recipient : AccountId
  amount : U128
  initiatedBlock : U64
  finalizeAfterBlock : U64
  proofHash : Hash
  status : WithdrawalStatus
  disputer : Option AccountId
  disputeBond : U128
deriving DecidableEq

structure BridgeVault where
  rollupId : U64
  balance : U128
  totalDeposited : U128
  totalWithdrawn : U128
  challengeWindow : U64
  withdrawalDelay : U64
deriving DecidableEq

structure RegisteredRollup where
  rollupId : U64
  name : String
  proofType : String
  sequencer : AccountId
  genesisStateRoot : Hash
  registeredAtHeight : U64
deriving DecidableEq

structure BridgeContract where
  vaults : List BridgeVault := []
  pendingWithdrawals : List PendingWithdrawal := []
  registeredRollups : List RegisteredRollup := []
  nextWithdrawalId : U64 := 0#64
deriving DecidableEq

namespace BridgeContract

def newVault (rollupId : U64) : BridgeVault where
  rollupId := rollupId
  balance := 0#128
  totalDeposited := 0#128
  totalWithdrawn := 0#128
  challengeWindow := defaultChallengeWindow
  withdrawalDelay := defaultWithdrawalDelay

def hasVault (c : BridgeContract) (rollupId : U64) : Bool :=
  c.vaults.any (·.rollupId == rollupId)

/-- Registers a rollup and creates its vault if there is none yet. -/
def registerRollup (c : BridgeContract) (rollupId : U64) (name proofType : String)
    (sequencer : AccountId) (genesisStateRoot : Hash) (height : U64) :
    Except BridgeError BridgeContract :=
  if c.registeredRollups.any (·.rollupId == rollupId) then
    .error (.rollupAlreadyRegistered rollupId)
  else
    .ok { c with
      registeredRollups := c.registeredRollups ++ [{
        rollupId := rollupId
        name := name
        proofType := proofType
        sequencer := sequencer
        genesisStateRoot := genesisStateRoot
        registeredAtHeight := height }]
      vaults := if c.hasVault rollupId then c.vaults else c.vaults ++ [newVault rollupId] }

def getRollup (c : BridgeContract) (rollupId : U64) : Option RegisteredRollup :=
  c.registeredRollups.find? (·.rollupId == rollupId)

def registerVault (c : BridgeContract) (rollupId : U64) : Except BridgeError BridgeContract :=
  if c.hasVault rollupId then .error (.vaultAlreadyExists rollupId)
  else .ok { c with vaults := c.vaults ++ [newVault rollupId] }

def getVault (c : BridgeContract) (rollupId : U64) : Option BridgeVault :=
  c.vaults.find? (·.rollupId == rollupId)

def deposit (c : BridgeContract) (rollupId : U64) (amount : U128) :
    Except BridgeError BridgeContract :=
  match c.getVault rollupId with
  | none => .error (.vaultNotFound rollupId)
  | some _ =>
      .ok { c with vaults := c.vaults.updateFirst (·.rollupId == rollupId) fun v =>
        { v with
          balance := v.balance + amount
          totalDeposited := v.totalDeposited + amount } }

/-! ## Withdrawals

A withdrawal is requested against the funds no other pending withdrawal
needs, may be disputed for a bond, and is paid out after a delay. -/

/-- What the pending withdrawals of a rollup add up to. -/
def pendingAmount (c : BridgeContract) (rollupId : U64) : U128 :=
  (c.pendingWithdrawals.filter fun w => w.rollupId == rollupId && w.status == .pending).foldl
    (fun t w => t + w.amount) 0#128

def initiateWithdrawal (c : BridgeContract) (rollupId : U64) (recipient : AccountId)
    (amount : U128) (currentBlock : U64) (proofHash : Hash) :
    Except BridgeError (BridgeContract × U64) :=
  match c.getVault rollupId with
  | none => .error (.vaultNotFound rollupId)
  | some vault =>
      let available := satSub vault.balance (c.pendingAmount rollupId)
      if available < amount then .error (.insufficientVaultBalance available amount)
      else
        let id := c.nextWithdrawalId
        .ok ({ c with
          nextWithdrawalId := id + 1#64
          pendingWithdrawals := c.pendingWithdrawals ++ [{
            id := id
            rollupId := rollupId
            recipient := recipient
            amount := amount
            initiatedBlock := currentBlock
            finalizeAfterBlock := currentBlock + vault.challengeWindow + vault.withdrawalDelay
            proofHash := proofHash
            status := .pending
            disputer := none
            disputeBond := 0#128 }] }, id)

def getWithdrawal (c : BridgeContract) (id : U64) : Option PendingWithdrawal :=
  c.pendingWithdrawals.find? (·.id == id)

def updateWithdrawal (c : BridgeContract) (id : U64)
    (f : PendingWithdrawal → PendingWithdrawal) : BridgeContract :=
  { c with pendingWithdrawals := c.pendingWithdrawals.updateFirst (·.id == id) f }

def updateVault (c : BridgeContract) (rollupId : U64) (f : BridgeVault → BridgeVault) :
    BridgeContract :=
  { c with vaults := c.vaults.updateFirst (·.rollupId == rollupId) f }

def disputeWithdrawal (c : BridgeContract) (id : U64) (disputer : AccountId) :
    Except BridgeError (BridgeContract × U128) :=
  match c.getWithdrawal id with
  | none => .error .withdrawalNotFound
  | some w =>
      if w.status ≠ .pending then .error .withdrawalNotFound
      else
        .ok (c.updateWithdrawal id fun w =>
          { w with
            status := .disputed
            disputer := some disputer
            disputeBond := Solen.disputeBond }, Solen.disputeBond)

/-- A valid dispute leaves the withdrawal blocked and returns the bond; an
invalid one makes the withdrawal pending again and gives the bond to the
vault. -/
def resolveDispute (c : BridgeContract) (id : U64) (validDispute : Bool) :
    Except BridgeError (BridgeContract × Option AccountId × U128) :=
  match c.getWithdrawal id with
  | none => .error .withdrawalNotFound
  | some w =>
      if w.status ≠ .disputed then .error .withdrawalNotFound
      else if validDispute then
        .ok (c.updateWithdrawal id fun w => { w with disputer := none, disputeBond := 0#128 },
          w.disputer, w.disputeBond)
      else
        .ok ((c.updateWithdrawal id fun w =>
            { w with status := .pending, disputer := none, disputeBond := 0#128 }).updateVault
          w.rollupId fun v => { v with balance := satAdd v.balance w.disputeBond }, none, 0#128)

/-- The withdrawal is marked before the vault is looked up, so the record that
is left behind differs from `c` even when there is no vault. -/
def finalizeWithdrawal (c : BridgeContract) (id currentBlock : U64) :
    BridgeContract × Except BridgeError (AccountId × U128) :=
  match c.getWithdrawal id with
  | none => (c, .error .withdrawalNotFound)
  | some w =>
      match w.status with
      | .disputed => (c, .error .withdrawalDisputed)
      | .finalized => (c, .error .withdrawalNotFound)
      | .pending =>
          if currentBlock < w.finalizeAfterBlock then
            (c, .error (.withdrawalNotReady (w.finalizeAfterBlock - currentBlock)))
          else
            let marked := c.updateWithdrawal id fun w => { w with status := .finalized }
            match marked.getVault w.rollupId with
            | none => (marked, .error (.vaultNotFound w.rollupId))
            | some _ =>
                (marked.updateVault w.rollupId fun v =>
                  { v with
                    balance := satSub v.balance w.amount
                    totalWithdrawn := v.totalWithdrawn + w.amount },
                  .ok (w.recipient, w.amount))

def storageKey : Bytes := ascii "__bridge_state__"

end BridgeContract

/-! ## Treasury record

Only the counters its status call prints. -/

structure TreasuryContract where
  balance : U128 := 0#128
  totalFeesCollected : U128 := 0#128
  totalBurned : U128 := 0#128
deriving DecidableEq

def TreasuryContract.storageKey : Bytes := ascii "__treasury_state__"

end Solen
