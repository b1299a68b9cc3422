import Solen.Block
import Solen.Wire

/-!
# A concrete platform

An instance of every parameter of the execution layer, so that general
results can be applied to runs that exist, and these can be computed.
Records are written field by field, the hash is a polynomial checksum,
and a signature is the key followed by the checksum of the message.
Every call into the virtual machine traps; a second instance accepts
code, and a third runs two small contracts.
-/

namespace Solen

open Machine

variable {a : Account} {X : BlockExecutor} {key : Hash} {op : UserOperation}

/-! ## Wire forms of the record types -/

instance : Wire Hash :=
  .delimited Hash.bytes (fun bs => if h : bs.length = 32 then some ⟨bs, h⟩ else none) fun x => by
    simp [x.length_bytes]

instance : Wire AuthMethod :=
  .via (β := (Bytes × Hash × Hash × String × List String) ⊕ Hash ⊕ (List Hash × BitVec 16) ⊕
      AccountId ⊕ (Hash × U64 × U128 × U128 × List AccountId × List String × Bool) ⊕ Bytes ⊕
      (Hash × Bytes))
    (fun
      | .passkey c x y r o => .inl (c, x, y, r, o)
      | .ed25519 k => .inr (.inl k)
      | .threshold s t => .inr (.inr (.inl (s, t)))
      | .guardian g => .inr (.inr (.inr (.inl g)))
      | .session k e l b t m r => .inr (.inr (.inr (.inr (.inl (k, e, l, b, t, m, r)))))
      | .mlDsa k => .inr (.inr (.inr (.inr (.inr (.inl k)))))
      | .hybrid k l => .inr (.inr (.inr (.inr (.inr (.inr (k, l)))))))
    (fun
      | .inl (c, x, y, r, o) => .passkey c x y r o
      | .inr (.inl k) => .ed25519 k
      | .inr (.inr (.inl (s, t))) => .threshold s t
      | .inr (.inr (.inr (.inl g))) => .guardian g
      | .inr (.inr (.inr (.inr (.inl (k, e, l, b, t, m, r))))) => .session k e l b t m r
      | .inr (.inr (.inr (.inr (.inr (.inl k))))) => .mlDsa k
      | .inr (.inr (.inr (.inr (.inr (.inr (k, l)))))) => .hybrid k l)
    fun m => by cases m <;> rfl

instance : Wire Account :=
  .via (fun a => (a.id, a.codeHash, a.authMethods, a.nonce, a.balance))
    (fun (i, c, m, n, b) => ⟨i, c, m, n, b⟩) fun _ => rfl

instance : Wire Delegation :=
  .via (fun d => (d.delegator, d.validator, d.amount, d.rewardDebt, d.eligibleFromEpoch))
    (fun (d, v, a, r, e) => ⟨d, v, a, r, e⟩) fun _ => rfl

instance : Wire Undelegation :=
  .via (fun u => (u.delegator, u.validator, u.amount, u.unlockEpoch))
    (fun (d, v, a, e) => ⟨d, v, a, e⟩) fun _ => rfl

instance : Wire StakingValidator :=
  .via (fun v => (v.id, v.selfStake, v.totalDelegated, v.accumulatedRewardPerToken, v.isActive,
      v.isGenesis, v.genesisLockUntil, v.commissionRateBps, v.eligibleFromEpoch,
      v.pendingNewKey, v.keyRotationEpoch))
    (fun (i, s, d, r, a, g, l, c, e, k, o) => ⟨i, s, d, r, a, g, l, c, e, k, o⟩) fun _ => rfl

instance : Wire StakingContract :=
  .via (fun c => (c.validators, c.delegations, c.undelegations, c.minValidatorStake,
      c.unbondingPeriod))
    (fun (v, d, u, m, p) => ⟨v, d, u, m, p⟩) fun _ => rfl

instance : Wire VestingType :=
  .via (β := (U64 × U64) ⊕ Nat)
    (fun
      | .custom c t => .inl (c, t)
      | .team => .inr 0
      | .investor => .inr 1
      | .validator => .inr 2)
    (fun
      | .inl (c, t) => .custom c t
      | .inr 0 => .team
      | .inr 1 => .investor
      | .inr _ => .validator)
    fun t => by cases t <;> rfl

instance : Wire VestingSchedule :=
  .via (fun s => (s.recipient, s.totalAmount, s.claimed, s.vestingType, s.startEpoch))
    (fun (r, a, c, t, e) => ⟨r, a, c, t, e⟩) fun _ => rfl

instance : Wire VestingContract :=
  .via (fun c => (c.schedules, c.admin)) (fun (s, a) => ⟨s, a⟩) fun _ => rfl

instance : Wire WithdrawalStatus :=
  .via WithdrawalStatus.ctorIdx WithdrawalStatus.ofNat fun s => by cases s <;> rfl

instance : Wire PendingWithdrawal :=
  .via (fun w => (w.id, w.rollupId, w.recipient, w.amount, w.initiatedBlock,
      w.finalizeAfterBlock, w.proofHash, w.status, w.disputer, w.disputeBond))
    (fun (i, l, r, a, b, f, h, s, d, o) => ⟨i, l, r, a, b, f, h, s, d, o⟩) fun _ => rfl

instance : Wire BridgeVault :=
  .via (fun v => (v.rollupId, v.balance, v.totalDeposited, v.totalWithdrawn, v.challengeWindow,
      v.withdrawalDelay))
    (fun (i, b, d, w, c, l) => ⟨i, b, d, w, c, l⟩) fun _ => rfl

instance : Wire RegisteredRollup :=
  .via (fun r => (r.rollupId, r.name, r.proofType, r.sequencer, r.genesisStateRoot,
      r.registeredAtHeight))
    (fun (i, n, p, s, g, h) => ⟨i, n, p, s, g, h⟩) fun _ => rfl

instance : Wire BridgeContract :=
  .via (fun c => (c.vaults, c.pendingWithdrawals, c.registeredRollups, c.nextWithdrawalId))
    (fun (v, w, r, n) => ⟨v, w, r, n⟩) fun _ => rfl

instance : Wire TreasuryContract :=
  .via (fun c => (c.balance, c.totalFeesCollected, c.totalBurned)) (fun (b, f, t) => ⟨b, f, t⟩)
    fun _ => rfl

instance : Wire ProposalAction :=
  .via (β := Nat × Nat × String × Hash)
    (fun
      | .setBaseFee f => (0, f.toNat, "", Hash.zero)
      | .setBlockTime t => (1, t.toNat, "", Hash.zero)
      | .setMaxOpsPerBlock m => (2, m.toNat, "", Hash.zero)
      | .registerRollup i n => (3, i.toNat, n, Hash.zero)
      | .setBurnRate r => (4, r.toNat, "", Hash.zero)
      | .setEpochReward r => (5, r.toNat, "", Hash.zero)
      | .setMinValidatorStake s => (6, s.toNat, "", Hash.zero)
      | .setUnbondingPeriod p => (7, p.toNat, "", Hash.zero)
      | .emergencyPause => (8, 0, "", Hash.zero)
      | .emergencyResume => (9, 0, "", Hash.zero)
      | .setBridgeRelayer r => (10, 0, "", r)
      | .setVestingAdmin a => (11, 0, "", a)
      | .migrateTeamPoolToVesting => (12, 0, "", Hash.zero)
      | .setGovernanceVotingPeriod e => (13, e.toNat, "", Hash.zero))
    (fun
      | (0, n, _, _) => .setBaseFee (.ofNat _ n)
      | (1, n, _, _) => .setBlockTime (.ofNat _ n)
      | (2, n, _, _) => .setMaxOpsPerBlock (.ofNat _ n)
      | (3, n, name, _) => .registerRollup (.ofNat _ n) name
      | (4, n, _, _) => .setBurnRate (.ofNat _ n)
      | (5, n, _, _) => .setEpochReward (.ofNat _ n)
      | (6, n, _, _) => .setMinValidatorStake (.ofNat _ n)
      | (7, n, _, _) => .setUnbondingPeriod (.ofNat _ n)
      | (8, _, _, _) => .emergencyPause
      | (9, _, _, _) => .emergencyResume
      | (10, _, _, h) => .setBridgeRelayer h
      | (11, _, _, h) => .setVestingAdmin h
      | (12, _, _, _) => .migrateTeamPoolToVesting
      | (_, n, _, _) => .setGovernanceVotingPeriod (.ofNat _ n))
    fun a => by cases a <;> simp

instance : Wire ProposalStatus :=
  .via ProposalStatus.ctorIdx ProposalStatus.ofNat fun s => by cases s <;> rfl

instance : Wire Vote :=
  .via (fun v => (v.voter, v.support, v.stakeWeight)) (fun (v, s, w) => ⟨v, s, w⟩) fun _ => rfl

instance : Wire Proposal :=
  .via (fun p => (p.id, p.proposer, p.action, p.description, p.createdEpoch, p.votingEndEpoch,
      p.executeAfterEpoch, p.status, p.votes, p.totalFor, p.totalAgainst, p.deposit))
    (fun (i, r, a, t, c, e, x, s, v, f, g, d) => ⟨i, r, a, t, c, e, x, s, v, f, g, d⟩)
    fun _ => rfl

instance : Wire GovernanceContract :=
  .via (fun c => (c.proposals, c.nextProposalId, c.isPaused, c.votingPeriod))
    (fun (p, n, i, v) => ⟨p, n, i, v⟩) fun _ => rfl

instance : Wire RecoveryStatus :=
  .via RecoveryStatus.ctorIdx RecoveryStatus.ofNat fun s => by cases s <;> rfl

instance : Wire RecoveryRequest :=
  .via (fun r => (r.id, r.targetAccount, r.newAuthMethods, r.initiatedAt, r.executeAfter,
      r.confirmations, r.guardianIds, r.threshold, r.status))
    (fun (i, a, m, t, e, c, g, n, s) => ⟨i, a, m, t, e, c, g, n, s⟩) fun _ => rfl

instance : Wire GuardianContract :=
  .via (fun c => (c.recoveryRequests, c.nextId)) (fun (r, n) => ⟨r, n⟩) fun _ => rfl

instance : Wire EpochRandomness :=
  .via (fun r => (r.acc, r.seed)) (fun (a, s) => ⟨a, s⟩) fun _ => rfl

@[irreducible] def Serde.ofWire (α : Type) [Wire α] : Serde α where
  toVec a := Wire.put a
  fromSlice bs := (Wire.take bs).map Prod.fst
  fromSlice_toVec a := by
    have h := Wire.take_put a []
    rw [List.append_nil] at h
    rw [h, Option.map_some]

/-! ## The platform -/

def concretePlatform : Platform where
  blake3 := checksum
  sha256 := checksum
  ed25519Verify key msg sig := sig == key.bytes ++ (checksum msg).bytes
  mlDsaVerify _ _ _ := false
  p256Verify _ _ _ _ _ := false
  account := Serde.ofWire _
  staking := Serde.ofWire _
  governance := Serde.ofWire _
  bridge := Serde.ofWire _
  treasury := Serde.ofWire _
  vesting := Serde.ofWire _
  guardian := Serde.ofWire _
  epochRandomness := Serde.ofWire _
  accountIds := Serde.ofWire _
  byteStrings := Serde.ofWire _
  jsonToVec _ := []
  jsonFromSlice _ := none
  authMethodsFromJson _ := .error "expected value"
  actionsToJson _ := []
  vmExecute _ _ _ _ _ := .error (.trap "unreachable")
  vmValidateBytecode _ := .error (.invalidBytecode "unsupported")

/-! ## Signed operations -/

def alice : AccountId := Hash.repeated 1

def bob : AccountId := Hash.repeated 2

/-- Signs with a key whose public part is `key`. -/
def signWith (key : Hash) (chainId : U64) (op : UserOperation) : UserOperation :=
  { op with
    signature := key.bytes ++ (checksum (op.signingMessage concretePlatform chainId)).bytes }

theorem length_signWith (key : Hash) (chainId : U64) (op : UserOperation) :
    (signWith key chainId op).signature.length = 64 := by
  simp [signWith, Hash.length_bytes]

/-! ## Stores with one account -/

/-- A fresh account that is controlled by the key it is named after. -/
def keyAccount (id : AccountId) (balance : U128) : Account :=
  { emptyAccount id with authMethods := [.ed25519 id], balance := balance }

/-- A store with one account record, under the key of `id`. -/
def singleAccount (id : AccountId) (a : Account) : Store :=
  (∅ : Store).insert (accountKey id) (concretePlatform.account.toVec a)

theorem getElem?_singleAccount (id : AccountId) (a : Account) :
    (singleAccount id a)[accountKey id]? = some (concretePlatform.account.toVec a) := by
  rw [singleAccount, Delta.getElem?_insert, if_pos rfl]

theorem loadAccount_singleAccount (id : AccountId) (a : Account) :
    loadAccount concretePlatform id (OverlayStore.new (singleAccount id a)) = .ok (some a) := by
  refine loadAccount_of_getElem? ?_
  rw [OverlayStore.entries_eq, OverlayStore.entries_new, getElem?_singleAccount]

theorem wellFormed_singleAccount {id : AccountId} (hid : a.id = id) :
    WellFormed concretePlatform (singleAccount id a) := by
  have hempty : WellFormed concretePlatform (∅ : Store) := by
    intro id data h
    simp at h
  rw [singleAccount, ← hid]
  exact hempty.insert_account a

/-! ## A platform to compute with -/

/-- The concrete platform where any code is accepted. -/
def plainPlatform : Platform :=
  { concretePlatform with vmValidateBytecode := fun _ => .ok () }

/-- A store with accounts that are controlled by the keys they are named
after. -/
def plainStore (balances : List (AccountId × U128)) : Store :=
  balances.foldl (fun s e => putAccount plainPlatform (keyAccount e.1 e.2) s) ∅

/-- A store with these accounts. -/
def accountStore (E : Platform) (accounts : List Account) : Store :=
  accounts.foldl (fun s a => putAccount E a s) ∅

theorem wellFormed_accountStore (E : Platform) (accounts : List Account) :
    WellFormed E (accountStore E accounts) := by
  have hempty : WellFormed E (∅ : Store) := by
    intro id data h
    simp at h
  unfold accountStore
  generalize (∅ : Store) = s at hempty ⊢
  induction accounts generalizing s with
  | nil => exact hempty
  | cons a accounts ih => exact ih _ (hempty.insert_account a)

/-! ## Two contracts -/

def teller : AccountId := Hash.repeated 5

def keeper : AccountId := Hash.repeated 6

/-- Contracts write to their storage. The code `[1]`, which is that of the
teller, also pays five to bob and has the keeper called. -/
def contractPlatform : Platform :=
  { plainPlatform with
    vmExecute := fun _ code _ ctx _ => .ok
      { gasUsed := 10#64
        events := []
        storage := ctx.storage.insert [1] [2]
        nativeTransfers := if code = [1] then [⟨bob, 5#128⟩] else []
        pendingCalls := if code = [1] then [⟨keeper, ascii "note", []⟩] else [] } }

/-- A store with the contracts, and with an account of alice. -/
def contractStore (a : Account) : Store :=
  let accounts := [a, { emptyAccount teller with codeHash := checksum [1], balance := 20#128 },
    { emptyAccount keeper with codeHash := checksum [2] }]
  ((accountStore contractPlatform accounts).insert (bytecodeKey (checksum [1])) [1]).insert
    (bytecodeKey (checksum [2])) [2]

theorem wellFormed_contractStore (a : Account) :
    WellFormed contractPlatform (contractStore a) := by
  have haccounts := wellFormed_accountStore contractPlatform
    [a, { emptyAccount teller with codeHash := checksum [1], balance := 20#128 },
      { emptyAccount keeper with codeHash := checksum [2] }]
  exact (haccounts.insert_of_notAccountKey (notAccountKey_bytecodeKey _) _).insert_of_notAccountKey
    (notAccountKey_bytecodeKey _) _

end Solen
