import Solen.Borsh
import Solen.Operation

/-!
# Block execution

A block is staged in an overlay over the live store: its operations in
order, the epoch rewards at an epoch boundary, and the randomness
accumulator once that is active. Staging touches nothing. Committing
applies the staged changes; a journaled commit also returns the old
values of the keys it touched, and a durable one stores them next to
the block's writes, under the revert key of its height.
-/

namespace Solen

open Machine

/-! ## Running the operations -/

/-- One operation of a block with the overlay it started from. -/
structure OpRun (base : Store) where
  op : UserOperation
  before : OverlayStore base
  outcome : OpOutcome base

section

variable {base : Store} (E : Platform) (X : BlockExecutor)

def runSteps (step : OverlayStore base → UserOperation → OpOutcome base) :
    List UserOperation → OverlayStore base → List (OpRun base)
  | [], _ => []
  | op :: ops, o => ⟨op, o, step o op⟩ :: runSteps step ops (step o op).store

/-- Where a list of runs that started from `o` has come to. -/
def finalStore (o : OverlayStore base) : List (OpRun base) → OverlayStore base
  | [] => o
  | r :: rs => finalStore r.outcome.store rs

/-- The authentication check of the parallel path, made for all operations
against the store before the block. -/
def prevalidate (o : OverlayStore base) (height : Nat) (op : UserOperation) : Option String :=
  if isSystemAuthorized op then some "system"
  else
    match loadAccount E op.sender o with
    | .ok (some a) => a.authMethods.findSome? fun m =>
        verifyAuth E m (op.signingMessage E X.chainId) op.signature
          (decide (X.pqAuthHeight ≤ height))
    | _ => none

/-- An operation of the parallel path: skipped when its early check failed. -/
def parallelStep (start : OverlayStore base) (height : Nat) (o : OverlayStore base)
    (op : UserOperation) : OpOutcome base :=
  match prevalidate E X start height op with
  | none =>
      { receipt :=
          { receiptOf op 0#64 (some "signature verification failed") [] with
            authMethod := "none" }
        store := o }
  | some name =>
      let outcome := executeOperation E X o op height
      { outcome with receipt := { outcome.receipt with authMethod := name } }

def parallelThreshold : Nat := 200

def blockStep (start : OverlayStore base) (ops : List UserOperation) (height : Nat) :
    OverlayStore base → UserOperation → OpOutcome base :=
  if parallelThreshold ≤ ops.length then parallelStep E X start height
  else fun o op => executeOperation E X o op height

end

/-! ## Epoch rewards -/

section

variable {σ : Type} [StateStore σ] (E : Platform)

/-- Credits the record stored under an account's key. -/
def creditAccountRaw (id : AccountId) (amount : U128) (s : σ) : σ :=
  match loadAccount E id s with
  | .ok (some a) =>
      StateStore.put s (accountKey id)
        (E.account.toVec { a with balance := satAdd a.balance amount })
  | _ => s

def defaultEpochReward : U128 := 31700000000#128

structure RewardCredit where
  account : AccountId
  amount : U128
  topic : String

/-- How one validator's part of the reward is split. -/
def validatorCredits (staking : StakingContract) (epoch : U64)
    (actualReward totalStake : U128) (v : StakingValidator) : List RewardCredit :=
  let vTotal := v.totalStake
  let share := satMul actualReward vTotal / totalStake
  if vTotal = 0#128 ∨ share = 0#128 then []
  else
    let eligible := staking.eligibleDelegationsForValidator v.id epoch
    let eligibleDelegated := eligible.foldl (fun t d => t + d.amount) 0#128
    let delegatorPool :=
      if 0#128 < eligibleDelegated then satMul share eligibleDelegated / vTotal else 0#128
    let commission := bpsOf delegatorPool v.commissionRateBps
    let delegatorNet := satSub delegatorPool commission
    let delegatorCredits :=
      if 0#128 < delegatorNet ∧ 0#128 < eligibleDelegated then
        eligible.filterMap fun d =>
          let delShare := satMul delegatorNet d.amount / eligibleDelegated
          if delShare = 0#128 then none
          else some ⟨d.delegator, delShare, "delegator_reward"⟩
      else []
    ⟨v.id, satSub share delegatorPool + commission, "epoch_reward"⟩ :: delegatorCredits

def RewardCredit.event (c : RewardCredit) : Event :=
  ⟨System.stakingPoolAddress, ascii c.topic, c.account.bytes ++ le128 c.amount⟩

/-- The credits of an epoch boundary and the amount taken from the pool for
them; nothing happens without eligible stake or with an empty pool. -/
def epochRewards (height : Nat) (s : σ) : Option (U128 × List RewardCredit) :=
  let epoch : U64 := BitVec.ofNat 64 (height / 100)
  let reward := (readConfigU128 (ascii "__config_epoch_reward__") s).getD defaultEpochReward
  let staking := loadStaking E s
  let active := staking.eligibleValidators epoch
  let totalStake := active.foldl (fun t v => t + v.totalStake) 0#128
  let poolBalance :=
    match loadAccount E System.stakingPoolAddress s with
    | .ok (some a) => a.balance
    | _ => 0#128
  if totalStake = 0#128 ∨ active = [] ∨ poolBalance = 0#128 then none
  else
    let actualReward := umin reward poolBalance
    some (actualReward, active.flatMap (validatorCredits staking epoch actualReward totalStake))

def takeFromPool (amount : U128) (s : σ) : σ :=
  match loadAccount E System.stakingPoolAddress s with
  | .ok (some a) =>
      StateStore.put s (accountKey System.stakingPoolAddress)
        (E.account.toVec { a with balance := satSub a.balance amount })
  | _ => s

def distributeEpochRewards (height : Nat) (s : σ) : List ExecutionReceipt × σ :=
  match epochRewards E height s with
  | none => ([], s)
  | some (actualReward, credits) =>
      let s' := credits.foldl (fun s c => creditAccountRaw E c.account c.amount s)
        (takeFromPool E actualReward s)
      let receipt : ExecutionReceipt :=
        { sender := System.stakingPoolAddress
          nonce := 0#64
          success := true
          gasUsed := 0#64
          error := none
          events := credits.map RewardCredit.event
          authMethod := "system" }
      (if credits = [] then [] else [receipt], s')

/-! ## Epoch randomness -/

def epochLength : Nat := 100

def epochRandomnessKey : Bytes := ascii "__sys_epoch_randomness__"

def EpochRandomness.mixBlock (er : EpochRandomness) (contribution : Hash) (height : Nat) :
    EpochRandomness :=
  let acc := E.blake3 (er.acc.bytes ++ contribution.bytes ++ toLeBytes 8 height)
  if 0 < height ∧ height % epochLength = 0 then
    { acc := E.blake3 acc.bytes, seed := E.blake3 acc.bytes }
  else { er with acc := acc }

def mixRandomness (parentStateRoot : Hash) (height : Nat) (s : σ) : σ :=
  let er : EpochRandomness := loadRecord E.epochRandomness epochRandomnessKey {} s
  saveRecord E.epochRandomness epochRandomnessKey (er.mixBlock E parentStateRoot height) s

end

/-! ## Staging and committing -/

structure BlockResult where
  stateRoot : Hash
  receipts : List ExecutionReceipt
  gasUsed : U64

/-- The reverse of a block: the value each touched key had before. -/
abbrev BlockRevert := Changes

structure StagedBlock (base : Store) where
  runs : List (OpRun base)
  rewardReceipts : List ExecutionReceipt
  final : OverlayStore base

namespace StagedBlock

variable {base : Store}

def changes (b : StagedBlock base) : Changes := b.final.intoChanges

def result (b : StagedBlock base) (stateRoot : Hash) : BlockResult where
  stateRoot := stateRoot
  receipts := b.runs.map (·.outcome.receipt) ++ b.rewardReceipts
  gasUsed := b.runs.foldl (fun t r => t + r.outcome.receipt.gasUsed) 0#64

end StagedBlock

section

variable (E : Platform) (X : BlockExecutor)

def stageBlock (s : Store) (ops : List UserOperation) (height : Nat) : StagedBlock s :=
  let start := OverlayStore.new s
  let runs := runSteps (blockStep E X start ops height) ops start
  let afterOps := finalStore start runs
  let (rewardReceipts, afterRewards) :=
    if 0 < height ∧ height % epochLength = 0 then distributeEpochRewards E height afterOps
    else ([], afterOps)
  let final :=
    if X.epochRandomnessHeight ≤ height then
      mixRandomness E (s.stateRoot E.blake3) height afterRewards
    else afterRewards
  ⟨runs, rewardReceipts, final⟩

/-- Applies a change set and returns the old values of its keys. -/
def commitCapturingRevert (s : Store) (changes : Changes) : BlockRevert × Store :=
  (Delta.capture s changes.keys, s.applyBatchAtomic changes)

def executeBlockWithHeight (s : Store) (ops : List UserOperation) (height : Nat) :
    BlockResult × Store :=
  let staged := stageBlock E X s ops height
  let s' := s.applyBatchAtomic staged.changes
  (staged.result (s'.stateRoot E.blake3), s')

/-- The format of a durable revert record: sorted pairs of key and old value. -/
def revertCodec : Borsh.Codec (List (Bytes × Option Bytes)) :=
  Borsh.vec (Borsh.pair Borsh.byteString (Borsh.option Borsh.byteString))

/-- The reverse delta of a durable commit also removes the record itself. -/
def durableRevert (s : Store) (changes : Changes) (height : Nat) : BlockRevert :=
  (Delta.capture s changes.keys).insert (eagerRevertKey height) none

/-- A record that cannot be encoded is written as an empty one. -/
def encodeRevert (revert : BlockRevert) : Bytes := (revertCodec.encode revert.toList).getD []

def decodeEagerRevert (bytes : Bytes) : Option BlockRevert :=
  (Borsh.fromSlice revertCodec bytes).map fun pairs =>
    pairs.foldl (fun m e => m.insert e.1 e.2) ∅

def executeBlockJournaledDurable (s : Store) (ops : List UserOperation) (height : Nat) :
    BlockResult × BlockRevert × Store :=
  let staged := stageBlock E X s ops height
  let revert := durableRevert s staged.changes height
  let batch := staged.changes.insert (eagerRevertKey height) (some (encodeRevert revert))
  let s' := s.applyBatchAtomic batch
  (staged.result (s'.stateRoot E.blake3), revert, s')

/-- Commits only a block with the expected root; otherwise the writes are
taken back. -/
def executeBlockChecked (s : Store) (ops : List UserOperation) (height : Nat)
    (expectedRoot : Hash) : Option (BlockResult × BlockRevert) × Store :=
  let staged := stageBlock E X s ops height
  let (revert, s') := commitCapturingRevert s staged.changes
  let result := staged.result (s'.stateRoot E.blake3)
  if result.stateRoot = expectedRoot then (some (result, revert), s')
  else (none, s'.applyBatchAtomic revert)

end

end Solen
