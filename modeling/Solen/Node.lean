import Solen.Engine

/-!
# The calls of a node

What makes an engine move: proposing a block, blocks and attestations
of peers, the timer for blocks that wait too long, blocks from sync,
rollback and snapshot restore, and a restart. A run is a list of such
calls, in any order and with any arguments.
-/

namespace Solen

open Machine

namespace Engine

section

variable (E : ConsensusPlatform) (C : EngineConfig) (A : Ambient)

/-! ## Proposing -/

/-- The operation is behind the nonce its sender has in the store. -/
def staleNonce (s : Store) (op : UserOperation) : Bool :=
  match loadAccount E.toPlatform op.sender s with
  | .ok (some a) => op.nonce < a.nonce
  | _ => false

/-- Queued evidence, as the operation that applies it. -/
def slashOperation (evidence : SlashingEvidence) : UserOperation where
  sender := C.validatorId
  nonce := 0#64
  actions := [.call System.stakingAddress "slash"
    (evidence.offender.bytes ++ le64 evidence.reason.penaltyBps)]
  maxFee := 0#128
  signature := [0xFF]

/-- The operations of the next block: from the mempool those that are not
stale, then slashings, then settlements of intents. -/
def blockOperations (e : Engine) : List UserOperation × Engine :=
  let (drained, mempool) := e.mempool.drain C.maxOpsPerBlock
  let fresh := drained.filter fun op => !staleNonce E e.store op
  let slashes := e.pendingSlashing.map (slashOperation C)
  let (settlements, intentPool) := settleIntents C.validatorId e.height e.intentPool
  (fresh ++ slashes ++ settlements,
    { e with mempool := mempool, pendingSlashing := [], intentPool := intentPool })

/-- The header of a block on top of the chain, without a signature. Its
time is one interval after its parent's. -/
def nextHeader (e : Engine) (ops : List UserOperation) (result : BlockResult) : BlockHeader where
  height := e.height + 1
  epoch := (e.height + 1) / epochLength
  parentHash := (e.chain.getLast?.map fun b => blockHash E b.header).getD Hash.zero
  stateRoot := result.stateRoot
  transactionsRoot := computeTxRoot E ops
  receiptsRoot := computeReceiptsRoot E result
  proposer := C.validatorId
  timestampMs := (e.chain.getLast?.map fun b => b.header.timestampMs).getD 0 + C.blockTimeMs
  proposerSignature := []

def signHeader (h : BlockHeader) : BlockHeader :=
  match C.signingKeypair with
  | some sign => { h with proposerSignature := sign (blockHash E h).bytes }
  | none => h

structure ProducedBlock where
  header : BlockHeader
  operations : List UserOperation

/-- Our block is final at once: there is no other validator. -/
def finalizeAlone (e : Engine) (header : BlockHeader) (ops : List UserOperation)
    (result : BlockResult) (revert : BlockRevert) : Engine :=
  let b : FinalizedBlock :=
    { header := header
      result := result
      attestations := [⟨C.validatorId, header.height, blockHash E header⟩]
      operations := ops }
  let e := e.appendBlock E C b header.height revert
  ({ e with mempool := e.mempool.removeFinalized ops } : Engine).tryEpochTransition E C
    header.height

/-- Our block becomes a candidate with our vote. -/
def proposeCandidate (e : Engine) (pb : PendingBlock) : Engine :=
  let height := pb.header.height
  let hash := blockHash E pb.header
  let e :=
    { e with v2Blocks := e.v2Blocks.insert height ((e.candidatesAt height).insert hash pb) }
  let e := (e.persistLastAttestation height hash).v2CastVote C.validatorId height hash
  ({ e with v2Revotes := e.v2Revotes ++ [(height, hash)] } : Engine).v2Reevaluate E C A height

/-- Our block waits for the attestations of others, next to our own. -/
def proposePending (e : Engine) (pb : PendingBlock) : Engine :=
  let height := pb.header.height
  let hash := blockHash E pb.header
  let e := { e with pendingBlocks := e.pendingBlocks.insert height pb }
  ((e.persistLastAttestation height hash).acceptAttestation E C A C.validatorId height hash).2

/-- What happens to a block we have just executed and signed. -/
def propose (e : Engine) (header : BlockHeader) (ops : List UserOperation) (result : BlockResult)
    (revert : BlockRevert) : Engine :=
  if e.validatorSet.activeCount ≤ 1 then e.finalizeAlone E C header ops result revert
  else
    let pb : PendingBlock :=
      { header := header
        operations := ops
        proposedAt := A.now
        executed := some (result, revert) }
    if C.fcV2Active header.height then e.proposeCandidate E C A pb else e.proposePending E C A pb

def produceBlock (e : Engine) : ProducedBlock × Engine :=
  let e := e.restoreStoreToFinalizedTip E A
  let (ops, e) := e.blockOperations E C
  let (result, revert, store) :=
    executeBlockJournaledDurable E.toPlatform C.executor e.store ops (e.height + 1)
  let header := signHeader E C (e.nextHeader E C ops result)
  (⟨header, ops⟩,
    ({ e with store := store } : Engine).propose E C A header ops result revert)

/-! ## Blocks of peers -/

def maxTimestampDriftMs : Nat := 30000

def onTip (e : Engine) (header : BlockHeader) : Bool :=
  match e.chain.getLast? with
  | some tip =>
      header.parentHash = blockHash E tip.header ∧ tip.header.timestampMs < header.timestampMs
  | none => true

/-- All checks of a header. The trusted checkpoints compiled into the node
are empty on every network. -/
def validHeader (e : Engine) (header : BlockHeader) : Bool :=
  !e.resyncing && header.height == e.height + 1 && e.onTip E header &&
    !e.isInvalid header.height (blockHash E header) &&
    (e.finalizedCheckpoints.validateBlock header.height (blockHash E header)).isNone &&
    decide (header.timestampMs ≤ A.wallClockMs + maxTimestampDriftMs) &&
    header.epoch == header.height / epochLength &&
    e.validatorSet.isActiveValidator header.proposer &&
    (e.validatorSet.proposerOrderForHeight E.toPlatform header.height e.epochSeed).contains
      header.proposer &&
    signatureValid E header

/-- Evidence that two headers equivocate is queued. -/
def reportDoubleSign (e : Engine) (a b : BlockHeader) : Engine :=
  match checkDoubleSign E a b with
  | some evidence => e.processSlashing evidence
  | none => e

/-- Position in the proposer order of a height. -/
def proposerRank (e : Engine) (height : Nat) (proposer : ValidatorId) : Nat :=
  ((e.validatorSet.proposerOrderForHeight E.toPlatform height e.epochSeed).findIdx?
    (· = proposer)).getD usizeMax

/-- The block waits without being executed; attestations that came before it
are counted now. -/
def admitPending (e : Engine) (header : BlockHeader) (ops : List UserOperation) : Engine :=
  let hash := blockHash E header
  let matching := e.earlyAttestations.filter fun (_, h, bh, _) => h = header.height ∧ bh = hash
  let e :=
    { e with
      pendingBlocks := e.pendingBlocks.insert header.height
        { header := header, operations := ops, proposedAt := A.now, executed := none }
      earlyAttestations := e.earlyAttestations.filter fun (_, h, _, _) => h ≠ header.height }
  matching.foldl (fun e (id, h, bh, _) => (e.acceptAttestation E C A id h bh).2) e

/-- Against a pending block: the same block again, a second block of the same
proposer, or one of a proposer that comes earlier in the order. -/
def challengePending (e : Engine) (existing : PendingBlock) (header : BlockHeader)
    (ops : List UserOperation) : Bool × Engine :=
  if blockHash E existing.header = blockHash E header then (false, e)
  else if existing.header.proposer = header.proposer then
    (false, e.reportDoubleSign E existing.header header)
  else if e.proposerRank E header.height header.proposer <
      e.proposerRank E header.height existing.header.proposer then
    if existing.executed.isSome then (false, e)
    else
      let e :=
        { e with
          pendingBlocks := e.pendingBlocks.erase header.height
          pendingAttestations := e.pendingAttestations.erase header.height }
      (true, e.admitPending E C A header ops)
  else (false, e)

def acceptBlock (e : Engine) (header : BlockHeader) (ops : List UserOperation) : Bool × Engine :=
  if e.validHeader E A header = false then (false, e)
  else
    match e.chain.find? fun b => b.header.height = header.height with
    | some finalized => (false, e.reportDoubleSign E finalized.header header)
    | none =>
        if C.fcV2Active header.height then (true, e.v2RecordBlock E C A header ops)
        else
          match e.pendingBlocks[header.height]? with
          | some existing => e.challengePending E C A existing header ops
          | none => (true, e.admitPending E C A header ops)

def forceFinalizeBlockIfQuorum (e : Engine) (height : Nat) : Bool × Engine :=
  if e.validatorSet.activeCount ≤ 1 ∨ height ≤ 3 ∨
      e.validatorSet.hasQuorum (e.pendingVoters height) = true then
    (true, e.finalizePendingBlock E C A height)
  else (false, e)

/-! ## The timer -/

def maxConsecutiveForceFinalizes : Nat := 3

/-- A pending block that has waited too long: our own is dropped if others
attest to another block; without a quorum it is kept, and dropped from
the third time on; otherwise it is finalized. -/
def timeOut (e : Engine) (height : Nat) : Engine :=
  if height ≠ e.height + 1 then e
  else if e.pendingBlocks[height]?.any fun pb =>
      pb.header.proposer = C.validatorId ∧ 0 < pb.mismatchCount then
    { e with
      pendingBlocks := e.pendingBlocks.erase height
      droppedBlockHeight := some height }
  else
    let forceCount := e.consecutiveForceFinalizes + 1
    let e := { e with consecutiveForceFinalizes := forceCount }
    if 1 < e.validatorSet.activeCount ∧ 3 < height ∧
        e.validatorSet.hasQuorum (e.pendingVoters height) = false then
      if 2 < forceCount then { e with pendingBlocks := e.pendingBlocks.erase height } else e
    else if maxConsecutiveForceFinalizes < forceCount then
      { e with pendingBlocks := e.pendingBlocks.erase height }
    else e.finalizePendingBlock E C A height

def finalizeTimedOutBlocks (e : Engine) (timeoutMs : Nat) : Engine :=
  let e := { e with pendingBlocks := e.pendingBlocks.filter fun h _ => e.height < h }
  let stale := (A.order.iter e.pendingBlocks.toList).filterMap fun (h, pb) =>
    if timeoutMs < A.now - pb.proposedAt then some h else none
  let e := stale.foldl (timeOut E C A) e
  { e with pendingAttestations := e.pendingAttestations.filter fun h _ => e.height < h }

/-! ## Sync -/

def headerIsValidatorSigned (e : Engine) (header : BlockHeader) : Bool :=
  e.validatorSet.isActiveValidator header.proposer && signatureValid E header

def syncRevertResyncThreshold : Nat := 5

def noteSyncRevert (e : Engine) : Engine :=
  if syncRevertResyncThreshold ≤ e.consecutiveSyncReverts + 1 ∧ e.resyncing = false then
    { e with needsResync := true, consecutiveSyncReverts := 0 }
  else { e with consecutiveSyncReverts := e.consecutiveSyncReverts + 1 }

/-- A synced block has to be the next one; on an empty chain any height is. -/
def nextForSync (e : Engine) (header : BlockHeader) : Bool :=
  match e.chain.getLast? with
  | some tip => header.height = tip.header.height + 1
  | none => true

/-- A block from sync is executed and final at once. Neither its parent nor a
quorum is checked. -/
def replaySyncedBlock (e : Engine) (header : BlockHeader) (ops : List UserOperation)
    (syncedReceipts : List ExecutionReceipt) : Bool × Engine :=
  if e.nextForSync header = false ∨ header.epoch ≠ header.height / epochLength ∨
      (C.authenticateSyncBlocks = true ∧ e.headerIsValidatorSigned E header = false) then
    (false, e)
  else
    let e := e.restoreStoreToFinalizedTip E A
    let (checked, store) := executeBlockChecked E.toPlatform C.executor e.store ops header.height
      header.stateRoot
    let e := { e with store := store }
    match checked with
    | none => (false, e.noteSyncRevert)
    | some (result, revert) =>
        let result :=
          { result with
            receipts := if syncedReceipts = [] then result.receipts else syncedReceipts }
        let e := { e with consecutiveSyncReverts := 0 }
        (true, (e.appendBlock E C ⟨header, result, [], ops⟩ header.height
          revert).tryEpochTransition E C header.height)

def clearStalePending (e : Engine) (height : Nat) : Engine :=
  { e with
    pendingBlocks := e.pendingBlocks.filter fun h _ => height < h
    pendingAttestations := e.pendingAttestations.filter fun h _ => height < h
    v2Blocks := e.v2Blocks.filter fun h _ => height < h
    v2Votes := e.v2Votes.filter fun h _ => height < h
    v2Invalid := e.v2Invalid.filter fun h _ => height < h }

/-! ## Rollback, restore and restart -/

/-- The journal entries above a height, newest first. -/
def journalAbove (e : Engine) (target : Nat) : List (Nat × BlockRevert) :=
  e.rollbackJournal.reverse.takeWhile fun entry => target < entry.1

/-- Undoes the blocks above the target in place. If the root is then not the
expected one the store stays rolled back and nothing else changes. -/
def rollbackToHeight (e : Engine) (target : Nat) (expectedRoot : Hash) : Bool × Engine :=
  if e.height ≤ target ∨ ¬ (e.rollbackJournal.minRollbackTarget.any fun m => m ≤ target) then
    (false, e)
  else
    let e := { e with store := applyReverts e.store (e.journalAbove target) }
    if e.stateRoot E ≠ expectedRoot then (false, e)
    else
      (true, { e with
        chain := e.chain.filter fun b => b.header.height ≤ target
        rollbackJournal :=
          (e.rollbackJournal.reverse.dropWhile fun entry => target < entry.1).reverse
        pendingBlocks := ∅
        pendingAttestations := ∅
        earlyAttestations := []
        droppedBlockHeight := none
        consecutiveForceFinalizes := 0
        currentEpoch := target / epochLength
        store := saveChainMeta target (target / epochLength) e.store })

/-- The marker block of a chain whose blocks are not in memory. -/
def markerBlock (proposer : ValidatorId) (height epoch : Nat) (stateRoot : Hash) :
    FinalizedBlock where
  header :=
    { height := height
      epoch := epoch
      parentHash := Hash.zero
      stateRoot := stateRoot
      transactionsRoot := Hash.zero
      receiptsRoot := Hash.zero
      proposer := proposer
      timestampMs := 0
      proposerSignature := [] }
  result := ⟨stateRoot, [], 0#64⟩
  attestations := []
  operations := []

/-- Stakes of the validators that the restored state has as active. -/
def refreshStakes (vs : ValidatorSet) (staking : StakingContract) : ValidatorSet :=
  staking.validators.foldl (fun vs sv =>
    if sv.isActive then vs.update sv.id fun v => { v with stake := sv.totalStake } else vs) vs

/-- After a snapshot has replaced the store. -/
def resetToHeight (e : Engine) (height epoch : Nat) : Engine :=
  { e with
    pendingBlocks := ∅
    pendingAttestations := ∅
    earlyAttestations := []
    v2Blocks := ∅
    v2Votes := ∅
    v2Revotes := []
    v2Invalid := ∅
    mempool := e.mempool.clear
    consecutiveForceFinalizes := 0
    consecutiveSyncReverts := 0
    droppedBlockHeight := none
    rollbackJournal := []
    currentEpoch := epoch
    chain := [markerBlock C.validatorId height epoch (e.stateRoot E)]
    validatorSet := refreshStakes e.validatorSet (loadStaking E.toPlatform e.store) }

/-- A fresh engine over a store: `with_validators`. -/
def withValidators (store : Store) (validatorSet : ValidatorSet) : Engine :=
  let (height, epoch) := loadChainMeta store
  let store := applyDurableRevertsAbove store height
  { v2Blocks := ∅
    v2Votes := ∅
    v2Revotes := []
    v2Invalid := ∅
    store := store
    mempool := Mempool.new 50000
    chain :=
      if 0 < height then [markerBlock Hash.zero height epoch (store.stateRoot E.blake3)] else []
    validatorSet := validatorSet
    currentEpoch := epoch
    pendingAttestations := ∅
    pendingBlocks := ∅
    intentPool := IntentPool.new
    pendingSlashing := []
    consecutiveForceFinalizes := 0
    earlyAttestations := []
    epochSeed := Hash.zero
    finalizedCheckpoints := {}
    droppedBlockHeight := none
    needsResync := false
    consecutiveSyncReverts := 0
    resyncing := false
    rollbackJournal := [] }

/-- The tip disagrees with the checkpoint at its own height. -/
def conflictsWithCheckpoint (e : Engine) : Bool :=
  match e.finalizedCheckpoints.latest with
  | some c => 0 < e.height ∧ c.height = e.height ∧ e.stateRoot E ≠ c.stateRoot
  | none => false

/-- What a process does before it joins: the engine over its store, the
validators of the genesis file corrected from the staking contract, and
the last finalized checkpoint. -/
def boot (genesis : ValidatorSet) (store : Store) : Engine :=
  let e := withValidators E store genesis
  let e :=
    { e with
      validatorSet := genesis.reconcile (loadStaking E.toPlatform e.store)
      finalizedCheckpoints := FinalizedCheckpointStore.load E e.store }
  if e.conflictsWithCheckpoint E then { e with needsResync := true } else e

/-! ## Runs -/

inductive Call where
  | produceBlock
  | acceptBlock (header : BlockHeader) (ops : List UserOperation)
  | acceptAttestation (id : ValidatorId) (height : Nat) (hash : Hash)
  | forceFinalizeBlockIfQuorum (height : Nat)
  | finalizeTimedOutBlocks (timeoutMs : Nat)
  | replaySyncedBlock (header : BlockHeader) (ops : List UserOperation)
      (receipts : List ExecutionReceipt)
  | clearStalePending (height : Nat)
  | attestCheckpointWithData (id : ValidatorId) (signature : Bytes) (height : Nat)
      (hash stateRoot : Hash)
  | rollbackToHeight (target : Nat) (expectedRoot : Hash)
  | restoreSnapshot (snapshot : Store) (height epoch : Nat)
  | restart
  | persistLastAttestation (height : Nat) (hash : Hash)
  | takeV2Revotes
  | setResyncing (resyncing : Bool)
  | requestResync
  | takeResyncRequest
  | takeDroppedBlockHeight
  | resetPartitionState
  | submit (op : UserOperation)
  | submitIntent (intent : Intent)
  | submitSolution (solution : Solution)
  | cancelIntent (id : U64) (sender : AccountId)

/-- One call; `genesis` is the validator set of the genesis file. -/
def step (genesis : ValidatorSet) (e : Engine) : Call → Engine
  | .produceBlock => (e.produceBlock E C A).2
  | .acceptBlock header ops => (e.acceptBlock E C A header ops).2
  | .acceptAttestation id height hash => (e.acceptAttestation E C A id height hash).2
  | .forceFinalizeBlockIfQuorum height => (e.forceFinalizeBlockIfQuorum E C A height).2
  | .finalizeTimedOutBlocks timeoutMs => e.finalizeTimedOutBlocks E C A timeoutMs
  | .replaySyncedBlock header ops receipts => (e.replaySyncedBlock E C A header ops receipts).2
  | .clearStalePending height => e.clearStalePending height
  | .attestCheckpointWithData id signature height hash stateRoot =>
      (e.attestCheckpointWithData E id signature height hash stateRoot).2
  | .rollbackToHeight target expectedRoot => (e.rollbackToHeight E target expectedRoot).2
  | .restoreSnapshot snapshot height epoch =>
      ({ e with store := snapshot } : Engine).resetToHeight E C height epoch
  | .restart => boot E genesis e.store
  | .persistLastAttestation height hash => e.persistLastAttestation height hash
  | .takeV2Revotes => { e with v2Revotes := [] }
  | .setResyncing resyncing => { e with resyncing := resyncing }
  | .requestResync => { e with needsResync := true }
  | .takeResyncRequest => { e with needsResync := false }
  | .takeDroppedBlockHeight => { e with droppedBlockHeight := none }
  | .resetPartitionState => { e with consecutiveForceFinalizes := 0 }
  | .submit op => { e with mempool := (e.mempool.submit op).2 }
  | .submitIntent intent => { e with intentPool := e.intentPool.submit intent }
  | .submitSolution solution =>
      { e with intentPool := e.intentPool.submitSolution E.ed25519Verify solution }
  | .cancelIntent id sender => { e with intentPool := e.intentPool.cancel id sender }

end

end Engine

end Solen
