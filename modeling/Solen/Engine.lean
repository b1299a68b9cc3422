import Solen.Mempool
import Solen.IntentPool
import Solen.ForkChoice

/-!
# The consensus engine

One node: its store, the blocks it has finalized, and the blocks and
votes it collects for the next height. A block of our own is executed
when it is proposed, so between proposing and finalizing the store is
ahead of the chain; `restoreStoreToFinalizedTip` takes such writes back
before anything else is executed.

Locks are released between the steps of a call but every call runs to
its end, so a call is one function on the whole state. Clocks and the
order of hash maps are inputs of a call. Storage does not fail.
-/

namespace Solen

open Machine

/-! ## Configuration and surroundings -/

structure EngineConfig where
  blockTimeMs : Nat := 2000
  maxOpsPerBlock : Nat := 5000
  validatorId : ValidatorId := Hash.zero
  chainId : U64 := 0#64
  prune : Bool := false
  forkChoiceV2Height : Nat := dormant
  feeFixHeight : Nat := dormant
  authenticateSyncBlocks : Bool := false
  pqAuthHeight : Nat := dormant
  epochRandomnessHeight : Nat := dormant
  /-- Signs with the key of the node, if it has one. -/
  signingKeypair : Option (Bytes → Bytes) := none

namespace EngineConfig

def executor (C : EngineConfig) : BlockExecutor where
  chainId := C.chainId
  feeFixHeight := C.feeFixHeight
  pqAuthHeight := C.pqAuthHeight
  epochRandomnessHeight := C.epochRandomnessHeight

def fcV2Active (C : EngineConfig) (height : Nat) : Bool := C.forkChoiceV2Height ≤ height

end EngineConfig

/-- What a call finds around it: the order of the hash maps, the monotonic
clock and the wall clock, both in milliseconds. -/
structure Ambient where
  order : HashOrder := .sorted
  now : Nat := 0
  wallClockMs : Nat := 0

/-! ## The rollback journal -/

/-- The reverse deltas of the last blocks, oldest first. -/
abbrev RollbackJournal := List (Nat × BlockRevert)

namespace RollbackJournal

def cap : Nat := 256

/-- A gap in the heights empties the journal first. -/
def record (j : RollbackJournal) (height : Nat) (revert : BlockRevert) : RollbackJournal :=
  let kept :=
    match j.getLast? with
    | some last => if height ≠ last.1 + 1 then [] else j
    | none => j
  let entries := kept ++ [(height, revert)]
  entries.drop (entries.length - cap)

def minRollbackTarget (j : RollbackJournal) : Option Nat := j.head?.map fun entry => entry.1 - 1

end RollbackJournal

/-! ## Checkpoints -/

structure PendingCheckpoint where
  height : Nat
  epoch : Nat
  blockHash : Hash
  stateRoot : Hash
  attestations : List (ValidatorId × Bytes) := []
deriving DecidableEq

structure FinalizedCheckpointStore where
  latest : Option FinalizedCheckpoint := none
  pending : Option PendingCheckpoint := none
deriving DecidableEq

def PendingCheckpoint.finalized (p : PendingCheckpoint) : FinalizedCheckpoint where
  height := p.height
  epoch := p.epoch
  blockHash := p.blockHash
  stateRoot := p.stateRoot
  attestations := p.attestations

namespace FinalizedCheckpointStore

def finalizedCheckpointKey : Bytes := ascii "__finalized_checkpoint__"

/-- One more attestation of the pending checkpoint; with a quorum it becomes
the latest finalized one. -/
def addAttestation (cp : FinalizedCheckpointStore) (id : ValidatorId) (signature : Bytes)
    (vs : ValidatorSet) : Bool × FinalizedCheckpointStore :=
  match cp.pending with
  | none => (false, cp)
  | some pending =>
      if pending.attestations.any fun a => a.1 = id then (false, cp)
      else
        let pending := { pending with attestations := pending.attestations ++ [(id, signature)] }
        if vs.hasQuorum (pending.attestations.map Prod.fst) then
          (true, { latest := some pending.finalized, pending := none })
        else (false, { cp with pending := some pending })

/-- Only a block at the very height of the latest checkpoint can conflict. -/
def validateBlock (cp : FinalizedCheckpointStore) (height : Nat) (hash : Hash) : Option Hash :=
  match cp.latest with
  | some c => if height = c.height ∧ hash ≠ c.blockHash then some c.blockHash else none
  | none => none

def load (E : ConsensusPlatform) (s : Store) : FinalizedCheckpointStore where
  latest := (StateStore.get s finalizedCheckpointKey).bind E.checkpointJson.fromSlice

def signingMessage (E : ConsensusPlatform) (height : Nat) (blockHash stateRoot : Hash) : Bytes :=
  (E.blake3 (toLeBytes 8 height ++ blockHash.bytes ++ stateRoot.bytes)).bytes

end FinalizedCheckpointStore

/-! ## What a node writes next to the state -/

def blockKey (height : Nat) : Bytes := ascii "block/" ++ ascii (toString height)

def lastAttestationKey : Bytes := ascii "__last_attestation__"

def saveChainMeta (height epoch : Nat) (s : Store) : Store :=
  s.insert chainMetaKey (toLeBytes 8 height ++ toLeBytes 8 epoch)

def loadChainMeta (s : Store) : Nat × Nat :=
  match s[chainMetaKey]? with
  | some data =>
      if 16 ≤ data.length then
        (fromLeBytes (data.take 8), fromLeBytes ((data.drop 8).take 8))
      else (0, 0)
  | none => (0, 0)

/-- A height from the last eight bytes of a revert record's key. -/
def eagerRevertHeight (k : Bytes) : Option Nat :=
  let suffix := k.drop eagerRevertPrefix.length
  if suffix.length = 8 then some (fromLeBytes suffix.reverse) else none

/-- The durable revert records above the tip, newest first. -/
def durableRevertsAbove (s : Store) (tipHeight : Nat) : List (Nat × BlockRevert) :=
  let records := (s.scanPrefix eagerRevertPrefix).filterMap fun (k, v) =>
    match eagerRevertHeight k with
    | some height =>
        if height ≤ tipHeight then none
        else (decodeEagerRevert v).map fun revert => (height, revert)
    | none => none
  records.mergeSort fun a b => b.1 ≤ a.1

def applyReverts (s : Store) (reverts : List (Nat × BlockRevert)) : Store :=
  reverts.foldl (fun s entry => s.applyBatchAtomic entry.2) s

def applyDurableRevertsAbove (s : Store) (tipHeight : Nat) : Store :=
  applyReverts s (durableRevertsAbove s tipHeight)

/-! ## The state of a node -/

structure Engine extends ForkChoice where
  store : Store
  mempool : Mempool 50000
  /-- Oldest block first. -/
  chain : List FinalizedBlock
  validatorSet : ValidatorSet
  currentEpoch : Nat
  pendingAttestations : Std.ExtTreeMap Nat (List Attestation)
  pendingBlocks : Std.ExtTreeMap Nat PendingBlock
  intentPool : IntentPool
  pendingSlashing : List SlashingEvidence
  consecutiveForceFinalizes : Nat
  /-- Voter, height, hash and time of arrival. -/
  earlyAttestations : List (ValidatorId × Nat × Hash × Nat)
  epochSeed : Hash
  finalizedCheckpoints : FinalizedCheckpointStore
  droppedBlockHeight : Option Nat
  needsResync : Bool
  consecutiveSyncReverts : Nat
  resyncing : Bool
  rollbackJournal : RollbackJournal

namespace Engine

def height (e : Engine) : Nat := (e.chain.getLast?.map fun b => b.header.height).getD 0

def isLikelyPartitioned (e : Engine) : Bool := 3 < e.consecutiveForceFinalizes

def pendingVoters (e : Engine) (height : Nat) : List ValidatorId :=
  (e.pendingAttestations[height]?.getD []).map (·.validatorId)

section

variable (E : ConsensusPlatform) (C : EngineConfig) (A : Ambient)

def stateRoot (e : Engine) : Hash := e.store.stateRoot E.blake3

/-! ## The store and the tip -/

/-- The reverse deltas of our own blocks among the candidates. -/
def candidateReverts (e : Engine) : List (Nat × BlockRevert) :=
  (A.order.iter e.v2Blocks.toList).flatMap fun (height, candidates) =>
    (A.order.iter candidates.toList).filterMap fun (_, pb) => pb.revert.map fun r => (height, r)

def pendingReverts (e : Engine) : List (Nat × BlockRevert) :=
  (A.order.iter e.pendingBlocks.toList).filterMap fun (height, pb) =>
    pb.revert.map fun r => (height, r)

/-- Takes our own executed blocks out of the candidates and of the pending
blocks. -/
def dropExecuted (e : Engine) : Engine :=
  { e with
    v2Blocks := e.v2Blocks.map fun _ candidates =>
      candidates.filter fun _ pb => pb.revert.isNone
    pendingBlocks := e.pendingBlocks.filter fun _ pb => pb.revert.isNone }

/-- Makes the store reflect the finalized tip: first with the reverse deltas
of our own pending blocks, newest height first, then with the durable
records; if neither helps a resync is requested. -/
def restoreStoreToFinalizedTip (e : Engine) : Engine :=
  match e.chain.getLast? with
  | none => e
  | some tip =>
      if e.stateRoot E = tip.result.stateRoot then e
      else
        let reverts := (e.candidateReverts A ++ e.pendingReverts A).mergeSort fun a b => b.1 ≤ a.1
        let e := { e.dropExecuted with store := applyReverts e.store reverts }
        if e.stateRoot E = tip.result.stateRoot then e
        else
          let e := { e with store := applyDurableRevertsAbove e.store e.height }
          if e.stateRoot E = tip.result.stateRoot then e else { e with needsResync := true }

def clearEagerRevert (e : Engine) (height : Nat) : Engine :=
  { e with store := e.store.erase (eagerRevertKey height) }

def persistLastAttestation (e : Engine) (height : Nat) (hash : Hash) : Engine :=
  { e with store := e.store.insert lastAttestationKey (toLeBytes 8 height ++ hash.bytes) }

def blockRetention : Nat := 10000000

/-- The heights whose blocks are deleted when `height` is persisted. -/
def prunedHeights (height : Nat) : List Nat :=
  if C.prune = false ∨ height ≤ blockRetention then []
  else (List.range' (height - blockRetention - 10) 10).filter (· ≠ 0)

def persistBlockAndMeta (e : Engine) (b : FinalizedBlock) : Engine :=
  let saved := saveChainMeta b.header.height b.header.epoch
    (e.store.insert (blockKey b.header.height) (E.blockJson.toVec b.serializable))
  { e with
    store := (prunedHeights C b.header.height).foldl (fun s h => s.erase (blockKey h)) saved }

/-! ## Slashing -/

/-- Queues evidence for the next block, once per offender. -/
def processSlashing (e : Engine) (evidence : SlashingEvidence) : Engine :=
  { e with
    validatorSet := e.validatorSet.resetMissed evidence.offender
    pendingSlashing :=
      if e.pendingSlashing.any fun p => p.offender = evidence.offender then e.pendingSlashing
      else e.pendingSlashing ++ [evidence] }

/-- Whether the designated proposer of a height was the one that proposed. -/
def trackProposer (e : Engine) (height : Nat) (proposer : ValidatorId) : Engine :=
  match e.validatorSet.proposerForHeightWithSeed E.toPlatform height e.epochSeed with
  | none => e
  | some designated =>
      if designated ≠ proposer then
        let (evidence, vs) := recordMissedBlock e.validatorSet designated
        let e := { e with validatorSet := vs }
        match evidence with
        | some evidence => e.processSlashing evidence
        | none => e
      else { e with validatorSet := e.validatorSet.resetMissed designated }

/-! ## Epochs and checkpoints -/

def attestCheckpoint (e : Engine) (id : ValidatorId) (signature : Bytes) : Bool × Engine :=
  let (finalized, cp) := e.finalizedCheckpoints.addAttestation id signature e.validatorSet
  let e := { e with finalizedCheckpoints := cp }
  match finalized, cp.latest with
  | true, some latest =>
      (true, { e with
        store := e.store.insert FinalizedCheckpointStore.finalizedCheckpointKey
          (E.checkpointJson.toVec latest) })
  | _, _ => (finalized, e)

/-- An attestation counts only for the pending checkpoint it names. -/
def attestCheckpointWithData (e : Engine) (id : ValidatorId) (signature : Bytes) (height : Nat)
    (hash stateRoot : Hash) : Bool × Engine :=
  match e.finalizedCheckpoints.pending with
  | some pending =>
      if pending.height ≠ height ∨ pending.blockHash ≠ hash ∨ pending.stateRoot ≠ stateRoot then
        (false, e)
      else e.attestCheckpoint E id signature
  | none => (false, e)

def proposeCheckpoint (e : Engine) : Engine :=
  match e.chain.getLast? with
  | some b =>
      { e with
        finalizedCheckpoints :=
          { e.finalizedCheckpoints with
            pending := some
              { height := b.header.height
                epoch := e.currentEpoch
                blockHash := blockHash E b.header
                stateRoot := b.header.stateRoot } } }
  | none => e

def selfAttestCheckpoint (e : Engine) : Engine :=
  match e.finalizedCheckpoints.pending, C.signingKeypair with
  | some pending, some sign =>
      (e.attestCheckpoint E C.validatorId
        (sign (FinalizedCheckpointStore.signingMessage E pending.height pending.blockHash
          pending.stateRoot))).2
  | _, _ => e

def updateEpochSeed (e : Engine) : Engine :=
  match e.chain.getLast? with
  | some b =>
      { e with
        epochSeed :=
          if C.epochRandomnessHeight ≤ b.header.height then
            (loadRecord E.epochRandomness epochRandomnessKey {} e.store).seed
          else E.blake3 b.header.stateRoot.bytes }
  | none => e

def tryEpochTransition (e : Engine) (height : Nat) : Engine :=
  if 0 < height ∧ height % epochLength = 0 then
    let e :=
      { e with
        currentEpoch := e.currentEpoch + 1
        validatorSet := e.validatorSet.epochTransition (loadStaking E.toPlatform e.store) }
    ((e.proposeCheckpoint E).selfAttestCheckpoint E C).updateEpochSeed E C
  else e

/-! ## Finalization -/

/-- Appends a block to the chain, with all that follows from it on every
path: journal, revert record, persistence. -/
def appendBlock (e : Engine) (b : FinalizedBlock) (height : Nat) (revert : BlockRevert) : Engine :=
  let e :=
    { e with
      chain := e.chain ++ [b]
      rollbackJournal := e.rollbackJournal.record height revert }
  (e.clearEagerRevert height).persistBlockAndMeta E C b

def commitFinalized (e : Engine) (b : FinalizedBlock) (height : Nat) (revert : BlockRevert) :
    Engine :=
  let e := e.appendBlock E C b height revert
  let e :=
    { e with
      v2Invalid := e.v2Invalid.filter fun h _ => height < h
      mempool := e.mempool.removeFinalized b.operations }
  let e := (e.trackProposer E height b.header.proposer).tryEpochTransition E C height
  if b.attestations = [] then e else { e with consecutiveForceFinalizes := 0 }

/-- A peer's block did not give the root it claims. With fork choice the
block is marked and our vote for it withdrawn. -/
def rejectBlock (e : Engine) (height : Nat) (bad : Hash) : Engine :=
  if C.fcV2Active height then
    let invalid := (e.v2Invalid[height]?.getD ∅).insert bad
    let e := { e with v2Invalid := e.v2Invalid.insert height invalid }
    match e.v2Votes[height]? with
    | some votes =>
        if votes[C.validatorId]? = some bad then
          { e with v2Votes := e.v2Votes.insert height (votes.erase C.validatorId) }
        else e
    | none => e
  else { e with needsResync := true }

def finalizePendingBlock (e : Engine) (height : Nat) : Engine :=
  let attestations := e.pendingAttestations[height]?.getD []
  let pending := e.pendingBlocks[height]?
  let e :=
    { e with
      pendingBlocks := e.pendingBlocks.erase height
      pendingAttestations := e.pendingAttestations.erase height }
  match pending with
  | none => e
  | some pb =>
      match pb.executed with
      | some (result, revert) =>
          e.commitFinalized E C ⟨pb.header, result, attestations, pb.operations⟩ height revert
      | none =>
          let e := e.restoreStoreToFinalizedTip E A
          let (checked, store) := executeBlockChecked E.toPlatform C.executor e.store pb.operations
            height pb.header.stateRoot
          let e := { e with store := store }
          match checked with
          | some (result, revert) =>
              e.commitFinalized E C ⟨pb.header, result, attestations, pb.operations⟩ height revert
          | none => e.rejectBlock C height (blockHash E pb.header)

/-! ## Fork choice -/

def v2AttestationsFor (e : Engine) (height : Nat) (hash : Hash) : List Attestation :=
  (A.order.iter (e.votesAt height).toList).filterMap fun (id, h) =>
    if h = hash then some ⟨id, height, hash⟩ else none

/-- Hands a candidate over to the ordinary finalization. -/
def v2Finalize (e : Engine) (height : Nat) (hash : Hash) : Engine :=
  match (e.candidatesAt height)[hash]? with
  | none => e
  | some pb =>
      let e :=
        { e with
          v2Blocks := e.v2Blocks.insert height ((e.candidatesAt height).erase hash)
          pendingBlocks := e.pendingBlocks.insert height pb
          pendingAttestations :=
            e.pendingAttestations.insert height (e.v2AttestationsFor A height hash) }
      let e := e.finalizePendingBlock E C A height
      { e with
        v2Blocks := e.v2Blocks.filter fun h _ => height < h
        v2Votes := e.v2Votes.filter fun h _ => height < h }

/-- The first hash, in the order of the tally, that has a quorum and whose
block is here and not known to be bad. -/
def v2Winner (e : Engine) (height : Nat) (tally : Tally) : Option Hash :=
  ((A.order.iter tally.toList).find? fun (hash, voters) =>
    !e.isInvalid height hash && e.validatorSet.hasQuorum voters &&
      (e.candidatesAt height).contains hash).map Prod.fst

def v2CastVote (e : Engine) (id : ValidatorId) (height : Nat) (hash : Hash) : Engine :=
  { e with v2Votes := e.v2Votes.insert height ((e.votesAt height).insert id hash) }

/-- Finalizes a winner, or else moves our own vote to the leader, which may
complete the quorum. -/
def v2Reevaluate (e : Engine) (height : Nat) : Engine :=
  if height ≠ e.height + 1 then e
  else
    let tally := ForkChoice.v2Tally A.order e.toForkChoice height
    if tally.isEmpty then e
    else
      match e.v2Winner A height tally with
      | some hash => e.v2Finalize E C A height hash
      | none =>
          match ForkChoice.v2Leader E.toPlatform A.order e.toForkChoice e.validatorSet
              e.epochSeed height tally with
          | none => e
          | some leader =>
              if e.validatorSet.isActiveValidator C.validatorId = false ∨
                  (e.votesAt height)[C.validatorId]? = some leader then e
              else
                let e :=
                  { e.v2CastVote C.validatorId height leader with
                    v2Revotes := e.v2Revotes ++ [(height, leader)] }
                let voters := (ForkChoice.v2Tally A.order e.toForkChoice height).voters leader
                if e.validatorSet.hasQuorum voters then e.v2Finalize E C A height leader else e

/-- A candidate that is there already stays as it is. -/
def v2RecordBlock (e : Engine) (header : BlockHeader) (ops : List UserOperation) : Engine :=
  let candidates := (e.candidatesAt header.height).insertIfNew (blockHash E header)
    { header := header, operations := ops, proposedAt := A.now, executed := none }
  ({ e with v2Blocks := e.v2Blocks.insert header.height candidates } : Engine).v2Reevaluate E C A
    header.height

def v2RecordVote (e : Engine) (id : ValidatorId) (height : Nat) (hash : Hash) : Engine :=
  (e.v2CastVote id height hash).v2Reevaluate E C A height

/-! ## Attestations -/

def maxV2VoteLookahead : Nat := 64

def maxEarlyAttestations : Nat := 200

/-- In seconds. -/
def earlyAttestationTtl : Nat := 10

def bufferEarly (e : Engine) (id : ValidatorId) (height : Nat) (hash : Hash) : Engine :=
  let fresh := e.earlyAttestations.filter fun (_, _, _, t) =>
    (A.now - t) / 1000 < earlyAttestationTtl
  { e with
    earlyAttestations :=
      if fresh.length < maxEarlyAttestations ∧
          (fresh.any fun (v, h, _, _) => v = id ∧ h = height) = false then
        fresh ++ [(id, height, hash, A.now)]
      else fresh }

/-- An attestation of the pending block, at most one for each validator. -/
def recordAttestation (e : Engine) (id : ValidatorId) (height : Nat) (hash : Hash) :
    Bool × Engine :=
  let entry := e.pendingAttestations[height]?.getD []
  if entry.any fun a => a.validatorId = id then
    (false, { e with pendingAttestations := e.pendingAttestations.insert height entry })
  else
    let attestation : Attestation := ⟨id, height, hash⟩
    let e :=
      { e with
        pendingAttestations := e.pendingAttestations.insert height (entry ++ [attestation]) }
    if e.validatorSet.hasQuorum (e.pendingVoters height) then
      (true, e.finalizePendingBlock E C A height)
    else (false, e)

def acceptAttestation (e : Engine) (id : ValidatorId) (height : Nat) (hash : Hash) :
    Bool × Engine :=
  if e.validatorSet.isActiveValidator id = false then (false, e)
  else if C.fcV2Active height then
    if height ≤ e.height ∨ e.height + maxV2VoteLookahead < height then (false, e)
    else
      let e' := e.v2RecordVote E C A id height hash
      (decide (e.height < e'.height), e')
  else
    match e.pendingBlocks[height]? with
    | some pb =>
        if blockHash E pb.header ≠ hash then
          (false, { e with
            pendingBlocks :=
              e.pendingBlocks.insert height { pb with mismatchCount := pb.mismatchCount + 1 } })
        else e.recordAttestation E C A id height hash
    | none => (false, e.bufferEarly A id height hash)

/-- The payload of an attestation names its domain, chain, height and block. -/
def attestationSigningPayload (chainId : U64) (height : Nat) (hash : Hash) : Bytes :=
  ascii "SOLEN_ATT" ++ le64 chainId ++ toLeBytes 8 height ++ hash.bytes

def acceptVerifiedAttestation (e : Engine) (id : ValidatorId) (height : Nat) (hash : Hash)
    (signature : Bytes) : Bool × Engine :=
  if E.ed25519Verify id (attestationSigningPayload C.chainId height hash) signature = false then
    (false, e)
  else e.acceptAttestation E C A id height hash

end

end Engine

end Solen
