import Solen.Block
import Solen.Validators

/-!
# Blocks in consensus

Headers and their hashes, the blocks a node has finalized and those it
still waits for, attestations, and the evidence of double signing.

A header's hash leaves out its signature. A block this node proposed
has been executed already; what it gave is kept with it until the
block is finalized or undone. A block of another node is executed when
it is finalized.
-/

namespace Solen

open Machine

/-! ## The platform of consensus -/

/-- What is written to disk of a finalized block. -/
structure SerializableBlock where
  header : BlockHeader
  stateRoot : Hash
  receipts : List ExecutionReceipt
  gasUsed : U64
  operations : List UserOperation
deriving DecidableEq

structure FinalizedCheckpoint where
  height : Nat
  epoch : Nat
  blockHash : Hash
  stateRoot : Hash
  attestations : List (ValidatorId × Bytes)
deriving DecidableEq

/-- The JSON forms that consensus hashes or stores. -/
structure ConsensusPlatform extends Platform where
  headerJson : Serde BlockHeader
  operationsJson : Serde (List UserOperation)
  receiptsJson : Serde (List ExecutionReceipt)
  blockJson : Serde SerializableBlock
  checkpointJson : Serde FinalizedCheckpoint

/-- The order in which a hash map hands out its entries. It is random per
process, so nothing is known of it. -/
structure HashOrder where
  iter : {α : Type} → List α → List α
  perm : ∀ {α : Type} (l : List α), (iter l).Perm l

/-- The order of the keys. -/
def HashOrder.sorted : HashOrder := ⟨id, fun l => .refl l⟩

/-! ## Hashes of blocks -/

section Hashes

variable (E : ConsensusPlatform)

def blockHash (h : BlockHeader) : Hash :=
  E.blake3 (E.headerJson.toVec { h with proposerSignature := [] })

def computeTxRoot (ops : List UserOperation) : Hash :=
  if ops = [] then Hash.zero else E.blake3 (E.operationsJson.toVec ops)

def computeReceiptsRoot (result : BlockResult) : Hash :=
  if result.receipts = [] then Hash.zero else E.blake3 (E.receiptsJson.toVec result.receipts)

/-- The proposer's signature over the block hash. -/
def signatureValid (h : BlockHeader) : Bool :=
  h.proposerSignature.length = 64 ∧
    E.ed25519Verify h.proposer (blockHash E h).bytes h.proposerSignature = true

/-- Two headers of one proposer and one height, on different parents, with
different transactions or with different state, and both signed. -/
def checkDoubleSign (a b : BlockHeader) : Option SlashingEvidence :=
  if a.height ≠ b.height ∨ a.proposer ≠ b.proposer then none
  else if blockHash E a = blockHash E b then none
  else if a.parentHash = b.parentHash ∧ a.transactionsRoot = b.transactionsRoot ∧
      a.stateRoot = b.stateRoot then none
  else if signatureValid E a = false ∨ signatureValid E b = false then none
  else some ⟨a.proposer, .doubleSign a.height a.stateRoot b.stateRoot⟩

end Hashes

/-! ## Finalized and pending blocks -/

structure Attestation where
  validatorId : ValidatorId
  blockHeight : Nat
  blockHash : Hash
deriving DecidableEq

structure FinalizedBlock where
  header : BlockHeader
  result : BlockResult
  attestations : List Attestation
  operations : List UserOperation

def FinalizedBlock.serializable (b : FinalizedBlock) : SerializableBlock where
  header := b.header
  stateRoot := b.result.stateRoot
  receipts := b.result.receipts
  gasUsed := b.result.gasUsed
  operations := b.operations

/-- A block that waits for attestations. `executed` is there for a block of
our own: the result, and what undoes it. -/
structure PendingBlock where
  header : BlockHeader
  operations : List UserOperation
  proposedAt : Nat
  executed : Option (BlockResult × BlockRevert)
  mismatchCount : Nat := 0

/-- The reverse delta of a block that was executed here. -/
def PendingBlock.revert (pb : PendingBlock) : Option BlockRevert := pb.executed.map Prod.snd

end Solen
