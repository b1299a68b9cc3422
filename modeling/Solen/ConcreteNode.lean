import Solen.Concrete
import Solen.Node

/-!
# A concrete node

The concrete platform with forms for what consensus hashes and stores,
and a node that has just started over a given store.
-/

namespace Solen

open Machine

instance : Wire Action :=
  .via (β := (AccountId × U128) ⊕ (AccountId × String × Bytes) ⊕ (Bytes × Hash) ⊕
      List AuthMethod)
    (fun
      | .transfer d a => .inl (d, a)
      | .call t m a => .inr (.inl (t, m, a))
      | .deploy c s => .inr (.inr (.inl (c, s)))
      | .setAuth m => .inr (.inr (.inr m)))
    (fun
      | .inl (d, a) => .transfer d a
      | .inr (.inl (t, m, a)) => .call t m a
      | .inr (.inr (.inl (c, s))) => .deploy c s
      | .inr (.inr (.inr m)) => .setAuth m)
    fun a => by cases a <;> rfl

instance : Wire UserOperation :=
  .via (fun o => (o.sender, o.nonce, o.actions, o.maxFee, o.signature))
    (fun (s, n, a, f, g) => ⟨s, n, a, f, g⟩) fun _ => rfl

instance : Wire Event :=
  .via (fun e => (e.emitter, e.topic, e.data)) (fun (e, t, d) => ⟨e, t, d⟩) fun _ => rfl

instance : Wire ExecutionReceipt :=
  .via (fun r => (r.sender, r.nonce, r.success, r.gasUsed, r.error, r.events, r.authMethod))
    (fun (s, n, k, g, r, e, m) => ⟨s, n, k, g, r, e, m⟩) fun _ => rfl

instance : Wire BlockHeader :=
  .via (fun h => (h.height, h.epoch, h.parentHash, h.stateRoot, h.transactionsRoot,
      h.receiptsRoot, h.proposer, h.timestampMs, h.proposerSignature))
    (fun (h, e, p, s, t, r, o, m, g) => ⟨h, e, p, s, t, r, o, m, g⟩) fun _ => rfl

instance : Wire SerializableBlock :=
  .via (fun b => (b.header, b.stateRoot, b.receipts, b.gasUsed, b.operations))
    (fun (h, s, r, g, o) => ⟨h, s, r, g, o⟩) fun _ => rfl

instance : Wire FinalizedCheckpoint :=
  .via (fun c => (c.height, c.epoch, c.blockHash, c.stateRoot, c.attestations))
    (fun (h, e, b, s, a) => ⟨h, e, b, s, a⟩) fun _ => rfl

def concreteConsensus : ConsensusPlatform where
  toPlatform := concretePlatform
  headerJson := Serde.ofWire _
  operationsJson := Serde.ofWire _
  receiptsJson := Serde.ofWire _
  blockJson := Serde.ofWire _
  checkpointJson := Serde.ofWire _

namespace Engine

/-- A node at genesis, with these accounts and pending operations. -/
def atGenesis (store : Store) (mempool : Mempool 50000) : Engine :=
  { withValidators concreteConsensus ∅ ⟨[]⟩ with store := store, mempool := mempool }

end Engine

end Solen
