import Solen.Replay

/-!
# What blocks do to the store

The last of the frames. Around its operations a block writes only
accounts, for the rewards of an epoch, and the randomness accumulator. A
`BlockFrame` is a property of the entries of a store that survives
operations and these writes; it then holds before each operation of a
block (`BlockFrame.before`) and after the block (`BlockFrame.block`).
-/

namespace Solen

open Machine

structure BlockFrame (E : Platform) (X : BlockExecutor) (P : Store → Prop) : Prop where
  operation : ∀ {base : Store} {o : OverlayStore base} (op : UserOperation) (height : Nat),
    P o.entries → P (executeOperation E X o op height).store.entries
  account : ∀ {m : Store} (id : AccountId) (v : Bytes), P m → P (m.insert (accountKey id) v)
  randomness : ∀ {m : Store} (v : Bytes), P m → P (m.insert epochRandomnessKey v)

/-- What one entry of a block's list did: it was executed, or skipped
because its signature was found wrong before the block started. -/
structure OpRun.Stepped {base : Store} (E : Platform) (X : BlockExecutor) (height : Nat)
    (r : OpRun base) : Prop where
  step : r.outcome.store = r.before ∧ r.outcome.calls = [] ∧ r.outcome.receipt.success = false ∨
    r.outcome.store = (executeOperation E X r.before r.op height).store ∧
      r.outcome.calls = (executeOperation E X r.before r.op height).calls ∧
      r.outcome.receipt.success = (executeOperation E X r.before r.op height).receipt.success

theorem blockStep_stepped {base : Store} {E : Platform} {X : BlockExecutor}
    (start : OverlayStore base) (ops : List UserOperation) (height : Nat)
    (o : OverlayStore base) (op : UserOperation) :
    OpRun.Stepped E X height ⟨op, o, blockStep E X start ops height o op⟩ := by
  constructor
  unfold blockStep
  split
  · unfold parallelStep
    split
    · exact Or.inl ⟨rfl, rfl, rfl⟩
    · exact Or.inr ⟨rfl, rfl, rfl⟩
  · exact Or.inr ⟨rfl, rfl, rfl⟩

namespace BlockFrame

variable {base : Store} {E : Platform} {X : BlockExecutor} {P : Store → Prop}
  (F : BlockFrame E X P)

include F

theorem stepped {height : Nat} {r : OpRun base} (h : r.Stepped E X height)
    (hp : P r.before.entries) : P r.outcome.store.entries := by
  rcases h.step with ⟨hstore, -⟩ | ⟨hstore, -⟩
  · rw [hstore]
    exact hp
  · rw [hstore]
    exact F.operation r.op height hp

theorem runSteps {start : OverlayStore base} {all : List UserOperation} {height : Nat}
    (ops : List UserOperation) {o : OverlayStore base} (ho : P o.entries) :
    (∀ r ∈ runSteps (blockStep E X start all height) ops o,
      P r.before.entries ∧ r.Stepped E X height) ∧
      P (finalStore o (Solen.runSteps (blockStep E X start all height) ops o)).entries := by
  induction ops generalizing o with
  | nil =>
    refine ⟨fun r hr => ?_, ho⟩
    cases hr
  | cons op ops ih =>
    have hstep := blockStep_stepped (E := E) (X := X) start all height o op
    obtain ⟨hruns, hfinal⟩ := ih (F.stepped hstep ho)
    refine ⟨fun r hr => ?_, hfinal⟩
    rcases List.mem_cons.mp hr with rfl | hr
    · exact ⟨ho, hstep⟩
    · exact hruns r hr

theorem distributeEpochRewards {o : OverlayStore base} (ho : P o.entries) (height : Nat) :
    P (distributeEpochRewards E height o).2.entries := by
  have hput : ∀ (o : OverlayStore base) (id : AccountId) (v : Bytes), P o.entries →
      P (o.put (accountKey id) v).entries := fun o id v h => by
    rw [OverlayStore.entries_put]
    exact F.account id v h
  have hcredit : ∀ (o : OverlayStore base) (c : RewardCredit), P o.entries →
      P (creditAccountRaw E c.account c.amount o).entries := fun o c h => by
    unfold creditAccountRaw
    split
    · exact hput o _ _ h
    · exact h
  unfold Solen.distributeEpochRewards
  split
  · exact ho
  · next reward credits _ =>
      have hpool : P (takeFromPool E reward o).entries := by
        unfold takeFromPool
        split
        · exact hput o _ _ ho
        · exact ho
      exact List.foldlRecOn (motive := fun o' : OverlayStore base => P o'.entries) credits _ hpool
        fun o' ho' c _ => hcredit o' c ho'

theorem finishBlock {s : Store} {o : OverlayStore s} (ho : P o.entries) (height : Nat) :
    P (finishBlock E X s height o).entries := by
  have hrewarded : P (if 0 < height ∧ height % epochLength = 0 then
      (Solen.distributeEpochRewards E height o).2 else o).entries := by
    split
    · exact F.distributeEpochRewards ho height
    · exact ho
  unfold Solen.finishBlock
  dsimp only
  split
  · generalize (if 0 < height ∧ height % epochLength = 0 then
      (Solen.distributeEpochRewards E height o).2 else o) = o' at hrewarded
    change P (o'.put epochRandomnessKey _).entries
    rw [OverlayStore.entries_put]
    exact F.randomness _ hrewarded
  · exact hrewarded

/-- Every operation of a block starts from a store with the property. -/
theorem before {s : Store} (hs : P s) (ops : List UserOperation) (height : Nat) :
    ∀ r ∈ (stageBlock E X s ops height).runs, P r.before.entries ∧ r.Stepped E X height :=
  (F.runSteps ops (by rw [OverlayStore.entries_new]; exact hs)).1

theorem block {s : Store} (hs : P s) (ops : List UserOperation) (height : Nat) :
    P (executeBlockWithHeight E X s ops height).2 := by
  have hops : P (finalStore (OverlayStore.new s) (stageBlock E X s ops height).runs).entries :=
    (F.runSteps ops (by rw [OverlayStore.entries_new]; exact hs)).2
  have hfinal := F.finishBlock hops height
  change P (stageBlock E X s ops height).final.entries
  rw [stageBlock_final]
  exact hfinal

end BlockFrame

end Solen
