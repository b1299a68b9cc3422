import Solen.Storage

/-!
# The overlay over any store

`OverlayStore` in `Solen.Storage` sits on a plain map. The overlay of the
source borrows its base as a trait object: another backend, or another
overlay. `SortedStore` says what such a base has to give - scans that
list its entries in key order - and `getOver`, `scanPrefixOver` and
`scanAllOver` are the reads of an overlay over it. Only the reads look
at the base, so the staged delta is the one of `OverlayStore`.

The specification is a full copy of the base (`Copy`): a plain map and
the copies made of it so far. `Refines` ties an overlay and its
savepoints to it, one step at a time.
-/

namespace Solen

open Machine

/-! ## Stores with sorted scans -/

/-- Both scans give every entry once, in key order. -/
class SortedStore (σ : Type) extends StateStore σ where
  scanAll : σ → List (Bytes × Bytes)
  scanPrefix_sorted : ∀ (s : σ) (p : Bytes),
    (scanPrefix s p).Pairwise fun e e' => compare e.1 e'.1 = .lt
  mem_scanPrefix : ∀ (s : σ) (p : Bytes) (e : Bytes × Bytes),
    e ∈ scanPrefix s p ↔ get s e.1 = some e.2 ∧ p <+: e.1
  scanAll_sorted : ∀ s : σ, (scanAll s).Pairwise fun e e' => compare e.1 e'.1 = .lt
  mem_scanAll : ∀ (s : σ) (e : Bytes × Bytes), e ∈ scanAll s ↔ get s e.1 = some e.2

theorem Store.getElem?_filter_startsWith {s : Store} {p : Bytes} {e : Bytes × Bytes} :
    (s.filter fun k _ => Store.startsWith k p)[e.1]? = some e.2 ↔
      s[e.1]? = some e.2 ∧ p <+: e.1 := by
  rw [Std.ExtTreeMap.getElem?_filter', Option.filter_eq_some_iff, Store.startsWith,
    List.isPrefixOf_iff_prefix]

namespace SortedStore

variable {σ : Type} [SortedStore σ]

theorem scanPrefix_eq (s : σ) (p : Bytes) :
    StateStore.scanPrefix s p = (StateStore.entries s).scanPrefix p := by
  rw [Store.scanPrefix_eq]
  refine Delta.eq_toList_of_sorted (scanPrefix_sorted s p) fun e => ?_
  rw [mem_scanPrefix, StateStore.get_eq, Store.getElem?_filter_startsWith]

theorem scanAll_eq (s : σ) : scanAll s = (StateStore.entries s).toList := by
  refine Delta.eq_toList_of_sorted (scanAll_sorted s) fun e => ?_
  rw [mem_scanAll, StateStore.get_eq]

/-- `apply_batch_atomic` of the trait: one change after the other, in the
order the change set is iterated. -/
def applyBatchAtomic (s : σ) (changes : List (Bytes × Option Bytes)) : σ :=
  changes.foldl
    (fun s e => match e.2 with
      | some v => StateStore.put s e.1 v
      | none => StateStore.delete s e.1) s

theorem entries_applyBatchAtomic (changes : List (Bytes × Option Bytes)) (s : σ) :
    StateStore.entries (applyBatchAtomic s changes) =
      Delta.applyList (StateStore.entries s) changes := by
  induction changes generalizing s with
  | nil => rfl
  | cons e changes ih =>
    obtain ⟨k, v⟩ := e
    cases v with
    | some v => exact (ih _).trans (by rw [StateStore.entries_put]; rfl)
    | none => exact (ih _).trans (by rw [StateStore.entries_delete]; rfl)

end SortedStore

instance : SortedStore Store where
  scanAll s := s.toList
  scanPrefix_sorted s p := by
    change (Store.scanPrefix s p).Pairwise _
    rw [Store.scanPrefix_eq]
    exact Std.ExtTreeMap.ordered_keys_toList
  mem_scanPrefix s p e := by
    change e ∈ Store.scanPrefix s p ↔ _
    rw [Store.scanPrefix_eq, Std.ExtTreeMap.mem_toList_iff_getElem?_eq_some,
      Store.getElem?_filter_startsWith]
    rfl
  scanAll_sorted _ := Std.ExtTreeMap.ordered_keys_toList
  mem_scanAll _ _ := Std.ExtTreeMap.mem_toList_iff_getElem?_eq_some

/-! ## Reads of an overlay -/

namespace OverlayStore

section Reads

variable {σ : Type} [SortedStore σ] (base : σ)

def getOver (o : OverlayStore (StateStore.entries base)) (k : Bytes) : Option Bytes :=
  if k ∈ o.deletes then none
  else match o.writes[k]? with
    | some v => some v
    | none => StateStore.get base k

def scanPrefixOver (o : OverlayStore (StateStore.entries base)) (p : Bytes) :
    List (Bytes × Bytes) :=
  let fromBase := (StateStore.scanPrefix base p).filter fun e => !o.deletes.contains e.1
  let results := fromBase.foldl (fun r e => r.insert e.1 e.2) (∅ : Store)
  ((Store.scanPrefix o.writes p).foldl (fun r e => r.insert e.1 e.2) results).toList

def scanAllOver (o : OverlayStore (StateStore.entries base)) : List (Bytes × Bytes) :=
  let fromBase := (SortedStore.scanAll base).filter fun e => !o.deletes.contains e.1
  let results := fromBase.foldl (fun r e => r.insert e.1 e.2) (∅ : Store)
  (o.writes.toList.foldl (fun r e => r.insert e.1 e.2) results).toList

variable {base} (o : OverlayStore (StateStore.entries base))

theorem getOver_eq (k : Bytes) : getOver base o k = o.entries[k]? := by
  rw [← get_eq_entries, getOver, get]
  by_cases hk : k ∈ o.deletes
  · simp only [hk, if_true]
  · cases o.writes[k]? with
    | none => simp only [hk, if_false, StateStore.get_eq]
    | some v => simp only [hk, if_false]

theorem scanPrefixOver_eq (p : Bytes) : scanPrefixOver base o p = o.entries.scanPrefix p := by
  rw [Store.scanPrefix_eq, ← OverlayStore.scanPrefix_eq, scanPrefixOver, scanPrefix,
    SortedStore.scanPrefix_eq]

/-- A full scan is a scan for the empty prefix. -/
theorem scanAllOver_eq : scanAllOver base o = o.entries.toList := by
  have hall : ∀ s : Store, s.toList = s.scanPrefix [] := fun s => by
    rw [Store.scanPrefix_eq, Std.ExtTreeMap.toList_filter, eq_comm, List.filter_eq_self]
    intro e _
    rfl
  rw [scanAllOver, SortedStore.scanAll_eq, hall (StateStore.entries base), hall o.writes]
  change o.scanPrefix [] = _
  rw [OverlayStore.scanPrefix_eq, ← Store.scanPrefix_eq, ← hall]

end Reads

/-- An overlay can be the base of the next one. -/
instance {base : Store} : SortedStore (OverlayStore base) where
  scanAll := scanAllOver base
  scanPrefix_sorted o p := by
    change (scanPrefix o p).Pairwise _
    rw [OverlayStore.scanPrefix_eq]
    exact Std.ExtTreeMap.ordered_keys_toList
  mem_scanPrefix o p e := by
    change e ∈ scanPrefix o p ↔ _
    rw [OverlayStore.scanPrefix_eq, Std.ExtTreeMap.mem_toList_iff_getElem?_eq_some,
      Store.getElem?_filter_startsWith, StateStore.get_eq, entries_eq]
  scanAll_sorted o := by
    rw [scanAllOver_eq]
    exact Std.ExtTreeMap.ordered_keys_toList
  mem_scanAll o e := by
    rw [scanAllOver_eq, Std.ExtTreeMap.mem_toList_iff_getElem?_eq_some, StateStore.get_eq,
      entries_eq]

end OverlayStore

/-! ## Runs with savepoints

Savepoints are kept in the order they are taken and named by their
position, so a run may restore them in any order and as often as it
likes. Restoring one that was never taken does nothing. -/

inductive StagingOp where
  | put (k v : Bytes)
  | delete (k : Bytes)
  | savepoint
  | restore (i : Nat)

/-- An overlay and the savepoints its user holds. -/
structure Staging (base : Store) where
  overlay : OverlayStore base
  savepoints : List Changes

namespace Staging

def new (base : Store) : Staging base := ⟨OverlayStore.new base, []⟩

def step {base : Store} (s : Staging base) : StagingOp → Staging base
  | .put k v => { s with overlay := s.overlay.put k v }
  | .delete k => { s with overlay := s.overlay.delete k }
  | .savepoint => { s with savepoints := s.savepoints ++ [s.overlay.savepoint] }
  | .restore i =>
      match s.savepoints[i]? with
      | some delta => { s with overlay := s.overlay.restoreSavepoint delta }
      | none => s

def run {base : Store} (s : Staging base) (ops : List StagingOp) : Staging base :=
  ops.foldl step s

end Staging

/-- A full copy of the base and the full copies made of it on the way. -/
structure Copy where
  entries : Store
  savepoints : List Store

namespace Copy

def new (base : Store) : Copy := ⟨base, []⟩

def step (c : Copy) : StagingOp → Copy
  | .put k v => { c with entries := c.entries.insert k v }
  | .delete k => { c with entries := c.entries.erase k }
  | .savepoint => { c with savepoints := c.savepoints ++ [c.entries] }
  | .restore i =>
      match c.savepoints[i]? with
      | some m => { c with entries := m }
      | none => c

def run (c : Copy) (ops : List StagingOp) : Copy := ops.foldl step c

end Copy

/-- The overlay stands for the copy's map, and each savepoint for the
copy taken at that moment, whatever overlay it is restored into. -/
structure Refines {base : Store} (s : Staging base) (c : Copy) : Prop where
  entries : s.overlay.entries = c.entries
  savepoints : List.Forall₂
    (fun delta m => ∀ o : OverlayStore base, (o.restoreSavepoint delta).entries = m)
    s.savepoints c.savepoints

namespace Refines

variable {base : Store} {s : Staging base} {c : Copy}

theorem new (base : Store) : Refines (Staging.new base) (Copy.new base) :=
  ⟨OverlayStore.entries_new base, .nil⟩

theorem step (h : Refines s c) (op : StagingOp) : Refines (s.step op) (c.step op) := by
  cases op with
  | put k v =>
    refine ⟨?_, h.savepoints⟩
    rw [Staging.step, Copy.step, OverlayStore.entries_put, h.entries]
  | delete k =>
    refine ⟨?_, h.savepoints⟩
    rw [Staging.step, Copy.step, OverlayStore.entries_delete, h.entries]
  | savepoint =>
    have hnow : ∀ o : OverlayStore base,
        (o.restoreSavepoint s.overlay.savepoint).entries = c.entries := fun o => by
      rw [OverlayStore.entries_restoreSavepoint, h.entries]
    exact ⟨h.entries, List.rel_append h.savepoints (.cons hnow .nil)⟩
  | restore i =>
    obtain ⟨hlength, heach⟩ := List.forall₂_iff_get.mp h.savepoints
    rw [Staging.step, Copy.step]
    by_cases hi : i < s.savepoints.length
    · have hi' : i < c.savepoints.length := hlength ▸ hi
      rw [List.getElem?_eq_getElem hi, List.getElem?_eq_getElem hi']
      exact ⟨heach i hi hi' s.overlay, h.savepoints⟩
    · have hi' : ¬ i < c.savepoints.length := hlength ▸ hi
      rw [List.getElem?_eq_none (Nat.le_of_not_lt hi), List.getElem?_eq_none (Nat.le_of_not_lt hi')]
      exact h

theorem run (h : Refines s c) (ops : List StagingOp) : Refines (s.run ops) (c.run ops) := by
  induction ops generalizing s c with
  | nil => exact h
  | cons op ops ih => exact ih (h.step op)

end Refines

/-- Whatever is staged, and whatever savepoints are restored on the way,
an overlay reads like a full copy of its base that went through the same
operations, and its changes turn the base into that copy. -/
theorem overlay_refines_copy {σ : Type} [SortedStore σ] (base : σ) (ops : List StagingOp) :
    let overlay := ((Staging.new (StateStore.entries base)).run ops).overlay
    let copy := ((Copy.new (StateStore.entries base)).run ops).entries
    (∀ k : Bytes, overlay.getOver base k = copy[k]?) ∧
      (∀ p : Bytes, overlay.scanPrefixOver base p = copy.scanPrefix p) ∧
      overlay.scanAllOver base = copy.toList ∧
      ∀ changes : List (Bytes × Option Bytes), changes.Perm overlay.intoChanges.toList →
        StateStore.entries (SortedStore.applyBatchAtomic base changes) = copy := by
  intro overlay copy
  have hrefines := (Refines.new (StateStore.entries base)).run ops
  have hentries : overlay.entries = copy := hrefines.entries
  refine ⟨fun k => ?_, fun p => ?_, ?_, fun changes hperm => ?_⟩
  · rw [OverlayStore.getOver_eq, hentries]
  · rw [OverlayStore.scanPrefixOver_eq, hentries]
  · rw [OverlayStore.scanAllOver_eq, hentries]
  · rw [SortedStore.entries_applyBatchAtomic, Delta.applyList_of_perm _ hperm, ← hentries,
      OverlayStore.entries]

end Solen
