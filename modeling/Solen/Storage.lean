import Solen.Delta
import Solen.Types

/-!
# State storage

`Store` is what a storage backend holds: a finite map from keys to
values, sorted by key. `OverlayStore base` is the copy-on-write layer
the executor runs a block against. The base is a parameter of its
type: while an overlay is alive it borrows the base immutably, so two
overlays of one block always sit on the same base.

The two are instances of `StateStore`, the storage trait. An instance
says which map it stands for (`entries`) and that its operations are
the map's; everything above this file reasons about `entries` only.
-/

namespace Solen

open Machine

abbrev Store := Delta.Table Bytes Bytes

abbrev Changes := Delta.Changes Bytes Bytes

/-! ## The storage trait -/

class StateStore (σ : Type) where
  get : σ → Bytes → Option Bytes
  put : σ → Bytes → Bytes → σ
  delete : σ → Bytes → σ
  scanPrefix : σ → Bytes → List (Bytes × Bytes)
  entries : σ → Store
  get_eq : ∀ (s : σ) (k : Bytes), get s k = (entries s)[k]?
  entries_put : ∀ (s : σ) (k v : Bytes), entries (put s k v) = (entries s).insert k v
  entries_delete : ∀ (s : σ) (k : Bytes), entries (delete s k) = (entries s).erase k

namespace StateStore

variable {σ : Type} [StateStore σ]

theorem get_put (s : σ) (k v k' : Bytes) :
    get (put s k v) k' = if k = k' then some v else get s k' := by
  simp only [get_eq, entries_put, Delta.getElem?_insert]

theorem get_put_self (s : σ) (k v : Bytes) : get (put s k v) k = some v := by
  rw [get_put, if_pos rfl]

theorem get_put_of_ne {k k' : Bytes} (s : σ) (v : Bytes) (h : k ≠ k') :
    get (put s k v) k' = get s k' := by
  rw [get_put, if_neg h]

end StateStore

/-! ## Plain backends -/

namespace Store

def startsWith (k p : Bytes) : Bool := p.isPrefixOf k

/-- Sorted range scan from the first key not below `p`, cut at the first
key that does not start with `p`. -/
def scanPrefix (s : Store) (p : Bytes) : List (Bytes × Bytes) :=
  (s.toList.dropWhile fun e => compare e.1 p == .lt).takeWhile fun e => startsWith e.1 p

instance : StateStore Store where
  get s k := s[k]?
  put s k v := s.insert k v
  delete s k := s.erase k
  scanPrefix := scanPrefix
  entries := id
  get_eq _ _ := rfl
  entries_put _ _ _ := rfl
  entries_delete _ _ := rfl

@[simp] theorem entries_eq (s : Store) : StateStore.entries s = s := rfl

def applyBatchAtomic (s : Store) (changes : Changes) : Store := Delta.apply s changes

end Store

/-- A scan finds the keys that start with the prefix, in order. -/
theorem Store.scanPrefix_eq (s : Store) (p : Bytes) :
    s.scanPrefix p = (s.filter fun k _ => Store.startsWith k p).toList := by
  rw [Std.ExtTreeMap.toList_filter]
  exact Delta.scan_eq_filter p Std.ExtTreeMap.ordered_keys_toList

theorem Store.scanPrefix_congr {s s' : Store} {p : Bytes}
    (h : ∀ k : Bytes, p <+: k → s[k]? = s'[k]?) : s.scanPrefix p = s'.scanPrefix p := by
  have hf : (s.filter fun k _ => Store.startsWith k p) =
      s'.filter fun k _ => Store.startsWith k p := by
    refine Std.ExtTreeMap.ext_getElem? fun k => ?_
    rw [Std.ExtTreeMap.getElem?_filter', Std.ExtTreeMap.getElem?_filter']
    by_cases hk : p <+: k
    · rw [h k hk]
    · have hno : Store.startsWith k p = false := by
        rw [Bool.eq_false_iff, ne_eq, Store.startsWith, List.isPrefixOf_iff_prefix]
        exact hk
      cases s[k]? <;> cases s'[k]? <;> simp [hno]
  rw [scanPrefix_eq, scanPrefix_eq, hf]

/-! ## State root -/

def eagerRevertPrefix : Bytes := ascii "__eager_revert__/"

def eagerRevertKey (height : Nat) : Bytes := eagerRevertPrefix ++ toBeBytes 8 height

/-- The key prefixes that do not count towards the state root. -/
def nonStatePrefixes : List Bytes :=
  [ascii "block/", ascii "__chain_meta__", ascii "__chain_id__", ascii "slash/",
    ascii "source/", ascii "__finalized_checkpoint__", ascii "__last_attestation__",
    eagerRevertPrefix]

def isNonStateKey (k : Bytes) : Bool := nonStatePrefixes.any (Store.startsWith k)

def hashLeaf (blake3 : Bytes → Hash) (e : Bytes × Bytes) : Hash := blake3 (e.1 ++ e.2)

/-- One level up: neighbours are hashed in pairs, an odd last one is promoted. -/
def merkleLevel (blake3 : Bytes → Hash) : List Hash → List Hash
  | a :: b :: rest => blake3 (a.bytes ++ b.bytes) :: merkleLevel blake3 rest
  | l => l

def merkleLoop (blake3 : Bytes → Hash) : Nat → List Hash → Hash
  | _, [] => Hash.zero
  | _, [h] => h
  | 0, h :: _ => h
  | n + 1, l => merkleLoop blake3 n (merkleLevel blake3 l)

/-- Each level at least halves a list of two or more, so as many rounds
as there are leaves reach the root. -/
def merkleRoot (blake3 : Bytes → Hash) (leaves : List Hash) : Hash :=
  merkleLoop blake3 leaves.length leaves

namespace Store

def stateRoot (blake3 : Bytes → Hash) (s : Store) : Hash :=
  merkleRoot blake3 ((s.filter fun k _ => !isNonStateKey k).toList.map (hashLeaf blake3))

/-- Stores that agree on every state key have the same root. -/
theorem stateRoot_congr (blake3 : Bytes → Hash) {s s' : Store}
    (h : ∀ k : Bytes, isNonStateKey k = false → s[k]? = s'[k]?) :
    stateRoot blake3 s = stateRoot blake3 s' := by
  have hf : (s.filter fun k _ => !isNonStateKey k) = s'.filter fun k _ => !isNonStateKey k := by
    refine Std.ExtTreeMap.ext_getElem? fun k => ?_
    rw [Std.ExtTreeMap.getElem?_filter', Std.ExtTreeMap.getElem?_filter']
    cases hk : isNonStateKey k with
    | false => rw [h k hk]
    | true => cases s[k]? <;> cases s'[k]? <;> simp
  rw [stateRoot, hf, stateRoot]

end Store

/-! ## The copy-on-write overlay -/

@[ext] structure OverlayStore (base : Store) where
  writes : Std.ExtTreeMap Bytes Bytes
  deletes : Std.ExtTreeSet Bytes
  disjoint : ∀ k ∈ deletes, writes[k]? = none

namespace OverlayStore

variable {base : Store}

def new (base : Store) : OverlayStore base := ⟨∅, ∅, by simp⟩

def get (o : OverlayStore base) (k : Bytes) : Option Bytes :=
  if k ∈ o.deletes then none
  else match o.writes[k]? with
    | some v => some v
    | none => base[k]?

def put (o : OverlayStore base) (k v : Bytes) : OverlayStore base where
  writes := o.writes.insert k v
  deletes := o.deletes.erase k
  disjoint := by
    intro k' hk'
    rw [Std.ExtTreeSet.mem_erase] at hk'
    rw [Std.ExtTreeMap.getElem?_insert, if_neg hk'.1]
    exact o.disjoint k' hk'.2

def delete (o : OverlayStore base) (k : Bytes) : OverlayStore base where
  writes := o.writes.erase k
  deletes := o.deletes.insert k
  disjoint := by
    intro k' hk'
    rw [Std.ExtTreeMap.getElem?_erase]
    split
    · rfl
    · next hne =>
        rw [Std.ExtTreeSet.mem_insert] at hk'
        exact o.disjoint k' (hk'.resolve_left hne)

/-- The staged changes: writes first, then deletes over them. -/
def intoChanges (o : OverlayStore base) : Changes :=
  o.deletes.toList.foldl (fun c k => c.insert k none) (o.writes.map fun _ v => some v)

/-- A savepoint of an overlay is a copy of its staged delta. -/
def savepoint (o : OverlayStore base) : Changes := o.intoChanges

def restoreSavepoint (_o : OverlayStore base) (delta : Changes) : OverlayStore base where
  writes := delta.filterMap fun _ v => v
  deletes := Std.ExtTreeSet.ofList (delta.toList.filterMap fun e => if e.2.isNone then some e.1 else none)
  disjoint := by
    intro k hk
    rw [Std.ExtTreeSet.mem_ofList, List.contains_iff_mem, List.mem_filterMap] at hk
    obtain ⟨⟨k', v⟩, hmem, hv⟩ := hk
    cases v with
    | some v => simp at hv
    | none =>
        simp only [Option.isNone_none, if_true, Option.some.injEq] at hv
        subst hv
        rw [Std.ExtTreeMap.mem_toList_iff_getElem?_eq_some] at hmem
        rw [Std.ExtTreeMap.getElem?_filterMap', hmem]
        rfl

def scanPrefix (o : OverlayStore base) (p : Bytes) : List (Bytes × Bytes) :=
  let fromBase := (Store.scanPrefix base p).filter fun e => !o.deletes.contains e.1
  let results := fromBase.foldl (fun r e => r.insert e.1 e.2) (∅ : Store)
  ((Store.scanPrefix o.writes p).foldl (fun r e => r.insert e.1 e.2) results).toList

/-- The map an overlay stands for: its staged changes applied to the base. -/
def entries (o : OverlayStore base) : Store := Delta.apply base o.intoChanges

theorem getElem?_intoChanges_aux {k : Bytes} :
    ∀ (ks : List Bytes) (d : Changes),
      (ks.foldl (fun d k => d.insert k none) d)[k]? = if k ∈ ks then some none else d[k]?
  | [], d => by simp
  | k' :: ks, d => by
      rw [List.foldl_cons, getElem?_intoChanges_aux ks, Delta.getElem?_insert]
      by_cases hk : k ∈ ks
      · simp [hk]
      · simp [hk, eq_comm]

theorem getElem?_intoChanges (o : OverlayStore base) (k : Bytes) :
    o.intoChanges[k]? = if k ∈ o.deletes then some none else o.writes[k]?.map some := by
  rw [intoChanges, getElem?_intoChanges_aux, Std.ExtTreeMap.getElem?_map]
  simp only [Std.ExtTreeSet.mem_toList]

theorem get_eq_entries (o : OverlayStore base) (k : Bytes) : o.get k = o.entries[k]? := by
  rw [entries, Delta.getElem?_apply, getElem?_intoChanges, get]
  split
  · rfl
  · cases o.writes[k]? <;> rfl

theorem entries_put (o : OverlayStore base) (k v : Bytes) :
    (o.put k v).entries = o.entries.insert k v := by
  refine Std.ExtTreeMap.ext_getElem? fun k' => ?_
  rw [← get_eq_entries, Delta.getElem?_insert, ← get_eq_entries]
  simp only [get, put, Std.ExtTreeSet.mem_erase, Delta.getElem?_insert, ne_eq,
    Std.compare_eq_iff_eq]
  by_cases hk : k = k'
  · simp [hk]
  · simp [hk]

theorem entries_delete (o : OverlayStore base) (k : Bytes) :
    (o.delete k).entries = o.entries.erase k := by
  refine Std.ExtTreeMap.ext_getElem? fun k' => ?_
  rw [← get_eq_entries, Delta.getElem?_erase, ← get_eq_entries]
  simp only [get, delete, Std.ExtTreeSet.mem_insert, Delta.getElem?_erase,
    Std.compare_eq_iff_eq]
  by_cases hk : k = k'
  · simp [hk]
  · simp [hk]

instance : StateStore (OverlayStore base) where
  get := get
  put := put
  delete := delete
  scanPrefix := scanPrefix
  entries := entries
  get_eq := get_eq_entries
  entries_put := entries_put
  entries_delete := entries_delete

@[simp] theorem entries_eq (o : OverlayStore base) : StateStore.entries o = o.entries := rfl

@[simp] theorem entries_new (base : Store) : (new base).entries = base := by
  refine Std.ExtTreeMap.ext_getElem? fun k => ?_
  rw [← get_eq_entries]
  simp [get, new]

theorem mem_deletes_restoreSavepoint {o : OverlayStore base} {delta : Changes} {k : Bytes} :
    k ∈ (o.restoreSavepoint delta).deletes ↔ delta[k]? = some none := by
  simp only [restoreSavepoint, Std.ExtTreeSet.mem_ofList, List.contains_iff_mem,
    List.mem_filterMap]
  constructor
  · rintro ⟨⟨k', v⟩, hmem, hv⟩
    rw [Std.ExtTreeMap.mem_toList_iff_getElem?_eq_some] at hmem
    cases v with
    | some v => simp at hv
    | none =>
      simp only [Option.isNone_none, if_true, Option.some.injEq] at hv
      exact hv ▸ hmem
  · intro h
    exact ⟨(k, none), Std.ExtTreeMap.mem_toList_iff_getElem?_eq_some.mpr h, rfl⟩

/-- A scan sees the overlay as the map it stands for. -/
theorem scanPrefix_eq (o : OverlayStore base) (p : Bytes) :
    o.scanPrefix p = (o.entries.filter fun k _ => Store.startsWith k p).toList := by
  have hbase : (Store.scanPrefix base p).filter (fun e => !o.deletes.contains e.1) =
      ((base.filter fun k _ => Store.startsWith k p).filter
        fun k _ => !o.deletes.contains k).toList := by
    rw [Store.scanPrefix_eq]
    exact (Std.ExtTreeMap.toList_filter (f := fun k _ => !o.deletes.contains k)).symm
  rw [scanPrefix, hbase, Store.scanPrefix_eq]
  congr 1
  refine Std.ExtTreeMap.ext_getElem? fun k => ?_
  rw [Delta.getElem?_foldl_insert, Delta.getElem?_foldl_insert]
  simp only [Std.ExtTreeMap.getElem?_filter', ← get_eq_entries, Std.ExtTreeMap.getElem?_empty,
    Option.or_none]
  rw [get]
  by_cases hk : k ∈ o.deletes
  · simp [hk, o.disjoint k hk]
  · have hno : o.deletes.contains k = false :=
      Bool.eq_false_iff.mpr fun h => hk (Std.ExtTreeSet.mem_iff_contains.mpr h)
    rw [if_neg hk]
    cases o.writes[k]? <;> cases base[k]? <;> cases Store.startsWith k p <;>
      simp [hno, Option.filter]

/-- Restoring a savepoint brings back the map of the moment it was taken,
whatever was staged in between. -/
theorem entries_restoreSavepoint (o o' : OverlayStore base) :
    (o'.restoreSavepoint o.savepoint).entries = o.entries := by
  refine Std.ExtTreeMap.ext_getElem? fun k => ?_
  rw [← get_eq_entries, ← get_eq_entries, get, get]
  simp only [mem_deletes_restoreSavepoint, savepoint, getElem?_intoChanges]
  by_cases hk : k ∈ o.deletes
  · simp [hk]
  · have hw : (o'.restoreSavepoint o.intoChanges).writes[k]? = o.writes[k]? := by
      simp only [restoreSavepoint, Std.ExtTreeMap.getElem?_filterMap', getElem?_intoChanges,
        if_neg hk]
      cases o.writes[k]? <;> rfl
    simp only [hk, if_false, hw]
    cases o.writes[k]? <;> simp

end OverlayStore

end Solen
