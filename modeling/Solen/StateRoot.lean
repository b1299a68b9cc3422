import Solen.Backends
import Solen.HashTree

/-!
# What a state root says about the state

The root of a store is the root of the hash tree over its leaf strings,
key and value joined, in key order (`stateRoot_eq_root`). So a root is
about these strings. It does not say where a key ends and its value
begins, and a leaf string as long as two hashes is read like an inner
node: `stateRoot_ne_iff` has both as conditions, and
`stateRoot_not_binding` is the first of them broken.
-/

namespace Solen

open Machine HashTree

variable {blake3 : Bytes → Hash}

/-! ## The tree of a store -/

/-- What is hashed into the leaves, in key order. -/
def leafStrings (s : Store) : List Bytes :=
  (s.filter fun k _ => !isNonStateKey k).toList.map fun e => e.1 ++ e.2

def joinHashes (a b : Hash) : Bytes := a.bytes ++ b.bytes

theorem joinHashes_inj (a b a' b' : Hash) (h : joinHashes a b = joinHashes a' b') :
    a = a' ∧ b = b' := by
  obtain ⟨ha, hb⟩ := List.append_inj h (by rw [a.length_bytes, a'.length_bytes])
  exact ⟨Hash.ext_bytes ha, Hash.ext_bytes hb⟩

theorem length_joinHashes (a b : Hash) : (joinHashes a b).length = 64 := by
  rw [joinHashes, List.length_append, a.length_bytes, b.length_bytes]

theorem merkleLevel_map_root (ts : List (JoinTree Bytes)) :
    merkleLevel blake3 (ts.map (JoinTree.root blake3 joinHashes)) =
      (pairUp ts).map (JoinTree.root blake3 joinHashes) := by
  fun_induction pairUp ts with
  | case1 l r rest ih => simp [merkleLevel, JoinTree.root, joinHashes, ih]
  | case2 ts hne =>
    rcases ts with _ | ⟨l, _ | ⟨r, rest⟩⟩
    · rfl
    · rfl
    · exact absurd rfl (hne l r rest)

theorem merkleLoop_map_root (n : Nat) (ts : List (JoinTree Bytes)) :
    merkleLoop blake3 n (ts.map (JoinTree.root blake3 joinHashes)) =
      ((buildLoop n ts).map (JoinTree.root blake3 joinHashes)).getD Hash.zero := by
  induction n generalizing ts with
  | zero => rcases ts with _ | ⟨l, _ | ⟨r, rest⟩⟩ <;> rfl
  | succ n ih =>
    rcases ts with _ | ⟨l, _ | ⟨r, rest⟩⟩
    · rfl
    · rfl
    · rw [buildLoop_cons, ← ih, ← merkleLevel_map_root]
      rfl

theorem stateRoot_eq_root (s : Store) :
    s.stateRoot blake3 =
      ((build (leafStrings s)).map (JoinTree.root blake3 joinHashes)).getD Hash.zero := by
  rw [build, ← merkleLoop_map_root, Store.stateRoot, merkleRoot, leafStrings, List.map_map,
    List.map_map, List.length_map, List.length_map]
  rfl

/-- The strings that are hashed for the root of a store. -/
def hashedStrings (blake3 : Bytes → Hash) (s : Store) : List Bytes :=
  ((build (leafStrings s)).map (JoinTree.strings blake3 joinHashes)).getD []

theorem leafStrings_eq_of_stateRoot_eq {s s' : Store}
    (hfree : Set.InjOn blake3 {x | x ∈ hashedStrings blake3 s ∨ x ∈ hashedStrings blake3 s'})
    (hshape : (leafStrings s).length = (leafStrings s').length ∨
      (leafStrings s ≠ [] ∧ leafStrings s' ≠ [] ∧
        (∀ x ∈ leafStrings s, x.length ≠ 64) ∧ ∀ x ∈ leafStrings s', x.length ≠ 64))
    (hroot : s.stateRoot blake3 = s'.stateRoot blake3) : leafStrings s = leafStrings s' := by
  rw [stateRoot_eq_root, stateRoot_eq_root] at hroot
  unfold hashedStrings at hfree
  have hleaves := leaves_build (leafStrings s)
  have hleaves' := leaves_build (leafStrings s')
  rcases hshape with hlength | ⟨hsome, hsome', hshort, hshort'⟩
  · have hsame := shape_build hlength
    cases ht : build (leafStrings s) with
    | none =>
      rw [build_eq_none ht] at hlength ⊢
      exact (List.eq_nil_of_length_eq_zero hlength.symm).symm
    | some t =>
      cases ht' : build (leafStrings s') with
      | none => simp [ht, ht'] at hsame
      | some t' =>
        rw [ht, ht'] at hsame hroot hfree
        rw [ht] at hleaves
        rw [ht'] at hleaves'
        have hpair : CollisionFree blake3 joinHashes t t' := fun x hx y hy =>
          hfree (Or.inl hx) (Or.inr hy)
        rw [← hleaves, ← hleaves']
        exact leaves_eq_of_shape joinHashes_inj hpair (Option.some.inj hsame) hroot
  · obtain ⟨t, ht⟩ := Option.ne_none_iff_exists'.mp fun h => hsome (build_eq_none h)
    obtain ⟨t', ht'⟩ := Option.ne_none_iff_exists'.mp fun h => hsome' (build_eq_none h)
    rw [ht, ht'] at hroot hfree
    rw [ht] at hleaves
    rw [ht'] at hleaves'
    have hpair : CollisionFree blake3 joinHashes t t' := fun x hx y hy =>
      hfree (Or.inl hx) (Or.inr hy)
    have hnode : ∀ x : Bytes, x.length ≠ 64 → ∀ a b, x ≠ joinHashes a b := fun x hx a b h =>
      hx (h ▸ length_joinHashes a b)
    rw [← hleaves] at hshort ⊢
    rw [← hleaves'] at hshort' ⊢
    have htree : t = t' := eq_of_root_eq joinHashes_inj hpair
      (fun x hx => hnode x (hshort x hx)) (fun x hx => hnode x (hshort' x hx)) hroot
    rw [htree]

/-- Between stores with as many state entries, and where no leaf can pass
for an inner node, roots are equal only where all leaf strings are. -/
theorem stateRoot_ne_iff (s s' : Store)
    (hfree : Set.InjOn blake3 {x | x ∈ hashedStrings blake3 s ∨ x ∈ hashedStrings blake3 s'})
    (hshape : (leafStrings s).length = (leafStrings s').length ∨
      (leafStrings s ≠ [] ∧ leafStrings s' ≠ [] ∧
        (∀ x ∈ leafStrings s, x.length ≠ 64) ∧ ∀ x ∈ leafStrings s', x.length ≠ 64)) :
    s.stateRoot blake3 ≠ s'.stateRoot blake3 ↔ leafStrings s ≠ leafStrings s' := by
  refine not_congr ⟨leafStrings_eq_of_stateRoot_eq hfree hshape, fun hstrings => ?_⟩
  rw [stateRoot_eq_root, stateRoot_eq_root, hstrings]

/-! ## Two stores -/

/-- Three state entries, the middle one with the value `v`, and a block record. -/
def rootedStore (v : Bytes) : Store :=
  ((((∅ : Store).insert (ascii "acc/1") [1]).insert (ascii "acc/2") v).insert
    (ascii "acc/3") [3, 3]).insert (ascii "block/1") v

/-- One of three values differs, and with it the root: the leaf is joined with
its neighbour and that node with the third leaf. -/
theorem stateRoot_ne_iff_rootedStore :
    (leafStrings (rootedStore [2])).length = 3 ∧
      (hashedStrings checksum (rootedStore [2])).length = 5 ∧
      (rootedStore [2]).stateRoot checksum ≠ (rootedStore [9]).stateRoot checksum := by
  refine ⟨by decide +kernel, by decide +kernel, ?_⟩
  have hfree : ∀ x ∈ hashedStrings checksum (rootedStore [2]) ++
        hashedStrings checksum (rootedStore [9]),
      ∀ y ∈ hashedStrings checksum (rootedStore [2]) ++ hashedStrings checksum (rootedStore [9]),
        checksum x = checksum y → x = y := by
    decide +kernel
  refine (stateRoot_ne_iff _ _ (fun x hx y hy => ?_) (.inl ?_)).mpr ?_
  · exact hfree x (List.mem_append.mpr hx) y (List.mem_append.mpr hy)
  · decide +kernel
  · decide +kernel

theorem leafStrings_single {k : Bytes} (hk : isNonStateKey k = false) (v : Bytes) :
    leafStrings ((∅ : Store).insert k v) = [k ++ v] := by
  have hlist : [(k, v)] = (((∅ : Store).insert k v).filter fun k _ => !isNonStateKey k).toList := by
    refine Delta.eq_toList_of_sorted (List.pairwise_singleton _ _) fun e => ?_
    obtain ⟨k', v'⟩ := e
    rw [Std.ExtTreeMap.getElem?_filter', Delta.getElem?_insert, List.mem_singleton]
    by_cases hkk : k = k'
    · subst hkk
      simp [hk, Option.filter, eq_comm]
    · simp [hkk, Ne.symm hkk]
  rw [leafStrings, ← hlist]
  rfl

/-- Two entries that join to the same string have the same root, whatever
the hash is. -/
theorem stateRoot_not_binding :
    ∃ s s' : Store, s ≠ s' ∧ (∀ k ∈ s, isNonStateKey k = false) ∧
      (∀ k ∈ s', isNonStateKey k = false) ∧
      ∀ blake3 : Bytes → Hash, s.stateRoot blake3 = s'.stateRoot blake3 := by
  have hkey : isNonStateKey (ascii "a") = false := by decide
  have hkey' : isNonStateKey (ascii "ab") = false := by decide
  refine ⟨(∅ : Store).insert (ascii "a") (ascii "bc"), (∅ : Store).insert (ascii "ab") (ascii "c"),
    fun heq => ?_, ?_, ?_, fun blake3 => ?_⟩
  · have hread := congrArg (fun s : Store => s[ascii "a"]?) heq
    simp only [Delta.getElem?_insert] at hread
    revert hread
    decide
  · intro k hk
    have heq : ascii "a" = k := by simpa using hk
    rw [← heq, hkey]
  · intro k hk
    have heq : ascii "ab" = k := by simpa using hk
    rw [← heq, hkey']
  · rw [stateRoot_eq_root, stateRoot_eq_root, leafStrings_single hkey, leafStrings_single hkey',
      ← ascii_append, ← ascii_append]
    rfl

end Solen
