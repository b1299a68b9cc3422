import Mathlib

/-!
# Tables, change sets and their inverses

A table is a finite ordered map. A change set gives some keys a new
value (`some v`) or deletes them (`none`). Applying a change set is a
fold over its entries, but the result does not depend on the order:
`getElem?_apply` reads it back key by key, and everything else in this
file goes through that lemma.

The reverse of a change set is captured from the table before it is
applied (`capture`). `apply_of_restores` is the statement behind every
rollback: a change set that holds the old value of each of its keys,
and has every key that changed, undoes the change exactly.
-/

namespace Delta

variable {K V : Type} [Ord K] [Std.TransOrd K] [Std.LawfulEqOrd K] [DecidableEq K]

abbrev Table (K V : Type) [Ord K] [Std.TransOrd K] := Std.ExtTreeMap K V

abbrev Changes (K V : Type) [Ord K] [Std.TransOrd K] := Std.ExtTreeMap K (Option V)

/-! ## Single updates -/

def set (m : Table K V) (k : K) : Option V → Table K V
  | some v => m.insert k v
  | none => m.erase k

theorem getElem?_insert (m : Table K V) (k k' : K) (v : V) :
    (m.insert k v)[k']? = if k = k' then some v else m[k']? := by
  rw [Std.ExtTreeMap.getElem?_insert]
  simp only [Std.compare_eq_iff_eq]

theorem getElem?_erase (m : Table K V) (k k' : K) :
    (m.erase k)[k']? = if k = k' then none else m[k']? := by
  rw [Std.ExtTreeMap.getElem?_erase]
  simp only [Std.compare_eq_iff_eq]

theorem getElem?_set (m : Table K V) (k k' : K) (o : Option V) :
    (set m k o)[k']? = if k = k' then o else m[k']? := by
  cases o with
  | none => exact getElem?_erase m k k'
  | some v => exact getElem?_insert m k k' v

theorem insert_insert (m : Table K V) (k : K) (v v' : V) :
    (m.insert k v).insert k v' = m.insert k v' := by
  refine Std.ExtTreeMap.ext_getElem? fun k' => ?_
  simp only [getElem?_insert]
  split <;> rfl

theorem insert_of_getElem? {m : Table K V} {k : K} {v : V} (h : m[k]? = some v) :
    m.insert k v = m := by
  refine Std.ExtTreeMap.ext_getElem? fun k' => ?_
  rw [getElem?_insert]
  split
  · next hk => rw [← hk, h]
  · rfl

/-! ## Applying a change set -/

def applyList (m : Table K V) (l : List (K × Option V)) : Table K V :=
  l.foldl (fun m e => set m e.1 e.2) m

def apply (m : Table K V) (d : Changes K V) : Table K V := applyList m d.toList

theorem getElem?_applyList_of_not_mem {l : List (K × Option V)} {k : K} :
    ∀ {m : Table K V}, (∀ o, (k, o) ∉ l) → (applyList m l)[k]? = m[k]? := by
  induction l with
  | nil => intros; rfl
  | cons e l ih =>
    intro m h
    have hne : e.1 ≠ k := by
      rintro rfl
      exact h e.2 List.mem_cons_self
    have htail := ih (m := set m e.1 e.2) fun o ho => h o (List.mem_cons_of_mem _ ho)
    rw [getElem?_set, if_neg hne] at htail
    exact htail

theorem getElem?_applyList_of_mem {l : List (K × Option V)} {k : K} {o : Option V} :
    ∀ {m : Table K V}, l.Pairwise (fun a b => ¬ a.1 = b.1) → (k, o) ∈ l →
      (applyList m l)[k]? = o := by
  induction l with
  | nil => intro m _ h; simp at h
  | cons e l ih =>
    intro m hp h
    rw [List.pairwise_cons] at hp
    rcases List.mem_cons.mp h with rfl | hl
    · have hout : ∀ o', (k, o') ∉ l := fun o' ho' => hp.1 _ ho' rfl
      have hrest := getElem?_applyList_of_not_mem (m := set m k o) hout
      rw [getElem?_set, if_pos rfl] at hrest
      exact hrest
    · exact ih (m := set m e.1 e.2) hp.2 hl

omit [DecidableEq K] in
theorem pairwise_ne_toList (d : Changes K V) :
    d.toList.Pairwise (fun a b => ¬ a.1 = b.1) := by
  have h := Std.ExtTreeMap.distinct_keys_toList (t := d)
  simpa only [Std.compare_eq_iff_eq] using h

/-- The entries of a change set win; every other key is untouched. -/
theorem getElem?_apply (m : Table K V) (d : Changes K V) (k : K) :
    (apply m d)[k]? = d[k]?.getD m[k]? := by
  cases hd : d[k]? with
  | some o =>
    have hmem : (k, o) ∈ d.toList := Std.ExtTreeMap.mem_toList_iff_getElem?_eq_some.mpr hd
    exact getElem?_applyList_of_mem (pairwise_ne_toList d) hmem
  | none =>
    refine getElem?_applyList_of_not_mem fun o ho => ?_
    rw [Std.ExtTreeMap.mem_toList_iff_getElem?_eq_some, hd] at ho
    cases ho

/-- A change set may be applied in any order. -/
theorem applyList_of_perm (m : Table K V) {d : Changes K V} {l : List (K × Option V)}
    (h : l.Perm d.toList) : applyList m l = apply m d := by
  refine Std.ExtTreeMap.ext_getElem? fun k => ?_
  have hdistinct : l.Pairwise (fun a b => ¬ a.1 = b.1) :=
    (h.pairwise_iff fun hne heq => hne heq.symm).mpr (pairwise_ne_toList d)
  rw [getElem?_apply]
  cases hd : d[k]? with
  | some o =>
    have hmem : (k, o) ∈ d.toList := Std.ExtTreeMap.mem_toList_iff_getElem?_eq_some.mpr hd
    exact getElem?_applyList_of_mem hdistinct (h.mem_iff.mpr hmem)
  | none =>
    refine getElem?_applyList_of_not_mem fun o ho => ?_
    rw [h.mem_iff, Std.ExtTreeMap.mem_toList_iff_getElem?_eq_some, hd] at ho
    cases ho

/-! ## Undoing a change set -/

/-- The values `m` has at `ks`, as a change set. -/
def capture (m : Table K V) (ks : List K) : Changes K V :=
  ks.foldl (fun r k => r.insert k m[k]?) ∅

theorem getElem?_capture_aux {m : Table K V} {k : K} :
    ∀ (ks : List K) (r : Changes K V),
      (ks.foldl (fun r k => r.insert k m[k]?) r)[k]? =
        if k ∈ ks then some m[k]? else r[k]?
  | [], r => by simp
  | k' :: ks, r => by
      rw [List.foldl_cons, getElem?_capture_aux ks, Std.ExtTreeMap.getElem?_insert]
      simp only [Std.compare_eq_iff_eq, List.mem_cons]
      by_cases hk : k ∈ ks
      · simp [hk]
      · by_cases hkk : k' = k
        · simp [hkk]
        · have hkk' : k ≠ k' := fun h => hkk h.symm
          simp [hk, hkk, hkk']

theorem getElem?_capture (m : Table K V) (ks : List K) (k : K) :
    (capture m ks)[k]? = if k ∈ ks then some m[k]? else none := by
  rw [capture, getElem?_capture_aux]
  simp

/-- `r` holds, for each key it has, the value of that key in `m`. -/
def Restores (r : Changes K V) (m : Table K V) : Prop :=
  ∀ (k : K) (o : Option V), r[k]? = some o → o = m[k]?

theorem restores_capture (m : Table K V) (ks : List K) : Restores (capture m ks) m := by
  intro k o h
  rw [getElem?_capture] at h
  split at h
  · exact (Option.some.inj h).symm
  · cases h

/-- A change set of old values that has every changed key undoes the change. -/
theorem apply_of_restores {m m' : Table K V} {r : Changes K V} (hr : Restores r m)
    (hcov : ∀ k : K, r[k]? = none → m'[k]? = m[k]?) : apply m' r = m := by
  refine Std.ExtTreeMap.ext_getElem? fun k => ?_
  rw [getElem?_apply]
  cases hk : r[k]? with
  | none => exact hcov k hk
  | some o => exact hr k o hk

/-- The old values of the keys of a change set undo it. -/
theorem apply_capture_keys (m : Table K V) (d : Changes K V) :
    apply (apply m d) (capture m d.keys) = m := by
  refine apply_of_restores (restores_capture m d.keys) fun k hk => ?_
  rw [getElem?_capture] at hk
  have hnot : k ∉ d.keys := by
    intro hmem
    rw [if_pos hmem] at hk
    cases hk
  rw [Std.ExtTreeMap.mem_keys] at hnot
  rw [getElem?_apply, Std.ExtTreeMap.getElem?_eq_none hnot, Option.getD_none]

/-- The same for a change set that also writes `k₀`, when the reverse one
deletes `k₀` whatever was there before. -/
theorem apply_capture_keys_insert (m : Table K V) (d : Changes K V) (k₀ : K) (v : Option V) :
    apply (apply m (d.insert k₀ v)) ((capture m d.keys).insert k₀ none) = m.erase k₀ := by
  refine Std.ExtTreeMap.ext_getElem? fun k => ?_
  rw [getElem?_apply, getElem?_insert, getElem?_erase]
  by_cases hk : k₀ = k
  · simp [hk]
  · rw [if_neg hk, if_neg hk, getElem?_apply, getElem?_insert, if_neg hk, ← getElem?_apply,
      ← getElem?_apply, apply_capture_keys]

/-- Writing all entries of a table over another one. -/
theorem getElem?_foldl_insert (d m : Table K V) (k : K) :
    (d.toList.foldl (fun t e => t.insert e.1 e.2) m)[k]? = d[k]?.or m[k]? := by
  have hfold : d.toList.foldl (fun t e => t.insert e.1 e.2) m =
      apply m (d.map fun _ v => some v) := by
    rw [apply, applyList, Std.ExtTreeMap.toList_map, List.foldl_map]
    rfl
  rw [hfold, getElem?_apply, Std.ExtTreeMap.getElem?_map]
  cases d[k]? <;> rfl

/-- A table is the fold of its own entries. -/
theorem foldl_insert_toList (d : Table K V) :
    d.toList.foldl (fun t e => t.insert e.1 e.2) ∅ = d := by
  refine Std.ExtTreeMap.ext_getElem? fun k => ?_
  rw [getElem?_foldl_insert, Std.ExtTreeMap.getElem?_empty, Option.or_none]

/-! ## Sums over a table -/

section Sums

def sumOf (f : K → V → Nat) (m : Table K V) : Nat := (m.toList.map fun e => f e.1 e.2).sum

omit [DecidableEq K] in
theorem nodup_toList (m : Table K V) : m.toList.Nodup := by
  have h := Std.ExtTreeMap.distinct_keys_toList (t := m)
  refine h.imp fun hne heq => hne ?_
  rw [heq]
  exact Std.ReflCmp.compare_self

theorem toList_insert_perm (m : Table K V) (k : K) (v : V) :
    (m.insert k v).toList.Perm ((k, v) :: m.toList.filter (·.1 ≠ k)) := by
  refine (List.perm_ext_iff_of_nodup (nodup_toList _) ?_).mpr fun e => ?_
  · refine List.nodup_cons.mpr ⟨fun hmem => ?_, (nodup_toList m).filter _⟩
    simp at hmem
  · obtain ⟨k', v'⟩ := e
    rw [Std.ExtTreeMap.mem_toList_iff_getElem?_eq_some, getElem?_insert, List.mem_cons,
      List.mem_filter, Std.ExtTreeMap.mem_toList_iff_getElem?_eq_some]
    by_cases hk : k = k'
    · subst hk
      simp [eq_comm]
    · simp [hk, Ne.symm hk]

theorem toList_perm_of_getElem? {m : Table K V} {k : K} {v : V} (h : m[k]? = some v) :
    m.toList.Perm ((k, v) :: m.toList.filter (·.1 ≠ k)) := by
  have hperm := toList_insert_perm m k v
  rwa [insert_of_getElem? h] at hperm

theorem filter_toList_of_none {m : Table K V} {k : K} (h : m[k]? = none) :
    m.toList.filter (·.1 ≠ k) = m.toList := by
  refine List.filter_eq_self.mpr fun e he => decide_eq_true fun hk => ?_
  rw [Std.ExtTreeMap.mem_toList_iff_getElem?_eq_some, hk, h] at he
  cases he

/-- A write adds the new value's share and takes away the old one's. -/
theorem sumOf_insert (f : K → V → Nat) (m : Table K V) (k : K) (v : V) :
    sumOf f (m.insert k v) + (m[k]?.map (f k)).getD 0 = sumOf f m + f k v := by
  have hnew := ((toList_insert_perm m k v).map fun e => f e.1 e.2).sum_eq
  simp only [List.map_cons, List.sum_cons] at hnew
  unfold sumOf
  cases hk : m[k]? with
  | none =>
    rw [filter_toList_of_none hk] at hnew
    rw [hnew, Option.map_none, Option.getD_none]
    omega
  | some old =>
    have hold := ((toList_perm_of_getElem? hk).map fun e => f e.1 e.2).sum_eq
    simp only [List.map_cons, List.sum_cons] at hold
    rw [hnew, hold, Option.map_some, Option.getD_some]
    omega

theorem le_sumOf (f : K → V → Nat) {m : Table K V} {k : K} {v : V} (h : m[k]? = some v) :
    f k v ≤ sumOf f m := by
  have hold := ((toList_perm_of_getElem? h).map fun e => f e.1 e.2).sum_eq
  simp only [List.map_cons, List.sum_cons] at hold
  unfold sumOf
  omega

end Sums

/-! ## Sorted lists of entries -/

omit [DecidableEq K] in
/-- The entries of a table in key order are one list only. -/
theorem eq_toList_of_sorted {m : Table K V} {l : List (K × V)}
    (hl : l.Pairwise fun e e' => compare e.1 e'.1 = .lt)
    (hmem : ∀ e, e ∈ l ↔ m[e.1]? = some e.2) : l = m.toList := by
  have hnodup : l.Nodup := by
    refine hl.imp fun {a b} hlt heq => ?_
    rw [heq, Std.ReflOrd.compare_self] at hlt
    cases hlt
  have hperm : l.Perm m.toList := by
    refine (List.perm_ext_iff_of_nodup hnodup (nodup_toList m)).mpr fun e => ?_
    rw [hmem, ← Std.ExtTreeMap.mem_toList_iff_getElem?_eq_some]
  refine hperm.eq_of_pairwise (fun a b _ _ hab hba => ?_) hl Std.ExtTreeMap.ordered_keys_toList
  exact absurd hba (Std.OrientedCmp.not_lt_of_lt hab)

/-! ## Scans by prefix -/

section PrefixScan

variable {α β : Type} [Ord α] [Std.LawfulEqOrd α]

/-- Nothing below `p` starts with `p`. -/
theorem not_lt_of_prefix {p k : List α} (h : p <+: k) : compare k p ≠ .lt := by
  obtain ⟨t, rfl⟩ := h
  induction p with
  | nil => cases t <;> simp
  | cons a p ih =>
    rw [List.cons_append, List.compare_cons_cons, Std.ReflOrd.compare_self]
    exact ih

/-- The keys that start with `p` stand next to each other. -/
theorem prefix_of_between {p k k' : List α} (hk : compare k p ≠ .lt)
    (hlt : compare k k' = .lt) (hp : p <+: k') : p <+: k := by
  induction p generalizing k k' with
  | nil => exact List.nil_prefix
  | cons a p ih =>
    obtain ⟨t, rfl⟩ := hp
    cases k with
    | nil => exact absurd rfl hk
    | cons b k =>
      rw [List.cons_append, List.compare_cons_cons] at hlt
      rw [List.compare_cons_cons] at hk
      have hab : compare b a = .eq := by
        cases h : compare b a with
        | lt => rw [h] at hk; exact absurd rfl hk
        | eq => rfl
        | gt => rw [h] at hlt; cases hlt
      rw [hab] at hk hlt
      rw [Std.LawfulEqOrd.eq_of_compare hab]
      exact (List.prefix_cons_inj a).mpr (ih hk hlt (List.prefix_append p t))

theorem takeWhile_prefix_eq_filter [BEq α] [LawfulBEq α] {p : List α} {l : List (List α × β)}
    (hl : l.Pairwise fun e e' => compare e.1 e'.1 = .lt)
    (hge : ∀ e ∈ l, compare e.1 p ≠ .lt) :
    (l.takeWhile fun e => p.isPrefixOf e.1) = l.filter fun e => p.isPrefixOf e.1 := by
  induction l with
  | nil => rfl
  | cons e l ih =>
    obtain ⟨he, hl⟩ := List.pairwise_cons.mp hl
    obtain ⟨hge₀, hge⟩ := List.forall_mem_cons.mp hge
    by_cases hp : p <+: e.1
    · have hyes := List.isPrefixOf_iff_prefix.mpr hp
      rw [List.takeWhile_cons, List.filter_cons, if_pos hyes, if_pos hyes, ih hl hge]
    · have hno : ¬ p.isPrefixOf e.1 = true := fun h => hp (List.isPrefixOf_iff_prefix.mp h)
      rw [List.takeWhile_cons, List.filter_cons, if_neg hno, if_neg hno, eq_comm,
        List.filter_eq_nil_iff]
      intro e' he' hpre
      exact hp (prefix_of_between hge₀ (he e' he') (List.isPrefixOf_iff_prefix.mp hpre))

/-- A range scan from `p` on, cut at the first key that does not start with
`p`, finds all keys that do. -/
theorem scan_eq_filter [Std.TransOrd α] [BEq α] [LawfulBEq α] (p : List α) {l : List (List α × β)}
    (hl : l.Pairwise fun e e' => compare e.1 e'.1 = .lt) :
    ((l.dropWhile fun e => compare e.1 p == .lt).takeWhile fun e => p.isPrefixOf e.1) =
      l.filter fun e => p.isPrefixOf e.1 := by
  induction l with
  | nil => rfl
  | cons e l ih =>
    obtain ⟨he, hl⟩ := List.pairwise_cons.mp hl
    by_cases hlt : compare e.1 p = .lt
    · have hno : p.isPrefixOf e.1 = false := by
        rw [Bool.eq_false_iff, ne_eq, List.isPrefixOf_iff_prefix]
        exact fun h => not_lt_of_prefix h hlt
      rw [List.dropWhile_cons_of_pos (by simp [hlt]), ih hl, List.filter_cons_of_neg (by simp [hno])]
    rw [List.dropWhile_cons_of_neg (by simp [hlt])]
    -- from here on no key is below the bound, so the scan only cuts
    refine takeWhile_prefix_eq_filter (List.pairwise_cons.mpr ⟨he, hl⟩)
      (List.forall_mem_cons.mpr ⟨hlt, fun e' he' hlt' => hlt ?_⟩)
    exact Std.TransCmp.lt_trans (he e' he') hlt'

end PrefixScan

end Delta
