import Solen.Concrete

/-!
# Undoing a block

A block's writes are undone with the old values of the keys it
touched. For a mismatched root and for the returned reverse delta this
is exact whatever the block did (`Delta.apply_capture_keys`). The
durable record has to pass through its encoding first, and the format
writes lengths in 32 bits: a record with a longer key, value or list
cannot be encoded, and the empty record written in its place cannot be
read back.
-/

namespace Solen

open Machine

variable {E : Platform} {X : BlockExecutor}

/-! ## The record and its encoding -/

/-- The lengths a durable record has to write down all fit in 32 bits. -/
structure Recordable (s : Store) (touched : Changes) (height : Nat) : Prop where
  count : (touched.insert (eagerRevertKey height) none).size < Borsh.lengthLimit
  entries : ∀ k ∈ touched, k ≠ eagerRevertKey height →
    k.length < Borsh.lengthLimit ∧ ∀ v, s[k]? = some v → v.length < Borsh.lengthLimit

theorem length_eagerRevertKey (height : Nat) : (eagerRevertKey height).length = 25 := by
  rw [eagerRevertKey, List.length_append, length_toBeBytes]
  decide

theorem getElem?_durableRevert (s : Store) (touched : Changes) (height : Nat) (k : Bytes) :
    (durableRevert s touched height)[k]? =
      if eagerRevertKey height = k then some none
      else if k ∈ touched then some s[k]? else none := by
  rw [durableRevert, Delta.getElem?_insert, Delta.getElem?_capture]
  simp only [Std.ExtTreeMap.mem_keys]

theorem size_durableRevert (s : Store) (touched : Changes) (height : Nat) :
    (durableRevert s touched height).size =
      (touched.insert (eagerRevertKey height) none).size := by
  have hmap : Delta.capture s touched.keys = touched.map fun k _ => s[k]? := by
    refine Std.ExtTreeMap.ext_getElem? fun k => ?_
    rw [Delta.getElem?_capture, Std.ExtTreeMap.getElem?_map]
    simp only [Std.ExtTreeMap.mem_keys]
    by_cases hk : k ∈ touched <;> simp [hk]
  rw [durableRevert, hmap, Std.ExtTreeMap.size_insert, Std.ExtTreeMap.size_insert]
  simp

/-- A single entry of a record cannot be encoded when its key or its old
value is too long. -/
theorem encode_entry_eq_none {k : Bytes} {o : Option Bytes} :
    (Borsh.pair Borsh.byteString (Borsh.option Borsh.byteString)).encode (k, o) = none ↔
      Borsh.lengthLimit ≤ k.length ∨ ∃ v, o = some v ∧ Borsh.lengthLimit ≤ v.length := by
  simp only [Borsh.encode_pair_eq_none, Borsh.encode_option_eq_none,
    Borsh.encode_byteString_eq_none]

theorem encode_durableRevert_eq_none {s : Store} {touched : Changes} {height : Nat} :
    revertCodec.encode (durableRevert s touched height).toList = none ↔
      ¬ Recordable s touched height := by
  rw [revertCodec, Borsh.encode_vec_eq_none, Std.ExtTreeMap.length_toList, size_durableRevert]
  constructor
  · rintro (hsize | ⟨⟨k, o⟩, hmem, hnone⟩) hrec
    · exact absurd hrec.count (Nat.not_lt.mpr hsize)
    · rw [Std.ExtTreeMap.mem_toList_iff_getElem?_eq_some, getElem?_durableRevert] at hmem
      rw [encode_entry_eq_none] at hnone
      split at hmem
      · next hk =>
          -- the record's own entry has a short key and no value
          cases hmem
          rw [← hk, length_eagerRevertKey] at hnone
          simp [Borsh.lengthLimit] at hnone
      · next hk =>
          split at hmem
          · next ht =>
              cases hmem
              obtain ⟨hkey, hval⟩ := hrec.entries k ht (Ne.symm hk)
              rcases hnone with h | ⟨v, hv, h⟩
              · exact absurd hkey (Nat.not_lt.mpr h)
              · exact absurd (hval v hv) (Nat.not_lt.mpr h)
          · cases hmem
  · intro hrec
    by_contra hcon
    rw [not_or] at hcon
    refine hrec ⟨Nat.not_le.mp hcon.1, fun k hk hne => ?_⟩
    have hmem : (k, s[k]?) ∈ (durableRevert s touched height).toList := by
      rw [Std.ExtTreeMap.mem_toList_iff_getElem?_eq_some, getElem?_durableRevert,
        if_neg (Ne.symm hne), if_pos hk]
    have hfits : ¬ (Borsh.lengthLimit ≤ k.length ∨
        ∃ v, s[k]? = some v ∧ Borsh.lengthLimit ≤ v.length) := fun h =>
      hcon.2 ⟨_, hmem, encode_entry_eq_none.mpr h⟩
    push Not at hfits
    exact hfits

theorem decodeEagerRevert_of_encode {revert : BlockRevert} {bytes : Bytes}
    (h : revertCodec.encode revert.toList = some bytes) :
    decodeEagerRevert bytes = some revert := by
  rw [decodeEagerRevert, Borsh.fromSlice_encode h, Option.map_some, Delta.foldl_insert_toList]

/-- What is written for a block can be read back exactly when it fits. -/
theorem decodeEagerRevert_encodeRevert (s : Store) (touched : Changes) (height : Nat) :
    decodeEagerRevert (encodeRevert (durableRevert s touched height)) =
      open Classical in
      if Recordable s touched height then some (durableRevert s touched height) else none := by
  cases henc : revertCodec.encode (durableRevert s touched height).toList with
  | none =>
    rw [if_neg (encode_durableRevert_eq_none.mp henc), encodeRevert, henc]
    rfl
  | some bytes =>
    have hrec : Recordable s touched height := by
      by_contra hcon
      rw [encode_durableRevert_eq_none.mpr hcon] at henc
      cases henc
    rw [if_pos hrec, encodeRevert, henc, Option.getD_some, decodeEagerRevert_of_encode henc]

/-! ## Exact reverts -/

section

variable (E X) (s : Store) (ops : List UserOperation) (height : Nat)

/-- A block that is refused leaves no trace, and a block committed with a
durable record can be undone with the returned delta and with the
record, either of which also removes the record. -/
structure RevertsExactly : Prop where
  checked : ∀ root, (executeBlockChecked E X s ops height root).1 = none →
    (executeBlockChecked E X s ops height root).2 = s
  delta : let (_, revert, s') := executeBlockJournaledDurable E X s ops height
    s'.applyBatchAtomic revert = s.erase (eagerRevertKey height)
  record : let (_, _, s') := executeBlockJournaledDurable E X s ops height
    ∃ bytes revert, s'[eagerRevertKey height]? = some bytes ∧
      decodeEagerRevert bytes = some revert ∧
      s'.applyBatchAtomic revert = s.erase (eagerRevertKey height)

end

theorem executeBlockChecked_eq (s : Store) (ops : List UserOperation) (height : Nat)
    (root : Hash) :
    executeBlockChecked E X s ops height root =
      let staged := stageBlock E X s ops height
      let s' := s.applyBatchAtomic staged.changes
      let revert := Delta.capture s staged.changes.keys
      if s'.stateRoot E.blake3 = root then
        (some (staged.result (s'.stateRoot E.blake3), revert), s')
      else (none, s'.applyBatchAtomic revert) := rfl

theorem executeBlockChecked_mismatch {s : Store} {ops : List UserOperation} {height : Nat}
    {root : Hash} (h : (executeBlockChecked E X s ops height root).1 = none) :
    (executeBlockChecked E X s ops height root).2 = s := by
  rw [executeBlockChecked_eq] at h ⊢
  by_cases hroot : (s.applyBatchAtomic (stageBlock E X s ops height).changes).stateRoot E.blake3 =
      root
  · simp [hroot] at h
  · simp only [hroot, if_false]
    exact Delta.apply_capture_keys s _

theorem durable_record (s : Store) (ops : List UserOperation) (height : Nat) :
    (executeBlockJournaledDurable E X s ops height).2.2[eagerRevertKey height]? =
      some (encodeRevert (durableRevert s (stageBlock E X s ops height).changes height)) := by
  simp only [executeBlockJournaledDurable, Store.applyBatchAtomic]
  rw [Delta.getElem?_apply, Delta.getElem?_insert, if_pos rfl, Option.getD_some]

theorem durable_delta (s : Store) (ops : List UserOperation) (height : Nat) :
    (executeBlockJournaledDurable E X s ops height).2.2.applyBatchAtomic
        (durableRevert s (stageBlock E X s ops height).changes height) =
      s.erase (eagerRevertKey height) :=
  Delta.apply_capture_keys_insert s _ _ _

theorem recordable_of_revertsExactly {s : Store} {ops : List UserOperation} {height : Nat}
    (h : RevertsExactly E X s ops height) :
    Recordable s (stageBlock E X s ops height).changes height := by
  obtain ⟨bytes, revert, hget, hdec, -⟩ := h.record
  cases hget.symm.trans (durable_record s ops height)
  rw [decodeEagerRevert_encodeRevert] at hdec
  split at hdec
  · assumption
  · cases hdec

/-- Reverts of a block are exact precisely when the lengths in its durable
record fit the format. -/
theorem revertsExactly_iff (E : Platform) (X : BlockExecutor) (s : Store)
    (ops : List UserOperation) (height : Nat) :
    RevertsExactly E X s ops height ↔
      Recordable s (stageBlock E X s ops height).changes height := by
  constructor
  · exact recordable_of_revertsExactly
  · intro hrec
    refine ⟨fun root => executeBlockChecked_mismatch, durable_delta s ops height, ?_⟩
    refine ⟨_, _, durable_record s ops height, ?_, durable_delta s ops height⟩
    rw [decodeEagerRevert_encodeRevert, if_pos hrec]

/-- Once the accumulator is active every block writes it. -/
theorem epochRandomnessKey_mem_changes (s : Store) (ops : List UserOperation) {height : Nat}
    (h : X.epochRandomnessHeight ≤ height) :
    epochRandomnessKey ∈ (stageBlock E X s ops height).changes := by
  simp only [StagedBlock.changes, stageBlock, h, if_true]
  rw [Std.ExtTreeMap.mem_iff_isSome_getElem?, OverlayStore.getElem?_intoChanges]
  simp [mixRandomness, saveRecord, StateStore.put, OverlayStore.put, Std.ExtTreeSet.mem_erase]

/-- A store whose randomness record is too long for the format: the empty
block at height 1 overwrites it and cannot be undone from its record. -/
theorem not_revertsExactly_oversized :
    ¬ RevertsExactly concretePlatform { epochRandomnessHeight := 0 }
      ((∅ : Store).insert epochRandomnessKey (List.replicate (2 ^ 32) 0)) [] 1 := by
  intro h
  have hrec := recordable_of_revertsExactly h
  have hfits := (hrec.entries epochRandomnessKey
    (epochRandomnessKey_mem_changes _ _ (Nat.zero_le 1)) (by decide)).2 _
    (by rw [Delta.getElem?_insert, if_pos rfl])
  rw [List.length_replicate] at hfits
  exact absurd hfits (Nat.lt_irrefl _)

end Solen
