import Solen.Concrete

/-!
# Threshold authentication

A threshold signature is a sequence of 96-byte parts, each a key and a
signature by it. A key that comes back is looked at only once, so it is
the first part naming a key that decides, and what is counted is the
listed keys and not the parts (`countSigners_eq`). A list of fewer than
2^16 keys keeps the 16-bit counter from wrapping.
-/

namespace Solen

open Machine

/-! ## Parts -/

/-- One part of a threshold signature. -/
structure SignaturePart where
  key : Hash
  sig : Bytes
  length_sig : sig.length = 64

namespace SignaturePart

def bytes (p : SignaturePart) : Bytes := p.key.bytes ++ p.sig

theorem length_bytes (p : SignaturePart) : p.bytes.length = 96 := by
  rw [bytes, List.length_append, p.key.length_bytes, p.length_sig]

theorem length_flatMap_bytes (parts : List SignaturePart) :
    (parts.flatMap bytes).length = 96 * parts.length := by
  induction parts with
  | nil => rfl
  | cons p parts ih =>
    rw [List.flatMap_cons, List.length_append, p.length_bytes, ih, List.length_cons]
    omega

theorem signatureChunks_flatMap (parts : List SignaturePart) :
    signatureChunks parts.length (parts.flatMap bytes) = parts.map fun p => (p.key.bytes, p.sig) := by
  induction parts with
  | nil => rfl
  | cons p parts ih =>
    have hkey : 32 = p.key.bytes.length := p.key.length_bytes.symm
    have hsig : 64 = p.sig.length := p.length_sig.symm
    rw [List.length_cons, signatureChunks, List.map_cons, List.flatMap_cons, ← ih]
    congr 2
    · rw [bytes, List.append_assoc, hkey, List.take_left]
    · rw [bytes, List.append_assoc, hkey, List.drop_left, hsig, List.take_left]
    · rw [show 96 = p.bytes.length from p.length_bytes.symm, List.drop_left]

/-- Whole parts are what the length check asks for. -/
theorem exists_parts {n : Nat} {signature : Bytes} (h : signature.length = 96 * n) :
    ∃ parts : List SignaturePart, parts.length = n ∧ signature = parts.flatMap bytes := by
  induction n generalizing signature with
  | zero => exact ⟨[], rfl, List.eq_nil_of_length_eq_zero h⟩
  | succ n ih =>
    have hrest : (signature.drop 96).length = 96 * n := by
      rw [List.length_drop]
      omega
    obtain ⟨parts, hlen, hparts⟩ := ih hrest
    refine ⟨⟨⟨signature.take 32, by simp; omega⟩, (signature.drop 32).take 64,
      by simp; omega⟩ :: parts, by rw [List.length_cons, hlen], ?_⟩
    rw [List.flatMap_cons, ← hparts, bytes]
    dsimp only
    rw [List.append_assoc, show signature.drop 96 = (signature.drop 32).drop 64 by
      rw [List.drop_drop], List.take_append_drop, List.take_append_drop]

/-- The key's first part has a valid signature. -/
def Signs (E : Platform) (msg : Bytes) (parts : List SignaturePart) (key : Hash) : Prop :=
  ∃ p, parts.find? (fun p => p.key = key) = some p ∧ E.ed25519Verify key msg p.sig = true

end SignaturePart

open SignaturePart

/-! ## Counting -/

section

variable {E : Platform} {signers : List Hash} {msg : Bytes}

theorem signs_cons_self (p : SignaturePart) (parts : List SignaturePart) :
    Signs E msg (p :: parts) p.key ↔ E.ed25519Verify p.key msg p.sig = true := by
  have hfind : (p :: parts).find? (fun q => q.key = p.key) = some p := by simp
  rw [Signs, hfind]
  constructor
  · rintro ⟨q, hq, hvalid⟩
    cases hq
    exact hvalid
  · exact fun hvalid => ⟨p, rfl, hvalid⟩

theorem signs_cons_of_ne {p : SignaturePart} (parts : List SignaturePart) {key : Hash}
    (hne : key ≠ p.key) : Signs E msg (p :: parts) key ↔ Signs E msg parts key := by
  rw [Signs, Signs, List.find?_cons_of_neg (by simpa using hne.symm)]

theorem any_signer_iff (p : SignaturePart) :
    (signers.any fun h => h.bytes == p.key.bytes && E.ed25519Verify h msg p.sig) = true ↔
      p.key ∈ signers ∧ E.ed25519Verify p.key msg p.sig = true := by
  rw [List.any_eq_true]
  constructor
  · rintro ⟨h, hmem, hvalid⟩
    rw [Bool.and_eq_true, beq_iff_eq] at hvalid
    have heq : h = p.key := Hash.ext_bytes hvalid.1
    exact ⟨heq ▸ hmem, heq ▸ hvalid.2⟩
  · rintro ⟨hmem, hvalid⟩
    exact ⟨p.key, hmem, by rw [hvalid, beq_self_eq_true, Bool.and_self]⟩

open scoped Classical in
/-- The count is the number of listed keys that sign and have not been seen
before. -/
theorem countSigners_eq (parts : List SignaturePart) (seen : List Hash) :
    countSigners E signers msg (parts.map fun p => (p.key.bytes, p.sig)) (seen.map (·.bytes)) =
      (signers.toFinset.filter fun key => key ∉ seen ∧ Signs E msg parts key).card := by
  induction parts generalizing seen with
  | nil =>
    rw [Finset.filter_false_of_mem, Finset.card_empty]
    · rfl
    · rintro key - ⟨-, p, hp, -⟩
      cases hp
  | cons p parts ih =>
    have hmem : p.key.bytes ∈ seen.map (·.bytes) ↔ p.key ∈ seen :=
      List.mem_map_of_injective fun _ _ => Hash.ext_bytes
    rw [List.map_cons, countSigners]
    by_cases hseen : p.key ∈ seen
    · -- the part is skipped, and its key does not count
      rw [if_pos (hmem.mpr hseen), ih seen]
      congr 1
      refine Finset.filter_congr fun key _ => and_congr_right fun hkey => ?_
      refine (signs_cons_of_ne parts ?_).symm
      rintro rfl
      exact hkey hseen
    · have hother : ∀ key, key ≠ p.key → (key ∉ seen ∧ Signs E msg (p :: parts) key ↔
          key ∉ p.key :: seen ∧ Signs E msg parts key) := by
        intro key hne
        rw [signs_cons_of_ne parts hne, List.mem_cons, not_or, and_iff_right hne]
      rw [if_neg fun h => hseen (hmem.mp h), ← List.map_cons (f := Hash.bytes), ih (p.key :: seen)]
      dsimp only
      split
      · next hvalid =>
          rw [any_signer_iff] at hvalid
          rw [Nat.add_comm, ← Finset.card_insert_of_notMem]
          · congr 1
            ext key
            rw [Finset.mem_insert, Finset.mem_filter, Finset.mem_filter, List.mem_toFinset]
            by_cases hkey : key = p.key
            · subst hkey
              exact iff_of_true (Or.inl rfl)
                ⟨hvalid.1, hseen, (signs_cons_self p parts).mpr hvalid.2⟩
            · rw [or_iff_right hkey, hother key hkey]
          · rw [Finset.mem_filter]
            exact fun h => h.2.1 List.mem_cons_self
      · next hvalid =>
          rw [any_signer_iff] at hvalid
          rw [Nat.zero_add]
          congr 1
          refine Finset.filter_congr fun key hkey => ?_
          by_cases heq : key = p.key
          · subst heq
            refine iff_of_false (fun h => h.1 List.mem_cons_self) fun h => hvalid ?_
            exact ⟨List.mem_toFinset.mp hkey, (signs_cons_self p parts).mp h.2⟩
          · exact (hother key heq).symm

open scoped Classical in
theorem countSigners_parts (parts : List SignaturePart) :
    countSigners E signers msg
        (signatureChunks ((parts.flatMap bytes).length / 96) (parts.flatMap bytes)) [] =
      (signers.toFinset.filter (Signs E msg parts)).card := by
  rw [length_flatMap_bytes, Nat.mul_div_cancel_left _ (by decide), signatureChunks_flatMap]
  refine (countSigners_eq parts []).trans ?_
  simp only [List.not_mem_nil, not_false_eq_true, true_and]

open scoped Classical in
theorem isSome_verifyAuth_parts {threshold : BitVec 16} (hlen : signers.length < 65536)
    {pqEnabled : Bool} {parts : List SignaturePart} (hne : parts ≠ []) :
    (verifyAuth E (.threshold signers threshold) msg (parts.flatMap bytes) pqEnabled).isSome =
        true ↔
      threshold ≠ 0#16 ∧ signers ≠ [] ∧
        threshold.toNat ≤ (signers.toFinset.filter (Signs E msg parts)).card := by
  have hwhole : ¬((parts.flatMap bytes).length % 96 ≠ 0 ∨ parts.flatMap bytes = []) := by
    rw [← List.length_eq_zero_iff, length_flatMap_bytes, Nat.mul_mod_right]
    have := List.length_pos_of_ne_nil hne
    omega
  -- the counter counts listed keys, so it does not wrap
  have hcard : (signers.toFinset.filter (Signs E msg parts)).card < 2 ^ 16 :=
    ((Finset.card_filter_le _ _).trans (List.toFinset_card_le signers)).trans_lt hlen
  simp only [verifyAuth, hwhole, if_false, countSigners_parts]
  by_cases hrefused : threshold = 0#16 ∨ signers = []
  · rw [if_pos hrefused]
    refine iff_of_false Bool.false_ne_true fun h => ?_
    rcases hrefused with hzero | hnil
    · exact h.1 hzero
    · exact h.2.1 hnil
  · rw [not_or] at hrefused
    rw [if_neg (not_or.mpr hrefused), and_iff_right hrefused.1, and_iff_right hrefused.2]
    split
    · next hle =>
        rw [BitVec.le_def, BitVec.toNat_ofNat, Nat.mod_eq_of_lt hcard] at hle
        exact iff_of_true rfl hle
    · next hlt =>
        rw [BitVec.le_def, BitVec.toNat_ofNat, Nat.mod_eq_of_lt hcard] at hlt
        exact iff_of_false Bool.false_ne_true hlt

end

open scoped Classical in
/-- A threshold method accepts exactly when it asks for a signature, lists
a signer, and is given whole parts in which enough listed keys sign. -/
theorem threshold_accepts_iff (E : Platform) (signers : List Hash) (threshold : BitVec 16)
    (hlen : signers.length < 65536) (msg signature : Bytes) (pqEnabled : Bool) :
    (verifyAuth E (.threshold signers threshold) msg signature pqEnabled).isSome = true ↔
      1 ≤ threshold.toNat ∧ signers ≠ [] ∧
        ∃ parts : List SignaturePart, parts ≠ [] ∧ signature = parts.flatMap bytes ∧
          ∃ keys : Finset Hash, threshold.toNat ≤ keys.card ∧
            ∀ key ∈ keys, key ∈ signers ∧ Signs E msg parts key := by
  have hpos : threshold ≠ 0#16 ↔ 1 ≤ threshold.toNat := by
    rw [Nat.one_le_iff_ne_zero, ne_eq, ne_eq, ← BitVec.toNat_inj]
    rfl
  constructor
  · intro haccept
    have hwhole : ¬(signature.length % 96 ≠ 0 ∨ signature = []) := by
      intro hbad
      simp only [verifyAuth, hbad, if_true, ite_self] at haccept
      cases haccept
    rw [not_or, not_not] at hwhole
    obtain ⟨parts, hlength, rfl⟩ := exists_parts
      (Nat.mul_div_cancel' (Nat.dvd_of_mod_eq_zero hwhole.1)).symm
    have hne : parts ≠ [] := by
      rintro rfl
      exact hwhole.2 rfl
    obtain ⟨hthreshold, hsigners, henough⟩ := (isSome_verifyAuth_parts hlen hne).mp haccept
    refine ⟨hpos.mp hthreshold, hsigners, parts, hne, rfl, _, henough, fun key hkey => ?_⟩
    rw [Finset.mem_filter, List.mem_toFinset] at hkey
    exact hkey
  · rintro ⟨hthreshold, hsigners, parts, hne, rfl, keys, henough, hkeys⟩
    refine (isSome_verifyAuth_parts hlen hne).mpr ⟨hpos.mpr hthreshold, hsigners, henough.trans ?_⟩
    refine Finset.card_le_card fun key hkey => ?_
    rw [Finset.mem_filter, List.mem_toFinset]
    exact hkeys key hkey

/-- The part of a signature of `msg` that `key` makes on the concrete platform. -/
def partOf (key : Hash) (msg : Bytes) : SignaturePart where
  key := key
  sig := key.bytes ++ (checksum msg).bytes
  length_sig := by rw [List.length_append, key.length_bytes, (checksum msg).length_bytes]

/-- Two of three signers are enough, beside a part of a key that is not listed;
one of them twice is not. -/
theorem threshold_accepts_two_of_three :
    let signers := [alice, bob, System.addr 0x41]
    (verifyAuth concretePlatform (.threshold signers 2#16) [7]
        ([partOf alice [7], partOf System.treasuryAddress [7], partOf bob [7]].flatMap bytes)
        false).isSome = true ∧
      (verifyAuth concretePlatform (.threshold signers 2#16) [7]
        ([partOf alice [7], partOf alice [7]].flatMap bytes) false).isSome = false := by
  refine ⟨?_, by decide +kernel⟩
  refine (threshold_accepts_iff concretePlatform [alice, bob, System.addr 0x41] 2#16 (by decide)
    [7] _ false).mpr ⟨by decide, by decide, _, List.cons_ne_nil _ _, rfl, {alice, bob},
      by decide, fun key hkey => ?_⟩
  rcases Finset.mem_insert.mp hkey with rfl | hkey
  · exact ⟨by decide, (signs_cons_self (partOf alice [7]) _).mpr (beq_self_eq_true _)⟩
  · rw [Finset.mem_singleton.mp hkey]
    exact ⟨by decide, partOf bob [7], rfl, by decide +kernel⟩

end Solen
