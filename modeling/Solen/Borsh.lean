import Mathlib
import Solen.Machine

/-!
# Borsh

The part of the Borsh format that byte strings, options, pairs and
vectors of them need. A length is written as four little-endian bytes,
so encoding fails on anything with `2 ^ 32` elements or more; whatever
is encoded decodes back, also in front of other data.

`Codec` bundles the two directions with the round trip. The failure of
an encoding is characterised separately for each combinator, by the
lemmas named `encode_*_eq_none`.
-/

namespace Borsh

open Machine

structure Codec (α : Type) where
  encode : α → Option Bytes
  decode : Bytes → Option (α × Bytes)
  decode_append : ∀ a bs rest, encode a = some bs → decode (bs ++ rest) = some (a, rest)

def lengthLimit : Nat := 2 ^ 32

def encodeLength (n : Nat) : Option Bytes :=
  if n < lengthLimit then some (toLeBytes 4 n) else none

def decodeLength (bs : Bytes) : Option (Nat × Bytes) :=
  if bs.length < 4 then none else some (fromLeBytes (bs.take 4), bs.drop 4)

theorem encodeLength_eq_none {n : Nat} : encodeLength n = none ↔ lengthLimit ≤ n := by
  unfold encodeLength
  split <;> simp_all

theorem decodeLength_append {n : Nat} {bs : Bytes} (rest : Bytes)
    (h : encodeLength n = some bs) : decodeLength (bs ++ rest) = some (n, rest) := by
  unfold encodeLength at h
  split at h
  · next hn =>
      cases h
      have hlen : (toLeBytes 4 n).length = 4 := length_toLeBytes 4 n
      have hval : fromLeBytes (toLeBytes 4 n) = n :=
        fromLeBytes_toLeBytes (by simpa [lengthLimit] using hn)
      rw [decodeLength, if_neg (by simp [hlen]), List.take_left' hlen, List.drop_left' hlen,
        hval]
  · cases h

/-! ## Byte strings -/

def byteString : Codec Bytes where
  encode b := (encodeLength b.length).map (· ++ b)
  decode bs :=
    match decodeLength bs with
    | some (n, rest) => if n ≤ rest.length then some (rest.take n, rest.drop n) else none
    | none => none
  decode_append := by
    intro b bs rest h
    rw [Option.map_eq_some_iff] at h
    obtain ⟨len, hlen, rfl⟩ := h
    rw [List.append_assoc, decodeLength_append _ hlen]
    simp

theorem encode_byteString_eq_none {b : Bytes} :
    byteString.encode b = none ↔ lengthLimit ≤ b.length := by
  simp [byteString, encodeLength_eq_none]

/-! ## Options and pairs -/

variable {α β : Type}

def option (c : Codec α) : Codec (Option α) where
  encode
    | none => some [0]
    | some a => (c.encode a).map (1 :: ·)
  decode
    | 0 :: rest => some (none, rest)
    | 1 :: rest => (c.decode rest).map fun r => (some r.1, r.2)
    | _ => none
  decode_append := by
    intro o bs rest h
    cases o with
    | none => cases h; rfl
    | some a =>
        simp only [Option.map_eq_some_iff] at h
        obtain ⟨body, hbody, rfl⟩ := h
        simp [c.decode_append a body rest hbody]

theorem encode_option_eq_none {c : Codec α} {o : Option α} :
    (option c).encode o = none ↔ ∃ a, o = some a ∧ c.encode a = none := by
  cases o with
  | none => simp [option]
  | some a => simp [option]

def pair (c : Codec α) (d : Codec β) : Codec (α × β) where
  encode p :=
    match c.encode p.1, d.encode p.2 with
    | some bs, some bs' => some (bs ++ bs')
    | _, _ => none
  decode bs :=
    match c.decode bs with
    | some (a, rest) => (d.decode rest).map fun r => ((a, r.1), r.2)
    | none => none
  decode_append := by
    rintro ⟨a, b⟩ bs rest h
    cases hc : c.encode a with
    | none => simp [hc] at h
    | some bs₁ =>
        cases hd : d.encode b with
        | none => simp [hc, hd] at h
        | some bs₂ =>
            simp only [hc, hd, Option.some.injEq] at h
            subst h
            rw [List.append_assoc, c.decode_append a bs₁ _ hc]
            simp [d.decode_append b bs₂ rest hd]

theorem encode_pair_eq_none {c : Codec α} {d : Codec β} {p : α × β} :
    (pair c d).encode p = none ↔ c.encode p.1 = none ∨ d.encode p.2 = none := by
  simp only [pair]
  cases c.encode p.1 <;> cases d.encode p.2 <;> simp

/-! ## Vectors -/

def encodeAll (c : Codec α) : List α → Option Bytes
  | [] => some []
  | a :: l =>
      match c.encode a, encodeAll c l with
      | some bs, some bs' => some (bs ++ bs')
      | _, _ => none

def decodeMany (c : Codec α) : Nat → Bytes → Option (List α × Bytes)
  | 0, bs => some ([], bs)
  | n + 1, bs =>
      match c.decode bs with
      | some (a, rest) => (decodeMany c n rest).map fun r => (a :: r.1, r.2)
      | none => none

theorem encodeAll_eq_none {c : Codec α} {l : List α} :
    encodeAll c l = none ↔ ∃ a ∈ l, c.encode a = none := by
  induction l with
  | nil => simp [encodeAll]
  | cons a l ih =>
    rw [List.exists_mem_cons_iff, ← ih, encodeAll]
    cases c.encode a <;> cases encodeAll c l <;> simp

theorem decodeMany_append (c : Codec α) : ∀ (l : List α) (bs rest : Bytes),
    encodeAll c l = some bs → decodeMany c l.length (bs ++ rest) = some (l, rest)
  | [], bs, rest, h => by cases h; rfl
  | a :: l, bs, rest, h => by
      rw [encodeAll] at h
      cases hc : c.encode a with
      | none => simp [hc] at h
      | some bs₁ =>
        cases hl : encodeAll c l with
        | none => simp [hc, hl] at h
        | some bs₂ =>
          simp only [hc, hl, Option.some.injEq] at h
          subst h
          rw [List.length_cons, decodeMany, List.append_assoc,
            c.decode_append a bs₁ _ hc]
          simp [decodeMany_append c l bs₂ rest hl]

def vec (c : Codec α) : Codec (List α) where
  encode l :=
    match encodeLength l.length, encodeAll c l with
    | some n, some bs => some (n ++ bs)
    | _, _ => none
  decode bs :=
    match decodeLength bs with
    | some (n, rest) => decodeMany c n rest
    | none => none
  decode_append := by
    intro l bs rest h
    cases hn : encodeLength l.length with
    | none => simp [hn] at h
    | some n =>
        cases hl : encodeAll c l with
        | none => simp [hn, hl] at h
        | some body =>
            simp only [hn, hl, Option.some.injEq] at h
            subst h
            rw [List.append_assoc, decodeLength_append _ hn]
            exact decodeMany_append c l body rest hl

theorem encode_vec_eq_none {c : Codec α} {l : List α} :
    (vec c).encode l = none ↔ lengthLimit ≤ l.length ∨ ∃ a ∈ l, c.encode a = none := by
  rw [← encodeLength_eq_none, ← encodeAll_eq_none]
  simp only [vec]
  cases encodeLength l.length <;> cases encodeAll c l <;> simp

/-! ## Whole inputs -/

/-- Decodes an input that must be used up. -/
def fromSlice (c : Codec α) (bs : Bytes) : Option α :=
  match c.decode bs with
  | some (a, []) => some a
  | _ => none

theorem fromSlice_encode {c : Codec α} {a : α} {bs : Bytes} (h : c.encode a = some bs) :
    fromSlice c bs = some a := by
  have hd := c.decode_append a bs [] h
  rw [List.append_nil] at hd
  rw [fromSlice, hd]

end Borsh
