import Mathlib.Data.List.TakeWhile
import Mathlib.Data.Nat.Digits.Lemmas

/-!
# Changing the base of a number

Big-number conversion as it is written with a vector of digits: for
each digit of the input, most significant first, the digits found so
far are multiplied by the old base and the new digit is added, with a
carry that runs through the vector and may lengthen it. The vector is
the least-significant-first expansion of the number read so far
(`foldl_mulAdd`), so Mathlib's `Nat.digits` says everything about it.

Leading zeros do not show in a number. A conversion that counts them
apart and puts them back is inverted by the conversion the other way
(`convert_convert`).
-/

namespace Radix

variable {base factor : Nat}

/-! ## One round -/

/-- Multiplies the digits by `factor` and adds `carry`. What is left of the
carry at the end is pushed digit by digit. -/
def mulAdd (base factor : Nat) : Nat → List Nat → List Nat
  | carry, [] => Nat.digits base carry
  | carry, d :: ds =>
      (carry + d * factor) % base :: mulAdd base factor ((carry + d * factor) / base) ds

theorem ofDigits_mulAdd (carry : Nat) (ds : List Nat) :
    Nat.ofDigits base (mulAdd base factor carry ds) = Nat.ofDigits base ds * factor + carry := by
  induction ds generalizing carry with
  | nil => simp [mulAdd, Nat.ofDigits_digits]
  | cons d ds ih =>
    rw [mulAdd, Nat.ofDigits_cons, ih, Nat.ofDigits_cons]
    have hdiv := Nat.mod_add_div (carry + d * factor) base
    calc (carry + d * factor) % base +
          base * (Nat.ofDigits base ds * factor + (carry + d * factor) / base)
        = (carry + d * factor) % base + base * ((carry + d * factor) / base) +
            base * Nat.ofDigits base ds * factor := by ring
      _ = carry + d * factor + base * Nat.ofDigits base ds * factor := by rw [hdiv]
      _ = (d + base * Nat.ofDigits base ds) * factor + carry := by ring

theorem mulAdd_lt_base (hbase : 1 < base) {carry : Nat} {ds : List Nat} :
    ∀ d ∈ mulAdd base factor carry ds, d < base := by
  induction ds generalizing carry with
  | nil => exact fun d hd => Nat.digits_lt_base hbase hd
  | cons d ds ih =>
    intro e he
    rcases List.mem_cons.mp he with rfl | he
    · exact Nat.mod_lt _ (Nat.zero_lt_of_lt hbase)
    · exact ih e he

/-- A round does not bring up a zero as the most significant digit. -/
theorem getLast_mulAdd_ne_zero (hfactor : 0 < factor) {ds : List Nat} :
    ∀ {carry : Nat}, (∀ h : ds ≠ [], ds.getLast h ≠ 0) →
      ∀ h : mulAdd base factor carry ds ≠ [], (mulAdd base factor carry ds).getLast h ≠ 0 := by
  induction ds with
  | nil =>
    intro carry _ h
    exact Nat.getLast_digit_ne_zero base (Nat.digits_ne_nil_iff_ne_zero.mp h)
  | cons d ds ih =>
    intro carry hlast h
    simp only [mulAdd]
    by_cases hnil : mulAdd base factor ((carry + d * factor) / base) ds = []
    · -- Nothing is left above this digit, so it is the whole sum.
      have hds : ds = [] := by
        cases ds with
        | nil => rfl
        | cons e ds => simp [mulAdd] at hnil
      subst hds
      have hsmall : (carry + d * factor) / base = 0 := Nat.digits_eq_nil_iff_eq_zero.mp hnil
      have hmod := Nat.mod_add_div (carry + d * factor) base
      rw [hsmall, Nat.mul_zero, Nat.add_zero] at hmod
      have hd : d ≠ 0 := hlast (by simp)
      have hpos : 0 < d * factor := Nat.mul_pos (Nat.pos_of_ne_zero hd) hfactor
      simp only [hnil, List.getLast_singleton, hmod]
      omega
    · rw [List.getLast_cons hnil]
      refine ih (fun hne => ?_) hnil
      rw [← List.getLast_cons (a := d) hne]
      exact hlast (by simp)

theorem mulAdd_digits (hbase : 1 < base) (hfactor : 0 < factor) (carry n : Nat) :
    mulAdd base factor carry (Nat.digits base n) = Nat.digits base (n * factor + carry) := by
  have hvalue : Nat.ofDigits base (mulAdd base factor carry (Nat.digits base n)) =
      Nat.ofDigits base (Nat.digits base n) * factor + carry := ofDigits_mulAdd carry _
  rw [Nat.ofDigits_digits] at hvalue
  rw [← hvalue]
  refine (Nat.digits_ofDigits base hbase _ (mulAdd_lt_base hbase) ?_).symm
  refine getLast_mulAdd_ne_zero hfactor fun h => ?_
  exact Nat.getLast_digit_ne_zero base (Nat.digits_ne_nil_iff_ne_zero.mp h)

/-! ## The conversion -/

/-- The number with these digits, most significant first. -/
def value (base : Nat) (l : List Nat) : Nat := Nat.ofDigits base l.reverse

theorem foldl_mulAdd (hbase : 1 < base) (hfactor : 0 < factor) (l : List Nat) (n : Nat) :
    l.foldl (fun ds v => mulAdd base factor v ds) (Nat.digits base n) =
      Nat.digits base (n * factor ^ l.length + value factor l) := by
  induction l generalizing n with
  | nil => simp [value]
  | cons v l ih =>
    rw [List.foldl_cons, mulAdd_digits hbase hfactor, ih]
    congr 1
    rw [value, value, List.reverse_cons, Nat.ofDigits_append, List.length_cons,
      List.length_reverse, Nat.ofDigits_singleton, Nat.pow_succ]
    ring

def zeros (l : List Nat) : Nat := (l.takeWhile (· = 0)).length

/-- The digits in the base `new` of a number given in the base `old`, both
most significant first, behind as many zeros as the input has. -/
def convert (old new : Nat) (l : List Nat) : List Nat :=
  List.replicate (zeros l) 0 ++ (l.foldl (fun ds v => mulAdd new old v ds) []).reverse

variable {old new : Nat}

theorem convert_eq (hold : 0 < old) (hnew : 1 < new) (l : List Nat) :
    convert old new l =
      List.replicate (zeros l) 0 ++ (Nat.digits new (value old l)).reverse := by
  have h := foldl_mulAdd hnew hold l 0
  rw [Nat.digits_zero, Nat.zero_mul, Nat.zero_add] at h
  rw [convert, h]

theorem value_replicate_zero_append (base n : Nat) (l : List Nat) :
    value base (List.replicate n 0 ++ l) = value base l := by
  rw [value, value, List.reverse_append, List.reverse_replicate,
    Nat.ofDigits_append_replicate_zero]

/-- A list is its leading zeros followed by what starts with another digit. -/
theorem exists_zeros_append (l : List Nat) :
    ∃ rest : List Nat, l = List.replicate (zeros l) 0 ++ rest ∧
      ∀ h : rest ≠ [], rest.head h ≠ 0 := by
  refine ⟨l.dropWhile (· = 0), ?_, fun h => ?_⟩
  · have hall : l.takeWhile (· = 0) = List.replicate (zeros l) 0 :=
      List.eq_replicate_iff.mpr ⟨rfl, fun d hd => by simpa using List.mem_takeWhile_imp hd⟩
    rw [← hall, List.takeWhile_append_dropWhile]
  · simpa using List.head_dropWhile_not (fun d => decide (d = 0)) h

theorem zeros_replicate_append {rest : List Nat} (n : Nat)
    (h : ∀ hne : rest ≠ [], rest.head hne ≠ 0) :
    zeros (List.replicate n 0 ++ rest) = n := by
  induction n with
  | zero =>
    cases rest with
    | nil => rfl
    | cons d rest =>
      have hd : d ≠ 0 := h (by simp)
      simp [zeros, hd]
  | succ n ih =>
    rw [List.replicate_succ, List.cons_append, zeros, List.takeWhile_cons_of_pos (by simp),
      List.length_cons]
    exact congrArg (· + 1) ih

theorem head_reverse_digits_ne_zero (base n : Nat) :
    ∀ h : (Nat.digits base n).reverse ≠ [], (Nat.digits base n).reverse.head h ≠ 0 := by
  intro h
  rw [List.head_reverse]
  exact Nat.getLast_digit_ne_zero base
    (Nat.digits_ne_nil_iff_ne_zero.mp fun hnil => h (by rw [hnil, List.reverse_nil]))

theorem convert_lt (hnew : 1 < new) {l : List Nat} : ∀ d ∈ convert old new l, d < new := by
  intro d hd
  have hdigits : ∀ (l : List Nat) (ds : List Nat), (∀ e ∈ ds, e < new) →
      ∀ e ∈ l.foldl (fun ds v => mulAdd new old v ds) ds, e < new := by
    intro l
    induction l with
    | nil => exact fun ds hds => hds
    | cons v l ih => exact fun ds _ => ih _ (mulAdd_lt_base hnew)
  rcases List.mem_append.mp hd with hd | hd
  · rw [(List.mem_replicate.mp hd).2]
    exact Nat.zero_lt_of_lt hnew
  · exact hdigits l [] (by simp) d (List.mem_reverse.mp hd)

/-- Converting there and back gives the same digits, leading zeros included. -/
theorem convert_convert (hold : 1 < old) (hnew : 1 < new) {l : List Nat}
    (hl : ∀ d ∈ l, d < old) : convert new old (convert old new l) = l := by
  obtain ⟨rest, hsplit, hhead⟩ := exists_zeros_append l
  have hvalue : value old l = value old rest := by
    rw [hsplit]
    exact value_replicate_zero_append old (zeros l) rest
  rw [convert_eq (Nat.zero_lt_of_lt hold) hnew, convert_eq (Nat.zero_lt_of_lt hnew) hold,
    zeros_replicate_append _ (head_reverse_digits_ne_zero new _), value_replicate_zero_append,
    value, List.reverse_reverse, Nat.ofDigits_digits, hvalue]
  have hrest : Nat.digits old (value old rest) = rest.reverse := by
    refine Nat.digits_ofDigits old hold _ (fun d hd => ?_) fun h => ?_
    · exact hl d (hsplit ▸ List.mem_append_right _ (List.mem_reverse.mp hd))
    · rw [List.getLast_reverse]
      exact hhead fun hnil => h (by rw [hnil, List.reverse_nil])
  rw [hrest, List.reverse_reverse]
  exact hsplit.symm

/-- Converting to a smaller base, `n` digits are enough if all numbers with
as many old digits fit into them; leading zeros do not need more. -/
theorem length_convert_le (hold : 1 < old) (hnew : 1 < new) (hle : new ≤ old) {l : List Nat}
    (hl : ∀ d ∈ l, d < old) {n : Nat} (hn : old ^ l.length ≤ new ^ n) :
    (convert old new l).length ≤ n := by
  obtain ⟨rest, hsplit, -⟩ := exists_zeros_append l
  have hlength : l.length = zeros l + rest.length := by
    have hlen := congrArg List.length hsplit
    rwa [List.length_append, List.length_replicate] at hlen
  have hrest : value old rest < old ^ rest.length := by
    rw [value, ← List.length_reverse]
    refine Nat.ofDigits_lt_base_pow_length hold fun d hd => ?_
    exact hl d (hsplit ▸ List.mem_append_right _ (List.mem_reverse.mp hd))
  have hpow : new ^ zeros l * old ^ rest.length ≤ new ^ n := by
    refine le_trans ?_ hn
    rw [hlength, Nat.pow_add]
    exact Nat.mul_le_mul_right _ (Nat.pow_le_pow_left hle _)
  have hzeros : zeros l ≤ n := by
    refine (Nat.pow_le_pow_iff_right hnew).mp (le_trans ?_ hpow)
    exact Nat.le_mul_of_pos_right _ (Nat.pow_pos (Nat.zero_lt_of_lt hold))
  have hfits : old ^ rest.length ≤ new ^ (n - zeros l) := by
    have hpos : 0 < new ^ zeros l := Nat.pow_pos (Nat.zero_lt_of_lt hnew)
    refine Nat.le_of_mul_le_mul_left ?_ hpos
    rwa [← Nat.pow_add, Nat.add_sub_cancel' hzeros]
  have hvalue : value old l = value old rest := by
    rw [hsplit]
    exact value_replicate_zero_append old (zeros l) rest
  have hdigits := (Nat.digits_length_le_iff hnew _).mpr (lt_of_lt_of_le hrest hfits)
  rw [convert_eq (Nat.zero_lt_of_lt hold) hnew, List.length_append, List.length_replicate,
    List.length_reverse, hvalue]
  omega

end Radix
