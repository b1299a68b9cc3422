import Mathlib
import Solen.Machine

/-!
# Pro rata shares

Shares `a * b / c` of an amount, rounded down, with a product that
saturates: each is at most the exact share, and shares by parts of a whole
never add up to more than the amount.
-/

namespace Machine

variable {w : Nat}

/-- Rounding down and saturation only lower a share. -/
theorem toNat_satMul_div_le (a b c : BitVec w) :
    (satMul a b / c).toNat ≤ a.toNat * b.toNat / c.toNat := by
  rw [BitVec.toNat_udiv, toNat_satMul]
  exact Nat.div_le_div_right (Nat.min_le_left _ _)

/-- The share of a part is at most the amount. -/
theorem toNat_satMul_div_le_self {a b c : BitVec w} (h : b.toNat ≤ c.toNat) :
    (satMul a b / c).toNat ≤ a.toNat := by
  refine (toNat_satMul_div_le a b c).trans (Nat.div_le_of_le_mul ?_)
  rw [Nat.mul_comm c.toNat]
  exact Nat.mul_le_mul_left _ h

theorem sum_div_le {α : Type} (f : α → Nat) (c : Nat) (l : List α) :
    (l.map fun x => f x / c).sum ≤ (l.map f).sum / c := by
  induction l with
  | nil => exact Nat.zero_le _
  | cons x l ih =>
    simp only [List.map_cons, List.sum_cons]
    exact (Nat.add_le_add_left ih _).trans (Nat.div_add_div_le_add_div)

/-- The shares of the parts of a whole `c`. -/
theorem sum_share_le {α : Type} {a c : BitVec w} {f : α → BitVec w} {l : List α}
    (h : (l.map fun x => (f x).toNat).sum ≤ c.toNat) :
    (l.map fun x => (satMul a (f x) / c).toNat).sum ≤ a.toNat := by
  calc (l.map fun x => (satMul a (f x) / c).toNat).sum
      ≤ (l.map fun x => a.toNat * (f x).toNat / c.toNat).sum :=
        List.sum_le_sum fun x _ => toNat_satMul_div_le a (f x) c
    _ ≤ (l.map fun x => a.toNat * (f x).toNat).sum / c.toNat := sum_div_le _ _ l
    _ = a.toNat * (l.map fun x => (f x).toNat).sum / c.toNat := by rw [List.sum_map_mul_left]
    _ ≤ a.toNat := by
        refine Nat.div_le_of_le_mul ?_
        rw [Nat.mul_comm c.toNat]
        exact Nat.mul_le_mul_left _ h

end Machine
