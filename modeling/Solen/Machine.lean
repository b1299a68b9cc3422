import Mathlib.Data.Nat.Basic
import Mathlib.Tactic.Ring

/-!
# Fixed-width arithmetic and byte encodings

Unsigned machine integers are bit vectors: `+`, `-` and `*` on
`BitVec w` wrap modulo `2 ^ w`, which is what release-built integer
code does, and the saturating and checked forms are defined here on
top of them. Each operation comes with one lemma that says what it
does to the unsigned value, so that later proofs are linear arithmetic
over `toNat`.

The second half is the fixed-width little-endian encoding of naturals
and its two round trips.
-/

namespace Machine

abbrev U128 := BitVec 128

abbrev U64 := BitVec 64

abbrev Bytes := List UInt8

variable {w : Nat}

/-! ## Saturating and checked operations -/

def satAdd (a b : BitVec w) : BitVec w :=
  if a.toNat + b.toNat < 2 ^ w then a + b else BitVec.allOnes w

def satSub (a b : BitVec w) : BitVec w :=
  if b ≤ a then a - b else 0#w

def satMul (a b : BitVec w) : BitVec w :=
  if a.toNat * b.toNat < 2 ^ w then a * b else BitVec.allOnes w

def checkedAdd (a b : BitVec w) : Option (BitVec w) :=
  if a.toNat + b.toNat < 2 ^ w then some (a + b) else none

/-- The smaller of two unsigned values. -/
def umin (a b : BitVec w) : BitVec w := if a ≤ b then a else b

theorem toNat_umin (a b : BitVec w) : (umin a b).toNat = min a.toNat b.toNat := by
  unfold umin
  split
  · next h => rw [BitVec.le_def] at h; omega
  · next h => rw [BitVec.le_def] at h; omega

theorem toNat_add_of_lt {a b : BitVec w} (h : a.toNat + b.toNat < 2 ^ w) :
    (a + b).toNat = a.toNat + b.toNat := by
  rw [BitVec.toNat_add, Nat.mod_eq_of_lt h]

theorem toNat_satAdd (a b : BitVec w) :
    (satAdd a b).toNat = min (a.toNat + b.toNat) (2 ^ w - 1) := by
  unfold satAdd
  split
  · next h => rw [toNat_add_of_lt h]; omega
  · next h => rw [BitVec.toNat_allOnes]; omega

theorem toNat_satAdd_of_lt {a b : BitVec w} (h : a.toNat + b.toNat < 2 ^ w) :
    (satAdd a b).toNat = a.toNat + b.toNat := by
  rw [toNat_satAdd]; omega

theorem toNat_satAdd_eq_add_iff (a b : BitVec w) :
    (satAdd a b).toNat = a.toNat + b.toNat ↔ a.toNat + b.toNat < 2 ^ w := by
  have hpos := Nat.two_pow_pos w
  rw [toNat_satAdd]
  omega

theorem toNat_add_eq_add_iff (a b : BitVec w) :
    (a + b).toNat = a.toNat + b.toNat ↔ a.toNat + b.toNat < 2 ^ w := by
  constructor
  · intro h
    rw [← h]
    exact (a + b).isLt
  · exact toNat_add_of_lt

theorem toNat_satSub (a b : BitVec w) : (satSub a b).toNat = a.toNat - b.toNat := by
  unfold satSub
  split
  · next h => exact BitVec.toNat_sub_of_le h
  · next h =>
      have hlt : a.toNat < b.toNat := by simpa [BitVec.le_def] using h
      rw [BitVec.toNat_zero]; omega

theorem toNat_satMul (a b : BitVec w) :
    (satMul a b).toNat = min (a.toNat * b.toNat) (2 ^ w - 1) := by
  unfold satMul
  split
  · next h => rw [BitVec.toNat_mul, Nat.mod_eq_of_lt h]; omega
  · next h => rw [BitVec.toNat_allOnes]; omega

theorem foldl_add_eq_ofNat {α : Type} (f : α → BitVec w) (l : List α) (t : BitVec w) :
    l.foldl (fun t a => t + f a) t = t + BitVec.ofNat w (l.map fun a => (f a).toNat).sum := by
  induction l generalizing t with
  | nil => simp
  | cons a l ih =>
    rw [List.foldl_cons, ih, List.map_cons, List.sum_cons, BitVec.ofNat_add,
      BitVec.ofNat_toNat, BitVec.setWidth_eq, BitVec.add_assoc]

/-- A wrapping sum is exact as long as the total fits. -/
theorem toNat_foldl_add {α : Type} {f : α → BitVec w} {l : List α}
    (h : (l.map fun a => (f a).toNat).sum < 2 ^ w) :
    (l.foldl (fun t a => t + f a) 0#w).toNat = (l.map fun a => (f a).toNat).sum := by
  rw [foldl_add_eq_ofNat, BitVec.zero_add, BitVec.toNat_ofNat, Nat.mod_eq_of_lt h]

theorem toNat_foldl_add_le {α : Type} (f : α → BitVec w) (l : List α) :
    (l.foldl (fun t a => t + f a) 0#w).toNat ≤ (l.map fun a => (f a).toNat).sum := by
  rw [foldl_add_eq_ofNat, BitVec.zero_add, BitVec.toNat_ofNat]
  exact Nat.mod_le _ _

theorem checkedAdd_eq_some {a b c : BitVec w} :
    checkedAdd a b = some c ↔ c.toNat = a.toNat + b.toNat := by
  unfold checkedAdd
  split
  · next h =>
      rw [Option.some.injEq, ← BitVec.toNat_inj, toNat_add_of_lt h]
      exact eq_comm
  · next h =>
      have := c.isLt
      simp only [reduceCtorEq, false_iff]
      omega

/-! ## Little-endian bytes -/

/-- The `n` little-endian bytes of `v`; higher bits are dropped. -/
def toLeBytes : Nat → Nat → Bytes
  | 0, _ => []
  | n + 1, v => UInt8.ofNat (v % 256) :: toLeBytes n (v / 256)

def fromLeBytes : Bytes → Nat
  | [] => 0
  | b :: bs => b.toNat + 256 * fromLeBytes bs

/-- The `n` big-endian bytes of `v`. -/
def toBeBytes (n v : Nat) : Bytes := (toLeBytes n v).reverse

@[simp] theorem length_toLeBytes (n v : Nat) : (toLeBytes n v).length = n := by
  induction n generalizing v with
  | zero => rfl
  | succ n ih => simp [toLeBytes, ih]

@[simp] theorem length_toBeBytes (n v : Nat) : (toBeBytes n v).length = n := by
  simp [toBeBytes]

theorem fromLeBytes_toLeBytes {n v : Nat} (h : v < 256 ^ n) :
    fromLeBytes (toLeBytes n v) = v := by
  induction n generalizing v with
  | zero => simp only [pow_zero, Nat.lt_one_iff] at h; simp [toLeBytes, fromLeBytes, h]
  | succ n ih =>
    have hq : v / 256 < 256 ^ n := by
      rw [Nat.div_lt_iff_lt_mul (by decide)]; rwa [pow_succ] at h
    have hr : (UInt8.ofNat (v % 256)).toNat = v % 256 := by
      rw [UInt8.toNat_ofNat']; omega
    rw [toLeBytes, fromLeBytes, ih hq, hr]
    omega

theorem fromLeBytes_lt (bs : Bytes) : fromLeBytes bs < 256 ^ bs.length := by
  induction bs with
  | nil => simp [fromLeBytes]
  | cons b bs ih =>
    have hb : b.toNat < 256 := b.toNat_lt
    rw [fromLeBytes, List.length_cons, pow_succ]
    omega

end Machine
