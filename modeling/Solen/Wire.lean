import Solen.Machine

/-!
# Wire forms

Values that are written one after another and read back from the front.
A byte string is delimited by a mark in front of each byte and one at
its end, so nothing is said about lengths and every value has a form.
Numbers, and what is counted by them, are written as their bytes.
-/

namespace Machine

/-- A form for `α` that is read back in front of any other data. -/
class Wire (α : Type) where
  put : α → Bytes
  take : Bytes → Option (α × Bytes)
  take_put : ∀ a rest, take (put a ++ rest) = some (a, rest)

namespace Wire

variable {α β : Type}

/-! ## Delimited byte strings -/

def putBytes : Bytes → Bytes
  | [] => [0]
  | b :: bs => 1 :: b :: putBytes bs

def takeBytes : Bytes → Option (Bytes × Bytes)
  | 0 :: rest => some ([], rest)
  | _ :: b :: bs => (takeBytes bs).map fun r => (b :: r.1, r.2)
  | _ => none

theorem takeBytes_putBytes (bs rest : Bytes) :
    takeBytes (putBytes bs ++ rest) = some (bs, rest) := by
  induction bs with
  | nil => rfl
  | cons b bs ih =>
    change (takeBytes (putBytes bs ++ rest)).map _ = _
    rw [ih]
    rfl

/-- Values with a form in bytes that has no end of its own. -/
@[reducible] def delimited (toBytes : α → Bytes) (ofBytes : Bytes → Option α)
    (h : ∀ a, ofBytes (toBytes a) = some a) : Wire α where
  put a := putBytes (toBytes a)
  take bs := (takeBytes bs).bind fun r => (ofBytes r.1).map fun a => (a, r.2)
  take_put a rest := by rw [takeBytes_putBytes, Option.bind_some, h, Option.map_some]

/-- Values that are written as others. -/
@[reducible] def via [Wire β] (f : α → β) (g : β → α) (h : ∀ a, g (f a) = a) : Wire α where
  put a := put (f a)
  take bs := (take bs).map fun r => (g r.1, r.2)
  take_put a rest := by rw [take_put, Option.map_some, h]

/-! ## Numbers -/

theorem lt_pow_log2 (n : Nat) : n < 256 ^ (n.log2 / 8 + 1) := by
  calc n < 2 ^ (n.log2 + 1) := Nat.lt_log2_self
    _ ≤ 2 ^ (8 * (n.log2 / 8 + 1)) := Nat.pow_le_pow_right (by decide) (by omega)
    _ = 256 ^ (n.log2 / 8 + 1) := by rw [Nat.pow_mul]

instance : Wire Nat :=
  delimited (fun n => toLeBytes (n.log2 / 8 + 1) n) (fun bs => some (fromLeBytes bs)) fun n => by
    rw [fromLeBytes_toLeBytes (lt_pow_log2 n)]

instance {w : Nat} : Wire (BitVec w) := via BitVec.toNat (BitVec.ofNat w) (by simp)

instance : Wire UInt8 := via UInt8.toNat UInt8.ofNat (by simp)

instance : Wire Char := via Char.toNat Char.ofNat (by simp)

instance : Wire Bool := via Bool.toNat (· == 1) (by decide)

/-! ## Pairs, alternatives and lists -/

instance : Wire Unit where
  put _ := []
  take bs := some ((), bs)
  take_put _ _ := rfl

instance [Wire α] [Wire β] : Wire (α × β) where
  put p := put p.1 ++ put p.2
  take bs := (take bs).bind fun r => (take r.2).map fun r' => ((r.1, r'.1), r'.2)
  take_put p rest := by
    rw [List.append_assoc, take_put, Option.bind_some, take_put, Option.map_some]

instance [Wire α] [Wire β] : Wire (α ⊕ β) where
  put
    | .inl a => 0 :: put a
    | .inr b => 1 :: put b
  take
    | 0 :: bs => (take bs).map fun r => (.inl r.1, r.2)
    | _ :: bs => (take bs).map fun r => (.inr r.1, r.2)
    | [] => none
  take_put s rest := by
    cases s with
    | inl a =>
      change (take (put a ++ rest)).map _ = _
      rw [take_put, Option.map_some]
    | inr b =>
      change (take (put b ++ rest)).map _ = _
      rw [take_put, Option.map_some]

instance [Wire α] : Wire (Option α) :=
  via (fun o => o.elim (Sum.inl ()) Sum.inr) (Sum.elim (fun _ => none) some) fun o => by
    cases o <;> rfl

def takeMany [Wire α] : Nat → Bytes → Option (List α × Bytes)
  | 0, bs => some ([], bs)
  | n + 1, bs => (take bs).bind fun r => (takeMany n r.2).map fun r' => (r.1 :: r'.1, r'.2)

theorem takeMany_flatMap [Wire α] (l : List α) (rest : Bytes) :
    takeMany l.length (l.flatMap put ++ rest) = some (l, rest) := by
  induction l with
  | nil => rfl
  | cons a l ih =>
    rw [List.flatMap_cons, List.append_assoc, List.length_cons, takeMany, take_put,
      Option.bind_some, ih, Option.map_some]

instance [Wire α] : Wire (List α) where
  put l := put l.length ++ l.flatMap put
  take bs := (take bs).bind fun r => takeMany r.1 r.2
  take_put l rest := by
    rw [List.append_assoc, take_put, Option.bind_some, takeMany_flatMap]

instance : Wire String := via String.toList String.ofList (by simp)

end Wire

end Machine
