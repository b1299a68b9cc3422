import Mathlib

/-!
# Weighted ballots

Voters carry weights. A set of voters is a quorum if it has more than
two thirds of the weight of all; two quorums share voters of more than
one third. An election over a list keeps the best entry seen so far;
for a strict total order the outcome depends only on which entries
there are, not on the order they come in.
-/

namespace Ballot

/-! ## Quorums -/

section Quorums

variable {ι : Type} (w : ι → Nat) (l : List ι)

/-- The weight of the voters of `l` in a set. -/
def weight (p : ι → Bool) : Nat := ((l.filter p).map w).sum

def total : Nat := (l.map w).sum

def Quorum (p : ι → Bool) : Prop := 2 * total w l < 3 * weight w l p

variable {w l} {p q : ι → Bool}

theorem weight_cons (a : ι) (l : List ι) (p : ι → Bool) :
    weight w (a :: l) p = (if p a then w a else 0) + weight w l p := by
  cases ha : p a with
  | true => simp [weight, ha]
  | false => simp [weight, ha]

/-- Inclusion and exclusion, as far as quorums need it. -/
theorem weight_add_weight_le (l : List ι) :
    weight w l p + weight w l q ≤ total w l + weight w l (fun a => p a && q a) := by
  induction l with
  | nil => rfl
  | cons a l ih =>
    have htotal : total w (a :: l) = w a + total w l := List.sum_cons
    rw [weight_cons, weight_cons, weight_cons, htotal]
    cases p a <;> cases q a <;> simp <;> omega

theorem weight_eq_zero (h : ∀ a ∈ l, p a = false) : weight w l p = 0 := by
  have hnil : l.filter p = [] := List.filter_eq_nil_iff.mpr fun a ha => by simp [h a ha]
  rw [weight, hnil]
  rfl

/-- Disjoint sets weigh at most as much as all voters together. -/
theorem weight_add_weight_le_total (h : ∀ a ∈ l, p a = true → q a = false) :
    weight w l p + weight w l q ≤ total w l := by
  have hle := weight_add_weight_le (w := w) (p := p) (q := q) l
  have hnone : weight w l (fun a => p a && q a) = 0 := weight_eq_zero fun a ha => by
    cases hp : p a with
    | true => simp [h a ha hp]
    | false => rfl
  omega

theorem Quorum.weight_inter (hp : Quorum w l p) (hq : Quorum w l q) :
    total w l < 3 * weight w l (fun a => p a && q a) := by
  have hle := weight_add_weight_le (w := w) (p := p) (q := q) l
  unfold Quorum at hp hq
  omega

theorem Quorum.meets (hp : Quorum w l p) (hq : Quorum w l q) :
    ∃ a ∈ l, p a = true ∧ q a = true := by
  by_contra hcon
  push Not at hcon
  have hinter := hp.weight_inter hq
  rw [weight_eq_zero fun a ha => ?_] at hinter
  · exact Nat.not_lt_zero _ hinter
  · cases hpa : p a with
    | true => simpa using hcon a ha hpa
    | false => rfl

/-- What has no voter in common with a quorum weighs less. -/
theorem Quorum.weight_lt (hp : Quorum w l p) (h : ∀ a ∈ l, p a = true → q a = false) :
    weight w l q < weight w l p := by
  have hle := weight_add_weight_le_total (w := w) h
  unfold Quorum at hp
  omega

end Quorums

/-! ## Elections -/

section Elections

variable {α : Type} (better : α → α → Bool)

/-- One more candidate. -/
def challenge (best : Option α) (c : α) : Option α :=
  match best with
  | none => some c
  | some b => if better c b then some c else some b

def elect (l : List α) : Option α := l.foldl (challenge better) none

/-- `better` is a strict total order. -/
structure Decisive : Prop where
  irrefl : ∀ a, better a a = false
  trans : ∀ a b c, better a b = true → better b c = true → better a c = true
  total : ∀ a b, a ≠ b → better a b = true ∨ better b a = true

variable {better} (hd : Decisive better)

include hd

theorem Decisive.asymm {a b : α} (h : better a b = true) : better b a = false := by
  cases hba : better b a with
  | false => rfl
  | true =>
    have haa := hd.trans a b a h hba
    rw [hd.irrefl] at haa
    cases haa

/-- One of the two stays, and it beats the other. -/
theorem challenge_some (b x : α) :
    ∃ m ∈ [b, x], challenge better (some b) x = some m ∧
      ∀ c ∈ [b, x], c ≠ m → better m c = true := by
  rw [challenge]
  cases hx : better x b with
  | true =>
    refine ⟨x, by simp, rfl, fun c hc hne => ?_⟩
    rcases List.mem_pair.mp hc with rfl | rfl
    · exact hx
    · exact absurd rfl hne
  | false =>
    refine ⟨b, by simp, rfl, fun c hc hne => ?_⟩
    rcases List.mem_pair.mp hc with rfl | rfl
    · exact absurd rfl hne
    · exact (hd.total b c hne.symm).resolve_right (by simp [hx])

theorem foldl_challenge (l : List α) (b : α) :
    ∃ m ∈ b :: l, l.foldl (challenge better) (some b) = some m ∧
      ∀ c ∈ b :: l, c ≠ m → better m c = true := by
  induction l generalizing b with
  | nil => exact ⟨b, by simp, rfl, fun c hc hne => absurd (List.mem_singleton.mp hc) hne⟩
  | cons x l ih =>
    obtain ⟨b', hb', hstep, hbeats⟩ := challenge_some hd b x
    obtain ⟨m, hm, hfold, hall⟩ := ih b'
    have hsub : ∀ c, c ∈ b :: x :: l ↔ c ∈ [b, x] ∨ c ∈ l := by simp [or_assoc]
    refine ⟨m, ?_, ?_, fun c hc hne => ?_⟩
    · rcases List.mem_cons.mp hm with rfl | hm
      · exact (hsub _).mpr (.inl hb')
      · exact (hsub _).mpr (.inr hm)
    · rw [List.foldl_cons, hstep, hfold]
    · rcases (hsub c).mp hc with hc | hc
      · by_cases hcb : c = b'
        · exact hall c (hcb ▸ List.mem_cons_self) hne
        -- `c` lost to `b'`, which is the winner or lost to it.
        by_cases hbm : b' = m
        · exact hbm ▸ hbeats c hc hcb
        · exact hd.trans m b' c (hall b' List.mem_cons_self hbm) (hbeats c hc hcb)
      · exact hall c (List.mem_cons_of_mem _ hc) hne

theorem elect_eq_some_iff (l : List α) (m : α) :
    elect better l = some m ↔ m ∈ l ∧ ∀ c ∈ l, c ≠ m → better m c = true := by
  cases l with
  | nil => simp [elect]
  | cons b l =>
    obtain ⟨m', hm', hfold, hall'⟩ := foldl_challenge hd l b
    change l.foldl (challenge better) (some b) = some m ↔ _
    rw [hfold, Option.some.injEq]
    constructor
    · rintro rfl
      exact ⟨hm', hall'⟩
    · rintro ⟨hm, hall⟩
      by_contra hne
      have hlose := hd.asymm (hall m' hm' hne)
      rw [hall' m hm (Ne.symm hne)] at hlose
      cases hlose

/-- Only the set of candidates matters. -/
theorem elect_congr {l l' : List α} (h : ∀ a, a ∈ l ↔ a ∈ l') :
    elect better l = elect better l' := by
  refine Option.ext fun m => ?_
  rw [elect_eq_some_iff hd, elect_eq_some_iff hd]
  simp only [h]

end Elections

end Ballot
