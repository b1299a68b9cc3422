import Solen.Vesting

/-!
# What claims pay

Runs of `claim` on the contract in memory, at any epochs and by anyone.
A claim looks only at the first schedule of its recipient and brings
what was claimed of it up to what has vested, so the payments of a run
add up to what had vested at the last one (`claimed_add_paid`). A
second schedule of the same recipient is never looked at, and what it
promises is never paid.
-/

namespace Solen

open Machine

/-! ## Runs of claims -/

structure Payout where
  recipient : AccountId
  epoch : U64
  amount : U128
deriving DecidableEq

namespace VestingContract

/-- The payments of a sequence of claims; one that fails changes nothing. -/
def payouts : VestingContract → List (AccountId × U64) → List Payout
  | _, [] => []
  | c, (r, e) :: calls =>
      match c.claim r e with
      | .ok (c', amount) => ⟨r, e, amount⟩ :: payouts c' calls
      | .error _ => payouts c calls

def payoutsTo (c : VestingContract) (r : AccountId) (calls : List (AccountId × U64)) :
    List Payout :=
  (c.payouts calls).filter (·.recipient = r)

def schedulesOf (c : VestingContract) (r : AccountId) : List VestingSchedule :=
  c.schedules.filter (·.recipient == r)

end VestingContract

def sumPaid (ps : List Payout) : Nat := (ps.map (·.amount.toNat)).sum

theorem sumPaid_cons (p : Payout) (ps : List Payout) :
    sumPaid (p :: ps) = p.amount.toNat + sumPaid ps :=
  List.sum_cons

/-- The last payment is the first one if no other follows. -/
theorem getLast?_cons_getD (g : Payout → Nat) (p : Payout) (ps : List Payout) (d : Nat) :
    ((p :: ps).getLast?.map g).getD d = (ps.getLast?.map g).getD (g p) := by
  rw [List.getLast?_cons, Option.getD_map]
  rfl

namespace VestingContract

variable {c c' : VestingContract} {r : AccountId} {sch : VestingSchedule}

theorem getSchedule_eq_head? (c : VestingContract) (r : AccountId) :
    c.getSchedule r = (c.schedulesOf r).head? :=
  List.head?_filter.symm

theorem payoutsTo_cons_ok {e : U64} {amount : U128} (h : c.claim r e = .ok (c', amount))
    (calls : List (AccountId × U64)) :
    c.payoutsTo r ((r, e) :: calls) = ⟨r, e, amount⟩ :: c'.payoutsTo r calls := by
  rw [payoutsTo, payouts, h]
  simp [payoutsTo]

theorem payoutsTo_cons_error {q : AccountId} {e : U64} {err : VestingError}
    (h : c.claim q e = .error err) (calls : List (AccountId × U64)) :
    c.payoutsTo r ((q, e) :: calls) = c.payoutsTo r calls := by
  rw [payoutsTo, payouts, h, payoutsTo]

theorem payoutsTo_cons_of_ne {q : AccountId} {e : U64} {amount : U128}
    (h : c.claim q e = .ok (c', amount)) (hne : q ≠ r) (calls : List (AccountId × U64)) :
    c.payoutsTo r ((q, e) :: calls) = c'.payoutsTo r calls := by
  rw [payoutsTo, payouts, h]
  simp [payoutsTo, hne]

/-- As long as no claim comes at an epoch with less vested than before, what
had been claimed and what the run pays add up to what had vested at its
last payment. -/
theorem claimed_add_paid (calls : List (AccountId × U64)) (hsch : c.getSchedule r = some sch)
    (hclaimed : ∀ call ∈ calls, sch.claimed.toNat ≤ (sch.vestedAt call.2).toNat)
    (hcalls : calls.Pairwise fun a b => (sch.vestedAt a.2).toNat ≤ (sch.vestedAt b.2).toNat) :
    sch.claimed.toNat + sumPaid (c.payoutsTo r calls) =
      ((c.payoutsTo r calls).getLast?.map fun p => (sch.vestedAt p.epoch).toNat).getD
        sch.claimed.toNat := by
  induction calls generalizing c sch with
  | nil => rfl
  | cons call calls ih =>
    obtain ⟨q, e⟩ := call
    obtain ⟨hfirst, hrest⟩ := List.forall_mem_cons.mp hclaimed
    obtain ⟨hlater, hpair⟩ := List.pairwise_cons.mp hcalls
    change sch.claimed.toNat ≤ (sch.vestedAt e).toNat at hfirst
    cases hclaim : c.claim q e with
    | error err =>
      rw [payoutsTo_cons_error hclaim]
      exact ih hsch hrest hpair
    | ok p =>
      obtain ⟨c', amount⟩ := p
      obtain ⟨sch', hsch', rfl, hown, hother⟩ := claim_eq_ok hclaim
      by_cases hq : q = r
      · subst hq
        cases hsch.symm.trans hsch'
        have hamount : (sch.claimableAt e).toNat =
            (sch.vestedAt e).toNat - sch.claimed.toNat := toNat_satSub _ _
        have hup : (sch.claimed + sch.claimableAt e).toNat = (sch.vestedAt e).toNat := by
          rw [BitVec.toNat_add, hamount, Nat.add_sub_cancel' hfirst,
            Nat.mod_eq_of_lt (sch.vestedAt e).isLt]
        -- the payment moves `claimed` to what has vested; the rest of the run starts there
        have hih := ih hown (fun call hmem => hup.trans_le (hlater call hmem)) hpair
        change (sch.claimed + sch.claimableAt e).toNat + _ =
          (Option.map (fun p : Payout => (sch.vestedAt p.epoch).toNat) _).getD
            (sch.claimed + sch.claimableAt e).toNat at hih
        rw [hup] at hih
        rw [payoutsTo_cons_ok hclaim, getLast?_cons_getD, ← hih, sumPaid_cons, hamount]
        omega
      · rw [payoutsTo_cons_of_ne hclaim hq]
        exact ih ((hother r (Ne.symm hq)).trans hsch) hrest hpair

/-- Vesting is monotone and bounded by the allocation, and claims at epochs
that do not go back pay exactly what had vested at the last payment. -/
theorem vesting_paid_exactly :
    (∀ (s : VestingSchedule) (e e' : U64), e ≤ e' → s.vestedAt e ≤ s.vestedAt e') ∧
      (∀ (s : VestingSchedule) (e : U64), s.vestedAt e ≤ s.totalAmount) ∧
      ∀ (c : VestingContract) (r : AccountId) (s : VestingSchedule)
        (calls : List (AccountId × U64)), c.schedulesOf r = [s] → s.claimed = 0#128 →
        calls.Pairwise (fun a b => a.2 ≤ b.2) →
          sumPaid (c.payoutsTo r calls) =
            ((c.payoutsTo r calls).getLast?.map fun p => (s.vestedAt p.epoch).toNat).getD 0 := by
  refine ⟨fun s e e' h => s.vestedAt_mono h, fun s e => s.vestedAt_le_total e,
    fun c r s calls hone hzero hcalls => ?_⟩
  have hsch : c.getSchedule r = some s := by rw [getSchedule_eq_head?, hone]; rfl
  have hpaid := claimed_add_paid calls hsch (fun call _ => by rw [hzero]; exact Nat.zero_le _)
    (hcalls.imp fun h => s.vestedAt_mono h)
  rw [hzero] at hpaid
  simpa using hpaid

/-- 1000 units for one recipient, after a cliff of 10 epochs over 30. -/
def oneGrant : VestingContract :=
  ({} : VestingContract).addSchedule (Hash.repeated 1) 1000#128 (.custom 10#64 40#64) 5#64

/-- A claim in the cliff, one half way and one at the end. -/
theorem vesting_paid_exactly_oneGrant :
    sumPaid (oneGrant.payoutsTo (Hash.repeated 1)
      [(Hash.repeated 1, 9#64), (Hash.repeated 1, 30#64), (Hash.repeated 1, 50#64)]) = 1000 :=
  (vesting_paid_exactly.2.2 oneGrant (Hash.repeated 1) _ _ rfl rfl (by decide)).trans
    (by decide +kernel)

/-! ## Schedules that are never claimed -/

/-- A call that adds a schedule, by the node itself or by the admin. -/
inductive Addition where
  | direct (recipient : AccountId) (totalAmount : U128) (vestingType : VestingType)
      (startEpoch : U64)
  | admin (caller recipient : AccountId) (totalAmount : U128) (vestingType : VestingType)
      (startEpoch : U64)

/-- A refused addition changes nothing. -/
def add (c : VestingContract) : Addition → VestingContract
  | .direct recipient totalAmount vestingType startEpoch =>
      c.addSchedule recipient totalAmount vestingType startEpoch
  | .admin caller recipient totalAmount vestingType startEpoch =>
      match c.addScheduleAdmin caller recipient totalAmount vestingType startEpoch with
      | .ok c' => c'
      | .error _ => c

/-- A contract with the given admin, and the schedules that were added to it. -/
def built (admin : Option AccountId) (additions : List Addition) : VestingContract :=
  additions.foldl add { admin := admin }

theorem unclaimed_add {c : VestingContract} (h : ∀ s ∈ c.schedules, s.claimed = 0#128)
    (a : Addition) : ∀ s ∈ (c.add a).schedules, s.claimed = 0#128 := by
  have hpush : ∀ (recipient : AccountId) (totalAmount : U128) (vestingType : VestingType)
      (startEpoch : U64), ∀ s ∈ (c.addSchedule recipient totalAmount vestingType
        startEpoch).schedules, s.claimed = 0#128 := by
    intro recipient totalAmount vestingType startEpoch s hs
    rcases List.mem_append.mp hs with hs | hs
    · exact h s hs
    · rw [List.mem_singleton.mp hs]
  cases a with
  | direct recipient totalAmount vestingType startEpoch => exact hpush _ _ _ _
  | admin caller recipient totalAmount vestingType startEpoch =>
    rw [add, addScheduleAdmin]
    split
    · next c' hc =>
        split at hc
        · cases hc
          exact hpush _ _ _ _
        · cases hc
    · exact h

theorem unclaimed_built (admin : Option AccountId) (additions : List Addition) :
    ∀ s ∈ (built admin additions).schedules, s.claimed = 0#128 := by
  unfold built
  refine List.foldlRecOn additions add (motive := fun c => ∀ s ∈ c.schedules, s.claimed = 0#128)
    ?_ fun c hc a _ => unclaimed_add hc a
  intro s hs
  cases hs

end VestingContract

/-- Cliff and duration of the schedule are over. -/
def VestingSchedule.Ended (s : VestingSchedule) (e : U64) : Prop :=
  s.vestingType.cliffEpochs ≤ satSub e s.startEpoch ∧
    s.vestingType.totalEpochs ≤ satSub e s.startEpoch

instance decidableEnded (s : VestingSchedule) (e : U64) : Decidable (s.Ended e) :=
  inferInstanceAs (Decidable (_ ∧ _))

theorem VestingSchedule.Ended.vestedAt {s : VestingSchedule} {e : U64} (h : s.Ended e) :
    s.vestedAt e = s.totalAmount := by
  rw [VestingSchedule.vestedAt, if_neg (by rw [BitVec.not_lt]; exact h.1), if_pos h.2]

namespace VestingContract

variable {c : VestingContract} {r : AccountId} {sch : VestingSchedule}

/-- After the end one claim pays the rest of the first schedule, and no other
pays anything. -/
theorem sumPaid_of_ended {epochs : List U64} (hsch : c.getSchedule r = some sch)
    (hle : sch.claimed.toNat ≤ sch.totalAmount.toNat) (hended : ∀ e ∈ epochs, sch.Ended e) :
    sch.claimed.toNat + sumPaid (c.payoutsTo r (epochs.map (r, ·))) =
      if epochs = [] then sch.claimed.toNat else sch.totalAmount.toNat := by
  induction epochs generalizing c sch with
  | nil => rfl
  | cons e epochs ih =>
    obtain ⟨hend, hrest⟩ := List.forall_mem_cons.mp hended
    have hleft : (sch.claimableAt e).toNat = sch.totalAmount.toNat - sch.claimed.toNat := by
      rw [VestingSchedule.claimableAt, hend.vestedAt, toNat_satSub]
    rw [if_neg (List.cons_ne_nil e epochs), List.map_cons]
    cases hclaim : c.claim r e with
    | error err =>
      rw [claim_eq_error hsch hclaim] at hleft
      have hall : sch.claimed.toNat = sch.totalAmount.toNat := by
        simp only [BitVec.toNat_ofNat, Nat.zero_mod] at hleft
        omega
      rw [payoutsTo_cons_error hclaim, ih hsch hle hrest, hall, ite_self]
    | ok p =>
      obtain ⟨c', amount⟩ := p
      obtain ⟨sch', hsch', rfl, hown, -⟩ := claim_eq_ok hclaim
      cases hsch.symm.trans hsch'
      have hup : (sch.claimed + sch.claimableAt e).toNat = sch.totalAmount.toNat := by
        rw [BitVec.toNat_add, hleft, Nat.add_sub_cancel' hle,
          Nat.mod_eq_of_lt sch.totalAmount.isLt]
      have hih := ih hown hup.le hrest
      change (sch.claimed + sch.claimableAt e).toNat + _ =
        if epochs = [] then (sch.claimed + sch.claimableAt e).toNat
        else sch.totalAmount.toNat at hih
      rw [hup, ite_self] at hih
      rw [payoutsTo_cons_ok hclaim, sumPaid_cons, hleft]
      omega

/-- All that the schedules of a recipient promise. -/
def promised (c : VestingContract) (r : AccountId) : Nat :=
  ((c.schedulesOf r).map (·.totalAmount.toNat)).sum

/-- Claims after the end of all schedules pay everything they promise exactly
if no schedule but the first promises anything. -/
theorem all_claimable_iff (admin : Option AccountId) (additions : List Addition) (r : AccountId)
    (epochs : List U64) (hne : epochs ≠ [])
    (hended : ∀ s ∈ (built admin additions).schedulesOf r, ∀ e ∈ epochs, s.Ended e) :
    sumPaid ((built admin additions).payoutsTo r (epochs.map (r, ·))) =
        (built admin additions).promised r ↔
      ∀ s ∈ ((built admin additions).schedulesOf r).tail, s.totalAmount = 0#128 := by
  have hunclaimed := unclaimed_built admin additions
  revert hended hunclaimed
  generalize built admin additions = c
  intro hended hunclaimed
  have hhead := getSchedule_eq_head? c r
  cases hof : c.schedulesOf r with
  | nil =>
      rw [hof] at hhead
      have hnone : c.payoutsTo r (epochs.map (r, ·)) = [] := by
        clear hended hne
        induction epochs with
        | nil => rfl
        | cons e epochs ih =>
            have hclaim : c.claim r e = .error .notFound := by rw [claim, hhead]; rfl
            rw [List.map_cons, payoutsTo_cons_error hclaim, ih]
      simp [hnone, promised, hof, sumPaid]
  | cons sch rest =>
      rw [hof] at hhead hended
      have hmem : sch ∈ c.schedulesOf r := hof ▸ List.mem_cons_self
      have hzero := hunclaimed sch (List.mem_of_mem_filter hmem)
      have hpaid := sumPaid_of_ended hhead (by rw [hzero]; exact Nat.zero_le _)
        (hended sch List.mem_cons_self)
      rw [if_neg hne, hzero] at hpaid
      have hsum : c.promised r = sch.totalAmount.toNat + (rest.map (·.totalAmount.toNat)).sum := by
        rw [promised, hof, List.map_cons, List.sum_cons]
      have hrest : (rest.map (·.totalAmount.toNat)).sum = 0 ↔
          ∀ s ∈ rest, s.totalAmount = 0#128 := by
        simp [List.sum_eq_zero_iff, BitVec.toNat_eq]
      rw [hsum, List.tail_cons, ← hrest]
      simp only [BitVec.toNat_ofNat, Nat.zero_mod] at hpaid
      omega

/-- Two grants for one recipient, both over after 40 epochs. -/
def twoGrants : List Addition :=
  [.direct (Hash.repeated 1) 1000#128 (.custom 10#64 40#64) 0#64,
    .direct (Hash.repeated 1) 500#128 (.custom 10#64 40#64) 0#64]

theorem ended_of_all {l : List VestingSchedule} {epochs : List U64}
    (h : (l.all fun s => epochs.all fun e => s.Ended e) = true) :
    ∀ s ∈ l, ∀ e ∈ epochs, s.Ended e := by
  simpa using h

theorem all_claimable_iff_oneGrant :
    sumPaid ((built none (twoGrants.take 1)).payoutsTo (Hash.repeated 1)
      ([50#64, 51#64].map (Hash.repeated 1, ·))) =
        (built none (twoGrants.take 1)).promised (Hash.repeated 1) :=
  (all_claimable_iff none (twoGrants.take 1) (Hash.repeated 1) [50#64, 51#64] (by decide)
    (ended_of_all (by decide +kernel))).mpr (by decide +kernel)

/-- The second grant is never paid, however often it is claimed. -/
theorem second_grant_unclaimable :
    ¬ ∀ (admin : Option AccountId) (additions : List Addition) (r : AccountId)
      (epochs : List U64), epochs ≠ [] →
      (∀ s ∈ (built admin additions).schedulesOf r, ∀ e ∈ epochs, s.Ended e) →
        sumPaid ((built admin additions).payoutsTo r (epochs.map (r, ·))) =
          (built admin additions).promised r := by
  intro h
  exact absurd (h none twoGrants (Hash.repeated 1) [50#64, 51#64] (by decide)
    (ended_of_all (by decide +kernel))) (by decide +kernel)

end VestingContract

end Solen
