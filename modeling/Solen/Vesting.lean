import Solen.Types

/-!
# Vesting contract

Cliff and linear vesting. A schedule says how much of a recipient's
allocation is unlocked at an epoch (`vestedAt`) and how much has been
claimed; the claimable part is the difference. A recipient may have
several schedules, but `claim` only ever looks at the first.

The vested amount never exceeds the allocation, whatever the cliff, and
it never decreases (`vestedAt_mono`): the numerator saturates, which can
only hold it back.
-/

namespace Solen

open Machine

def epochsPerYear : U64 := 52596#64

def epochsPerMonth : U64 := epochsPerYear / 12#64

inductive VestingError where
  | notFound
  | cliffNotReached
  | fullyClaimed
  | notAdmin
deriving DecidableEq

def VestingError.message : VestingError → String
  | notFound => "no vesting schedule found for this account"
  | cliffNotReached => "nothing to claim yet (cliff not reached)"
  | fullyClaimed => "nothing to claim (already fully claimed)"
  | notAdmin => "not authorized (admin only)"

inductive VestingType where
  | team
  | investor
  | validator
  | custom (cliffEpochs totalEpochs : U64)
deriving DecidableEq

namespace VestingType

def cliffEpochs : VestingType → U64
  | team => epochsPerYear
  | investor => epochsPerMonth * 6#64
  | validator => epochsPerMonth * 3#64
  | custom cliff _ => cliff

/-- Total duration, the cliff included. -/
def totalEpochs : VestingType → U64
  | team => epochsPerYear * 4#64
  | investor => epochsPerMonth * 30#64
  | validator => epochsPerMonth * 15#64
  | custom _ total => total

/-- The `Debug` form the status event prints. -/
def debug : VestingType → String
  | team => "Team"
  | investor => "Investor"
  | validator => "Validator"
  | custom cliff total =>
      s!"Custom \x7b cliff_epochs: {cliff.toNat}, total_epochs: {total.toNat} \x7d"

end VestingType

structure VestingSchedule where
  recipient : AccountId
  totalAmount : U128
  claimed : U128
  vestingType : VestingType
  startEpoch : U64
deriving DecidableEq

namespace VestingSchedule

def vestedAt (s : VestingSchedule) (currentEpoch : U64) : U128 :=
  let elapsed := satSub currentEpoch s.startEpoch
  let cliff := s.vestingType.cliffEpochs
  let totalDuration := s.vestingType.totalEpochs
  if elapsed < cliff then 0#128
  else if totalDuration ≤ elapsed then s.totalAmount
  else
    let vestingPeriod := totalDuration - cliff
    if vestingPeriod = 0#64 then s.totalAmount
    else
      satMul s.totalAmount ((elapsed - cliff).setWidth 128) / vestingPeriod.setWidth 128

def claimableAt (s : VestingSchedule) (currentEpoch : U64) : U128 :=
  satSub (s.vestedAt currentEpoch) s.claimed

end VestingSchedule

structure VestingContract where
  schedules : List VestingSchedule := []
  admin : Option AccountId := none
deriving DecidableEq

namespace VestingContract

def getSchedule (c : VestingContract) (recipient : AccountId) : Option VestingSchedule :=
  c.schedules.find? (·.recipient == recipient)

def addSchedule (c : VestingContract) (recipient : AccountId) (totalAmount : U128)
    (vestingType : VestingType) (startEpoch : U64) : VestingContract :=
  { c with
    schedules := c.schedules ++ [{
      recipient := recipient
      totalAmount := totalAmount
      claimed := 0#128
      vestingType := vestingType
      startEpoch := startEpoch }] }

def claim (c : VestingContract) (recipient : AccountId) (currentEpoch : U64) :
    Except VestingError (VestingContract × U128) :=
  match c.getSchedule recipient with
  | none => .error .notFound
  | some schedule =>
      let claimable := schedule.claimableAt currentEpoch
      if claimable = 0#128 then
        if schedule.totalAmount ≤ schedule.claimed then .error .fullyClaimed
        else .error .cliffNotReached
      else
        .ok ({ c with
          schedules := c.schedules.updateFirst (·.recipient == recipient) fun s =>
            { s with claimed := s.claimed + claimable } }, claimable)

/-- Only the current admin may hand the role over; with no admin there is
no way to seize it. -/
def setAdmin (c : VestingContract) (caller newAdmin : AccountId) :
    Except VestingError VestingContract :=
  if c.admin = some caller then .ok { c with admin := some newAdmin } else .error .notAdmin

def governanceSetAdmin (c : VestingContract) (newAdmin : AccountId) : VestingContract :=
  { c with admin := some newAdmin }

def addScheduleAdmin (c : VestingContract) (caller recipient : AccountId) (totalAmount : U128)
    (vestingType : VestingType) (startEpoch : U64) : Except VestingError VestingContract :=
  if c.admin = some caller then
    .ok { c with
      schedules := c.schedules ++ [{
        recipient := recipient
        totalAmount := totalAmount
        claimed := 0#128
        vestingType := vestingType
        startEpoch := startEpoch }] }
  else .error .notAdmin

def storageKey : Bytes := ascii "__vesting_state__"

end VestingContract

/-! ## Vesting is monotone -/

namespace VestingSchedule

variable {s : VestingSchedule} {e e' : U64}

theorem toNat_elapsed_mono (h : e ≤ e') :
    (satSub e s.startEpoch).toNat ≤ (satSub e' s.startEpoch).toNat := by
  rw [toNat_satSub, toNat_satSub]
  rw [BitVec.le_def] at h
  omega

/-- The linear part of the schedule, on naturals. -/
def linearPart (total elapsed period : Nat) : Nat :=
  min (total * elapsed) (2 ^ 128 - 1) / period

theorem linearPart_mono {total a b period : Nat} (h : a ≤ b) :
    linearPart total a period ≤ linearPart total b period := by
  unfold linearPart
  refine Nat.div_le_div_right ?_
  have := Nat.mul_le_mul_left total h
  omega

theorem linearPart_le_total {total a period : Nat} (ha : a ≤ period) :
    linearPart total a period ≤ total := by
  unfold linearPart
  rcases Nat.eq_zero_or_pos period with rfl | hp
  · simp
  · calc min (total * a) (2 ^ 128 - 1) / period
        ≤ total * period / period :=
          Nat.div_le_div_right (le_trans (min_le_left _ _) (Nat.mul_le_mul_left total ha))
      _ = total := Nat.mul_div_cancel total hp

theorem toNat_vestedAt (s : VestingSchedule) (e : U64) :
    (s.vestedAt e).toNat =
      if (satSub e s.startEpoch).toNat < s.vestingType.cliffEpochs.toNat then 0
      else if s.vestingType.totalEpochs.toNat ≤ (satSub e s.startEpoch).toNat then
        s.totalAmount.toNat
      else linearPart s.totalAmount.toNat
        ((satSub e s.startEpoch).toNat - s.vestingType.cliffEpochs.toNat)
        (s.vestingType.totalEpochs.toNat - s.vestingType.cliffEpochs.toNat) := by
  simp only [vestedAt, BitVec.lt_def, BitVec.le_def]
  split
  · rfl
  · next hcliff =>
    split
    · rfl
    · next htotal =>
      have hne : s.vestingType.totalEpochs - s.vestingType.cliffEpochs ≠ 0#64 := by
        intro h0
        have := congrArg BitVec.toNat h0
        rw [BitVec.toNat_sub_of_le (by rw [BitVec.le_def]; omega)] at this
        simp only [BitVec.toNat_ofNat] at this
        omega
      rw [if_neg hne, BitVec.toNat_udiv, toNat_satMul, BitVec.toNat_setWidth,
        BitVec.toNat_setWidth, BitVec.toNat_sub_of_le (by rw [BitVec.le_def]; omega),
        BitVec.toNat_sub_of_le (by rw [BitVec.le_def]; omega), linearPart]
      have h64 := s.vestingType.totalEpochs.isLt
      have he64 := (satSub e s.startEpoch).isLt
      rw [Nat.mod_eq_of_lt (by omega), Nat.mod_eq_of_lt (by omega)]

/-- What is vested stays vested. -/
theorem vestedAt_mono (s : VestingSchedule) (h : e ≤ e') :
    (s.vestedAt e).toNat ≤ (s.vestedAt e').toNat := by
  have hmono := toNat_elapsed_mono (s := s) h
  rw [toNat_vestedAt, toNat_vestedAt]
  by_cases hc : (satSub e s.startEpoch).toNat < s.vestingType.cliffEpochs.toNat
  · rw [if_pos hc]
    exact Nat.zero_le _
  have hc' : ¬ (satSub e' s.startEpoch).toNat < s.vestingType.cliffEpochs.toNat := by omega
  rw [if_neg hc, if_neg hc']
  by_cases ht : s.vestingType.totalEpochs.toNat ≤ (satSub e s.startEpoch).toNat
  · have ht' : s.vestingType.totalEpochs.toNat ≤ (satSub e' s.startEpoch).toNat := by omega
    rw [if_pos ht, if_pos ht']
  rw [if_neg ht]
  split
  · exact linearPart_le_total (by omega)
  · exact linearPart_mono (by omega)

theorem vestedAt_le_total (s : VestingSchedule) (e : U64) :
    (s.vestedAt e).toNat ≤ s.totalAmount.toNat := by
  rw [toNat_vestedAt]
  split
  · exact Nat.zero_le _
  split
  · exact Nat.le_refl _
  · exact linearPart_le_total (by omega)

end VestingSchedule

/-! ## What a claim does -/

namespace VestingContract

variable {c c' : VestingContract} {r : AccountId} {e : U64}

/-- A claim that succeeds takes all that is left of the first schedule of the
recipient, and records it there. -/
theorem claim_eq_ok {amount : U128} (h : c.claim r e = .ok (c', amount)) :
    ∃ sch, c.getSchedule r = some sch ∧ amount = sch.claimableAt e ∧
      c'.getSchedule r = some { sch with claimed := sch.claimed + amount } ∧
      ∀ r', r' ≠ r → c'.getSchedule r' = c.getSchedule r' := by
  unfold claim at h
  cases hsch : c.getSchedule r with
  | none => rw [hsch] at h; cases h
  | some sch =>
    rw [hsch] at h
    by_cases hzero : sch.claimableAt e = 0#128
    · simp only [hzero, if_true] at h
      split at h <;> cases h
    · simp only [hzero, if_false] at h
      cases h
      refine ⟨sch, rfl, rfl, ?_, fun r' hne => ?_⟩
      · have hfind := List.find?_updateFirst (p := (·.recipient == r))
          (f := fun s : VestingSchedule =>
            { s with claimed := s.claimed + sch.claimableAt e }) (fun _ ha => ha) c.schedules
        rw [getSchedule] at hsch
        rw [getSchedule, hfind, hsch]
        rfl
      · refine List.find?_updateFirst_of_ne (fun s hs => ?_) c.schedules
        have hs : s.recipient = r := eq_of_beq hs
        exact ⟨by simpa [hs] using hne.symm, by simpa [hs] using hne.symm⟩

/-- A claim on a schedule fails only if nothing is left to claim. -/
theorem claim_eq_error {sch : VestingSchedule} {err : VestingError}
    (hsch : c.getSchedule r = some sch) (h : c.claim r e = .error err) :
    sch.claimableAt e = 0#128 := by
  rw [claim, hsch] at h
  by_contra hzero
  simp only [hzero, if_false] at h
  cases h

end VestingContract

end Solen
