import Solen.Concrete
import Solen.Validators

/-!
# Proposer selection

Who proposes at a height must not depend on the order in which a node
happens to keep its validators. Both selections start from the active
validators sorted by identifier, and with distinct identifiers that
list is the same for every order (`active_eq_of_perm`).

The designated proposer is drawn in proportion to stake. The list of
backups comes from another draw, with one hash per validator, so its
first entry need not be the designated proposer although it is meant
to be.
-/

namespace Solen

open Machine

variable {seed : Hash} {l : List ValidatorInfo} {height : Nat} {c target : U128}
  {v : ValidatorInfo}

namespace ValidatorSet

variable {vs vs' : ValidatorSet}

/-! ## Independence of the order -/

def DistinctIds (vs : ValidatorSet) : Prop := (vs.validators.map (·.id)).Nodup

theorem active_perm (vs : ValidatorSet) :
    vs.active.Perm (vs.validators.filter ValidatorInfo.isActive) :=
  List.mergeSort_perm _ _

theorem mem_active :
    v ∈ vs.active ↔ v ∈ vs.validators ∧ v.isActive = true := by
  rw [vs.active_perm.mem_iff, List.mem_filter]

theorem active_sorted (vs : ValidatorSet) :
    vs.active.Pairwise fun a b => (compare a.id b.id).isLE = true := by
  refine List.pairwise_mergeSort (fun a b c hab hbc => ?_) (fun a b => ?_) _
  · exact Std.TransOrd.isLE_trans hab hbc
  · rw [Std.OrientedOrd.eq_swap (a := b.id) (b := a.id)]
    cases compare a.id b.id <;> rfl

theorem DistinctIds.eq_of_id {w : ValidatorInfo} (h : vs.DistinctIds) (hv : v ∈ vs.validators)
    (hw : w ∈ vs.validators) (hid : v.id = w.id) : v = w :=
  List.inj_on_of_nodup_map h hv hw hid

/-- The sorted active validators do not depend on the order of the set. -/
theorem active_eq_of_perm (h : vs.DistinctIds) (hperm : vs.validators.Perm vs'.validators) :
    vs'.active = vs.active := by
  refine List.Perm.eq_of_pairwise (fun a b ha hb hab hba => ?_) vs'.active_sorted vs.active_sorted
    ?_
  · have hid : a.id = b.id := by
      rw [Std.OrientedOrd.eq_swap (a := b.id) (b := a.id)] at hba
      cases hcmp : compare a.id b.id with
      | lt =>
        rw [hcmp] at hba
        cases hba
      | eq => exact Std.LawfulEqOrd.eq_of_compare hcmp
      | gt =>
        rw [hcmp] at hab
        cases hab
    exact h.eq_of_id (hperm.mem_iff.mpr (mem_active.mp ha).1) (mem_active.mp hb).1 hid
  · exact (vs'.active_perm.trans (hperm.symm.filter _)).trans vs.active_perm.symm

theorem proposerOrderForHeight_perm (E : Platform) (vs : ValidatorSet) (height : Nat)
    (seed : Hash) :
    (vs.proposerOrderForHeight E height seed).Perm (vs.active.map (·.id)) := by
  unfold proposerOrderForHeight
  dsimp only
  split
  · exact (List.rotate_perm _ _).map _
  · refine ((List.mergeSort_perm _ _).map _).trans ?_
    rw [List.map_map]
    exact List.Perm.refl _

/-- The proposer order is a permutation of the active validators, and
neither it nor the designated proposer changes when the set is
reordered. -/
theorem proposers_of_set (E : Platform) (vs : ValidatorSet) (hids : vs.DistinctIds)
    (height : Nat) (seed : Hash) :
    (vs.proposerOrderForHeight E height seed).Perm
        ((vs.validators.filter ValidatorInfo.isActive).map (·.id)) ∧
      ∀ vs' : ValidatorSet, vs.validators.Perm vs'.validators →
        vs'.proposerOrderForHeight E height seed = vs.proposerOrderForHeight E height seed ∧
          vs'.proposerForHeightWithSeed E height seed =
            vs.proposerForHeightWithSeed E height seed := by
  constructor
  · exact (proposerOrderForHeight_perm E vs height seed).trans (vs.active_perm.map _)
  · intro vs' hperm
    have hactive := active_eq_of_perm hids hperm
    constructor
    · simp only [proposerOrderForHeight, hactive]
    · simp only [proposerForHeightWithSeed, proposerAtTarget, hactive]

/-- Two active validators with the stakes 3 and 5. -/
def aliceAndBob : ValidatorSet :=
  ⟨[{ id := alice, stake := 3#128 }, { id := bob, stake := 5#128 }]⟩

theorem proposers_of_set_swap :
    (ValidatorSet.mk aliceAndBob.validators.reverse).proposerOrderForHeight concretePlatform 7
        alice = aliceAndBob.proposerOrderForHeight concretePlatform 7 alice := by
  have hids : aliceAndBob.DistinctIds := by
    change [alice, bob].Nodup
    decide
  exact ((proposers_of_set concretePlatform aliceAndBob hids 7 alice).2 _
    (List.reverse_perm _).symm).1

/-! ## Selection by stake -/

/-- The stakes of a list, added up without wrapping. -/
def natStake (l : List ValidatorInfo) : Nat := (l.map fun v => v.stake.toNat).sum

theorem natStake_cons (v : ValidatorInfo) (l : List ValidatorInfo) :
    natStake (v :: l) = v.stake.toNat + natStake l := List.sum_cons

theorem natStake_append (l l' : List ValidatorInfo) :
    natStake (l ++ l') = natStake l + natStake l' := by
  rw [natStake, List.map_append, List.sum_append]
  rfl

theorem toNat_sumStake (h : natStake l < 2 ^ 128) :
    (sumStake l).toNat = natStake l :=
  toNat_foldl_add h

theorem mem_of_pickByStake {id : ValidatorId}
    (h : pickByStake target c l = some id) : id ∈ l.map (·.id) := by
  induction l generalizing c with
  | nil => cases h
  | cons v l ih =>
    rw [pickByStake] at h
    split at h
    · cases h
      exact List.mem_cons_self
    · exact List.mem_cons_of_mem _ (ih h)

/-- The scan stops at `v` exactly for the targets between the stake before
`v` and the stake up to `v`. -/
theorem pickByStake_eq_iff {l₁ l₂ : List ValidatorInfo}
    (hids : ((l₁ ++ v :: l₂).map (·.id)).Nodup)
    (hfits : c.toNat + natStake (l₁ ++ v :: l₂) < 2 ^ 128) (hc : c.toNat ≤ target.toNat) :
    pickByStake target c (l₁ ++ v :: l₂) = some v.id ↔
      c.toNat + natStake l₁ ≤ target.toNat ∧
        target.toNat < c.toNat + natStake l₁ + v.stake.toNat := by
  induction l₁ generalizing c with
  | nil =>
    rw [List.nil_append] at hids hfits ⊢
    rw [natStake_cons] at hfits
    have hadd := toNat_add_of_lt (a := c) (b := v.stake) (by omega)
    rw [List.map_cons, List.nodup_cons] at hids
    rw [pickByStake, show natStake [] = 0 from rfl, Nat.add_zero]
    split
    · next hlt =>
        rw [BitVec.lt_def, hadd] at hlt
        exact iff_of_true rfl ⟨hc, hlt⟩
    · next hge =>
        rw [BitVec.lt_def, hadd] at hge
        exact iff_of_false (fun heq => hids.1 (mem_of_pickByStake heq)) fun h => hge h.2
  | cons u l₁ ih =>
    rw [List.cons_append] at hids hfits ⊢
    rw [natStake_cons] at hfits
    rw [List.map_cons, List.nodup_cons] at hids
    have hadd := toNat_add_of_lt (a := c) (b := u.stake) (by omega)
    rw [pickByStake, natStake_cons]
    split
    · next hlt =>
        rw [BitVec.lt_def, hadd] at hlt
        refine iff_of_false (fun heq => hids.1 ?_) fun h => by omega
        rw [Option.some.inj heq]
        simp
    · next hge =>
        rw [BitVec.lt_def, hadd] at hge
        rw [ih hids.2 (by rw [hadd]; omega) (by rw [hadd]; omega), hadd]
        omega

/-- A scan that finds nobody was given a target above all stake. -/
theorem natStake_le_of_pickByStake
    (hfits : c.toNat + natStake l < 2 ^ 128) (hc : c.toNat ≤ target.toNat)
    (h : pickByStake target c l = none) : c.toNat + natStake l ≤ target.toNat := by
  induction l generalizing c with
  | nil => exact hc
  | cons v l ih =>
    rw [natStake_cons] at hfits ⊢
    have hadd := toNat_add_of_lt (a := c) (b := v.stake) (by omega)
    rw [pickByStake] at h
    split at h
    · cases h
    · next hge =>
        rw [BitVec.lt_def, hadd] at hge
        have hrest := ih (by rw [hadd]; omega) (by rw [hadd]; omega) h
        rw [hadd] at hrest
        omega

/-- The targets below the total that select a validator form an interval
as long as its stake. -/
theorem proposerAtTarget_eq_iff {l₁ l₂ : List ValidatorInfo}
    (hids : (vs.active.map (·.id)).Nodup) (hfits : natStake vs.active < 2 ^ 128)
    (hsplit : vs.active = l₁ ++ v :: l₂) {t : Nat} (ht : t < natStake vs.active) :
    vs.proposerAtTarget (BitVec.ofNat 128 t) = some v.id ↔
      natStake l₁ ≤ t ∧ t < natStake l₁ + v.stake.toNat := by
  have hval : (BitVec.ofNat 128 t).toNat = t := by
    rw [BitVec.toNat_ofNat, Nat.mod_eq_of_lt (ht.trans hfits)]
  have hstart : (0#128).toNat + natStake vs.active < 2 ^ 128 := by
    rw [show (0#128).toNat = 0 from rfl, Nat.zero_add]
    exact hfits
  have hpick := @pickByStake_eq_iff 0#128 (BitVec.ofNat 128 t) v _ _ (hsplit ▸ hids)
    (hsplit ▸ hstart) (Nat.zero_le _)
  rw [hval, show (0#128).toNat = 0 from rfl, Nat.zero_add] at hpick
  rw [proposerAtTarget]
  cases hnone : pickByStake (BitVec.ofNat 128 t) 0#128 vs.active with
  | none =>
    have hle := natStake_le_of_pickByStake hstart (Nat.zero_le _) hnone
    rw [hval, show (0#128).toNat = 0 from rfl] at hle
    omega
  | some id =>
    rw [Option.some_or, ← hnone, hsplit]
    exact hpick

/-- Of the `S` possible targets exactly `stake` select a validator, the
proposer is the one the drawn target selects, and so a validator without
stake is never selected. -/
theorem proposer_proportional (E : Platform) (vs : ValidatorSet)
    (hids : ((vs.validators.filter ValidatorInfo.isActive).map (·.id)).Nodup) (S : Nat)
    (hS : S = natStake (vs.validators.filter ValidatorInfo.isActive)) (hpos : 0 < S)
    (hfits : S < 2 ^ 128) :
    (∀ v ∈ vs.validators, v.isActive = true →
        ((Finset.range S).filter fun t =>
          vs.proposerAtTarget (BitVec.ofNat 128 t) = some v.id).card = v.stake.toNat) ∧
      ∀ (height : Nat) (seed : Hash), seed ≠ Hash.zero →
        vs.proposerForHeightWithSeed E height seed =
            vs.proposerAtTarget (BitVec.ofNat 128 ((proposerSelector E height seed).toNat % S)) ∧
          ∀ v ∈ vs.validators, v.isActive = true → v.stake = 0#128 →
            vs.proposerForHeightWithSeed E height seed ≠ some v.id := by
  have hactive : (vs.active.map (·.id)).Nodup := (vs.active_perm.map _).nodup_iff.mpr hids
  have htotal : natStake vs.active = S := by
    rw [hS]
    exact (vs.active_perm.map _).sum_eq
  have hinterval : ∀ v ∈ vs.validators, v.isActive = true →
      ∃ l, natStake l + v.stake.toNat ≤ S ∧
        ∀ t < S, vs.proposerAtTarget (BitVec.ofNat 128 t) = some v.id ↔
          natStake l ≤ t ∧ t < natStake l + v.stake.toNat := by
    intro v hv hact
    obtain ⟨l₁, l₂, hsplit⟩ := List.append_of_mem (mem_active.mpr ⟨hv, hact⟩)
    refine ⟨l₁, ?_, fun t ht => ?_⟩
    · rw [← htotal, hsplit, natStake_append, natStake_cons]
      omega
    · exact proposerAtTarget_eq_iff hactive (htotal ▸ hfits) hsplit (htotal ▸ ht)
  have hsum : (sumStake vs.active).toNat = S := by
    rw [toNat_sumStake (htotal ▸ hfits), htotal]
  have hdrawn : ∀ (height : Nat) (seed : Hash), seed ≠ Hash.zero →
      vs.proposerForHeightWithSeed E height seed =
        vs.proposerAtTarget (BitVec.ofNat 128 ((proposerSelector E height seed).toNat % S)) := by
    intro height seed hseed
    have hne : sumStake vs.active ≠ 0#128 := by
      intro hzero
      rw [hzero] at hsum
      exact absurd hsum.symm (Nat.ne_of_gt hpos)
    simp only [proposerForHeightWithSeed, hseed, if_false, hne]
    congr 1
    rw [← hsum, ← BitVec.toNat_umod, BitVec.ofNat_toNat, BitVec.setWidth_eq]
  refine ⟨fun v hv hact => ?_, fun height seed hseed => ⟨hdrawn height seed hseed, ?_⟩⟩
  · obtain ⟨l, hle, hl⟩ := hinterval v hv hact
    have hset : ((Finset.range S).filter fun t =>
        vs.proposerAtTarget (BitVec.ofNat 128 t) = some v.id) =
          Finset.Ico (natStake l) (natStake l + v.stake.toNat) := by
      ext t
      rw [Finset.mem_filter, Finset.mem_range, Finset.mem_Ico]
      constructor
      · exact fun ⟨ht, hsel⟩ => (hl t ht).mp hsel
      · intro hin
        have ht : t < S := hin.2.trans_le hle
        exact ⟨ht, (hl t ht).mpr hin⟩
    rw [hset, Nat.card_Ico, Nat.add_sub_cancel_left]
  · intro v hv hact hstake heq
    obtain ⟨l, -, hl⟩ := hinterval v hv hact
    rw [hdrawn height seed hseed, hl _ (Nat.mod_lt _ hpos), hstake] at heq
    exact absurd heq.2 (Nat.not_lt.mpr heq.1)

theorem proposer_proportional_pair :
    ((Finset.range 8).filter fun t =>
      aliceAndBob.proposerAtTarget (BitVec.ofNat 128 t) = some bob).card = 5 := by
  have hids : ((aliceAndBob.validators.filter ValidatorInfo.isActive).map (·.id)).Nodup := by
    change [alice, bob].Nodup
    decide
  exact (proposer_proportional concretePlatform aliceAndBob hids 8 rfl (by decide)
    (by decide)).1 { id := bob, stake := 5#128 } (by simp [aliceAndBob]) rfl

/-! ## The first backup and the designated proposer -/

/-- Past the genesis epoch, with stake to draw from, the designated
proposer has stake. -/
theorem stake_pos_of_pickByStake {id : ValidatorId}
    (hc : ¬target < c) (h : pickByStake target c l = some id) :
    ∃ v ∈ l, v.id = id ∧ 0#128 < v.stake := by
  induction l generalizing c with
  | nil => cases h
  | cons v l ih =>
    rw [pickByStake] at h
    split at h
    · next hlt =>
        refine ⟨v, List.mem_cons_self, Option.some.inj h, ?_⟩
        rw [BitVec.pos_iff_ne_zero]
        intro hzero
        rw [hzero, BitVec.add_zero] at hlt
        exact hc hlt
    · next hge =>
        obtain ⟨w, hw, hrest⟩ := ih hge h
        exact ⟨w, List.mem_cons_of_mem _ hw, hrest⟩

/-- A scan that finds nobody ends with a total at or below the target. -/
theorem total_le_of_pickByStake (hc : ¬target < c)
    (h : pickByStake target c l = none) :
    ¬target < l.foldl (fun t v => t + v.stake) c := by
  induction l generalizing c with
  | nil => exact hc
  | cons v l ih =>
    rw [pickByStake] at h
    split at h
    · cases h
    · next hge => exact ih hge h

theorem exists_staker_of_designated (E : Platform) (height : Nat)
    (hseed : seed ≠ Hash.zero) (htotal : sumStake vs.active ≠ 0#128) :
    ∃ v ∈ vs.active, vs.proposerForHeightWithSeed E height seed = some v.id ∧
      0#128 < v.stake := by
  simp only [proposerForHeightWithSeed, hseed, if_false, htotal, proposerAtTarget]
  have htarget : proposerSelector E height seed % sumStake vs.active < sumStake vs.active :=
    BitVec.umod_lt _ ((BitVec.pos_iff_ne_zero _).mpr htotal)
  cases hpick : pickByStake (proposerSelector E height seed % sumStake vs.active) 0#128
      vs.active with
  | none => exact absurd htarget (total_le_of_pickByStake BitVec.not_lt_zero hpick)
  | some id =>
    obtain ⟨v, hv, hid, hpos⟩ := stake_pos_of_pickByStake BitVec.not_lt_zero hpick
    exact ⟨v, hv, by rw [hid]; rfl, hpos⟩

theorem proposerOrderForHeight_of_seed (E : Platform)
    (hseed : seed ≠ Hash.zero) :
    vs.proposerOrderForHeight E height seed =
      (vs.active.mergeSort fun v w =>
        proposerScore E height seed v ≤ proposerScore E height seed w).map (·.id) := by
  simp only [proposerOrderForHeight, hseed, if_false]
  have hmap : (vs.active.map fun v => (proposerScore E height seed v, v.id)).mergeSort
        (fun a b => a.1 ≤ b.1) =
      (vs.active.mergeSort fun v w =>
        proposerScore E height seed v ≤ proposerScore E height seed w).map
          fun v => (proposerScore E height seed v, v.id) := by
    rw [List.map_mergeSort]
    exact fun v _ w _ => rfl
  rw [hmap, List.map_map]
  rfl

/-- Past the genesis epoch the order starts with a validator of least
score. -/
theorem exists_least_score (E : Platform) (height : Nat)
    (hseed : seed ≠ Hash.zero) (hne : vs.active ≠ []) :
    ∃ v ∈ vs.active, (vs.proposerOrderForHeight E height seed).head? = some v.id ∧
      ∀ w ∈ vs.active, proposerScore E height seed v ≤ proposerScore E height seed w := by
  rw [proposerOrderForHeight_of_seed E hseed]
  have hperm := List.mergeSort_perm vs.active fun v w =>
    proposerScore E height seed v ≤ proposerScore E height seed w
  have hsorted : (vs.active.mergeSort fun v w =>
      proposerScore E height seed v ≤ proposerScore E height seed w).Pairwise fun v w =>
        decide (proposerScore E height seed v ≤ proposerScore E height seed w) = true := by
    refine List.pairwise_mergeSort (fun a b c hab hbc => ?_) (fun a b => ?_) _
    · rw [decide_eq_true_iff] at hab hbc ⊢
      exact BitVec.le_trans hab hbc
    · rw [Bool.or_eq_true, decide_eq_true_iff, decide_eq_true_iff]
      exact BitVec.le_total _ _
  cases hsort : vs.active.mergeSort fun v w =>
      proposerScore E height seed v ≤ proposerScore E height seed w with
  | nil =>
    rw [hsort] at hperm
    exact absurd hperm.nil_eq.symm hne
  | cons v rest =>
    rw [hsort] at hperm hsorted
    refine ⟨v, hperm.mem_iff.mp List.mem_cons_self, rfl, fun w hw => ?_⟩
    rcases List.mem_cons.mp (hperm.mem_iff.mpr hw) with rfl | hrest
    · exact BitVec.le_refl _
    · exact of_decide_eq_true ((List.pairwise_cons.mp hsorted).1 w hrest)

/-- When all scores are the highest one, the order is that of the
identifiers. -/
theorem head_of_highest_scores (E : Platform)
    (hseed : seed ≠ Hash.zero)
    (hall : ∀ v ∈ vs.active, proposerScore E height seed v = BitVec.allOnes 128) :
    (vs.proposerOrderForHeight E height seed).head? = vs.active.head?.map (·.id) := by
  rw [proposerOrderForHeight_of_seed E hseed, List.mergeSort_of_pairwise, List.head?_map]
  refine List.pairwise_of_forall_mem_list fun v hv w hw => ?_
  rw [decide_eq_true_iff, hall v hv, hall w hw]
  exact BitVec.le_refl _

theorem proposerScore_le (E : Platform) (height : Nat) (seed : Hash) (v : ValidatorInfo) :
    proposerScore E height seed v ≤ BitVec.allOnes 128 := by
  rw [BitVec.le_def, BitVec.toNat_allOnes]
  exact Nat.le_sub_one_of_lt (BitVec.isLt _)

theorem proposerScore_of_stake (E : Platform) (height : Nat) (seed : Hash)
    (h : 0#128 < v.stake) :
    proposerScore E height seed v =
      hashSelector (E.blake3 (seed.bytes ++ toLeBytes 8 height ++ v.id.bytes)) / v.stake :=
  if_pos h

theorem proposerScore_of_no_stake (E : Platform) (height : Nat) (seed : Hash) (h : ¬0#128 < v.stake) :
    proposerScore E height seed v = BitVec.allOnes 128 :=
  if_neg h

/-- With a stake of two units the score stays below the highest one. -/
theorem proposerScore_lt (E : Platform) (height : Nat) (seed : Hash)
    (h : 1#128 < v.stake) : proposerScore E height seed v < BitVec.allOnes 128 := by
  have hstake : 1 < v.stake.toNat := h
  rw [proposerScore_of_stake E height seed (BitVec.lt_def.mpr (Nat.zero_lt_of_lt hstake)),
    BitVec.lt_def, BitVec.toNat_udiv, BitVec.toNat_allOnes]
  set selector := hashSelector (E.blake3 (seed.bytes ++ toLeBytes 8 height ++ v.id.bytes))
  calc selector.toNat / v.stake.toNat ≤ selector.toNat / 2 := Nat.div_le_div_left hstake (by decide)
    _ < 2 ^ 128 - 1 := by
      have := selector.isLt
      omega

/-- All active validators with stake have one identifier, which is that of
the first active validator or belongs to more than one unit of stake. -/
def OneStaker (vs : ValidatorSet) : Prop :=
  ∃ id, (∀ v ∈ vs.active, 0#128 < v.stake → v.id = id) ∧
    (vs.active.head?.map (·.id) = some id ∨
      sumStake vs.active ≠ 0#128 ∧ ∃ v ∈ vs.active, 1#128 < v.stake)

theorem OneStaker.first_eq (h : vs.OneStaker) (hne : vs.active ≠ []) (E : Platform) (hseed : seed ≠ Hash.zero) :
    (vs.proposerOrderForHeight E height seed).head? =
      vs.proposerForHeightWithSeed E height seed := by
  obtain ⟨id, hid, hfirst⟩ := h
  obtain ⟨v, hv, hhead, hleast⟩ := exists_least_score E height hseed hne
  have hdesignated : sumStake vs.active ≠ 0#128 →
      vs.proposerForHeightWithSeed E height seed = some id := by
    intro htotal
    obtain ⟨w, hw, hdes, hpos⟩ := exists_staker_of_designated E height hseed htotal
    rw [hdes, hid w hw hpos]
  rcases hfirst with hfirst | ⟨htotal, u, hu, hstake⟩
  · have horder : (vs.proposerOrderForHeight E height seed).head? = some id := by
      by_cases hpos : 0#128 < v.stake
      · rw [hhead, hid v hv hpos]
      · -- the least score is the highest one, so nothing is reordered
        refine (head_of_highest_scores E hseed fun w hw => ?_).trans hfirst
        have hle := hleast w hw
        rw [proposerScore_of_no_stake E height seed hpos] at hle
        exact BitVec.le_antisymm (proposerScore_le E height seed w) hle
    by_cases htotal : sumStake vs.active = 0#128
    · rw [horder]
      simp only [proposerForHeightWithSeed, hseed, if_false, htotal, if_true, hfirst]
    · rw [horder, hdesignated htotal]
  · have hpos : 0#128 < v.stake := by
      by_contra hzero
      have hle := hleast u hu
      rw [proposerScore_of_no_stake E height seed hzero] at hle
      exact absurd (proposerScore_lt E height seed hstake) (BitVec.not_lt.mpr hle)
    rw [hhead, hid v hv hpos, hdesignated htotal]

/-- A platform whose hash favours one validator: it is zero for the draw of
the designated proposer and for that validator's score, and all ones
otherwise. -/
def favouring (favourite : Bytes) : Platform :=
  { concretePlatform with
    blake3 := fun input =>
      if input.length = 40 ∨ input = favourite then Hash.zero else Hash.repeated 255 }

theorem blake3_favouring (favourite input : Bytes) :
    (favouring favourite).blake3 input =
      if input.length = 40 ∨ input = favourite then Hash.zero else Hash.repeated 255 := rfl

theorem hashSelector_zero : hashSelector Hash.zero = 0#128 := by decide

theorem hashSelector_ones : hashSelector (Hash.repeated 255) = BitVec.allOnes 128 := by decide

theorem length_drawInput (height : Nat) (seed : Hash) :
    (seed.bytes ++ toLeBytes 8 height).length = 40 := by
  rw [List.length_append, seed.length_bytes, length_toLeBytes]

theorem proposerForHeightWithSeed_favouring (favourite favourite' : Bytes) (height : Nat)
    (seed : Hash) :
    vs.proposerForHeightWithSeed (favouring favourite) height seed =
      vs.proposerForHeightWithSeed (favouring favourite') height seed := by
  have hselector : ∀ f, proposerSelector (favouring f) height seed = 0#128 := by
    intro f
    rw [proposerSelector, blake3_favouring, if_pos (Or.inl (length_drawInput height seed)),
      hashSelector_zero]
  simp only [proposerForHeightWithSeed, hselector]

theorem proposerScore_favouring {favourite : Bytes} (hpos : 0#128 < v.stake) :
    proposerScore (favouring favourite) height seed v =
      if seed.bytes ++ toLeBytes 8 height ++ v.id.bytes = favourite then 0#128
      else BitVec.allOnes 128 / v.stake := by
  have hlen : (seed.bytes ++ toLeBytes 8 height ++ v.id.bytes).length ≠ 40 := by
    rw [List.length_append, length_drawInput, v.id.length_bytes]
    decide
  rw [proposerScore_of_stake _ height seed hpos, blake3_favouring]
  simp only [hlen, false_or]
  split
  · rw [hashSelector_zero, BitVec.zero_udiv]
  · rw [hashSelector_ones]

/-- Under the hash that favours a validator with stake, that validator is
first. -/
theorem head_order_favouring {q : ValidatorInfo} (height : Nat)
    (hseed : seed ≠ Hash.zero) (hq : q ∈ vs.active) (hpos : 0#128 < q.stake) :
    (vs.proposerOrderForHeight (favouring (seed.bytes ++ toLeBytes 8 height ++ q.id.bytes))
      height seed).head? = some q.id := by
  set E := favouring (seed.bytes ++ toLeBytes 8 height ++ q.id.bytes)
  obtain ⟨v, -, hhead, hleast⟩ := exists_least_score E height hseed (List.ne_nil_of_mem hq)
  have hzero : proposerScore E height seed q = 0#128 := by
    rw [proposerScore_favouring hpos, if_pos rfl]
  have hle := hleast q hq
  rw [hzero, BitVec.le_zero_iff] at hle
  have hstake : 0#128 < v.stake := by
    by_contra hnone
    rw [proposerScore_of_no_stake E height seed hnone] at hle
    exact absurd hle (by decide)
  rw [proposerScore_favouring hstake] at hle
  split at hle
  · next heq => rw [hhead, Hash.ext_bytes (List.append_cancel_left heq)]
  · -- the highest hash over a stake is never zero
    rw [BitVec.toNat_inj.symm, BitVec.toNat_udiv, BitVec.toNat_ofNat, Nat.zero_mod,
      BitVec.toNat_allOnes] at hle
    have hlt := v.stake.isLt
    have hpos' : 0 < v.stake.toNat := hstake
    have hdiv := Nat.div_pos (Nat.le_sub_one_of_lt hlt) hpos'
    omega

theorem oneStaker_of_first_eq (hne : vs.active ≠ [])
    (hseed : seed ≠ Hash.zero)
    (h : ∀ E, (vs.proposerOrderForHeight E height seed).head? =
      vs.proposerForHeightWithSeed E height seed) : vs.OneStaker := by
  obtain ⟨first, -, hfirst, -⟩ := exists_least_score (favouring []) height hseed hne
  refine ⟨first.id, fun q hq hpos => ?_, ?_⟩
  · have hhead := h (favouring (seed.bytes ++ toLeBytes 8 height ++ q.id.bytes))
    rw [head_order_favouring height hseed hq hpos, proposerForHeightWithSeed_favouring _ [],
      ← h, hfirst] at hhead
    exact Option.some.inj hhead
  · by_cases htotal : sumStake vs.active = 0#128
    · left
      rw [← hfirst, h]
      simp only [proposerForHeightWithSeed, hseed, if_false, htotal, if_true]
    · by_cases hbig : ∃ v ∈ vs.active, 1#128 < v.stake
      · exact Or.inr ⟨htotal, hbig⟩
      · left
        refine (head_of_highest_scores (favouring []) hseed fun v hv => ?_).symm.trans hfirst
        by_cases hpos : 0#128 < v.stake
        · have hone : v.stake = 1#128 := by
            have hle : ¬1#128 < v.stake := fun hlt => hbig ⟨v, hv, hlt⟩
            bv_omega
          rw [proposerScore_favouring hpos, if_neg (List.append_ne_nil_of_right_ne_nil _ ?_), hone,
            BitVec.udiv_one]
          exact List.ne_nil_of_length_pos (by rw [v.id.length_bytes]; decide)
        · exact proposerScore_of_no_stake _ height seed hpos

/-- The order starts with the designated proposer, whatever the hash, in
the genesis epoch and where only one validator has stake, and nowhere
else. -/
theorem first_is_designated_iff (vs : ValidatorSet) (hne : vs.active ≠ []) (height : Nat)
    (seed : Hash) :
    (∀ E : Platform, (vs.proposerOrderForHeight E height seed).head? =
      vs.proposerForHeightWithSeed E height seed) ↔ seed = Hash.zero ∨ vs.OneStaker := by
  by_cases hseed : seed = Hash.zero
  · refine iff_of_true (fun E => ?_) (Or.inl hseed)
    simp only [proposerOrderForHeight, proposerForHeightWithSeed, hseed, if_true]
    rw [List.head?_map, List.head?_rotate (Nat.mod_lt _ (List.length_pos_of_ne_nil hne))]
  · rw [or_iff_right hseed]
    exact ⟨oneStaker_of_first_eq hne hseed, fun h E => h.first_eq hne E hseed⟩

theorem first_is_designated_genesis :
    (aliceAndBob.proposerOrderForHeight concretePlatform 7 Hash.zero).head? =
      aliceAndBob.proposerForHeightWithSeed concretePlatform 7 Hash.zero := by
  have hne : aliceAndBob.active ≠ [] :=
    List.ne_nil_of_mem (mem_active.mpr ⟨List.mem_cons_self, rfl⟩)
  exact (first_is_designated_iff aliceAndBob hne 7 Hash.zero).mpr (Or.inl rfl) concretePlatform

/-- At height 0 Alice is designated and Bob is first in the order. -/
theorem first_not_designated :
    aliceAndBob.active ≠ [] ∧
      (aliceAndBob.proposerOrderForHeight concretePlatform 0 alice).head? ≠
        aliceAndBob.proposerForHeightWithSeed concretePlatform 0 alice := by
  have hsorted : aliceAndBob.active = aliceAndBob.validators := by
    rw [active, List.filter_eq_self.mpr (by decide), List.mergeSort_of_pairwise (by decide)]
  have hne : aliceAndBob.active ≠ [] := by
    rw [hsorted]
    exact List.cons_ne_nil _ _
  have hseed : alice ≠ Hash.zero := by decide
  have hdesignated :
      aliceAndBob.proposerForHeightWithSeed concretePlatform 0 alice = some alice := by
    simp only [proposerForHeightWithSeed, proposerAtTarget, hsorted]
    decide +kernel
  obtain ⟨v, hv, hhead, hleast⟩ := exists_least_score concretePlatform 0 hseed hne
  rw [hsorted] at hv hleast
  refine ⟨hne, fun heq => ?_⟩
  rw [hhead, hdesignated, Option.some.injEq] at heq
  have hfirst : v = { id := alice, stake := 3#128 } := by
    rcases List.mem_pair.mp hv with rfl | rfl
    · rfl
    · exact absurd heq (by decide)
  subst hfirst
  have hle := hleast { id := bob, stake := 5#128 } (by simp [aliceAndBob])
  exact absurd hle (by decide +kernel)

end ValidatorSet

end Solen
