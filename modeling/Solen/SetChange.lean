import Solen.Proposers

/-!
# Changes of the validator set

An epoch boundary may replace validators only slowly: no more than a
third of the stake is meant to move per epoch. The limit guards the
validators that join and those that leave. It does not guard the stakes
of known validators, which are overwritten with what the staking
contract has, nor the validators that become active again, so the stake
that moves is only bounded when these changes leave room for the rest
(`setChange_bounded_iff`).
-/

namespace Solen

open Machine

variable {sv : StakingValidator} {sync : Sync} {id : ValidatorId} {v w : ValidatorInfo}
  {f : ValidatorInfo → ValidatorInfo} {before : ValidatorSet}

namespace ValidatorSet

variable {vs : ValidatorSet}

/-! ## Looking up and updating -/

theorem id_of_get? (h : vs.get? id = some v) :
    v.id = id := by
  have hid := List.find?_some h
  exact of_decide_eq_true hid

theorem get?_of_mem (h : vs.DistinctIds) (hv : v ∈ vs.validators) :
    vs.get? v.id = some v := by
  cases hfind : vs.get? v.id with
  | none => exact absurd (decide_eq_true rfl) (List.find?_eq_none.mp hfind v hv)
  | some w => rw [h.eq_of_id (List.mem_of_find?_eq_some hfind) hv (id_of_get? hfind)]

theorem get?_eq_none : vs.get? id = none ↔ id ∉ vs.validators.map (·.id) := by
  rw [get?, List.find?_eq_none, List.mem_map]
  constructor
  · rintro h ⟨v, hv, hid⟩
    exact h v hv (decide_eq_true hid)
  · intro h v hv hid
    exact h ⟨v, hv, of_decide_eq_true hid⟩

theorem get?_map (hf : ∀ v, (f v).id = v.id)
    (l : List ValidatorInfo) (id : ValidatorId) :
    (mk (l.map f)).get? id = ((mk l).get? id).map f := by
  rw [get?, get?, List.find?_map]
  congr 2
  funext v
  rw [Function.comp_apply, hf]

theorem ids_map (hf : ∀ v, (f v).id = v.id)
    (l : List ValidatorInfo) : (l.map f).map (·.id) = l.map (·.id) := by
  rw [List.map_map]
  exact List.map_congr_left fun v _ => hf v

theorem get?_update_of_ne {other : ValidatorId}
    (hf : ∀ v, (f v).id = v.id) (hne : other ≠ id) :
    (vs.update id f).get? other = vs.get? other := by
  refine List.find?_updateFirst_of_ne (fun v hv => ?_) _
  have hid : v.id = id := of_decide_eq_true hv
  rw [hf, hid]
  exact ⟨decide_eq_false (Ne.symm hne), decide_eq_false (Ne.symm hne)⟩

theorem ids_update
    (hf : ∀ v, (f v).id = v.id) :
    (vs.update id f).validators.map (·.id) = vs.validators.map (·.id) :=
  List.map_updateFirst hf _

/-- With distinct identifiers an update reaches everything it names. -/
theorem update_eq_map
    (h : vs.DistinctIds) :
    vs.update id f = ⟨vs.validators.map fun v => if v.id = id then f v else v⟩ := by
  obtain ⟨l⟩ := vs
  rw [update, mk.injEq]
  unfold DistinctIds at h
  induction l with
  | nil => rfl
  | cons v l ih =>
    rw [List.map_cons, List.nodup_cons] at h
    rw [List.updateFirst, List.map_cons]
    by_cases hv : v.id = id
    · have hrest : (l.map fun w => if w.id = id then f w else w) = l := by
        conv_rhs => rw [← List.map_id' l]
        refine List.map_congr_left fun w hw => if_neg fun hid => h.1 ?_
        rw [hv, ← hid]
        exact List.mem_map_of_mem hw
      rw [if_pos (decide_eq_true hv), if_pos hv, hrest]
    · rw [if_neg (by simpa using hv), if_neg hv, ih h.2]

section Updates

variable {ι : Type} {key : ι → ValidatorId} {g : ι → ValidatorInfo → ValidatorInfo}

/-- What a list of updates makes of one validator. -/
def updated (key : ι → ValidatorId) (g : ι → ValidatorInfo → ValidatorInfo) (l : List ι)
    (v : ValidatorInfo) : ValidatorInfo :=
  match l.find? fun i => key i = v.id with
  | some i => g i v
  | none => v

theorem id_updated (hg : ∀ i v, (g i v).id = v.id) (l : List ι) (v : ValidatorInfo) :
    (updated key g l v).id = v.id := by
  unfold updated
  split
  · exact hg _ v
  · rfl

theorem updated_cons (hg : ∀ i v, (g i v).id = v.id) {i : ι} {l : List ι}
    (hi : key i ∉ l.map key) (v : ValidatorInfo) :
    updated key g (i :: l) v = updated key g l (if v.id = key i then g i v else v) := by
  unfold updated
  by_cases hv : key i = v.id
  · have hnone : l.find? (fun j => key j = (g i v).id) = none := by
      rw [List.find?_eq_none]
      intro j hj hkey
      refine hi ?_
      rw [hv, ← hg i v, ← of_decide_eq_true hkey]
      exact List.mem_map_of_mem hj
    have hfind : (i :: l).find? (fun j => key j = v.id) = some i := by simp [hv]
    rw [if_pos hv.symm, hnone, hfind]
  · rw [List.find?_cons_of_neg (by simpa using hv), if_neg fun h => hv h.symm]

/-- Updates with different identifiers, one after the other. -/
theorem foldl_update (hg : ∀ i v, (g i v).id = v.id) {l : List ι} (hl : (l.map key).Nodup)
    (h : vs.DistinctIds) :
    l.foldl (fun vs i => vs.update (key i) (g i)) vs =
      ⟨vs.validators.map (updated key g l)⟩ := by
  induction l generalizing vs with
  | nil =>
    obtain ⟨vs⟩ := vs
    rw [List.foldl_nil, mk.injEq]
    exact (List.map_id' vs).symm
  | cons i l ih =>
    rw [List.map_cons, List.nodup_cons] at hl
    have hids : (vs.update (key i) (g i)).DistinctIds := by
      rw [DistinctIds, ids_update (hg i)]
      exact h
    rw [List.foldl_cons, ih hl.2 hids, update_eq_map h, List.map_map, mk.injEq]
    exact List.map_congr_left fun v _ => (updated_cons hg hl.1 v).symm

end Updates

/-! ## How much stake moves -/

/-- The stake that moves for one validator of the set: all of it when the
validator is gone, the difference when it is there, and its whole new
stake on top when it has become active. -/
def stakeMovedBy (v : ValidatorInfo) : Option ValidatorInfo → Nat
  | none => v.stake.toNat
  | some w =>
      Nat.dist v.stake.toNat w.stake.toNat +
        if v.isActive = false ∧ w.isActive = true then w.stake.toNat else 0

/-- The stake that moves between two sets. -/
def stakeMoved (before after : ValidatorSet) : Nat :=
  (before.validators.map fun v => stakeMovedBy v (after.get? v.id)).sum +
    natStake (after.validators.filter fun w => (before.get? w.id).isNone)

/-- A map over the set moves what it changes. -/
theorem stakeMoved_map (h : vs.DistinctIds)
    (hf : ∀ v, (f v).id = v.id) :
    stakeMoved vs ⟨vs.validators.map f⟩ =
      (vs.validators.map fun v => stakeMovedBy v (some (f v))).sum := by
  have hnone : (vs.validators.map f).filter (fun w => (vs.get? w.id).isNone) = [] := by
    rw [List.filter_eq_nil_iff]
    intro w hw hnew
    obtain ⟨v, hv, rfl⟩ := List.mem_map.mp hw
    rw [hf, get?_of_mem h hv] at hnew
    cases hnew
  have hsame : (vs.validators.map fun v => stakeMovedBy v ((mk (vs.validators.map f)).get? v.id)) =
      vs.validators.map fun v => stakeMovedBy v (some (f v)) := by
    refine List.map_congr_left fun v hv => ?_
    rw [get?_map hf, get?_of_mem h hv]
    rfl
  rw [stakeMoved, hsame, hnone]
  rfl

theorem get?_add_of_ne (hne : id ≠ w.id) :
    (vs.add w).get? id = vs.get? id := by
  rw [add, get?, List.find?_append, List.find?_cons_of_neg (by simpa using hne.symm),
    List.find?_nil, Option.or_none]
  rfl

/-- A new validator moves its stake. -/
theorem stakeMoved_add
    (hnew : w.id ∉ before.validators.map (·.id)) :
    stakeMoved before (vs.add w) = stakeMoved before vs + w.stake.toNat := by
  have hold : (before.validators.map fun v => stakeMovedBy v ((vs.add w).get? v.id)) =
      before.validators.map fun v => stakeMovedBy v (vs.get? v.id) := by
    refine List.map_congr_left fun v hv => ?_
    rw [get?_add_of_ne fun hid => hnew ?_]
    rw [← hid]
    exact List.mem_map_of_mem hv
  rw [stakeMoved, stakeMoved, hold, add, List.filter_append, natStake_append,
    List.filter_cons_of_pos (by rw [get?_eq_none.mpr hnew]; rfl), List.filter_nil, natStake_cons]
  exact (Nat.add_assoc _ _ _).symm

theorem get?_remove (vs : ValidatorSet) (id other : ValidatorId) :
    (vs.remove id).get? other = if other = id then none else vs.get? other := by
  split
  · next heq =>
      rw [get?_eq_none, List.mem_map]
      rintro ⟨v, hv, hid⟩
      exact absurd (hid.trans heq) (of_decide_eq_true (List.mem_filter.mp hv).2)
  · next hne =>
      rw [remove, get?, get?, List.find?_filter]
      congr 1
      funext v
      by_cases hv : v.id = other
      · simp [hv, hne]
      · simp [hv]

/-- Two sums over a set, one of which counts up to `n` more for one of its
validators. -/
theorem sum_map_le_add {l : List ValidatorInfo} (hl : (l.map (·.id)).Nodup)
    (id : ValidatorId) {f g : ValidatorInfo → Nat} {n : Nat}
    (hother : ∀ v, v.id ≠ id → f v = g v) (hid : ∀ v, v.id = id → f v ≤ g v + n) :
    (l.map f).sum ≤ (l.map g).sum + n := by
  induction l with
  | nil => exact Nat.zero_le _
  | cons v l ih =>
    rw [List.map_cons, List.nodup_cons] at hl
    rw [List.map_cons, List.map_cons, List.sum_cons, List.sum_cons]
    by_cases hv : v.id = id
    · have hrest : l.map f = l.map g := by
        refine List.map_congr_left fun w hw => hother w fun hw' => hl.1 ?_
        rw [hv, ← hw']
        exact List.mem_map_of_mem hw
      have hle := hid v hv
      rw [hrest]
      omega
    · have hle := ih hl.2
      rw [hother v hv]
      omega

/-- A validator that leaves moves no more than its stake. -/
theorem stakeMoved_remove_le (h : before.DistinctIds) (hw : ∀ u, vs.get? w.id = some u → u.stake = w.stake) :
    stakeMoved before (vs.remove w.id) ≤ stakeMoved before vs + w.stake.toNat := by
  have hfirst : (before.validators.map fun v =>
        stakeMovedBy v ((vs.remove w.id).get? v.id)).sum ≤
      (before.validators.map fun v => stakeMovedBy v (vs.get? v.id)).sum + w.stake.toNat := by
    refine sum_map_le_add h w.id (fun v hv => ?_) fun v hv => ?_
    · rw [get?_remove, if_neg hv]
    · rw [get?_remove, if_pos hv, hv]
      cases hget : vs.get? w.id with
      | none => exact Nat.le_add_right _ _
      | some u =>
        rw [stakeMovedBy, stakeMovedBy, hw u hget]
        unfold Nat.dist
        omega
  have hsecond : natStake ((vs.remove w.id).validators.filter fun w => (before.get? w.id).isNone) ≤
      natStake (vs.validators.filter fun w => (before.get? w.id).isNone) :=
    ((List.filter_sublist.filter _).map _).sum_le_sum fun _ _ => Nat.zero_le _
  rw [stakeMoved, stakeMoved]
  omega

/-- A validator without stake leaves without moving any. -/
theorem stakeMoved_remove_of_zero
    (hknown : w.id ∈ before.validators.map (·.id))
    (hw : ∀ u, vs.get? w.id = some u → u.stake = 0#128) :
    stakeMoved before (vs.remove w.id) = stakeMoved before vs := by
  have hfirst : (before.validators.map fun v => stakeMovedBy v ((vs.remove w.id).get? v.id)) =
      before.validators.map fun v => stakeMovedBy v (vs.get? v.id) := by
    refine List.map_congr_left fun v _ => ?_
    rw [get?_remove]
    split
    · next hv =>
        rw [hv]
        cases hget : vs.get? w.id with
        | none => rfl
        | some u =>
          rw [stakeMovedBy, stakeMovedBy, hw u hget]
          simp [Nat.dist]
    · rfl
  have hsecond : ((vs.remove w.id).validators.filter fun w => (before.get? w.id).isNone) =
      vs.validators.filter fun w => (before.get? w.id).isNone := by
    rw [remove, List.filter_filter]
    refine List.filter_congr fun v _ => ?_
    by_cases hv : v.id = w.id
    · have hsome : (before.get? w.id).isNone = false := by
        rw [Option.isNone_eq_false_iff, Option.isSome_iff_ne_none]
        exact fun hnone => get?_eq_none.mp hnone hknown
      rw [hv, hsome, Bool.false_and]
    · rw [decide_eq_true hv, Bool.and_true]
  rw [stakeMoved, stakeMoved, hfirst, hsecond]

/-! ## Rewards -/

/-- A validator after the rewards of an epoch. -/
def rewarded (vs : ValidatorSet) (v : ValidatorInfo) : ValidatorInfo :=
  if v.isActive = true ∧ vs.totalActiveStake ≠ 0#128 then
    { v with
      stake := v.stake +
        baseReward * BitVec.ofNat 128 vs.activeCount * v.stake / vs.totalActiveStake }
  else v

theorem id_rewarded (vs : ValidatorSet) (v : ValidatorInfo) : (vs.rewarded v).id = v.id := by
  unfold rewarded
  split <;> rfl

theorem isActive_rewarded (vs : ValidatorSet) (v : ValidatorInfo) :
    (vs.rewarded v).isActive = v.isActive := by
  unfold rewarded
  split <;> rfl

def rewardedSet (vs : ValidatorSet) : ValidatorSet := ⟨vs.validators.map vs.rewarded⟩

theorem ids_rewardedSet (vs : ValidatorSet) :
    vs.rewardedSet.validators.map (·.id) = vs.validators.map (·.id) :=
  ids_map vs.id_rewarded _

theorem DistinctIds.rewardedSet (h : vs.DistinctIds) : vs.rewardedSet.DistinctIds := by
  rw [DistinctIds, ids_rewardedSet]
  exact h

theorem processEpochTransition_eq (h : vs.DistinctIds) :
    vs.processEpochTransition = vs.rewardedSet := by
  unfold processEpochTransition rewardedSet
  dsimp only
  split
  · next hzero =>
      obtain ⟨l⟩ := vs
      rw [mk.injEq]
      conv_lhs => rw [← List.map_id' l]
      exact List.map_congr_left fun v _ => (if_neg fun hpos => hpos.2 hzero).symm
  · next hpos =>
      set f := fun v : ValidatorInfo =>
        { v with
          stake := v.stake +
            baseReward * BitVec.ofNat 128 vs.activeCount * v.stake / vs.totalActiveStake }
      have hnodup : ((vs.validators.filter ValidatorInfo.isActive).map (·.id)).Nodup :=
        h.sublist (List.filter_sublist.map _)
      rw [foldl_update (g := fun _ => f) (fun _ _ => rfl) hnodup h, mk.injEq]
      refine List.map_congr_left fun v hv => ?_
      unfold updated rewarded
      cases hfind : (vs.validators.filter ValidatorInfo.isActive).find? fun w => w.id = v.id with
      | none =>
        rw [if_neg]
        rintro ⟨hactive, -⟩
        exact List.find?_eq_none.mp hfind v (List.mem_filter.mpr ⟨hv, hactive⟩)
          (decide_eq_true rfl)
      | some w =>
        have hmem := List.mem_filter.mp (List.mem_of_find?_eq_some hfind)
        have hid := List.find?_some hfind
        have heq : w = v := h.eq_of_id hmem.1 hv (of_decide_eq_true hid)
        rw [if_pos ⟨heq ▸ hmem.2, hpos⟩]

/-! ## Known validators -/

/-- A known validator after an update from the staking contract. -/
def syncedWith (sv : StakingValidator) (v : ValidatorInfo) : ValidatorInfo :=
  { v with
    stake := sv.totalStake
    status := .active
    missedBlocks := if v.isActive then v.missedBlocks else 0 }

theorem id_syncedWith (sv : StakingValidator) (v : ValidatorInfo) : (syncedWith sv v).id = v.id :=
  rfl

/-- What the code counts for an update of a known validator. -/
def countedBy (vs : ValidatorSet) (sv : StakingValidator) : Nat :=
  match vs.get? sv.id with
  | some v => (sv.totalStake - v.stake).abs.toNat
  | none => 0

def countedIn (vs : ValidatorSet) (known : List StakingValidator) : Nat :=
  ((known.filter (·.isActive)).map vs.countedBy).sum

theorem countedIn_update {known : List StakingValidator}
    (hnew : sv.id ∉ known.map (·.id)) :
    (vs.update sv.id (syncedWith sv)).countedIn known = vs.countedIn known := by
  rw [countedIn, countedIn]
  refine congrArg List.sum (List.map_congr_left fun w hw => ?_)
  rw [countedBy, countedBy, get?_update_of_ne (id_syncedWith sv) fun hid => hnew ?_]
  rw [← hid]
  exact List.mem_map_of_mem (List.mem_filter.mp hw).1

theorem Sync.enrol_known {limit : U128}
    (hactive : sv.isActive = true) (hget : sync.set.get? sv.id = some v) :
    sync.enrol limit sv =
      { set := sync.set.update sv.id (syncedWith sv)
        stakeChanged := satAdd sync.stakeChanged (sv.totalStake - v.stake).abs } := by
  rw [Sync.enrol, hactive, Bool.not_true, if_neg Bool.false_ne_true, hget]
  rfl

theorem Sync.enrol_inactive {limit : U128}
    (hactive : sv.isActive = false) : sync.enrol limit sv = sync := by
  rw [Sync.enrol, hactive, Bool.not_false, if_pos rfl]

/-- The entries of the staking contract for known validators, one after
the other. -/
theorem foldl_enrol_known (limit : U128) {known : List StakingValidator}
    (hnodup : (known.map (·.id)).Nodup) (sync : Sync)
    (hknown : ∀ sv ∈ known, sv.id ∈ sync.set.validators.map (·.id)) :
    (known.foldl (Sync.enrol limit) sync).set =
        (known.filter (·.isActive)).foldl (fun vs sv => vs.update sv.id (syncedWith sv)) sync.set ∧
      (known.foldl (Sync.enrol limit) sync).stakeChanged.toNat =
        min (sync.stakeChanged.toNat + sync.set.countedIn known) (2 ^ 128 - 1) := by
  induction known generalizing sync with
  | nil =>
    have hlt := sync.stakeChanged.isLt
    refine ⟨rfl, ?_⟩
    rw [show sync.set.countedIn [] = 0 from rfl, List.foldl_nil]
    omega
  | cons sv known ih =>
    rw [List.map_cons, List.nodup_cons] at hnodup
    rw [List.foldl_cons]
    cases hactive : sv.isActive with
    | false =>
      rw [Sync.enrol_inactive hactive, countedIn, List.filter_cons_of_neg (by simp [hactive])]
      exact ih hnodup.2 sync fun w hw => hknown w (List.mem_cons_of_mem _ hw)
    | true =>
      cases hget : sync.set.get? sv.id with
      | none => exact absurd (hknown sv List.mem_cons_self) (get?_eq_none.mp hget)
      | some v =>
        have hone : sync.set.countedBy sv = (sv.totalStake - v.stake).abs.toNat := by
          rw [countedBy, hget]
        have hids : ∀ w ∈ known,
            w.id ∈ (sync.set.update sv.id (syncedWith sv)).validators.map (·.id) := by
          intro w hw
          rw [ids_update (id_syncedWith sv)]
          exact hknown w (List.mem_cons_of_mem _ hw)
        obtain ⟨hset, hchanged⟩ := ih hnodup.2
          ⟨sync.set.update sv.id (syncedWith sv),
            satAdd sync.stakeChanged (sv.totalStake - v.stake).abs⟩ hids
        rw [Sync.enrol_known hactive hget, countedIn,
          List.filter_cons_of_pos (by simp [hactive]), List.map_cons, List.sum_cons, hone]
        refine ⟨hset, hchanged.trans ?_⟩
        rw [countedIn_update hnodup.1, toNat_satAdd, countedIn]
        omega

/-! ## Validators that join and leave -/

/-- How a set is doing while validators join and leave: from `base` and
`counted` on, what moves is what the code counts, within the limit. -/
structure Guarded (before : ValidatorSet) (limit : U128) (base counted : Nat) (sync : Sync) :
    Prop where
  moved : stakeMoved before sync.set + counted ≤ base + sync.stakeChanged.toNat
  counts : counted ≤ sync.stakeChanged.toNat
  within : sync.stakeChanged.toNat = counted ∨ sync.stakeChanged.toNat ≤ limit.toNat

variable {before : ValidatorSet} {limit : U128} {base counted : Nat} {sync : Sync}

theorem Guarded.moved_le (h : Guarded before limit base counted sync) :
    stakeMoved before sync.set ≤ base + (limit.toNat - counted) := by
  have hmoved := h.moved
  have hcounts := h.counts
  rcases h.within with heq | hle
  · omega
  · omega

/-- What the limit lets through. -/
theorem Sync.not_exceeds (hpos : 0#128 < limit) (hlimit : limit.toNat < 2 ^ 128 - 1)
    {stake : U128} :
    sync.exceeds limit stake = false ↔
      sync.stakeChanged.toNat + stake.toNat ≤ limit.toNat := by
  rw [Sync.exceeds, decide_eq_false_iff_not, not_and_or, or_iff_left fun h => h hpos,
    BitVec.not_lt, BitVec.le_def, toNat_satAdd]
  omega

theorem Sync.toNat_satAdd_of_not_exceeds (hpos : 0#128 < limit)
    (hlimit : limit.toNat < 2 ^ 128 - 1) {stake : U128} (h : sync.exceeds limit stake = false) :
    (satAdd sync.stakeChanged stake).toNat = sync.stakeChanged.toNat + stake.toNat := by
  have hle := (Sync.not_exceeds hpos hlimit).mp h
  exact toNat_satAdd_of_lt (by omega)

theorem Sync.enrol_new (hactive : sv.isActive = true)
    (hget : sync.set.get? sv.id = none) :
    sync.enrol limit sv =
      if sync.exceeds limit sv.totalStake then sync
      else
        { set := sync.set.add { id := sv.id, stake := sv.totalStake }
          stakeChanged := satAdd sync.stakeChanged sv.totalStake } := by
  rw [Sync.enrol, hactive, Bool.not_true, if_neg Bool.false_ne_true, hget]

section Limit

variable (hpos : 0#128 < limit) (hlimit : limit.toNat < 2 ^ 128 - 1)

include hpos hlimit

/-- A move within the limit is counted. -/
theorem Guarded.within_limit (h : Guarded before limit base counted sync) {set : ValidatorSet}
    {stake : U128} (hfits : ¬ sync.exceeds limit stake = true)
    (hmoved : stakeMoved before set ≤ stakeMoved before sync.set + stake.toNat) :
    Guarded before limit base counted
      { set := set, stakeChanged := satAdd sync.stakeChanged stake } := by
  rw [Bool.not_eq_true] at hfits
  have hadd := Sync.toNat_satAdd_of_not_exceeds hpos hlimit hfits
  have hbound := h.moved
  have hcounts := h.counts
  refine ⟨?_, ?_, Or.inr ?_⟩
  · rw [hadd]
    dsimp only
    omega
  · rw [hadd]
    omega
  · rw [hadd]
    exact (Sync.not_exceeds hpos hlimit).mp hfits

theorem Guarded.enrol (h : Guarded before limit base counted sync)
    (hnew : sv.id ∉ before.validators.map (·.id))
    (hget : sv.id ∉ sync.set.validators.map (·.id)) :
    Guarded before limit base counted (sync.enrol limit sv) := by
  cases hactive : sv.isActive with
  | false =>
    rw [Sync.enrol_inactive hactive]
    exact h
  | true =>
    rw [Sync.enrol_new hactive (get?_eq_none.mpr hget)]
    split
    · exact h
    · next hfits =>
        exact h.within_limit hpos hlimit hfits (stakeMoved_add hnew).le

omit hpos hlimit in
theorem ids_enrol_new (limit : U128) (hget : sv.id ∉ sync.set.validators.map (·.id)) :
    (sync.enrol limit sv).set = sync.set ∨
      ((sync.enrol limit sv).set.validators.map (·.id) =
        sync.set.validators.map (·.id) ++ [sv.id] ∧ sv.isActive = true) := by
  cases hactive : sv.isActive with
  | false => exact Or.inl (congrArg Sync.set (Sync.enrol_inactive hactive))
  | true =>
    rw [Sync.enrol_new hactive (get?_eq_none.mpr hget)]
    split
    · exact Or.inl rfl
    · refine Or.inr ⟨?_, rfl⟩
      rw [add, List.map_append]
      rfl

theorem Guarded.foldl_enrol {newcomers : List StakingValidator}
    (hnodup : (newcomers.map (·.id)).Nodup)
    (hnew : ∀ sv ∈ newcomers, sv.id ∉ before.validators.map (·.id))
    (h : Guarded before limit base counted sync) (hids : sync.set.DistinctIds)
    (hget : ∀ sv ∈ newcomers, sv.id ∉ sync.set.validators.map (·.id)) :
    Guarded before limit base counted (newcomers.foldl (Sync.enrol limit) sync) ∧
      (newcomers.foldl (Sync.enrol limit) sync).set.DistinctIds := by
  induction newcomers generalizing sync with
  | nil => exact ⟨h, hids⟩
  | cons sv newcomers ih =>
    rw [List.map_cons, List.nodup_cons] at hnodup
    have hsv := hget sv List.mem_cons_self
    refine ih hnodup.2 (fun w hw => hnew w (List.mem_cons_of_mem _ hw))
      (h.enrol hpos hlimit (hnew sv List.mem_cons_self) hsv) ?_ fun w hw => ?_
    · rcases ids_enrol_new limit hsv with heq | ⟨heq, -⟩
      · rw [heq]
        exact hids
      · rw [DistinctIds, heq]
        exact List.nodup_append.mpr ⟨hids, List.nodup_singleton _, fun a ha b hb => by
          rw [List.mem_singleton.mp hb]
          exact fun hab => hsv (hab ▸ ha)⟩
    · have hw' := hget w (List.mem_cons_of_mem _ hw)
      rcases ids_enrol_new limit hsv with heq | ⟨heq, -⟩
      · rw [heq]
        exact hw'
      · rw [heq, List.mem_append, List.mem_singleton, not_or]
        exact ⟨hw', fun hid => hnodup.1 (hid ▸ List.mem_map_of_mem hw)⟩

theorem Guarded.foldl_expel (hbefore : before.DistinctIds) {exited : List ValidatorInfo} (h : Guarded before limit base counted sync)
    (hstake : ∀ v ∈ exited, ∀ u, sync.set.get? v.id = some u → u.stake = v.stake) :
    Guarded before limit base counted (exited.foldl (Sync.expel limit) sync) := by
  induction exited generalizing sync with
  | nil => exact h
  | cons v exited ih =>
    have hrest : ∀ w ∈ exited, ∀ u, sync.set.get? w.id = some u → u.stake = w.stake :=
      fun w hw => hstake w (List.mem_cons_of_mem _ hw)
    rw [List.foldl_cons, Sync.expel]
    split
    · exact ih h hrest
    · next hfits =>
        refine ih (h.within_limit hpos hlimit hfits
          (stakeMoved_remove_le hbefore (hstake v List.mem_cons_self))) fun w hw u hu => ?_
        rw [get?_remove] at hu
        split at hu
        · cases hu
        · exact hrest w hw u hu

end Limit

/-- A set in which the limit is reached and `base` has moved. -/
structure Full (before : ValidatorSet) (limit : U128) (base : Nat) (sync : Sync) : Prop where
  moved : stakeMoved before sync.set = base
  reached : limit.toNat ≤ sync.stakeChanged.toNat

/-- Past the limit nobody leaves who has stake. -/
theorem Full.foldl_expel (hpos : 0#128 < limit) (hlimit : limit.toNat < 2 ^ 128 - 1)
    {exited : List ValidatorInfo} (h : Full before limit base sync)
    (hknown : ∀ v ∈ exited, v.id ∈ before.validators.map (·.id))
    (hstake : ∀ v ∈ exited, ∀ u, sync.set.get? v.id = some u → u.stake = v.stake) :
    Full before limit base (exited.foldl (Sync.expel limit) sync) := by
  induction exited generalizing sync with
  | nil => exact h
  | cons v exited ih =>
    have hrest : ∀ w ∈ exited, ∀ u, sync.set.get? w.id = some u → u.stake = w.stake :=
      fun w hw => hstake w (List.mem_cons_of_mem _ hw)
    have hknown' := fun w hw => hknown w (List.mem_cons_of_mem _ hw)
    rw [List.foldl_cons, Sync.expel]
    split
    · exact ih h hknown' hrest
    · next hfits =>
        rw [Bool.not_eq_true] at hfits
        have hadd := Sync.toNat_satAdd_of_not_exceeds hpos hlimit hfits
        have hle := (Sync.not_exceeds hpos hlimit).mp hfits
        have hreached := h.reached
        have hzero : v.stake = 0#128 := BitVec.eq_of_toNat_eq (by
          rw [BitVec.toNat_ofNat, Nat.zero_mod]
          omega)
        refine ih ⟨?_, ?_⟩ hknown' fun w hw u hu => ?_
        · rw [← h.moved]
          exact stakeMoved_remove_of_zero (hknown v List.mem_cons_self) fun u hu =>
            (hstake v List.mem_cons_self u hu).trans hzero
        · rw [hadd]
          exact hreached.trans (Nat.le_add_right _ _)
        · rw [get?_remove] at hu
          split at hu
          · cases hu
          · exact hrest w hw u hu

/-! ## The whole transition -/

theorem activeCount_eq (vs : ValidatorSet) :
    vs.activeCount = (vs.validators.filter ValidatorInfo.isActive).length :=
  vs.active_perm.length_eq

theorem totalActiveStake_eq (vs : ValidatorSet) :
    vs.totalActiveStake = sumStake (vs.validators.filter ValidatorInfo.isActive) :=
  vs.active_perm.foldl_eq' (fun a _ b _ t => by
    rw [BitVec.add_assoc, BitVec.add_comm a.stake, ← BitVec.add_assoc]) _

/-- The rewards, read off the unsorted list. -/
theorem rewarded_eq (vs : ValidatorSet) :
    vs.rewarded = fun v =>
      let active := vs.validators.filter ValidatorInfo.isActive
      if v.isActive = true ∧ sumStake active ≠ 0#128 then
        { v with
          stake := v.stake +
            baseReward * BitVec.ofNat 128 active.length * v.stake / sumStake active }
      else v := by
  funext v
  rw [rewarded, totalActiveStake_eq, activeCount_eq]

/-- The limit of an epoch: a third of the active stake after rewards. -/
def changeLimit (vs : ValidatorSet) : U128 :=
  sumStake (vs.rewardedSet.validators.filter ValidatorInfo.isActive) / 3#128

/-- A validator of the set after rewards and the update from the staking
contract. -/
def refreshed (vs : ValidatorSet) (known : List StakingValidator) (v : ValidatorInfo) :
    ValidatorInfo :=
  updated (·.id) syncedWith (known.filter (·.isActive)) (vs.rewarded v)

/-- What the limit does not guard: the stake that moves for the validators
of the set as long as none of them leaves. -/
def unguardedChange (vs : ValidatorSet) (known : List StakingValidator) : Nat :=
  (vs.validators.map fun v => stakeMovedBy v (some (vs.refreshed known v))).sum

/-- What of it counts towards the limit. -/
def countedChange (vs : ValidatorSet) (known : List StakingValidator) : Nat :=
  vs.rewardedSet.countedIn known

theorem id_refreshed (vs : ValidatorSet) (known : List StakingValidator) (v : ValidatorInfo) :
    (vs.refreshed known v).id = v.id :=
  (id_updated id_syncedWith _ _).trans (vs.id_rewarded v)

theorem changeLimit_lt (vs : ValidatorSet) : vs.changeLimit.toNat < 2 ^ 128 - 1 := by
  have hlt := (sumStake (vs.rewardedSet.validators.filter ValidatorInfo.isActive)).isLt
  rw [changeLimit, BitVec.toNat_udiv, show (3#128).toNat = 3 from rfl]
  omega

theorem maxStakeChange_rewardedSet (h : 4 ≤ vs.activeCount) :
    vs.rewardedSet.maxStakeChange = vs.changeLimit := by
  have hcount : vs.rewardedSet.activeCount = vs.activeCount := by
    rw [activeCount_eq, activeCount_eq, rewardedSet, List.filter_map, List.length_map]
    exact congrArg List.length (List.filter_congr fun v _ => vs.isActive_rewarded v)
  rw [maxStakeChange, hcount, if_pos h, changeLimit]

/-- The removals at the end of a transition. -/
def withoutExited (limit : U128) (staking : StakingContract) (sync : Sync) : Sync :=
  (sync.set.validators.filter fun v =>
    v.id ∉ (staking.validators.filter (·.isActive)).map (·.id)).foldl (Sync.expel limit) sync

theorem Full.withoutExited (hpos : 0#128 < limit) (hlimit : limit.toNat < 2 ^ 128 - 1)
    (h : Full before limit base sync) (hids : sync.set.DistinctIds) {staking : StakingContract}
    (hold : ∀ v ∈ sync.set.validators, v.id ∈ before.validators.map (·.id) ∨
      v.id ∈ (staking.validators.filter (·.isActive)).map (·.id)) :
    stakeMoved before (withoutExited limit staking sync).set = base := by
  refine (h.foldl_expel hpos hlimit (fun v hv => ?_) fun v hv u hu => ?_).moved
  · obtain ⟨hmem, hexit⟩ := List.mem_filter.mp hv
    exact (hold v hmem).resolve_right (of_decide_eq_true hexit)
  · rw [get?_of_mem hids (List.mem_filter.mp hv).1] at hu
    rw [Option.some.inj hu]

theorem epochTransition_eq (h4 : 4 ≤ vs.activeCount) (hids : vs.DistinctIds)
    (staking : StakingContract) :
    vs.epochTransition staking =
      (withoutExited vs.changeLimit staking
        (staking.validators.foldl (Sync.enrol vs.changeLimit) { set := vs.rewardedSet })).set := by
  rw [epochTransition, processEpochTransition_eq hids, syncWithStaking,
    maxStakeChange_rewardedSet h4, withoutExited]

/-- An active validator of the staking contract that nobody has delegated
to. -/
def newcomer (id : ValidatorId) (stake : U128) : StakingValidator where
  id := id
  selfStake := stake
  totalDelegated := 0#128
  accumulatedRewardPerToken := 0#128
  isActive := true
  isGenesis := false
  genesisLockUntil := 0#64
  commissionRateBps := 0#64
  eligibleFromEpoch := 0#64
  pendingNewKey := none
  keyRotationEpoch := 0#64

theorem totalStake_newcomer (id : ValidatorId) (stake : U128) :
    (newcomer id stake).totalStake = stake :=
  BitVec.add_zero _

section Transition

variable {known newcomers : List StakingValidator} {staking : StakingContract}
  (hids : vs.DistinctIds) (hnodup : (known.map (·.id)).Nodup)
  (hknown : ∀ sv ∈ known, sv.id ∈ vs.validators.map (·.id))

include hids

theorem distinctIds_refreshed (known : List StakingValidator) :
    (mk (vs.validators.map (vs.refreshed known))).DistinctIds := by
  rw [DistinctIds, ids_map (vs.id_refreshed known)]
  exact hids

include hnodup hknown

/-- The set once the known validators are up to date. -/
theorem foldl_enrol_rewardedSet (limit : U128) :
    (known.foldl (Sync.enrol limit) { set := vs.rewardedSet }).set =
        ⟨vs.validators.map (vs.refreshed known)⟩ ∧
      (known.foldl (Sync.enrol limit) { set := vs.rewardedSet }).stakeChanged.toNat =
        min (vs.countedChange known) (2 ^ 128 - 1) := by
  obtain ⟨hset, hchanged⟩ := foldl_enrol_known limit hnodup { set := vs.rewardedSet }
    fun sv hsv => by
      rw [ids_rewardedSet]
      exact hknown sv hsv
  have hnodup' : ((known.filter (·.isActive)).map (·.id)).Nodup :=
    hnodup.sublist (List.filter_sublist.map _)
  constructor
  · rw [hset]
    refine (foldl_update id_syncedWith hnodup' hids.rewardedSet).trans ?_
    rw [rewardedSet, List.map_map]
    rfl
  · rw [hchanged]
    exact congrArg (min · _) (Nat.zero_add _)

variable (h4 : 4 ≤ vs.activeCount) (hpos : 0#128 < vs.changeLimit)

include h4 hpos

/-- Validators that join after the known ones and those that leave move no
more than the limit leaves room for. -/
theorem stakeMoved_epochTransition_le (hstaking : staking.validators = known ++ newcomers)
    (hjoin : (newcomers.map (·.id)).Nodup)
    (hnew : ∀ sv ∈ newcomers, sv.id ∉ vs.validators.map (·.id)) :
    stakeMoved vs (vs.epochTransition staking) ≤
      vs.unguardedChange known + (vs.changeLimit.toNat - vs.countedChange known) := by
  obtain ⟨hset, hchanged⟩ := foldl_enrol_rewardedSet hids hnodup hknown vs.changeLimit
  rw [epochTransition_eq h4 hids, hstaking, List.foldl_append]
  set sync := known.foldl (Sync.enrol vs.changeLimit) { set := vs.rewardedSet }
  have hlimit := vs.changeLimit_lt
  have hstart : Guarded vs vs.changeLimit (vs.unguardedChange known) sync.stakeChanged.toNat
      sync := by
    refine ⟨?_, Nat.le_refl _, Or.inl rfl⟩
    rw [hset, stakeMoved_map hids (vs.id_refreshed known)]
    exact Nat.le_refl _
  have hsync : sync.set.DistinctIds := by
    rw [hset]
    exact distinctIds_refreshed hids known
  obtain ⟨hjoined, hjoinedIds⟩ := hstart.foldl_enrol hpos hlimit hjoin hnew hsync
    fun sv hsv => by
      rw [hset, ids_map (vs.id_refreshed known)]
      exact hnew sv hsv
  have hend : Guarded vs vs.changeLimit (vs.unguardedChange known) sync.stakeChanged.toNat
      (withoutExited vs.changeLimit staking (newcomers.foldl (Sync.enrol vs.changeLimit) sync)) := by
    refine hjoined.foldl_expel hpos hlimit hids fun v hv u hu => ?_
    rw [get?_of_mem hjoinedIds (List.mem_filter.mp hv).1] at hu
    rw [Option.some.inj hu]
  refine hend.moved_le.trans (Nat.add_le_add_left ?_ _)
  omega

/-- Where the limit leaves room, a newcomer who asks for exactly that much
is let in; where it leaves none, nobody has to join. -/
theorem exists_newcomers (hfresh : ∃ id, id ∉ vs.validators.map (·.id)) :
    ∃ newcomers : List StakingValidator, (newcomers.map (·.id)).Nodup ∧
      (∀ sv ∈ newcomers, sv.id ∉ vs.validators.map (·.id)) ∧
        stakeMoved vs (vs.epochTransition { validators := known ++ newcomers }) =
          vs.unguardedChange known + (vs.changeLimit.toNat - vs.countedChange known) := by
  obtain ⟨id, hid⟩ := hfresh
  obtain ⟨hset, hchanged⟩ := foldl_enrol_rewardedSet hids hnodup hknown vs.changeLimit
  have hlimit := vs.changeLimit_lt
  have hmoved : stakeMoved vs ⟨vs.validators.map (vs.refreshed known)⟩ = vs.unguardedChange known :=
    stakeMoved_map hids (vs.id_refreshed known)
  have hdistinct := distinctIds_refreshed hids known
  have hold : ∀ v ∈ vs.validators.map (vs.refreshed known), v.id ∈ vs.validators.map (·.id) := by
    intro v hv
    rw [← ids_map (vs.id_refreshed known)]
    exact List.mem_map_of_mem hv
  by_cases hroom : vs.countedChange known < vs.changeLimit.toNat
  · let sv := newcomer id (BitVec.ofNat 128 (vs.changeLimit.toNat - vs.countedChange known))
    have hstake : sv.totalStake.toNat = vs.changeLimit.toNat - vs.countedChange known := by
      rw [totalStake_newcomer, BitVec.toNat_ofNat, Nat.mod_eq_of_lt (by omega)]
    refine ⟨[sv], List.nodup_singleton _, fun w hw => ?_, ?_⟩
    · rw [List.mem_singleton.mp hw]
      exact hid
    rw [epochTransition_eq h4 hids, List.foldl_append, List.foldl_cons, List.foldl_nil]
    generalize hsync : known.foldl (Sync.enrol vs.changeLimit) { set := vs.rewardedSet } = sync
    rw [hsync] at hset hchanged
    have hget : sync.set.get? sv.id = none := by
      rw [hset, get?_eq_none, ids_map (vs.id_refreshed known)]
      exact hid
    have hfits : sync.exceeds vs.changeLimit sv.totalStake = false := by
      rw [Sync.not_exceeds hpos hlimit, hstake]
      omega
    rw [Sync.enrol_new rfl hget, hfits, if_neg Bool.false_ne_true]
    refine Full.withoutExited hpos hlimit ⟨?_, ?_⟩ ?_ fun v hv => ?_
    · rw [stakeMoved_add hid, hset, hmoved, hstake]
    · rw [Sync.toNat_satAdd_of_not_exceeds hpos hlimit hfits, hstake]
      omega
    · rw [DistinctIds, add, List.map_append, hset]
      refine List.nodup_append.mpr ⟨hdistinct, List.nodup_singleton _, fun a ha b hb hab => ?_⟩
      rw [hab, List.mem_singleton.mp hb, ids_map (vs.id_refreshed known)] at ha
      exact hid ha
    · rw [add, hset] at hv
      rcases List.mem_append.mp hv with hv | hv
      · exact Or.inl (hold v hv)
      · right
        rw [List.mem_singleton.mp hv]
        exact List.mem_map_of_mem (List.mem_filter.mpr
          ⟨List.mem_append_right _ (List.mem_singleton_self sv), rfl⟩)
  · refine ⟨[], List.nodup_nil, fun sv hsv => absurd hsv List.not_mem_nil, ?_⟩
    rw [epochTransition_eq h4 hids, List.append_nil,
      Nat.sub_eq_zero_of_le (Nat.not_lt.mp hroom), Nat.add_zero]
    refine Full.withoutExited hpos hlimit ⟨?_, ?_⟩ ?_ fun v hv => ?_
    · rw [hset, hmoved]
    · rw [hchanged]
      omega
    · rw [hset]
      exact hdistinct
    · rw [hset] at hv
      exact Or.inl (hold v hv)

end Transition

/-- One transition moves at most a third of the active stake, whoever joins,
exactly if the unguarded changes and what the limit leaves fit into it. -/
theorem setChange_bounded_iff (vs : ValidatorSet) (h4 : 4 ≤ vs.activeCount)
    (hids : vs.DistinctIds) (hfresh : ∃ id, id ∉ vs.validators.map (·.id))
    (hpos : 0#128 < vs.changeLimit) (known : List StakingValidator)
    (hnodup : (known.map (·.id)).Nodup)
    (hknown : ∀ sv ∈ known, sv.id ∈ vs.validators.map (·.id)) :
    (∀ (staking : StakingContract) (newcomers : List StakingValidator),
        staking.validators = known ++ newcomers → (newcomers.map (·.id)).Nodup →
          (∀ sv ∈ newcomers, sv.id ∉ vs.validators.map (·.id)) →
            stakeMoved vs (vs.epochTransition staking) ≤
              natStake (vs.validators.filter ValidatorInfo.isActive) / 3) ↔
      vs.unguardedChange known + (vs.changeLimit.toNat - vs.countedChange known) ≤
        natStake (vs.validators.filter ValidatorInfo.isActive) / 3 := by
  constructor
  · intro hall
    obtain ⟨newcomers, hjoin, hnew, heq⟩ := exists_newcomers hids hnodup hknown h4 hpos hfresh
    rw [← heq]
    exact hall _ newcomers rfl hjoin hnew
  · intro hle staking newcomers hstaking hjoin hnew
    exact (stakeMoved_epochTransition_le hids hnodup hknown h4 hpos hstaking hjoin hnew).trans hle

/-- Four active validators with a stake of 1000 each. -/
def fourValidators : ValidatorSet :=
  ⟨[1, 2, 3, 4].map fun b => { id := Hash.repeated b, stake := 1000#128 }⟩

/-- Their entries in the staking contract when the first one's stake is
`stake` there. -/
def fourStakes (stake : U128) : List StakingValidator :=
  newcomer (Hash.repeated 1) stake ::
    [2, 3, 4].map fun b => newcomer (Hash.repeated b) 1000#128

theorem setChange_bounded_four :
    stakeMoved fourValidators (fourValidators.epochTransition
      { validators := fourStakes 1000#128 ++ [newcomer (Hash.repeated 5) 4000#128] }) ≤ 1333 := by
  refine (setChange_bounded_iff fourValidators ?_ ?_ ⟨Hash.repeated 5, ?_⟩ ?_ (fourStakes 1000#128)
    ?_ ?_).mpr ?_ _ _ rfl ?_ ?_
  · rw [activeCount_eq]
    decide
  · unfold DistinctIds
    decide
  · decide
  · rw [changeLimit, rewardedSet, rewarded_eq]
    decide +kernel
  · decide
  · decide
  · simp only [unguardedChange, countedChange, refreshed, changeLimit, rewardedSet, rewarded_eq]
    decide +kernel
  · decide
  · decide

/-- The delegations of one validator double what the whole set may move. -/
theorem setChange_unbounded :
    ∃ (vs : ValidatorSet) (staking : StakingContract), 4 ≤ vs.activeCount ∧
      natStake (vs.validators.filter ValidatorInfo.isActive) / 3 <
        stakeMoved vs (vs.epochTransition staking) := by
  refine ⟨fourValidators, { validators := fourStakes 4000#128 }, ?_, ?_⟩
  · rw [activeCount_eq]
    decide
  · simp only [epochTransition, processEpochTransition, syncWithStaking, maxStakeChange,
      totalActiveStake_eq, activeCount_eq]
    decide +kernel

end ValidatorSet

end Solen
