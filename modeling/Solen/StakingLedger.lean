import Solen.Amounts
import Solen.CallRules
import Solen.Conservation

/-!
# The staking ledger

Funds that are staked leave an account and come back to one: a
registration or a delegation debits its caller by what the record goes up,
an undelegation moves a delegation to the pending entries, a withdrawal
pays these out, and a slash pays the treasury. Nothing is lost on the way,
and the total a validator keeps of its delegations is their sum.
-/

namespace Solen

open Machine Prog Relation
open StateStore (entries)

variable {delegator : AccountId} {d : Delegation} {ds : List Delegation} {c' : StakingContract}
  {f : StakingValidator → StakingValidator} {amount : U128} {bps epoch : U64}

namespace StakingContract

/-! ## Sums over the record -/

/-- The delegations to the validators that `p` selects. -/
def delegatedIn (ds : List Delegation) (p : ValidatorId → Bool) : Nat :=
  (ds.map fun d => if p d.validator then d.amount.toNat else 0).sum

/-- The delegation records of a validator, summed up. -/
def delegatedTo (c : StakingContract) (id : ValidatorId) : Nat :=
  delegatedIn c.delegations (· == id)

def delegated (c : StakingContract) : Nat := delegatedIn c.delegations fun _ => true

def selfStakes (c : StakingContract) : Nat := (c.validators.map (·.selfStake.toNat)).sum

def unbonding (c : StakingContract) : Nat := (c.undelegations.map (·.amount.toNat)).sum

/-- All that the record holds. -/
def staked (c : StakingContract) : Nat := c.selfStakes + c.delegated + c.unbonding

/-- Each validator stands in the record once and its total is the sum of its
delegations, which all go to validators in the record. -/
structure Consistent (c : StakingContract) : Prop where
  nodup : (c.validators.map (·.id)).Nodup
  total : ∀ v ∈ c.validators, v.totalDelegated.toNat = c.delegatedTo v.id
  known : ∀ d ∈ c.delegations, ∃ v ∈ c.validators, v.id = d.validator

theorem delegatedIn_le (ds : List Delegation) (p : ValidatorId → Bool) :
    delegatedIn ds p ≤ delegatedIn ds fun _ => true := by
  refine List.sum_le_sum fun d _ => ?_
  split
  · exact Nat.le_refl _
  · exact Nat.zero_le _

theorem delegatedIn_append (ds ds' : List Delegation) (p : ValidatorId → Bool) :
    delegatedIn (ds ++ ds') p = delegatedIn ds p + delegatedIn ds' p := by
  simp [delegatedIn]

/-- With distinct identifiers only one validator is updated. -/
theorem mem_updateFirst_validators {x : ValidatorId}
    {v' : StakingValidator} : ∀ {l : List StakingValidator}, (l.map (·.id)).Nodup →
      v' ∈ l.updateFirst (·.id == x) f →
        (v' ∈ l ∧ v'.id ≠ x) ∨ ∃ v ∈ l, v.id = x ∧ v' = f v
  | [], _, h => by cases h
  | v :: l, hnodup, h => by
      rw [List.map_cons, List.nodup_cons] at hnodup
      rw [List.updateFirst] at h
      split at h
      · next hv =>
          have hid : v.id = x := by simpa using hv
          rcases List.mem_cons.mp h with rfl | h
          · exact .inr ⟨v, List.mem_cons_self, hid, rfl⟩
          · refine .inl ⟨List.mem_cons_of_mem v h, fun hx => hnodup.1 ?_⟩
            rw [hid, ← hx]
            exact List.mem_map_of_mem h
      · next hv =>
          rcases List.mem_cons.mp h with rfl | h
          · exact .inl ⟨List.mem_cons_self, by simpa using hv⟩
          · rcases mem_updateFirst_validators hnodup.2 h with ⟨hmem, hne⟩ | ⟨w, hw, hid, rfl⟩
            · exact .inl ⟨List.mem_cons_of_mem v hmem, hne⟩
            · exact .inr ⟨w, List.mem_cons_of_mem v hw, hid, rfl⟩

section

variable {c c' : StakingContract} {x : ValidatorId}

/-- One validator and its delegations change by the same amount. -/
theorem Consistent.update (up down : Nat)
    (hc : c.Consistent) (hvals : c'.validators = c.validators.updateFirst (·.id == x) f)
    (hf : ∀ v, (f v).id = v.id)
    (htotal : ∀ v ∈ c.validators, v.id = x →
      (f v).totalDelegated.toNat + down = v.totalDelegated.toNat + up)
    (hsum : ∀ p, delegatedIn c'.delegations p + (if p x then down else 0) =
      delegatedIn c.delegations p + if p x then up else 0)
    (hknown : ∀ d ∈ c'.delegations, ∃ v ∈ c.validators, v.id = d.validator) :
    c'.Consistent where
  nodup := by
    rw [hvals, List.map_updateFirst hf]
    exact hc.nodup
  total v' hv' := by
    rw [hvals] at hv'
    rcases mem_updateFirst_validators hc.nodup hv' with ⟨hv, hne⟩ | ⟨v, hv, hid, rfl⟩
    · have hother := hsum (· == v'.id)
      have hx : (x == v'.id) = false := by simpa using Ne.symm hne
      simp only [hx, Bool.false_eq_true, if_false, Nat.add_zero] at hother
      rw [hc.total v' hv, delegatedTo, delegatedTo, hother]
    · have hself := hsum (· == v.id)
      have hx : (x == v.id) = true := by simp [hid]
      have hv' := htotal v hv hid
      have hold := hc.total v hv
      simp only [hx, if_true] at hself
      rw [hf]
      unfold delegatedTo at hold ⊢
      omega
  known d hd := by
    obtain ⟨v, hv, hid⟩ := hknown d hd
    have hmem : v.id ∈ c'.validators.map (·.id) := by
      rw [hvals, List.map_updateFirst hf]
      exact List.mem_map_of_mem hv
    obtain ⟨v', hv', hid'⟩ := List.mem_map.mp hmem
    exact ⟨v', hv', hid'.trans hid⟩

/-! ## Registration -/

theorem register_ledger {minStake : U128} (hc : c.Consistent)
    (h : c.registerValidatorAtEpochWithConfig x amount epoch minStake = .ok c') :
    c'.Consistent ∧ c'.staked = c.staked + amount.toNat ∧
      c'.undelegations = c.undelegations := by
  unfold registerValidatorAtEpochWithConfig at h
  split at h
  · cases h
  · split at h
    · cases h
    · next hany =>
        cases h
        have hnew : ∀ v ∈ c.validators, v.id ≠ x := by simpa using hany
        have hnone : c.delegatedTo x = 0 := by
          refine List.sum_eq_zero fun n hn => ?_
          obtain ⟨d, hd, rfl⟩ := List.mem_map.mp hn
          obtain ⟨v, hv, hid⟩ := hc.known d hd
          exact if_neg (by simpa [← hid] using hnew v hv)
        refine ⟨⟨?_, ?_, ?_⟩, ?_, rfl⟩
        · rw [List.map_append, List.nodup_append']
          refine ⟨hc.nodup, by simp, ?_⟩
          simpa [List.Disjoint] using fun v hv hid => hnew v hv hid
        · intro v hv
          rcases List.mem_append.mp hv with hv | hv
          · exact hc.total v hv
          · cases List.mem_singleton.mp hv
            exact hnone.symm
        · intro d hd
          obtain ⟨v, hv, hid⟩ := hc.known d hd
          exact ⟨v, List.mem_append_left _ hv, hid⟩
        · simp only [staked, selfStakes, delegated, unbonding, List.map_append, List.sum_append,
            List.map_cons, List.map_nil, List.sum_cons, List.sum_nil]
          omega

/-! ## Delegation -/

theorem validator_of_isDelegation
    (h : isDelegation delegator x d = true) : d.validator = x := by
  simp only [isDelegation, Bool.and_eq_true, beq_iff_eq] at h
  exact h.2

theorem amount_le_delegatedIn (h : d ∈ ds) :
    d.amount.toNat ≤ delegatedIn ds fun _ => true :=
  List.single_le_sum (fun _ _ => Nat.zero_le _) _ (List.mem_map.mpr ⟨d, h, rfl⟩)

/-- A sum of delegations after the first one of a pair has changed. -/
theorem delegatedIn_updateFirst
    {f : Delegation → Delegation} (hd : ds.find? (isDelegation delegator x) = some d)
    (hf : (f d).validator = d.validator) (p : ValidatorId → Bool) :
    delegatedIn (ds.updateFirst (isDelegation delegator x) f) p +
        (if p x then d.amount.toNat else 0) =
      delegatedIn ds p + if p x then (f d).amount.toNat else 0 := by
  have hx := validator_of_isDelegation (List.find?_some hd)
  have hsum := List.sum_map_updateFirst f
    (fun d => if p d.validator then d.amount.toNat else 0) hd
  rw [hf, hx] at hsum
  exact hsum

/-- The delegations after an amount was delegated to `x`. -/
theorem delegatedIn_delegate (delegator : AccountId)
    (x : ValidatorId) (debt : U128) (epoch : U64)
    (hfits : delegatedIn ds (fun _ => true) + amount.toNat < 2 ^ 128) (p : ValidatorId → Bool) :
    delegatedIn (if ds.any (isDelegation delegator x) then
        ds.updateFirst (isDelegation delegator x) fun d =>
          { d with amount := satAdd d.amount amount, rewardDebt := satAdd d.rewardDebt debt }
      else
        ds ++ [{
          delegator := delegator
          validator := x
          amount := amount
          rewardDebt := debt
          eligibleFromEpoch := epoch }]) p =
      delegatedIn ds p + if p x then amount.toNat else 0 := by
  split
  · next hany =>
      obtain ⟨d, hd⟩ : ∃ d, ds.find? (isDelegation delegator x) = some d := by
        rw [← Option.isSome_iff_exists, List.find?_isSome]
        simpa using hany
      have hle := amount_le_delegatedIn (List.mem_of_find?_eq_some hd)
      have hsum := delegatedIn_updateFirst (f := fun d =>
        { d with amount := satAdd d.amount amount, rewardDebt := satAdd d.rewardDebt debt })
        hd rfl p
      have hadd : (satAdd d.amount amount).toNat = d.amount.toNat + amount.toNat :=
        toNat_satAdd_of_lt (by omega)
      cases hp : p x with
      | true =>
        simp only [hp, hadd, if_true] at hsum ⊢
        omega
      | false =>
        simp only [hp, Bool.false_eq_true, if_false] at hsum ⊢
        omega
  · rw [delegatedIn_append]
    simp [delegatedIn]

theorem mem_delegate {new : Delegation}
    {f : Delegation → Delegation}
    (h : d ∈ if ds.any (isDelegation delegator x) then
        ds.updateFirst (isDelegation delegator x) f else ds ++ [new])
    (hf : ∀ d, (f d).validator = d.validator) (hnew : new.validator = x) :
    (∃ d' ∈ ds, d'.validator = d.validator) ∨ d.validator = x := by
  split at h
  · rcases List.mem_updateFirst h with h | ⟨d', hd', -, rfl⟩
    · exact .inl ⟨d, h, rfl⟩
    · exact .inl ⟨d', hd', (hf d').symm⟩
  · rcases List.mem_append.mp h with h | h
    · exact .inl ⟨d, h, rfl⟩
    · cases List.mem_singleton.mp h
      exact .inr hnew

theorem delegate_ledger
    (hc : c.Consistent) (hfits : c.staked + amount.toNat < 2 ^ 128)
    (h : c.delegateAtEpoch delegator x amount epoch = .ok c') :
    c'.Consistent ∧ c'.staked = c.staked + amount.toNat ∧
      c'.undelegations = c.undelegations := by
  unfold delegateAtEpoch at h
  split at h
  · cases h
  · next val hval =>
      cases h
      have hle : c.delegated ≤ c.staked := by
        unfold staked
        omega
      have hsum := delegatedIn_delegate delegator x
        (satMul val.accumulatedRewardPerToken amount / 1000000#128) (epoch + 1#64)
        (Nat.lt_of_le_of_lt (Nat.add_le_add_right hle _) hfits)
      refine ⟨hc.update amount.toNat 0 rfl (fun _ => rfl) ?_ ?_ ?_, ?_, rfl⟩
      · intro v hv hid
        have hv' : v.totalDelegated.toNat ≤ c.delegated := by
          rw [hc.total v hv]
          exact delegatedIn_le _ _
        exact toNat_satAdd_of_lt (by omega)
      · intro p
        rw [ite_self, Nat.add_zero]
        exact hsum p
      · intro d hd
        rcases mem_delegate hd (fun _ => rfl) rfl with ⟨d', hd', hid⟩ | hid
        · rw [← hid]
          exact hc.known d' hd'
        · rw [hid]
          exact ⟨val, List.mem_of_find?_eq_some hval, by simpa using List.find?_some hval⟩
      · have hself := List.map_updateFirst (p := fun v : StakingValidator => v.id == x)
          (f := fun v => { v with totalDelegated := satAdd v.totalDelegated amount })
          (g := fun v => v.selfStake.toNat) (fun _ => rfl) c.validators
        have hdel := hsum fun _ => true
        unfold staked selfStakes delegated unbonding
        dsimp only
        rw [hself, hdel, if_pos rfl]
        omega

/-! ## Undelegation -/

/-- Entries without an amount do not count. -/
theorem delegatedIn_filter {keep : Delegation → Bool}
    (hkeep : ∀ d ∈ ds, keep d = false → d.amount = 0#128) (p : ValidatorId → Bool) :
    delegatedIn (ds.filter keep) p = delegatedIn ds p := by
  induction ds with
  | nil => rfl
  | cons d ds ih =>
    have ih := ih fun d' hd' => hkeep d' (List.mem_cons_of_mem d hd')
    cases hd : keep d with
    | true =>
      rw [List.filter_cons_of_pos hd]
      unfold delegatedIn at ih ⊢
      rw [List.map_cons, List.map_cons, List.sum_cons, List.sum_cons, ih]
    | false =>
      have hzero := hkeep d List.mem_cons_self hd
      rw [List.filter_cons_of_neg (by simp [hd]), ih]
      simp [delegatedIn, hzero]

/-- The delegations after an amount was taken from the one `d` to `x`. -/
theorem delegatedIn_undelegate (hd : ds.find? (isDelegation delegator x) = some d) (hle : amount ≤ d.amount)
    (p : ValidatorId → Bool) :
    delegatedIn (if d.amount - amount = 0#128 then
        (ds.updateFirst (isDelegation delegator x) fun d =>
          { d with amount := d.amount - amount }).filter
            fun d => !(isDelegation delegator x d && d.amount == 0#128)
      else
        ds.updateFirst (isDelegation delegator x) fun d =>
          { d with amount := d.amount - amount }) p + (if p x then amount.toNat else 0) =
      delegatedIn ds p := by
  have hsub : (d.amount - amount).toNat = d.amount.toNat - amount.toNat :=
    BitVec.toNat_sub_of_le hle
  have hle' : amount.toNat ≤ d.amount.toNat := hle
  have hreduced := delegatedIn_updateFirst (f := fun d => { d with amount := d.amount - amount })
    hd rfl p
  -- dropping the emptied entry does not matter
  have hsame : ∀ ds' : List Delegation, delegatedIn (if d.amount - amount = 0#128 then
      ds'.filter fun d => !(isDelegation delegator x d && d.amount == 0#128) else ds') p =
        delegatedIn ds' p := by
    intro ds'
    split
    · exact delegatedIn_filter (fun d _ hdrop => by simp_all) p
    · rfl
  rw [hsame]
  cases hp : p x with
  | true =>
    simp only [hp, hsub, if_true] at hreduced ⊢
    omega
  | false =>
    simp only [hp, Bool.false_eq_true, if_false] at hreduced ⊢
    omega

theorem undelegate_ledger
    (hc : c.Consistent) (h : c.undelegate delegator x amount epoch = .ok c') :
    c'.Consistent ∧ c'.staked = c.staked ∧
      c'.undelegations = c.undelegations ++ [{
        delegator := delegator
        validator := x
        amount := amount
        unlockEpoch := epoch + c.unbondingPeriod.getD defaultUnbondingPeriod }] := by
  unfold undelegate at h
  split at h
  · cases h
  · next d hd =>
      split at h
      · cases h
      · next hlow =>
          split at h
          · cases h
          · cases h
            have hsum := delegatedIn_undelegate hd (BitVec.not_lt.mp hlow)
            refine ⟨hc.update 0 amount.toNat rfl (fun _ => rfl) ?_ ?_ ?_, ?_, rfl⟩
            · intro v hv hid
              have htotal : amount.toNat ≤ v.totalDelegated.toNat := by
                have hp := hsum (· == x)
                rw [beq_self_eq_true, if_pos rfl] at hp
                rw [hc.total v hv, hid, delegatedTo]
                omega
              change (satSub v.totalDelegated amount).toNat + amount.toNat = _
              rw [toNat_satSub]
              omega
            · intro p
              rw [ite_self, Nat.add_zero]
              exact hsum p
            · intro d' hd'
              have hmem : d' ∈ c.delegations.updateFirst (isDelegation delegator x)
                  fun d => { d with amount := d.amount - amount } := by
                dsimp only at hd'
                split at hd'
                · exact (List.mem_filter.mp hd').1
                · exact hd'
              rcases List.mem_updateFirst hmem with h | ⟨d'', hd'', -, rfl⟩
              · exact hc.known d' h
              · exact hc.known d'' hd''
            · have hself := List.map_updateFirst (p := fun v : StakingValidator => v.id == x)
                (f := fun v => { v with totalDelegated := satSub v.totalDelegated amount })
                (g := fun v => v.selfStake.toNat) (fun _ => rfl) c.validators
              have hdel := hsum fun _ => true
              rw [if_pos rfl] at hdel
              simp only [staked, selfStakes, delegated, unbonding, List.map_append,
                List.sum_append, List.map_cons, List.map_nil, List.sum_cons, List.sum_nil, hself]
              omega

/-! ## Withdrawal -/

/-- The pending entries of a delegator that have unlocked. -/
def matured (c : StakingContract) (delegator : AccountId) (epoch : U64) : List Undelegation :=
  c.undelegations.filter fun u => u.delegator == delegator && decide (u.unlockEpoch ≤ epoch)

theorem withdraw_ledger (delegator : AccountId) (epoch : U64) (hc : c.Consistent)
    (hfits : c.staked < 2 ^ 128) :
    (c.withdrawUndelegated delegator epoch).1.Consistent ∧
      (c.withdrawUndelegated delegator epoch).1.staked +
          ((c.matured delegator epoch).map (·.amount.toNat)).sum = c.staked ∧
      (c.withdrawUndelegated delegator epoch).2.toNat =
        ((c.matured delegator epoch).map (·.amount.toNat)).sum ∧
      ((c.withdrawUndelegated delegator epoch).1.undelegations ++
        c.matured delegator epoch).Perm c.undelegations := by
  have hperm : ((c.withdrawUndelegated delegator epoch).1.undelegations ++
      c.matured delegator epoch).Perm c.undelegations :=
    (List.perm_append_comm).trans (List.filter_append_perm _ _)
  have hsum := (hperm.map (·.amount.toNat)).sum_eq
  rw [List.map_append, List.sum_append] at hsum
  have hstaked : (c.withdrawUndelegated delegator epoch).1.staked +
      ((c.matured delegator epoch).map (·.amount.toNat)).sum = c.staked := by
    unfold staked unbonding
    rw [← hsum]
    change c.selfStakes + c.delegated + _ + _ = _
    omega
  refine ⟨⟨hc.nodup, hc.total, hc.known⟩, hstaked, ?_, hperm⟩
  exact toNat_foldl_add (by
    change ((c.matured delegator epoch).map (·.amount.toNat)).sum < 2 ^ 128
    omega)

/-! ## Slashing -/

theorem bpsOf_le (h : bps ≤ maxSlashBps) (amount : U128) :
    (bpsOf amount bps).toNat ≤ amount.toNat := by
  have hbps : bps.toNat ≤ 1000 := h
  rw [bpsOf, BitVec.toNat_udiv, toNat_satMul, BitVec.toNat_setWidth]
  refine Nat.div_le_of_le_mul ?_
  calc min (amount.toNat * (bps.toNat % 2 ^ 128)) (2 ^ 128 - 1)
      ≤ amount.toNat * (bps.toNat % 2 ^ 128) := Nat.min_le_left _ _
    _ ≤ amount.toNat * 1000 := Nat.mul_le_mul_left _ ((Nat.mod_le _ _).trans hbps)
    _ ≤ 10000 * amount.toNat := by omega

/-- What a slash takes from the delegations to `x`. -/
def penaltyIn (ds : List Delegation) (x : ValidatorId) (bps : U64) : Nat :=
  (ds.map fun d => if d.validator = x then (bpsOf d.amount bps).toNat else 0).sum

theorem delegatedIn_slash (h : bps ≤ maxSlashBps) (p : ValidatorId → Bool)
    (ds : List Delegation) :
    delegatedIn (ds.map fun d =>
        if d.validator = x then { d with amount := satSub d.amount (bpsOf d.amount bps) } else d)
      p + (if p x then penaltyIn ds x bps else 0) = delegatedIn ds p := by
  induction ds with
  | nil => simp [delegatedIn, penaltyIn]
  | cons d ds ih =>
    have hle := bpsOf_le h d.amount
    have hcut := toNat_satSub d.amount (bpsOf d.amount bps)
    unfold delegatedIn penaltyIn at ih ⊢
    simp only [List.map_cons, List.sum_cons]
    by_cases hd : d.validator = x
    · simp only [hd, if_true]
      cases hp : p x with
      | true =>
        simp only [hp, if_true] at ih ⊢
        omega
      | false =>
        simp only [hp, Bool.false_eq_true, if_false] at ih ⊢
        omega
    · simp only [hd, if_false, Nat.zero_add]
      omega

theorem toNat_foldl_penalty {t : U128}
    (h : t.toNat + penaltyIn ds x bps < 2 ^ 128) :
    (ds.foldl (fun t d => if d.validator = x then satAdd t (bpsOf d.amount bps) else t) t).toNat =
      t.toNat + penaltyIn ds x bps := by
  induction ds generalizing t with
  | nil => simp [penaltyIn]
  | cons d ds ih =>
    unfold penaltyIn at ih h ⊢
    simp only [List.map_cons, List.sum_cons, List.foldl_cons] at h ⊢
    by_cases hd : d.validator = x
    · simp only [hd, if_true] at h ⊢
      have hadd : (satAdd t (bpsOf d.amount bps)).toNat = t.toNat + (bpsOf d.amount bps).toNat :=
        toNat_satAdd_of_lt (by omega)
      rw [ih (by omega), hadd]
      omega
    · simp only [hd, if_false] at h ⊢
      rw [ih (by omega)]
      omega

/-- What a slash takes leaves the record, and the totals follow. -/
theorem slash_ledger (epoch : U64) {v : StakingValidator} (hc : c.Consistent)
    (hfits : c.staked < 2 ^ 128) (hbps : bps ≤ maxSlashBps)
    (hv : c.validators.find? (·.id == x) = some v) :
    (slashRecord c x bps epoch).1.Consistent ∧
      (slashRecord c x bps epoch).1.staked + (slashRecord c x bps epoch).2.toNat = c.staked ∧
      (slashRecord c x bps epoch).1.undelegations = c.undelegations := by
  have hsum := fun p => delegatedIn_slash (x := x) hbps p c.delegations
  have hall := hsum fun _ => true
  rw [if_pos rfl] at hall
  have hle : penaltyIn c.delegations x bps ≤ c.delegated := by
    unfold delegated
    omega
  have hself := bpsOf_le hbps v.selfStake
  have hmem := List.mem_of_find?_eq_some hv
  have hstake : v.selfStake.toNat ≤ c.selfStakes :=
    List.single_le_sum (fun _ _ => Nat.zero_le _) _ (List.mem_map.mpr ⟨v, hmem, rfl⟩)
  unfold staked at hfits
  generalize hP : c.delegations.foldl (fun t d =>
    if d.validator = x then satAdd t (bpsOf d.amount bps) else t) 0#128 = P
  have hPnat : P.toNat = penaltyIn c.delegations x bps := by
    rw [← hP, toNat_foldl_penalty (by simp; omega)]
    simp
  -- one update of the validator, whether or not a delegator is hit
  have hvals : (slashRecord c x bps epoch).1.validators =
      c.validators.updateFirst (·.id == x) fun v =>
        { v with
          selfStake := satSub v.selfStake (bpsOf v.selfStake bps)
          isActive := false
          eligibleFromEpoch := epoch + 1#64
          totalDelegated := satSub v.totalDelegated P } := by
    unfold slashRecord
    dsimp only
    rw [hP]
    split
    · refine List.updateFirst_updateFirst ?_ c.validators
      exact fun _ h => h
    · next hzero =>
        have hP0 : P = 0#128 := by
          apply BitVec.eq_of_toNat_eq
          have := BitVec.not_lt.mp hzero
          simpa [BitVec.le_def] using this
        have hkeep : ∀ t : U128, satSub t P = t := fun t => by
          apply BitVec.eq_of_toNat_eq
          rw [toNat_satSub, hP0]
          simp
        simp only [hkeep]
  have hpen : (slashRecord c x bps epoch).2.toNat = (bpsOf v.selfStake bps).toNat + P.toNat := by
    have hzero : (satAdd 0#128 (bpsOf v.selfStake bps)).toNat = (bpsOf v.selfStake bps).toNat := by
      rw [toNat_satAdd_of_lt (by simpa using (bpsOf v.selfStake bps).isLt)]
      simp
    unfold slashRecord
    dsimp only
    rw [hP, hv]
    dsimp only
    split
    · rw [toNat_satAdd_of_lt (by omega), hzero]
    · next hnot =>
        have := BitVec.not_lt.mp hnot
        rw [BitVec.le_def] at this
        simp only [BitVec.toNat_ofNat, Nat.zero_mod] at this
        omega
  have hdels : (slashRecord c x bps epoch).1.delegations = c.delegations.map fun d =>
      if d.validator = x then { d with amount := satSub d.amount (bpsOf d.amount bps) } else d :=
    rfl
  refine ⟨hc.update 0 P.toNat hvals (fun _ => rfl) ?_ ?_ ?_, ?_, rfl⟩
  · intro w hw hid
    have htotal : P.toNat ≤ w.totalDelegated.toNat := by
      have hp := hsum (· == x)
      rw [beq_self_eq_true, if_pos rfl] at hp
      rw [hc.total w hw, hid, delegatedTo]
      omega
    change (satSub w.totalDelegated P).toNat + P.toNat = _
    rw [toNat_satSub]
    omega
  · intro p
    rw [hdels, hPnat, ite_self, Nat.add_zero]
    exact hsum p
  · intro d hd
    rw [hdels] at hd
    obtain ⟨d', hd', rfl⟩ := List.mem_map.mp hd
    obtain ⟨w, hw, hid⟩ := hc.known d' hd'
    refine ⟨w, hw, ?_⟩
    split <;> exact hid
  · have hcut := toNat_satSub v.selfStake (bpsOf v.selfStake bps)
    have hstakes := List.sum_map_updateFirst (fun v : StakingValidator =>
        { v with
          selfStake := satSub v.selfStake (bpsOf v.selfStake bps)
          isActive := false
          eligibleFromEpoch := epoch + 1#64
          totalDelegated := satSub v.totalDelegated P }) (fun v => v.selfStake.toNat) hv
    rw [← hvals] at hstakes
    have hund : (slashRecord c x bps epoch).1.undelegations = c.undelegations := rfl
    rw [staked, selfStakes, delegated, unbonding, hdels, hund, hpen]
    unfold staked selfStakes delegated unbonding
    dsimp only at hstakes
    omega

/-! ## Changes that move no funds -/

theorem updateValidator_ledger (hc : c.Consistent)
    (hvals : c'.validators = c.validators.updateFirst (·.id == x) f)
    (hdels : c'.delegations = c.delegations) (hunds : c'.undelegations = c.undelegations)
    (hid : ∀ v, (f v).id = v.id) (hself : ∀ v, (f v).selfStake = v.selfStake)
    (htotal : ∀ v, (f v).totalDelegated = v.totalDelegated) :
    c'.Consistent ∧ c'.staked = c.staked ∧ c'.undelegations = c.undelegations := by
  refine ⟨hc.update 0 0 hvals hid (fun v _ _ => by rw [htotal]) (fun p => by rw [hdels]) ?_,
    ?_, hunds⟩
  · rw [hdels]
    exact hc.known
  · have hstakes : (c.validators.updateFirst (·.id == x) f).map (·.selfStake.toNat) =
        c.validators.map (·.selfStake.toNat) :=
      List.map_updateFirst (fun v => by rw [hself]) c.validators
    rw [staked, selfStakes, delegated, unbonding, hvals, hdels, hunds, hstakes]
    rfl

theorem unjail_ledger (hc : c.Consistent) (h : c.unjail x = .ok c') :
    c'.Consistent ∧ c'.staked = c.staked ∧ c'.undelegations = c.undelegations := by
  unfold unjail at h
  split at h
  · cases h
  · split at h
    · cases h
      exact ⟨hc, rfl, rfl⟩
    · dsimp only at h
      split at h
      · cases h
      · cases h
        exact updateValidator_ledger hc rfl rfl rfl (fun _ => rfl) (fun _ => rfl) fun _ => rfl

theorem rotateKey_ledger {newKey : ValidatorId} (hc : c.Consistent)
    (h : c.rotateKey x newKey epoch = .ok c') :
    c'.Consistent ∧ c'.staked = c.staked ∧ c'.undelegations = c.undelegations := by
  unfold rotateKey at h
  split at h
  · cases h
  · split at h
    · cases h
    · split at h
      · cases h
      · cases h
        exact updateValidator_ledger hc rfl rfl rfl (fun _ => rfl) (fun _ => rfl) fun _ => rfl

end

end StakingContract

/-! ## Accounts and record together -/

section

variable {σ : Type} [StateStore σ] {E : Platform} {T : Nat} {s : σ} {c : StakingContract}
  {sender : AccountId} {a : Account}

/-- The accounts of `s` and the consistent record `c` hold `T` between them. -/
structure Settled (E : Platform) (T : Nat) (s : σ) (c : StakingContract) : Prop where
  wellFormed : WellFormed E (entries s)
  consistent : c.Consistent
  total : totalBalance E (entries s) + c.staked = T

theorem Settled.funds (h : Settled E T s c)
    (hacct : account? E (entries s) sender = some a) :
    Funds E sender (entries s)[ascii "__config_burn_rate__"]? (T - c.staked) s :=
  ⟨h.wellFormed, by have := h.total; omega, ⟨a, hacct⟩, rfl⟩

theorem loadStaking_putAccount (a : Account) (s : σ) :
    loadStaking E (putAccount E a s) = loadStaking E s :=
  loadRecord_putAccount E.staking (by decide) _ a s

theorem SameElsewhere.loadStaking {s' : σ} (h : SameElsewhere s s') :
    loadStaking E s' = loadStaking E s := h.loadRecord E.staking (by decide) _

theorem readCurrentEpoch_putAccount (a : Account) (s : σ) :
    readCurrentEpoch (putAccount E a s) = readCurrentEpoch s := by
  have hkeep : Keeps (SameElsewhere s) (saveAccount E a : SysM σ Unit) fun _ => True :=
    saveAccount_sameElsewhere a
  exact (hkeep s fun _ _ => rfl).1.readCurrentEpoch

theorem loadStaking_saveStaking (c : StakingContract) (s : σ) :
    loadStaking E (saveRecord E.staking StakingContract.storageKey c s) = c :=
  loadRecord_saveRecord _ _ _ _ s

theorem entries_saveStaking (c : StakingContract) (s : σ) :
    entries (saveRecord E.staking StakingContract.storageKey c s) =
      (entries s).insert StakingContract.storageKey (E.staking.toVec c) :=
  StateStore.entries_put s _ _

/-- Whatever record is stored, the accounts are the same. -/
theorem Settled.put (h : Settled E T s c) (c₀ : StakingContract) :
    Settled E T (saveRecord E.staking StakingContract.storageKey c₀ s) c := by
  refine ⟨?_, h.consistent, ?_⟩
  · rw [entries_saveStaking]
    exact h.wellFormed.insert_of_notAccountKey (by decide) _
  · rw [entries_saveStaking, totalBalance_insert_of_notAccountKey _ (by decide)]
    exact h.total

theorem Settled.loadAccount (h : Settled E T s c)
    (hacct : account? E (entries s) sender = some a) :
    loadAccount E sender s = .ok (some a) := by
  rw [h.wellFormed.loadAccount_eq, hacct]

theorem Settled.balance_le (h : Settled E T s c)
    (hacct : account? E (entries s) sender = some a) :
    a.balance.toNat + c.staked ≤ T := by
  have := balance_le_totalBalance hacct
  have := h.total
  omega

/-- What the record gains is taken from an account. -/
theorem Settled.debit (h : Settled E T s c)
    (hacct : account? E (entries s) sender = some a) (hle : amount ≤ a.balance)
    (hc' : c'.Consistent) (hstaked : c'.staked = c.staked + amount.toNat) :
    Settled E T (putAccount E { a with balance := a.balance - amount } s) c' := by
  have hfunds := (h.funds hacct).debit (h.loadAccount hacct) hle
  have hbal := h.balance_le hacct
  have hle' : amount.toNat ≤ a.balance.toNat := hle
  refine ⟨hfunds.wellFormed, hc', ?_⟩
  rw [hfunds.total_eq]
  omega

/-- What the record loses is paid to an account. -/
theorem Settled.credit (amount : U128) (h : Settled E T s c)
    (hT : T < 2 ^ 128) (hacct : account? E (entries s) sender = some a)
    (hc' : c'.Consistent) (hstaked : c'.staked + amount.toNat = c.staked) :
    Settled E T (putAccount E { a with balance := satAdd a.balance amount } s) c' ∧
      balanceIn E (entries
          (putAccount E { a with balance := satAdd a.balance amount } s)) sender =
        balanceIn E (entries s) sender + amount.toNat := by
  have hbal := h.balance_le hacct
  have hfunds := (h.funds hacct).credit amount (h.loadAccount hacct) (by omega)
  have hid := h.wellFormed.id_eq hacct
  refine ⟨⟨hfunds.wellFormed, hc', ?_⟩, ?_⟩
  · rw [hfunds.total_eq]
    omega
  · rw [balanceIn, balanceIn, account?_putAccount, if_pos hid, hacct]
    exact toNat_satAdd_of_lt (by omega)

/-- A refund restores what was debited. -/
theorem Settled.refund (h : Settled E T s c) (hT : T < 2 ^ 128)
    (hacct : account? E (entries s) sender = some a) (hle : amount ≤ a.balance) :
    Settled E T (refunded E a amount s) c := by
  have hload := h.loadAccount hacct
  have hid := h.wellFormed.id_eq hacct
  have hbal := h.balance_le hacct
  have hle' : amount.toNat ≤ a.balance.toNat := hle
  have hdebit := (h.funds hacct).debit hload hle
  have hload' : Solen.loadAccount E sender
      (putAccount E { a with balance := a.balance - amount } s) =
        .ok (some { a with balance := a.balance - amount }) := by
    rw [loadAccount_putAccount, if_pos hid]
  have hcredit := hdebit.credit amount hload' (by omega)
  refine ⟨hcredit.wellFormed, h.consistent, ?_⟩
  have htotal := hcredit.total_eq
  change totalBalance E (entries (refunded E a amount s)) = _ at htotal
  rw [htotal]
  omega

/-! ## What one call pays and opens -/

/-- The pending entries that a call pays out. -/
def stakingPaid (E : Platform) (s : σ) (sender : AccountId) (method : String) (args : Bytes) :
    List Undelegation :=
  if method = "withdraw" ∨
      method = "undelegate" ∧ (readAccountId args 0).isSome ∧ (readU128 args 32).isSome then
    (loadStaking E s).matured sender (readCurrentEpoch s)
  else []

/-- The pending entry that a call opens. -/
def stakingOpened (E : Platform) (s : σ) (sender : AccountId) (method : String) (args : Bytes) :
    List Undelegation :=
  if method = "undelegate" then
    match readAccountId args 0, readU128 args 32 with
    | some validator, some amount =>
        let epoch := readCurrentEpoch s
        let c := ((loadStaking E s).withdrawUndelegated sender epoch).1
        match c.undelegate sender validator amount epoch with
        | .ok _ => [{
            delegator := sender
            validator := validator
            amount := amount
            unlockEpoch := epoch + c.unbondingPeriod.getD defaultUnbondingPeriod }]
        | .error _ => []
    | _, _ => []
  else []

/-- What the call leaves, with the record `c` still to be saved. -/
structure CallLedger (E : Platform) (T : Nat) (s : σ) (sender : AccountId) (method : String)
    (args : Bytes) (s' : σ) (c : StakingContract) : Prop where
  settled : Settled E T s' c
  pending : (c.undelegations ++ stakingPaid E s sender method args).Perm
    ((loadStaking E s).undelegations ++ stakingOpened E s sender method args)
  credited : method = "withdraw" ∨ method = "undelegate" →
    balanceIn E (entries s') sender = balanceIn E (entries s) sender +
      ((stakingPaid E s sender method args).map (·.amount.toNat)).sum

variable {method : String} {args : Bytes}

/-- A method that neither pays nor opens an entry. -/
theorem CallLedger.other {s' : σ} (hw : method ≠ "withdraw") (hu : method ≠ "undelegate")
    (hs : Settled E T s' c) (hpending : c.undelegations = (loadStaking E s).undelegations) :
    CallLedger E T s sender method args s' c := by
  refine ⟨hs, ?_, fun h => (h.elim hw hu).elim⟩
  rw [stakingPaid, stakingOpened, if_neg (by simp [hw, hu]), if_neg hu, hpending]

/-- A call whose arguments cannot be read. -/
theorem CallLedger.unread (hs : Settled E T s (loadStaking E s)) (hw : method ≠ "withdraw")
    (h : method = "undelegate" → readAccountId args 0 = none ∨ readU128 args 32 = none) :
    CallLedger E T s sender method args s (loadStaking E s) := by
  have hpaid : stakingPaid E s sender method args = [] := by
    refine if_neg ?_
    rintro (hm | ⟨hm, h₁, h₂⟩)
    · exact hw hm
    · rcases h hm with h | h
      · simp [h] at h₁
      · simp [h] at h₂
  have hopened : stakingOpened E s sender method args = [] := by
    unfold stakingOpened
    split
    · next hm =>
        rcases h hm with h | h
        · rw [h]
        · rw [h]
          split <;> simp_all
    · rfl
  refine ⟨hs, ?_, fun _ => ?_⟩
  · rw [hpaid, hopened]
  · rw [hpaid]
    rfl

/-- The amount a call takes from its caller. -/
def stakedAmount? (method : String) (args : Bytes) : Option U128 :=
  if method = "register" then readU128 args 0
  else if method = "delegate" then readU128 args 32
  else none

/-- A call of an account that exists, with room for the fee reserve above its
amount, while the treasury has an account. -/
structure MayCall (E : Platform) (s : σ) (sender : AccountId) (method : String)
    (args : Bytes) : Prop where
  caller : (account? E (entries s) sender).isSome
  treasury : (account? E (entries s) System.treasuryAddress).isSome
  amount : ∀ amount, stakedAmount? method args = some amount → amount.toNat < 2 ^ 128 - 10000

/-! ## The changes

A call changes the record in one of eight ways, whatever the accounts look
like. One walk through the methods gives this and the ledger. -/

/-- The record after a call of `sender`; `ok` says whether the call succeeded. -/
inductive StakingChange (c : StakingContract) (sender : AccountId) (epoch : U64)
    (method : String) (args : Bytes) : Bool → StakingContract → Prop
  | same {ok : Bool} : StakingChange c sender epoch method args ok c
  | register {ok : Bool} {c' : StakingContract} (amount minStake : U128)
      (hm : method = "register") (ha : readU128 args 0 = some amount)
      (h : c.registerValidatorAtEpochWithConfig sender amount epoch minStake = .ok c') :
      StakingChange c sender epoch method args ok c'
  | delegate {c' : StakingContract} (validator : ValidatorId) (amount : U128)
      (hm : method = "delegate") (hv : readAccountId args 0 = some validator)
      (ha : readU128 args 32 = some amount)
      (h : c.delegateAtEpoch sender validator amount epoch = .ok c') :
      StakingChange c sender epoch method args true c'
  | withdraw {ok : Bool} (hm : method = "withdraw" ∨ method = "undelegate") :
      StakingChange c sender epoch method args ok (c.withdrawUndelegated sender epoch).1
  | undelegate {ok : Bool} {c' : StakingContract} (validator : ValidatorId) (amount : U128)
      (hm : method = "undelegate") (hv : readAccountId args 0 = some validator)
      (ha : readU128 args 32 = some amount)
      (h : (c.withdrawUndelegated sender epoch).1.undelegate sender validator amount epoch =
        .ok c') :
      StakingChange c sender epoch method args ok c'
  | slash {ok : Bool} (offender : ValidatorId) (bps : U64) (v : StakingValidator)
      (hm : method = "slash") (ho : readAccountId args 0 = some offender)
      (hbps : bps ≤ maxSlashBps) (hv : c.validators.find? (·.id == offender) = some v) :
      StakingChange c sender epoch method args ok (slashRecord c offender bps epoch).1
  | unjail {ok : Bool} {c' : StakingContract} (hm : method = "unjail")
      (h : c.unjail sender = .ok c') : StakingChange c sender epoch method args ok c'
  | rotateKey {ok : Bool} {c' : StakingContract} (newKey : ValidatorId)
      (hm : method = "rotate_key") (h : c.rotateKey sender newKey epoch = .ok c') :
      StakingChange c sender epoch method args ok c'

/-- What a method that ends leaves: how its record has changed, and the
ledger. -/
structure MethodDone (E : Platform) (T : Nat) (s : σ) (sender : AccountId) (method : String)
    (args : Bytes) (o : CallOutcome StakingContract) (s' : σ) : Prop where
  change : StakingChange (loadStaking E s) sender (readCurrentEpoch s) method args
    o.toResult.error.isNone o.record
  ledger : Settled E T s (loadStaking E s) → T < 2 ^ 128 → MayCall E s sender method args →
    CallLedger E T s sender method args s' o.record

/-- The same or, when the method stops early, nothing done and nothing to pay. -/
def MethodPost (E : Platform) (T : Nat) (s : σ) (sender : AccountId) (method : String)
    (args : Bytes) : Except SystemCallResult (CallOutcome StakingContract) → σ → Prop
  | .ok o, s' => MethodDone E T s sender method args o s'
  | .error _, s' => s' = s ∧ method ≠ "withdraw" ∧
      (method = "undelegate" → readAccountId args 0 = none ∨ readU128 args 32 = none)

section

variable {o : CallOutcome StakingContract}

theorem MethodPost.early {r : SystemCallResult} (hw : method ≠ "withdraw")
    (hu : method ≠ "undelegate") : MethodPost E T s sender method args (.error r) s :=
  ⟨rfl, hw, fun h => (hu h).elim⟩

/-- A method that changes the record only. -/
theorem MethodPost.record (hw : method ≠ "withdraw") (hu : method ≠ "undelegate")
    (hchange : StakingChange (loadStaking E s) sender (readCurrentEpoch s) method args
      o.toResult.error.isNone o.record)
    (h : (loadStaking E s).Consistent → o.record.Consistent ∧
      o.record.staked = (loadStaking E s).staked ∧
      o.record.undelegations = (loadStaking E s).undelegations) :
    MethodPost E T s sender method args (.ok o) s := by
  refine ⟨hchange, fun hs _ _ => ?_⟩
  obtain ⟨hc, hstaked, hunds⟩ := h hs.consistent
  refine CallLedger.other hw hu ⟨hs.wellFormed, hc, ?_⟩ hunds
  rw [hstaked]
  exact hs.total

end

/-! ## Debits and credits -/

/-- The debit check does not wrap for amounts that leave room for the reserve. -/
theorem le_of_not_lt_reserve {balance : U128} (hamount : amount.toNat + 10000 < 2 ^ 128)
    (h : ¬ balance < amount + minFeeReserve) : amount ≤ balance := by
  have hsum : (amount + minFeeReserve).toNat = amount.toNat + 10000 :=
    toNat_add_of_lt hamount
  have hle := BitVec.not_lt.mp h
  rw [BitVec.le_def, hsum] at hle
  rw [BitVec.le_def]
  omega

theorem debitWithReserve_gives (amount : U128) (msg : String) :
    Gives (debitWithReserve E sender amount msg) s fun r s' =>
      (∃ e, r = .error e ∧ s' = s) ∨ ∃ a, r = .ok () ∧ loadAccount E sender s = .ok (some a) ∧
        ¬ a.balance < amount + minFeeReserve ∧
        s' = putAccount E { a with balance := a.balance - amount } s := by
  have hreq : Gives (mapError (fun e => err e.message) (requireAccount E sender)) s fun r s' =>
      s' = s ∧ ∀ a, r = .ok a → loadAccount E sender s = .ok (some a) := by
    rw [Gives, run_mapError]
    rcases hrun : (requireAccount E sender).run s with ⟨r, s'⟩
    cases r with
    | error e =>
      have hstate := requireAccount_state (E := E) sender s
      rw [hrun] at hstate
      exact ⟨hstate, fun a ha => by cases ha⟩
    | ok a =>
      obtain ⟨hload, hstate⟩ := requireAccount_eq_ok hrun
      exact ⟨hstate, fun b hb => by cases hb; exact hload⟩
  refine hreq.bind (fun a s' h => ?_) fun e s' h => .inl ⟨e, rfl, h.1⟩
  obtain ⟨rfl, hload⟩ := h
  exact gives_stopIf_bind.mpr ⟨fun _ => .inl ⟨_, rfl, rfl⟩,
    fun hlow => .inr ⟨a, rfl, hload a rfl, hlow, rfl⟩⟩

/-- The state after a credit, which an account without a record does not get. -/
def credited (E : Platform) (id : AccountId) (amount : U128) (s : σ) : σ :=
  ((creditExisting E id amount : SysM σ Unit).run s).2

theorem run_creditExisting_credited (id : AccountId) (amount : U128) (s : σ) :
    (creditExisting E id amount : SysM σ Unit).run s = (.ok (), credited E id amount s) := by
  refine Prod.ext ?_ rfl
  cases hrun : ((creditExisting E id amount : SysM σ Unit).run s).1 with
  | ok u => rfl
  | error e => exact (creditExisting_stops (Q := fun _ => False) id amount s e hrun).elim

theorem loadStaking_credited (id : AccountId) (amount : U128) (s : σ) :
    loadStaking E (credited E id amount s) = loadStaking E s := by
  have hkeep : Keeps (SameElsewhere s) (creditExisting E id amount : SysM σ Unit)
      fun _ => True := creditExisting_sameElsewhere id amount
  exact (hkeep s fun _ _ => rfl).1.loadStaking

/-- Saving a record and crediting an account, then loading the record again. -/
theorem run_reload {α : Type} (id : AccountId) (amount : U128) (c : StakingContract)
    (g : StakingContract → SysM σ α) (s : σ) :
    (do
      saveStaking E c
      creditExisting E id amount
      let record ← reads (loadStaking E)
      g record).run s =
    (g c).run (credited E id amount (saveRecord E.staking StakingContract.storageKey c s)) := by
  rw [saveStaking, run_bind_ok (run_modify _ _), run_bind_ok (run_creditExisting_credited _ _ _),
    run_reads_bind, loadStaking_credited, loadStaking_saveStaking]

/-- The state after a payment of what the record `w.1` no longer holds. -/
def paidOut (E : Platform) (id : AccountId) (w : StakingContract × U128) (s : σ) : σ :=
  if 0#128 < w.2 then
    credited E id w.2 (saveRecord E.staking StakingContract.storageKey w.1 s)
  else s

theorem Settled.paidOut {id : AccountId} {w : StakingContract × U128} (h : Settled E T s c)
    (hT : T < 2 ^ 128) (hacct : (account? E (entries s) id).isSome)
    (hc : w.1.Consistent) (hstaked : w.1.staked + w.2.toNat = c.staked) :
    Settled E T (Solen.paidOut E id w s) w.1 ∧
      balanceIn E (entries (Solen.paidOut E id w s)) id =
        balanceIn E (entries s) id + w.2.toNat := by
  unfold Solen.paidOut
  split
  · obtain ⟨a, hacct⟩ := Option.isSome_iff_exists.mp hacct
    have hsaved := h.put w.1
    have hacct' : account? E (entries
        (saveRecord E.staking StakingContract.storageKey w.1 s)) id = some a := by
      rw [account?_saveRecord _ (by decide), hacct]
    obtain ⟨hsettled, hbalance⟩ := hsaved.credit w.2 hT hacct' hc hstaked
    rw [credited, run_creditExisting_some hsaved.wellFormed hacct']
    refine ⟨hsettled, hbalance.trans ?_⟩
    rw [balanceIn, balanceIn, account?_saveRecord _ (by decide)]
  · next hzero =>
      have hzero' : w.2.toNat = 0 := by
        have := BitVec.not_lt.mp hzero
        simpa [BitVec.le_def] using this
      refine ⟨⟨h.wellFormed, hc, ?_⟩, ?_⟩
      · have := h.total
        omega
      · omega

/-! ## The methods -/

/-- The methods that stake an amount: the record takes what the caller loses, or
the caller gets it back. -/
theorem stakeAmount_gives {msg : String} {event : Event}
    {change : StakingContract → U64 → Except StakingError StakingContract}
    (hw : method ≠ "withdraw") (hu : method ≠ "undelegate")
    (hamount : stakedAmount? method args = some amount)
    (hchange : ∀ {c'}, change (loadStaking E s) (readCurrentEpoch s) = .ok c' →
      StakingChange (loadStaking E s) sender (readCurrentEpoch s) method args true c')
    (hledger : ∀ {c'}, change (loadStaking E s) (readCurrentEpoch s) = .ok c' →
      (loadStaking E s).Consistent → (loadStaking E s).staked + amount.toNat < 2 ^ 128 →
        c'.Consistent ∧ c'.staked = (loadStaking E s).staked + amount.toNat ∧
          c'.undelegations = (loadStaking E s).undelegations) :
    Gives (stakeAmount E sender amount msg event change) s
      (MethodPost E T s sender method args) := by
  refine (debitWithReserve_gives amount msg).bind (fun _ s' hdebit => ?_) fun e s' hdebit => ?_
  case refine_2 =>
    obtain ⟨_, -, rfl⟩ | ⟨_, hok, -⟩ := hdebit
    · exact .early hw hu
    · cases hok
  obtain ⟨_, herror, -⟩ | ⟨a, -, hload, hlow, rfl⟩ := hdebit
  · cases herror
  have hacct := account?_of_loadAccount hload
  have hle : MayCall E s sender method args → amount ≤ a.balance := by
    intro hcall
    have hroom := hcall.amount amount hamount
    exact le_of_not_lt_reserve (by omega) hlow
  refine gives_reads_bind.mpr (gives_reads_bind.mpr ?_)
  rw [loadStaking_putAccount, readCurrentEpoch_putAccount]
  cases hc : change (loadStaking E s) (readCurrentEpoch s) with
  | ok c' =>
    refine ⟨hchange hc, fun hs hT hcall => ?_⟩
    have hle' : amount.toNat ≤ a.balance.toNat := hle hcall
    have hbal := hs.balance_le hacct
    obtain ⟨hcons, hstaked, hunds⟩ := hledger hc hs.consistent (by omega)
    exact CallLedger.other hw hu (hs.debit hacct (hle hcall) hcons hstaked) hunds
  | error e =>
    rw [recordStake, Gives, run_bind_ok (run_creditExisting_credited _ _ _)]
    refine ⟨.same, fun hs hT hcall => ?_⟩
    have hrefund : (recordStake E sender amount event (loadStaking E s) (.error e)).run _ = _ :=
      recordStake_error_run hs.wellFormed hacct (loadStaking E s) e
    rw [recordStake, run_bind_ok (run_creditExisting_credited _ _ _)] at hrefund
    refine CallLedger.other hw hu ?_ rfl
    exact (Prod.ext_iff.mp hrefund).2 ▸ hs.refund hT hacct (hle hcall)

theorem stakingRegister_gives :
    Gives (stakingRegister E sender args) s (MethodPost E T s sender "register" args) := by
  have hw : ("register" : String) ≠ "withdraw" := by decide
  have hu : ("register" : String) ≠ "undelegate" := by decide
  refine gives_orErr_bind.mpr ⟨fun _ => .early hw hu, fun amount ha => ?_⟩
  refine gives_reads_bind.mpr (gives_stopIf_bind.mpr ⟨fun _ => .early hw hu, fun _ => ?_⟩)
  exact stakeAmount_gives hw hu ha (fun h => .register amount _ rfl ha h)
    fun h hc _ => StakingContract.register_ledger hc h

theorem stakingDelegate_gives :
    Gives (stakingDelegate E sender args) s (MethodPost E T s sender "delegate" args) := by
  have hw : ("delegate" : String) ≠ "withdraw" := by decide
  have hu : ("delegate" : String) ≠ "undelegate" := by decide
  refine gives_orErr_bind.mpr ⟨fun _ => .early hw hu, fun validator hv => ?_⟩
  refine gives_orErr_bind.mpr ⟨fun _ => .early hw hu, fun amount ha => ?_⟩
  exact stakeAmount_gives hw hu ha (fun h => .delegate validator amount rfl hv ha h)
    fun h hc hfits => StakingContract.delegate_ledger hc hfits h

theorem payMatured_run (sender : AccountId) (c : StakingContract) (s : σ) :
    ∃ events, (payMatured E sender c).run s =
      (.ok ((c.withdrawUndelegated sender (readCurrentEpoch s)).1, events),
        paidOut E sender (c.withdrawUndelegated sender (readCurrentEpoch s)) s) := by
  rw [payMatured, run_reads_bind]
  generalize c.withdrawUndelegated sender (readCurrentEpoch s) = w
  dsimp only
  unfold paidOut
  split
  · exact ⟨_, run_reload _ _ _ _ _⟩
  · exact ⟨_, rfl⟩

/-- A method that pays what has matured and may open an entry. -/
theorem paidOut_ledger (hs : Settled E T s (loadStaking E s))
    (hT : T < 2 ^ 128) (hcall : MayCall E s sender method args)
    (hpaid : stakingPaid E s sender method args =
      (loadStaking E s).matured sender (readCurrentEpoch s))
    (h : ((loadStaking E s).withdrawUndelegated sender (readCurrentEpoch s)).1.Consistent →
      c'.Consistent ∧
      c'.staked = ((loadStaking E s).withdrawUndelegated sender (readCurrentEpoch s)).1.staked ∧
      c'.undelegations =
        ((loadStaking E s).withdrawUndelegated sender (readCurrentEpoch s)).1.undelegations ++
          stakingOpened E s sender method args) :
    CallLedger E T s sender method args
      (paidOut E sender ((loadStaking E s).withdrawUndelegated sender (readCurrentEpoch s)) s)
      c' := by
  have hfits : (loadStaking E s).staked < 2 ^ 128 := by
    have := hs.total
    omega
  obtain ⟨hc, hstaked, hsum, hperm⟩ :=
    StakingContract.withdraw_ledger sender (readCurrentEpoch s) hs.consistent hfits
  obtain ⟨hc', hstaked', hunds⟩ := h hc
  obtain ⟨hsettled, hbalance⟩ := hs.paidOut hT hcall.caller hc (by omega)
  refine ⟨⟨hsettled.wellFormed, hc', ?_⟩, ?_, fun _ => ?_⟩
  · rw [hstaked']
    exact hsettled.total
  · rw [hpaid, hunds, List.append_assoc]
    refine ((List.perm_append_comm).append_left _).trans ?_
    rw [← List.append_assoc]
    exact hperm.append_right _
  · rw [hpaid, hbalance, hsum]

theorem stakingWithdraw_gives :
    Gives (stakingWithdraw E sender) s (MethodPost E T s sender "withdraw" args) := by
  obtain ⟨events, hrun⟩ := payMatured_run (E := E) sender (loadStaking E s) s
  refine gives_reads_bind.mpr ?_
  rw [Gives, run_bind_ok hrun]
  have hopened : stakingOpened E s sender "withdraw" args = [] := if_neg (by decide)
  refine ⟨.withdraw (.inl rfl), fun hs hT hcall => ?_⟩
  refine paidOut_ledger hs hT hcall (if_pos (.inl rfl)) fun hc => ⟨hc, rfl, ?_⟩
  rw [hopened, List.append_nil]

theorem stakingUndelegate_gives :
    Gives (stakingUndelegate E sender args) s (MethodPost E T s sender "undelegate" args) := by
  have hw : ("undelegate" : String) ≠ "withdraw" := by decide
  refine gives_orErr_bind.mpr ⟨fun hv => ⟨rfl, hw, fun _ => .inl hv⟩, fun validator hv => ?_⟩
  refine gives_orErr_bind.mpr ⟨fun ha => ⟨rfl, hw, fun _ => .inr ha⟩, fun amount ha => ?_⟩
  refine gives_reads_bind.mpr (gives_reads_bind.mpr ?_)
  obtain ⟨events, hrun⟩ := payMatured_run (E := E) sender (loadStaking E s) s
  rw [Gives, run_bind_ok hrun]
  have hpaid : stakingPaid E s sender "undelegate" args =
      (loadStaking E s).matured sender (readCurrentEpoch s) :=
    if_pos (.inr ⟨rfl, by simp [hv], by simp [ha]⟩)
  have hopened : stakingOpened E s sender "undelegate" args =
      match ((loadStaking E s).withdrawUndelegated sender (readCurrentEpoch s)).1.undelegate
          sender validator amount (readCurrentEpoch s) with
      | .ok _ => [{
          delegator := sender
          validator := validator
          amount := amount
          unlockEpoch := readCurrentEpoch s + ((loadStaking E s).withdrawUndelegated sender
            (readCurrentEpoch s)).1.unbondingPeriod.getD defaultUnbondingPeriod }]
      | .error _ => [] := by
    rw [stakingOpened, if_pos rfl, hv, ha]
  dsimp only
  cases hund : ((loadStaking E s).withdrawUndelegated sender (readCurrentEpoch s)).1.undelegate
      sender validator amount (readCurrentEpoch s) with
  | error e =>
    rw [hund] at hopened
    refine ⟨.withdraw (.inr rfl), fun hs hT hcall => ?_⟩
    refine paidOut_ledger hs hT hcall hpaid fun hc => ⟨hc, rfl, ?_⟩
    rw [hopened, List.append_nil]
  | ok staking' =>
    rw [hund] at hopened
    refine ⟨.undelegate validator amount rfl hv ha hund, fun hs hT hcall => ?_⟩
    refine paidOut_ledger hs hT hcall hpaid fun hc => ?_
    rw [hopened]
    exact StakingContract.undelegate_ledger hc hund

theorem stakingSlash_gives :
    Gives (stakingSlash E args) s (MethodPost E T s sender "slash" args) := by
  have hw : ("slash" : String) ≠ "withdraw" := by decide
  have hu : ("slash" : String) ≠ "undelegate" := by decide
  refine gives_orErr_bind.mpr ⟨fun _ => .early hw hu, fun offender ho => ?_⟩
  refine gives_stopIf_bind.mpr ⟨fun _ => .early hw hu, fun hbps => ?_⟩
  refine gives_reads_bind.mpr (gives_stopIf_bind.mpr ⟨fun _ => .early hw hu, fun _ => ?_⟩)
  refine gives_reads_bind.mpr (gives_orErr_bind.mpr ⟨fun _ => .early hw hu, fun v hv => ?_⟩)
  refine gives_stopIf_bind.mpr ⟨fun _ => .early hw hu, fun _ => gives_reads_bind.mpr ?_⟩
  have hslash : ∀ ok, StakingChange (loadStaking E s) sender (readCurrentEpoch s) "slash" args
      ok (slashRecord (loadStaking E s) offender ((readU64 args 32).getD 100#64)
        (readCurrentEpoch s)).1 :=
    fun _ => .slash offender _ v rfl ho (BitVec.not_lt.mp hbps) hv
  have hledger := fun hc hfits => StakingContract.slash_ledger (readCurrentEpoch s) hc hfits
    (BitVec.not_lt.mp hbps) hv
  dsimp only
  generalize slashRecord (loadStaking E s) offender ((readU64 args 32).getD 100#64)
    (readCurrentEpoch s) = slashed at hslash hledger ⊢
  have hrun : (if 0#128 < slashed.2 then do
      saveStaking E slashed.1
      creditExisting E System.treasuryAddress slashed.2
      reads (loadStaking E)
    else pure slashed.1 : SysM σ StakingContract).run s =
      (.ok slashed.1, paidOut E System.treasuryAddress slashed s) := by
    unfold paidOut
    split
    · exact run_reload _ _ _ pure _
    · rfl
  rw [Gives, run_bind_ok hrun]
  refine ⟨hslash _, fun hs hT hcall => ?_⟩
  have hfits : (loadStaking E s).staked < 2 ^ 128 := by
    have := hs.total
    omega
  obtain ⟨hc, hstaked, hunds⟩ := hledger hs.consistent hfits
  exact CallLedger.other hw hu (hs.paidOut hT hcall.treasury hc hstaked).1 hunds

theorem stakingUnjail_gives :
    Gives (stakingUnjail E sender) s (MethodPost E T s sender "unjail" args) := by
  have hw : ("unjail" : String) ≠ "withdraw" := by decide
  have hu : ("unjail" : String) ≠ "undelegate" := by decide
  refine gives_reads_bind.mpr (gives_reads_bind.mpr ?_)
  have hend : Gives (match (loadStaking E s).unjail sender with
      | .ok staking' => pure ⟨staking', [stakingEvent "unjailed" sender.bytes], .ok ()⟩
      | .error e => pure ⟨loadStaking E s, [], .error e.message⟩ :
        SysM σ (CallOutcome StakingContract)) s (MethodPost E T s sender "unjail" args) := by
    cases hun : (loadStaking E s).unjail sender with
    | ok c' =>
      exact MethodPost.record hw hu (.unjail rfl hun)
        fun hc => StakingContract.unjail_ledger hc hun
    | error e => exact MethodPost.record hw hu .same fun hc => ⟨hc, rfl, rfl⟩
  split
  · exact gives_stopIf_bind.mpr ⟨fun _ => .early hw hu, fun _ => hend⟩
  · exact hend

theorem stakingRotateKey_gives :
    Gives (stakingRotateKey E sender args) s (MethodPost E T s sender "rotate_key" args) := by
  have hw : ("rotate_key" : String) ≠ "withdraw" := by decide
  have hu : ("rotate_key" : String) ≠ "undelegate" := by decide
  refine gives_orErr_bind.mpr ⟨fun _ => .early hw hu, fun newKey _ => ?_⟩
  refine gives_reads_bind.mpr (gives_reads_bind.mpr ?_)
  cases hrot : (loadStaking E s).rotateKey sender newKey (readCurrentEpoch s) with
  | ok c' =>
    exact MethodPost.record hw hu (.rotateKey newKey rfl hrot)
      fun hc => StakingContract.rotateKey_ledger hc hrot
  | error e => exact MethodPost.record hw hu .same fun hc => ⟨hc, rfl, rfl⟩

theorem stakingMethod_gives :
    Gives (stakingMethod E sender method args) s (MethodPost E T s sender method args) := by
  unfold stakingMethod
  split
  · exact stakingRegister_gives
  · exact stakingDelegate_gives
  · exact stakingUndelegate_gives
  · exact stakingWithdraw_gives
  · exact stakingSlash_gives
  · exact stakingUnjail_gives
  · exact stakingRotateKey_gives
  · refine MethodPost.record ?_ ?_ .same fun hc => ⟨hc, rfl, rfl⟩
    · assumption
    · assumption

/-! ## Calls -/

/-- One staking call, whatever the accounts. -/
theorem stakingCall_change (E : Platform) (s : σ) (sender : AccountId) (method : String)
    (args : Bytes) :
    StakingChange (loadStaking E s) sender (readCurrentEpoch s) method args
      (executeSystemCall E s sender System.stakingAddress method args).1.error.isNone
      (loadStaking E (executeSystemCall E s sender System.stakingAddress method args).2) := by
  rw [executeSystemCall_staking]
  rcases hrun : (stakingMethod E sender method args).run s with ⟨r, s'⟩
  have hpost := (stakingMethod_gives (T := 0)).of_run hrun
  cases r with
  | ok o =>
    rw [executeStakingCall_of_ok hrun]
    dsimp only
    rw [loadStaking_saveStaking]
    exact hpost.change
  | error r =>
    obtain ⟨rfl, -⟩ := hpost
    rw [executeStakingCall_of_error hrun]
    exact .same

/-- One call of a settled ledger, with the record saved. -/
theorem executeStakingCall_ledger (hs : Settled E T s (loadStaking E s)) (hT : T < 2 ^ 128)
    (hcall : MayCall E s sender method args) :
    CallLedger E T s sender method args
      (executeSystemCall E s sender System.stakingAddress method args).2
      (loadStaking E (executeSystemCall E s sender System.stakingAddress method args).2) := by
  rw [executeSystemCall_staking]
  rcases hrun : (stakingMethod E sender method args).run s with ⟨r, s'⟩
  have hpost := (stakingMethod_gives (T := T)).of_run hrun
  cases r with
  | error r =>
    obtain ⟨rfl, hw, hu⟩ := hpost
    rw [executeStakingCall_of_error hrun]
    exact CallLedger.unread hs hw hu
  | ok o =>
    have hledger := hpost.ledger hs hT hcall
    rw [executeStakingCall_of_ok hrun]
    dsimp only
    rw [loadStaking_saveStaking]
    refine ⟨hledger.settled.put _, hledger.pending, fun h => ?_⟩
    rw [← hledger.credited h, balanceIn, balanceIn, account?_saveRecord _ (by decide)]

end

/-! ## Runs -/

section

variable {σ : Type} [StateStore σ] {E : Platform} {T : Nat}

/-- A store with the undelegations that were ever pending in it and those that
were paid, each with the epoch of its payment. -/
structure StakeRun (σ : Type) where
  store : σ
  opened : List Undelegation
  paid : List (Undelegation × U64)

/-- Starts from what is pending. -/
def StakeRun.start (E : Platform) (s : σ) : StakeRun σ := ⟨s, (loadStaking E s).undelegations, []⟩

def StakeRun.call (E : Platform) (r : StakeRun σ) (sender : AccountId) (method : String)
    (args : Bytes) : StakeRun σ where
  store := (executeSystemCall E r.store sender System.stakingAddress method args).2
  opened := r.opened ++ stakingOpened E r.store sender method args
  paid := r.paid ++ (stakingPaid E r.store sender method args).map fun u =>
    (u, readCurrentEpoch r.store)

/-- A staking call, or anything that leaves the record and the sum of all
balances as they are: an epoch passes, evidence is stored, accounts trade. -/
inductive StakeStep (E : Platform) : StakeRun σ → StakeRun σ → Prop
  | call {r : StakeRun σ} (sender : AccountId) (method : String) (args : Bytes)
      (may : MayCall E r.store sender method args) :
      StakeStep E r (r.call E sender method args)
  | between {r : StakeRun σ} {s : σ} (wellFormed : WellFormed E (entries s))
      (balances : totalBalance E (entries s) =
        totalBalance E (entries r.store))
      (record : loadStaking E s = loadStaking E r.store) :
      StakeStep E r { r with store := s }

structure LedgerKept (E : Platform) (T : Nat) (r : StakeRun σ) : Prop where
  settled : Settled E T r.store (loadStaking E r.store)
  once : r.opened.Perm ((loadStaking E r.store).undelegations ++ r.paid.map Prod.fst)
  due : ∀ p ∈ r.paid, p.1.unlockEpoch ≤ p.2

theorem stakingPaid_due {s : σ} {sender : AccountId} {method : String} {args : Bytes}
    {u : Undelegation} (h : u ∈ stakingPaid E s sender method args) :
    u.unlockEpoch ≤ readCurrentEpoch s := by
  unfold stakingPaid at h
  split at h
  · have hdue := (List.mem_filter.mp h).2
    rw [Bool.and_eq_true, decide_eq_true_eq] at hdue
    exact hdue.2
  · cases h

theorem StakeStep.ledgerKept {r r' : StakeRun σ} (hstep : StakeStep E r r') (hT : T < 2 ^ 128)
    (h : LedgerKept E T r) : LedgerKept E T r' := by
  cases hstep with
  | call sender method args may =>
    have hcall := executeStakingCall_ledger h.settled hT may
    refine ⟨hcall.settled, ?_, ?_⟩
    · have hmap : ((stakingPaid E r.store sender method args).map fun u =>
          (u, readCurrentEpoch r.store)).map Prod.fst =
            stakingPaid E r.store sender method args := by
        rw [List.map_map]
        exact List.map_id _
      change (r.opened ++ _).Perm ((loadStaking E (executeSystemCall E r.store sender
        System.stakingAddress method args).2).undelegations ++ (r.paid ++ _).map Prod.fst)
      rw [List.map_append, hmap, List.perm_iff_count]
      intro u
      have hbefore := h.once.count_eq u
      have hpending := hcall.pending.count_eq u
      simp only [List.count_append] at hbefore hpending ⊢
      omega
    · intro p hp
      rcases List.mem_append.mp hp with hp | hp
      · exact h.due p hp
      · obtain ⟨u, hu, rfl⟩ := List.mem_map.mp hp
        exact stakingPaid_due hu
  | between wellFormed balances record =>
    refine ⟨⟨wellFormed, ?_, ?_⟩, ?_, h.due⟩
    · rw [record]
      exact h.settled.consistent
    · rw [record, balances]
      exact h.settled.total
    · rw [record]
      exact h.once

/-- In every run the totals of the validators are the sums of their delegations,
what accounts and record hold stays the same, and every undelegation is
pending or was paid, once and not before its epoch: what leaves the pending
entries is what the caller receives. -/
theorem staking_ledger_kept {s : σ} {r : StakeRun σ}
    (hwf : WellFormed E (entries s)) (hc : (loadStaking E s).Consistent)
    (hsum : totalBalance E (entries s) + (loadStaking E s).staked < 2 ^ 128)
    (hrun : ReflTransGen (StakeStep E) (StakeRun.start E s) r) :
    (∀ v ∈ (loadStaking E r.store).validators,
      v.totalDelegated.toNat = (loadStaking E r.store).delegatedTo v.id) ∧
    totalBalance E (entries r.store) + (loadStaking E r.store).staked =
      totalBalance E (entries s) + (loadStaking E s).staked ∧
    r.opened.Perm ((loadStaking E r.store).undelegations ++ r.paid.map Prod.fst) ∧
    (∀ p ∈ r.paid, p.1.unlockEpoch ≤ p.2) ∧
    ∀ sender method args, MayCall E r.store sender method args →
      method = "withdraw" ∨ method = "undelegate" →
      balanceIn E (entries (r.call E sender method args).store) sender =
        balanceIn E (entries r.store) sender +
          ((stakingPaid E r.store sender method args).map (·.amount.toNat)).sum := by
  have hkept : LedgerKept E
      (totalBalance E (entries s) + (loadStaking E s).staked) r := by
    induction hrun with
    | refl =>
        refine ⟨⟨hwf, hc, rfl⟩, ?_, fun p hp => by cases hp⟩
        rw [StakeRun.start, List.map_nil, List.append_nil]
    | tail _ hstep ih => exact hstep.ledgerKept hsum ih
  refine ⟨hkept.settled.consistent.total, hkept.settled.total, hkept.once, hkept.due, ?_⟩
  intro sender method args hcall hm
  exact (executeStakingCall_ledger hkept.settled hsum hcall).credited hm

end

/-- A treasury, `alice` with 50, and 7 that `alice` has taken back from `bob`. -/
def unbondedStore : Store :=
  saveRecord concretePlatform.staking StakingContract.storageKey
    { undelegations := [⟨alice, bob, 7#128, 0#64⟩] }
    (putAccount concretePlatform (keyAccount alice 50#128)
      (singleAccount System.treasuryAddress (emptyAccount System.treasuryAddress)))

theorem staking_ledger_kept_withdraw :
    let r := (StakeRun.start concretePlatform unbondedStore).call concretePlatform alice
      "withdraw" []
    WellFormed concretePlatform (entries unbondedStore) ∧
      totalBalance concretePlatform (entries r.store) +
        (loadStaking concretePlatform r.store).staked = 57 ∧
      balanceIn concretePlatform (entries r.store) alice = 57 := by
  have hwf : WellFormed concretePlatform (entries unbondedStore) := by
    have htreasury : WellFormed concretePlatform (entries
        (singleAccount System.treasuryAddress (emptyAccount System.treasuryAddress))) := by
      rw [Store.entries_eq]
      exact wellFormed_singleAccount rfl
    rw [unbondedStore, entries_saveStaking]
    exact (htreasury.putAccount _).insert_of_notAccountKey (by decide) _
  have hload : loadStaking concretePlatform unbondedStore =
      { undelegations := [⟨alice, bob, 7#128, 0#64⟩] } := by decide +kernel
  have hc : (loadStaking concretePlatform unbondedStore).Consistent := by
    rw [hload]
    exact ⟨List.nodup_nil, fun v hv => (List.not_mem_nil hv).elim,
      fun d hd => (List.not_mem_nil hd).elim⟩
  have hmay : MayCall concretePlatform unbondedStore alice "withdraw" [] := by
    refine ⟨by decide +kernel, by decide +kernel, fun amount h => ?_⟩
    rw [stakedAmount?, if_neg (by decide), if_neg (by decide)] at h
    cases h
  have hsum : totalBalance concretePlatform (entries unbondedStore) +
      (loadStaking concretePlatform unbondedStore).staked = 57 := by decide +kernel
  have hafter := staking_ledger_kept hwf hc (by rw [hsum]; norm_num)
    (ReflTransGen.single (StakeStep.call
      (r := StakeRun.start concretePlatform unbondedStore) alice "withdraw" [] hmay))
  exact ⟨hwf, hafter.2.1.trans hsum, by decide +kernel⟩

end Solen
