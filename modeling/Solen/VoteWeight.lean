import Solen.ReadFrame
import Solen.GovernanceLifecycle
import Solen.StakeHistory

/-!
# Votes and stake

A vote is weighted by the stake its voter has at that moment, the quorum by
the stake there is when the proposal is finalised. Nothing holds the stake
in between: a delegator may vote and then undelegate. As long as the stake
behind the votes stays where it is, each token is counted once.
-/

namespace Solen

open Machine Prog Relation

variable {sender x : AccountId} {args : Bytes} {xs : List AccountId} {p : Proposal}
  {c c' : StakingContract} {r : SystemCallResult}

/-! ## Each token once -/

/-- Entries that are counted by their owner, over distinct owners. -/
theorem sum_byOwner_le {α κ : Type} [BEq κ] [LawfulBEq κ] (owner : α → κ) (p : α → Bool)
    (f : α → Nat) {owners : List κ} (h : owners.Nodup) (l : List α) :
    (owners.map fun x => (l.map fun a => if owner a == x && p a then f a else 0).sum).sum ≤
      (l.map fun a => if p a then f a else 0).sum := by
  induction l with
  | nil => simp
  | cons a l ih =>
    simp only [List.map_cons, List.sum_cons]
    rw [List.sum_map_add]
    refine Nat.add_le_add ?_ ih
    clear ih
    -- one entry has one owner
    induction owners with
    | nil => exact Nat.zero_le _
    | cons x owners ihx =>
      rw [List.nodup_cons] at h
      rw [List.map_cons, List.sum_cons]
      by_cases hx : owner a = x
      · have hzero : (owners.map fun y => if owner a == y && p a then f a else 0).sum = 0 := by
          refine List.sum_eq_zero fun n hn => ?_
          obtain ⟨y, hy, rfl⟩ := List.mem_map.mp hn
          refine if_neg ?_
          rw [Bool.and_eq_true, beq_iff_eq]
          rintro ⟨rfl, -⟩
          exact h.1 (hx ▸ hy)
        rw [hzero, hx, beq_self_eq_true, Bool.true_and, Nat.add_zero]
      · rw [if_neg (by simp [hx]), Nat.zero_add]
        exact ihx h.2

namespace StakingContract

def isActiveValidator (c : StakingContract) (id : ValidatorId) : Bool :=
  c.validators.any fun v => v.id == id && v.isActive

/-- What an account has staked itself as an active validator. -/
def ownStake (c : StakingContract) (x : AccountId) : Nat :=
  (c.validators.map fun v => if v.id == x && v.isActive then v.selfStake.toNat else 0).sum

/-- What an account has delegated to active validators. -/
def heldDelegations (c : StakingContract) (x : AccountId) : Nat :=
  (c.delegations.map fun d =>
    if d.delegator == x && c.isActiveValidator d.validator then d.amount.toNat else 0).sum

/-- The stake of an account that the active validators have. -/
def heldStake (c : StakingContract) (x : AccountId) : Nat := c.ownStake x + c.heldDelegations x

variable {c : StakingContract}

theorem sum_ownStake_le (c : StakingContract) (h : xs.Nodup) :
    (xs.map c.ownStake).sum ≤
      (c.validators.map fun v => if v.isActive then v.selfStake.toNat else 0).sum :=
  sum_byOwner_le StakingValidator.id StakingValidator.isActive (fun v => v.selfStake.toNat) h
    c.validators

theorem sum_heldDelegations_le (c : StakingContract) (h : xs.Nodup) :
    (xs.map c.heldDelegations).sum ≤
      (c.delegations.map fun d =>
        if c.isActiveValidator d.validator then d.amount.toNat else 0).sum :=
  sum_byOwner_le Delegation.delegator (fun d => c.isActiveValidator d.validator)
    (fun d => d.amount.toNat) h c.delegations

/-- The delegations to active validators are part of their totals. -/
theorem sum_active_delegations_le (hc : c.Consistent) :
    (c.delegations.map fun d =>
        if c.isActiveValidator d.validator then d.amount.toNat else 0).sum ≤
      (c.validators.map fun v => if v.isActive then v.totalDelegated.toNat else 0).sum := by
  have htotals : (c.validators.map fun v => if v.isActive then v.totalDelegated.toNat else 0) =
      c.validators.map fun v => if v.isActive then c.delegatedTo v.id else 0 :=
    List.map_congr_left fun v hv => by rw [hc.total v hv]
  rw [htotals]
  unfold delegatedTo delegatedIn
  generalize hds : c.delegations = ds
  clear hds htotals
  induction ds with
  | nil => exact Nat.zero_le _
  | cons d ds ih =>
    have hsplit : (c.validators.map fun v => if v.isActive then
        ((d :: ds).map fun d => if d.validator == v.id then d.amount.toNat else 0).sum
          else 0).sum =
        (c.validators.map fun v => if v.isActive then
          (if d.validator == v.id then d.amount.toNat else 0) else 0).sum +
        (c.validators.map fun v => if v.isActive then
          (ds.map fun d => if d.validator == v.id then d.amount.toNat else 0).sum
            else 0).sum := by
      rw [← List.sum_map_add]
      refine congrArg List.sum (List.map_congr_left fun v _ => ?_)
      split <;> simp
    rw [List.map_cons, List.sum_cons]
    refine (Nat.add_le_add ?_ ih).trans_eq hsplit.symm
    split
    · next hactive =>
        obtain ⟨v, hv, hvid⟩ := List.any_eq_true.mp hactive
        rw [Bool.and_eq_true, beq_iff_eq] at hvid
        have hterm : (if v.isActive then
            (if d.validator == v.id then d.amount.toNat else 0) else 0) = d.amount.toNat := by
          rw [if_pos hvid.2, if_pos (beq_iff_eq.mpr hvid.1.symm)]
        exact List.single_le_sum (fun _ _ => Nat.zero_le _) _
          (List.mem_map.mpr ⟨v, hv, hterm⟩)
    · exact Nat.zero_le _

theorem activeStake_eq (c : StakingContract) :
    activeStake c =
      (c.validators.map fun v => if v.isActive then v.selfStake.toNat else 0).sum +
        (c.validators.map fun v => if v.isActive then v.totalDelegated.toNat else 0).sum := by
  rw [activeStake, activeValidators, List.sum_map_filter, ← List.sum_map_add]
  refine congrArg List.sum (List.map_congr_left fun v _ => ?_)
  split <;> rfl

/-- The stakes of different accounts add up to at most the active stake. -/
theorem sum_heldStake_le (hc : c.Consistent) (h : xs.Nodup) :
    (xs.map c.heldStake).sum ≤ activeStake c := by
  have hsplit : (xs.map c.heldStake).sum =
      (xs.map c.ownStake).sum + (xs.map c.heldDelegations).sum := List.sum_map_add
  rw [hsplit, activeStake_eq]
  exact Nat.add_le_add (sum_ownStake_le c h)
    ((sum_heldDelegations_le c h).trans (sum_active_delegations_le hc))

/-- The active stake is part of what the record holds. -/
theorem activeStake_le_staked (hc : c.Consistent) : activeStake c ≤ c.staked := by
  have hself : (c.validators.map fun v => if v.isActive then v.selfStake.toNat else 0).sum ≤
      c.selfStakes := List.sum_le_sum fun v _ => by split <;> simp
  have htotal : (c.validators.map fun v => if v.isActive then v.totalDelegated.toNat else 0).sum ≤
      c.delegated := by
    calc (c.validators.map fun v => if v.isActive then v.totalDelegated.toNat else 0).sum
        ≤ (c.validators.map fun v => c.delegatedTo v.id).sum := by
          refine List.sum_le_sum fun v hv => ?_
          rw [← hc.total v hv]
          split <;> simp
      _ = ((c.validators.map (·.id)).map fun x => (c.delegations.map fun d =>
            if d.validator == x && true then d.amount.toNat else 0).sum).sum := by
          rw [List.map_map]
          refine congrArg List.sum (List.map_congr_left fun v _ => ?_)
          simp [delegatedTo, delegatedIn]
      _ ≤ (c.delegations.map fun d => if true then d.amount.toNat else 0).sum :=
          sum_byOwner_le Delegation.validator (fun _ => true) (fun d => d.amount.toNat) hc.nodup
            c.delegations
      _ = c.delegated := rfl
  rw [activeStake_eq]
  unfold staked
  omega

/-! ### The stake of one account -/

/-- The stake of an account does not fall when its validator entries keep their
part and its delegations keep theirs. -/
theorem heldStake_le (hown : c.ownStake x ≤ c'.ownStake x)
    (hactive : ∀ d ∈ c.delegations, d.delegator = x → c.isActiveValidator d.validator = true →
      c'.isActiveValidator d.validator = true)
    (hdel : ∀ p : ValidatorId → Bool,
      (c.delegations.map fun d =>
        if d.delegator == x && p d.validator then d.amount.toNat else 0).sum ≤
      (c'.delegations.map fun d =>
        if d.delegator == x && p d.validator then d.amount.toNat else 0).sum) :
    c.heldStake x ≤ c'.heldStake x := by
  refine Nat.add_le_add hown (Nat.le_trans ?_ (hdel c'.isActiveValidator))
  refine List.sum_le_sum fun d hd => ?_
  split
  · next h =>
      rw [Bool.and_eq_true, beq_iff_eq] at h
      rw [if_pos (by rw [Bool.and_eq_true, beq_iff_eq]; exact ⟨h.1, hactive d hd h.1 h.2⟩)]
  · exact Nat.zero_le _

/-- Changing the entry of one validator. -/
theorem ownStake_updateFirst {q : StakingValidator → Bool}
    {f : StakingValidator → StakingValidator}
    (hc' : c'.validators = c.validators.updateFirst q f)
    (hf : ∀ v, q v = true → v.id = x → v.isActive = true →
      (f v).id = x ∧ (f v).isActive = true ∧ v.selfStake.toNat ≤ (f v).selfStake.toNat) :
    c.ownStake x ≤ c'.ownStake x := by
  unfold ownStake
  rw [hc']
  refine List.sum_map_le_updateFirst (fun v hq => ?_) _
  split
  · next h =>
      rw [Bool.and_eq_true, beq_iff_eq] at h
      obtain ⟨hid, hactive, hstake⟩ := hf v hq h.1 h.2
      rw [hid, hactive, beq_self_eq_true, Bool.and_self, if_pos rfl]
      exact hstake
  · exact Nat.zero_le _

theorem isActiveValidator_updateFirst {q : StakingValidator → Bool}
    {f : StakingValidator → StakingValidator} {y : ValidatorId}
    (hc' : c'.validators = c.validators.updateFirst q f) (hid : ∀ v, (f v).id = v.id)
    (hactive : ∀ v, q v = true → v.id = y → v.isActive = true → (f v).isActive = true)
    (h : c.isActiveValidator y = true) : c'.isActiveValidator y = true := by
  obtain ⟨v, hv, hvy⟩ := List.any_eq_true.mp h
  rw [Bool.and_eq_true, beq_iff_eq] at hvy
  rw [isActiveValidator, hc', List.any_eq_true]
  rcases List.mem_updateFirst_of_mem f hv with hsame | ⟨hq, hmem⟩
  · exact ⟨v, hsame, by rw [Bool.and_eq_true, beq_iff_eq]; exact hvy⟩
  · refine ⟨f v, hmem, ?_⟩
    rw [Bool.and_eq_true, beq_iff_eq, hid]
    exact ⟨hvy.1, hactive v hq hvy.1 hvy.2⟩

section

variable {c' : StakingContract} {x sender : AccountId} {validator : ValidatorId} {amount : U128}
  {epoch : U64}

theorem heldStake_register {minStake : U128}
    (h : c.registerValidatorAtEpochWithConfig sender amount epoch minStake = .ok c') :
    c.heldStake x ≤ c'.heldStake x := by
  unfold registerValidatorAtEpochWithConfig at h
  split at h
  · cases h
  split at h
  · cases h
  cases h
  refine heldStake_le ?_ ?_ fun p => Nat.le_refl _
  · simp only [ownStake, List.map_append, List.sum_append]
    exact Nat.le_add_right _ _
  · intro d _ _ hactive
    simp only [isActiveValidator, List.any_append, Bool.or_eq_true]
    exact .inl hactive

theorem heldStake_delegate (h : c.delegateAtEpoch sender validator amount epoch = .ok c') :
    c.heldStake x ≤ c'.heldStake x := by
  unfold delegateAtEpoch at h
  split at h
  · cases h
  cases h
  refine heldStake_le ?_ ?_ fun p => ?_
  · exact ownStake_updateFirst rfl fun _ _ hid hactive => ⟨hid, hactive, Nat.le_refl _⟩
  · intro d _ _ hactive
    exact isActiveValidator_updateFirst rfl (fun _ => rfl) (fun _ _ _ h => h) hactive
  · dsimp only
    split
    · refine List.sum_map_le_updateFirst (fun d _ => ?_) _
      dsimp only
      split
      · rw [toNat_satAdd]
        have := d.amount.isLt
        omega
      · exact Nat.le_refl _
    · rw [List.map_append, List.sum_append]
      exact Nat.le_add_right _ _

/-- An undelegation takes from the delegations of its sender only. -/
theorem heldStake_undelegate (h : c.undelegate sender validator amount epoch = .ok c')
    (hx : x ≠ sender) : c.heldStake x ≤ c'.heldStake x := by
  unfold undelegate at h
  split at h
  · cases h
  split at h
  · cases h
  split at h
  · cases h
  cases h
  have hother : ∀ d, isDelegation sender validator d = true → (d.delegator == x) = false := by
    intro d hd
    rw [isDelegation, Bool.and_eq_true, beq_iff_eq] at hd
    rw [hd.1]
    exact beq_false_of_ne hx.symm
  refine heldStake_le ?_ ?_ fun p => ?_
  · exact ownStake_updateFirst rfl fun _ _ hid hactive => ⟨hid, hactive, Nat.le_refl _⟩
  · intro d _ _ hactive
    exact isActiveValidator_updateFirst rfl (fun _ => rfl) (fun _ _ _ h => h) hactive
  · have hreduced : (c.delegations.map fun d =>
          if d.delegator == x && p d.validator then d.amount.toNat else 0).sum ≤
        ((c.delegations.updateFirst (isDelegation sender validator) fun d =>
          { d with amount := d.amount - amount }).map fun d =>
            if d.delegator == x && p d.validator then d.amount.toNat else 0).sum := by
      refine List.sum_map_le_updateFirst (fun d hd => ?_) _
      simp [hother d hd]
    refine hreduced.trans ?_
    dsimp only
    split
    · rw [List.sum_map_filter]
      refine List.sum_le_sum fun d _ => ?_
      cases hmine : isDelegation sender validator d with
      | true => simp [hother d hmine]
      | false => simp
    · exact Nat.le_refl _

/-- A slash takes from the offender and from those who delegate to it. -/
theorem heldStake_slash {offender : ValidatorId} {bps : U64} (hx : x ≠ offender)
    (hdel : ∀ d ∈ c.delegations, d.delegator = x → d.validator ≠ offender) :
    c.heldStake x ≤ (slashRecord c offender bps epoch).1.heldStake x := by
  obtain ⟨f, hvalidators, hid⟩ : ∃ f : StakingValidator → StakingValidator,
      (slashRecord c offender bps epoch).1.validators =
        c.validators.updateFirst (·.id == offender) f ∧ ∀ v, (f v).id = v.id := by
    unfold slashRecord
    dsimp only
    split
    · refine ⟨_, List.updateFirst_updateFirst ?_ _, ?_⟩
      · exact fun _ h => h
      · exact fun _ => rfl
    · exact ⟨_, rfl, fun _ => rfl⟩
  refine heldStake_le ?_ ?_ fun p => ?_
  · refine ownStake_updateFirst hvalidators fun v hv hvx => ?_
    exact absurd (hvx.symm.trans (beq_iff_eq.mp hv)) hx
  · intro d hd hdx hactive
    refine isActiveValidator_updateFirst hvalidators hid (fun v hv hvd => ?_) hactive
    exact absurd (hvd.symm.trans (beq_iff_eq.mp hv)) (hdel d hd hdx)
  · unfold slashRecord
    dsimp only
    rw [List.map_map]
    refine List.sum_le_sum fun d hd => ?_
    rw [Function.comp_apply]
    split
    · next hmine =>
        rw [Bool.and_eq_true, beq_iff_eq] at hmine
        rw [if_neg (hdel d hd hmine.1), if_pos (by rw [Bool.and_eq_true, beq_iff_eq]; exact hmine)]
    · exact Nat.zero_le _

theorem heldStake_unjail (h : c.unjail sender = .ok c') : c.heldStake x ≤ c'.heldStake x := by
  unfold unjail at h
  split at h
  · cases h
  split at h
  · cases h
    exact Nat.le_refl _
  dsimp only at h
  split at h
  · cases h
  cases h
  refine heldStake_le ?_ ?_ fun p => Nat.le_refl _
  · exact ownStake_updateFirst rfl fun _ _ hid _ => ⟨hid, rfl, Nat.le_refl _⟩
  · intro d _ _ hactive
    exact isActiveValidator_updateFirst rfl (fun _ => rfl) (fun _ _ _ _ => rfl) hactive

theorem heldStake_rotateKey {newKey : ValidatorId}
    (h : c.rotateKey sender newKey epoch = .ok c') : c.heldStake x ≤ c'.heldStake x := by
  unfold rotateKey at h
  split at h
  · cases h
  split at h
  · cases h
  split at h
  · cases h
  cases h
  refine heldStake_le ?_ ?_ fun p => Nat.le_refl _
  · exact ownStake_updateFirst rfl fun _ _ hid hactive => ⟨hid, hactive, Nat.le_refl _⟩
  · intro d _ _ hactive
    exact isActiveValidator_updateFirst rfl (fun _ => rfl) (fun _ _ _ h => h) hactive

end

/-- What an account may vote with is stake it holds, if what it has delegated
is with active validators. -/
theorem votingStake_le (c : StakingContract) (x : AccountId) (epoch : U64)
    (h : ∀ d ∈ c.delegations, d.delegator = x → d.eligibleFromEpoch ≤ epoch →
      c.isActiveValidator d.validator = true) :
    (votingStake c x epoch).toNat ≤ c.heldStake x := by
  unfold votingStake
  rw [toNat_satAdd]
  refine (Nat.min_le_left _ _).trans (Nat.add_le_add ?_ ?_)
  · refine (toNat_foldl_add_le _ _).trans ?_
    rw [List.sum_map_filter]
    refine List.sum_le_sum fun v _ => ?_
    cases hv : v.id == x && v.isActive with
    | true => split <;> simp
    | false => simp
  · refine (toNat_foldl_add_le _ _).trans ?_
    rw [List.sum_map_filter]
    refine List.sum_le_sum fun d hd => ?_
    split
    · next hcounts =>
        rw [Bool.and_eq_true, beq_iff_eq, decide_eq_true_eq] at hcounts
        rw [hcounts.1, h d hd hcounts.1 hcounts.2, beq_self_eq_true, Bool.and_self, if_pos rfl]
    · exact Nat.zero_le _

end StakingContract

/-! ## Staking calls -/

section

variable {c c' : StakingContract} {sender : AccountId} {epoch : U64} {method : String}
  {args : Bytes} {ok : Bool}

/-- A staking call leaves the stake of an account alone, unless the account
undelegates or loses with an offender. -/
theorem StakingChange.heldStake_le (h : StakingChange c sender epoch method args ok c') (hund : method = "undelegate" → x ≠ sender)
    (hslash : method = "slash" → ∀ offender, readAccountId args 0 = some offender →
      x ≠ offender ∧ ∀ d ∈ c.delegations, d.delegator = x → d.validator ≠ offender) :
    c.heldStake x ≤ c'.heldStake x := by
  cases h with
  | same => exact Nat.le_refl _
  | register amount minStake hm ha h => exact StakingContract.heldStake_register h
  | delegate validator amount hm hv ha h => exact StakingContract.heldStake_delegate h
  | withdraw hm => exact Nat.le_refl _
  | undelegate validator amount hm hv ha h =>
    have hle := StakingContract.heldStake_undelegate h (hund hm)
    exact hle
  | slash offender bps v hm ho hbps hv =>
    obtain ⟨hx, hdel⟩ := hslash hm offender ho
    exact StakingContract.heldStake_slash hx hdel
  | unjail hm h => exact StakingContract.heldStake_unjail h
  | rotateKey newKey hm h => exact StakingContract.heldStake_rotateKey h

theorem StakingChange.ledger (h : StakingChange c sender epoch method args ok c')
    (hc : c.Consistent) (hfits : c.staked < 2 ^ 128)
    (hstake : ∀ amount, stakedAmount? method args = some amount →
      c.staked + amount.toNat < 2 ^ 128) : c'.Consistent ∧ c'.staked < 2 ^ 128 := by
  cases h with
  | same => exact ⟨hc, hfits⟩
  | register amount minStake hm ha h =>
    obtain ⟨hc', hstaked, -⟩ := StakingContract.register_ledger hc h
    refine ⟨hc', hstaked ▸ hstake amount ?_⟩
    rw [stakedAmount?, if_pos hm, ha]
  | delegate validator amount hm hv ha h =>
    have hroom : c.staked + amount.toNat < 2 ^ 128 := by
      refine hstake amount ?_
      rw [stakedAmount?, if_neg (by rw [hm]; decide), if_pos hm, ha]
    obtain ⟨hc', hstaked, -⟩ := StakingContract.delegate_ledger hc hroom h
    exact ⟨hc', hstaked ▸ hroom⟩
  | withdraw hm =>
    obtain ⟨hc', hstaked, -⟩ := StakingContract.withdraw_ledger sender epoch hc hfits
    exact ⟨hc', by omega⟩
  | undelegate validator amount hm hv ha h =>
    obtain ⟨hpaid, hstaked, -⟩ := StakingContract.withdraw_ledger sender epoch hc hfits
    obtain ⟨hc', hsame, -⟩ := StakingContract.undelegate_ledger hpaid h
    exact ⟨hc', by omega⟩
  | slash offender bps v hm ho hbps hv =>
    obtain ⟨hc', hstaked, -⟩ := StakingContract.slash_ledger epoch hc hfits hbps hv
    exact ⟨hc', by omega⟩
  | unjail hm h =>
    obtain ⟨hc', hstaked, -⟩ := StakingContract.unjail_ledger hc h
    exact ⟨hc', hstaked ▸ hfits⟩
  | rotateKey newKey hm h =>
    obtain ⟨hc', hstaked, -⟩ := StakingContract.rotateKey_ledger hc h
    exact ⟨hc', hstaked ▸ hfits⟩

end

/-! ## Governance calls -/

section

variable {σ : Type} [StateStore σ] {E : Platform} {s₀ s s' : σ} {sender : AccountId}
  {method : String} {args : Bytes}

/-- The record has the same stakes; its parameters may differ. -/
structure SameStakes (c c' : StakingContract) : Prop where
  validators : c'.validators = c.validators
  delegations : c'.delegations = c.delegations
  undelegations : c'.undelegations = c.undelegations

/-- The staking record in `s` has the stakes of `c`. -/
def StakesOf (E : Platform) (c : StakingContract) (s : σ) : Prop :=
  SameStakes c (loadStaking E s)

theorem stakesOf_put {k data : Bytes} (hk : k ≠ StakingContract.storageKey)
    (h : StakesOf E c s) : StakesOf E c (StateStore.put s k data) := by
  rw [StakesOf, loadStaking, loadRecord_put_of_ne _ _ _ _ hk]
  exact h

theorem Keeps.stakesOf {ε α : Type} {m : Prog σ ε α} {P : α → Prop}
    (h : ∀ s₀, Keeps (SameElsewhere s₀) m P) : Keeps (StakesOf E c) m P := by
  intro s hs
  obtain ⟨hsame, hP⟩ := h s s fun _ _ => rfl
  refine ⟨?_, hP⟩
  rw [StakesOf, hsame.loadStaking]
  exact hs

theorem migrateTeamPool_sameElsewhere :
    Keeps (SameElsewhere s₀) (migrateTeamPool E : SysM σ U128) fun _ => True := by
  refine Keeps.seq (getAccount_keeps _).attempt.triv fun r => ?_
  split
  · refine Keeps.seq (Keeps.ite (fun _ => ?_) fun _ => Keeps.pure trivial) fun _ =>
      Keeps.pure trivial
    exact Keeps.seq (saveAccount_sameElsewhere _) fun _ => creditOrCreate_sameElsewhere _ _
  · exact Keeps.pure trivial

theorem applyAction_stakesOf (gov : GovernanceContract)
    (action : ProposalAction) :
    Keeps (StakesOf E c : σ → Prop) (applyAction E gov action) fun _ => True := by
  have hput : ∀ (key : String) (value : Bytes), ascii key ≠ StakingContract.storageKey →
      Keeps (StakesOf E c : σ → Prop) (putConfig key value) fun _ => True :=
    fun key value hk => Keeps.modify fun s hs => stakesOf_put hk hs
  have hdone : ∀ r, Keeps (StakesOf E c : σ → Prop)
      (pure r : SysM σ (GovernanceContract × String)) fun _ => True :=
    fun r => Keeps.pure trivial
  -- the record is read and written back with one parameter changed
  have hparam : ∀ (f : StakingContract → StakingContract) (r : GovernanceContract × String),
      (∀ c, SameStakes c (f c)) →
      Keeps (StakesOf E c : σ → Prop) (do
        let staking ← reads (loadStaking E)
        saveStaking E (f staking)
        pure r : SysM σ (GovernanceContract × String)) fun _ => True := by
    intro f r hf
    refine Keeps.bind (P := SameStakes c) (Keeps.reads fun s hs => hs) fun staking hstaking => ?_
    refine Keeps.seq (Keeps.modify fun s _ => ?_) fun _ => hdone r
    rw [StakesOf, loadStaking_saveStaking]
    exact ⟨(hf staking).1.trans hstaking.1, (hf staking).2.trans hstaking.2,
      (hf staking).3.trans hstaking.3⟩
  unfold applyAction
  split
  · exact Keeps.seq (hput _ _ (by decide)) fun _ => hdone _
  · exact Keeps.seq (hput _ _ (by decide)) fun _ => hdone _
  · exact Keeps.seq (hput _ _ (by decide)) fun _ => hdone _
  · exact Keeps.seq (hput _ _ (by decide)) fun _ => hdone _
  · exact Keeps.seq (hput _ _ (by decide)) fun _ =>
      hparam (fun c => { c with minValidatorStake := _ }) _ fun _ => ⟨rfl, rfl, rfl⟩
  · exact Keeps.seq (hput _ _ (by decide)) fun _ =>
      hparam (fun c => { c with unbondingPeriod := _ }) _ fun _ => ⟨rfl, rfl, rfl⟩
  · exact hdone _
  · exact hdone _
  · exact Keeps.seq (hput _ _ (by decide)) fun _ => hdone _
  · refine Keeps.seq Keeps.ask fun vesting => Keeps.seq (Keeps.modify fun s hs => ?_) fun _ => hdone _
    exact stakesOf_put (by decide) hs
  · refine Keeps.seq (Keeps.stakesOf fun s₀ => ?_) fun _ => hdone _
    exact migrateTeamPool_sameElsewhere
  · exact hdone _
  · exact hdone _
  · exact hdone _

theorem saveGovernance_stakesOf (gov : GovernanceContract) :
    Keeps (StakesOf E c : σ → Prop) (saveGovernance E gov : SysM σ Unit) fun _ => True :=
  Keeps.modify fun _ hs => stakesOf_put (by decide) hs

theorem governanceMethod_stakesOf :
    Keeps (StakesOf E c : σ → Prop) (governanceMethod E sender method args) fun _ => True := by
  by_cases hfin : method = "finalize"
  · subst hfin
    refine Keeps.seq (orErr_keeps _ _) fun id => Keeps.seq Keeps.ask fun gov => ?_
    refine Keeps.seq Keeps.ask fun epoch => Keeps.seq Keeps.ask fun staking => ?_
    dsimp only
    split
    · refine Keeps.seq (saveGovernance_stakesOf _) fun _ => ?_
      refine Keeps.seq (Keeps.stakesOf fun s₀ => settleDeposit_sameElsewhere _ _) fun _ => ?_
      exact Keeps.done Keeps.ask
    · exact Keeps.pure trivial
  exact governanceMethod_keeps hfin applyAction_stakesOf

/-- Governance does not move stake. -/
theorem governanceCall_stakes
    (h : executeSystemCall E s sender System.governanceAddress method args = (r, s'))
    (hok : r.error = none) : SameStakes (loadStaking E s) (loadStaking E s') := by
  obtain ⟨s₁, o, s₂, hsame, -, hmethod, -, rfl⟩ := governanceCall_ok h hok
  have hstart : StakesOf E (loadStaking E s) s₁ := by
    rw [StakesOf, hsame.loadStaking]
    exact ⟨rfl, rfl, rfl⟩
  exact stakesOf_put (by decide) (governanceMethod_stakesOf.after hstart hmethod)

/-- An accepted vote weighs at most the stake its sender may vote with. -/
theorem governanceCall_vote
    (h : executeSystemCall E s sender System.governanceAddress "vote" args = (r, s'))
    (hok : r.error = none) :
    ∃ i p v, (loadGovernance E s).proposals[i]? = some p ∧ p.status = .active ∧
      v.voter ∉ p.votes.map (·.voter) ∧ v.voter = sender ∧
      v.stakeWeight ≤ votingStake (loadStaking E s) sender (readCurrentEpoch s) ∧
      (loadGovernance E s').proposals = (loadGovernance E s).proposals.set i (p.withVote v) := by
  obtain ⟨s₁, o, s₂, hsame, -, hmethod, hres, rfl⟩ := governanceCall_ok h hok
  rw [loadGovernance_saveGovernance, ← loadGovernance_sameElsewhere hsame, ← hsame.loadStaking,
    ← hsame.readCurrentEpoch]
  obtain ⟨id, s₃, hread, h₁⟩ := run_bind_eq_ok.mp hmethod
  obtain ⟨-, rfl⟩ := orErr_eq_ok hread
  dsimp only at h₁
  rw [run_reads_bind, run_reads_bind, run_reads_bind] at h₁
  obtain ⟨⟨⟩, s₄, hstake, h₂⟩ := run_bind_eq_ok.mp h₁
  obtain ⟨-, rfl⟩ := run_stopIf_eq_ok hstake
  split at h₂
  · next c' hvote =>
      cases h₂
      obtain ⟨i, p, -, hget, hactive, hfirst, hset⟩ := GovernanceContract.vote_set hvote
      refine ⟨i, p, _, hget, hactive, hfirst, rfl, ?_, hset⟩
      rw [BitVec.le_def, toNat_umin]
      exact Nat.min_le_right _ _
  · cases h₂
    cases hres

end

/-! ## Votes that are backed -/

/-- The votes on a proposal, each by a voter that still has the stake. -/
structure Backed (c : StakingContract) (p : Proposal) : Prop where
  counted : p.Counted
  held : ∀ v ∈ p.votes, v.stakeWeight.toNat ≤ c.heldStake v.voter

theorem votedWeight_both (votes : List Vote) :
    votedWeight true votes + votedWeight false votes = (votes.map (·.stakeWeight.toNat)).sum := by
  unfold votedWeight
  rw [List.sum_map_filter, List.sum_map_filter, ← List.sum_map_add]
  refine congrArg List.sum (List.map_congr_left fun v _ => ?_)
  cases v.support <;> simp

/-- Backed votes weigh at most the active stake. -/
theorem Backed.le_totalActiveStake (h : Backed c p)
    (hc : c.Consistent) (hfits : c.staked < 2 ^ 128) :
    p.totalFor.toNat + p.totalAgainst.toNat ≤ c.totalActiveStake.toNat := by
  have hactive : activeStake c < 2 ^ 128 :=
    lt_of_le_of_lt (StakingContract.activeStake_le_staked hc) hfits
  have hvotes : votedWeight true p.votes + votedWeight false p.votes ≤ activeStake c :=
    calc votedWeight true p.votes + votedWeight false p.votes
        = (p.votes.map (·.stakeWeight.toNat)).sum := votedWeight_both _
      _ ≤ (p.votes.map fun v => c.heldStake v.voter).sum := List.sum_le_sum h.held
      _ = ((p.votes.map (·.voter)).map c.heldStake).sum := by rw [List.map_map]; rfl
      _ ≤ activeStake c := StakingContract.sum_heldStake_le hc h.counted.voters
  obtain ⟨hfor, hagainst⟩ := h.counted.toNat_totals (lt_of_le_of_lt hvotes hactive)
  rw [hfor, hagainst, toNat_totalActiveStake hactive]
  exact hvotes

theorem Backed.mono (h : Backed c p)
    (hle : ∀ v ∈ p.votes, c.heldStake v.voter ≤ c'.heldStake v.voter) : Backed c' p :=
  ⟨h.counted, fun v hv => (h.held v hv).trans (hle v hv)⟩

theorem Backed.withVote {v : Vote} (h : Backed c p)
    (hfirst : v.voter ∉ p.votes.map (·.voter))
    (hheld : v.stakeWeight.toNat ≤ c.heldStake v.voter) : Backed c (p.withVote v) := by
  refine ⟨h.counted.withVote hfirst, fun w hw => ?_⟩
  rcases List.mem_append.mp hw with hw | hw
  · exact h.held w hw
  · rw [List.mem_singleton.mp hw]
    exact hheld

theorem Proposal.Fresh.backed (h : p.Fresh) (c : StakingContract) : Backed c p := by
  refine ⟨h.counted, fun v hv => ?_⟩
  rw [h.noVotes] at hv
  cases hv

theorem SameStakes.heldStake (h : SameStakes c c') (x : AccountId) :
    c'.heldStake x = c.heldStake x := by
  obtain ⟨vs, ds, us, minStake, period⟩ := c
  obtain ⟨rfl, rfl, rfl⟩ := h
  rfl

theorem SameStakes.consistent (h : SameStakes c c') (hc : c.Consistent) :
    c'.Consistent := by
  refine ⟨?_, ?_, ?_⟩
  · rw [h.validators]
    exact hc.nodup
  · simp only [StakingContract.delegatedTo, h.validators, h.delegations]
    exact hc.total
  · rw [h.validators, h.delegations]
    exact hc.known

theorem SameStakes.staked (h : SameStakes c c') : c'.staked = c.staked := by
  simp only [StakingContract.staked, StakingContract.selfStakes, StakingContract.delegated,
    StakingContract.unbonding, h.validators, h.delegations, h.undelegations]

/-! ## Runs -/

section

variable {σ : Type} [StateStore σ] {E : Platform} {s s' : σ}

/-- The store after a call through the executor, which undoes a call that fails. -/
def committed (E : Platform) (s : σ) (sender target : AccountId) (method : String)
    (args : Bytes) : σ :=
  if (executeSystemCall E s sender target method args).1.error = none then
    (executeSystemCall E s sender target method args).2
  else s

/-- A staking or governance call, or anything that leaves both records alone;
epochs may pass. `allowed` restricts the calls. -/
inductive VotingStep (E : Platform)
    (allowed : σ → AccountId → AccountId → String → Bytes → Prop) : σ → σ → Prop
  | staking {s : σ} (sender : AccountId) (method : String) (args : Bytes)
      (ok : allowed s sender System.stakingAddress method args) :
      VotingStep E allowed s (committed E s sender System.stakingAddress method args)
  | governance {s : σ} (sender : AccountId) (method : String) (args : Bytes)
      (ok : allowed s sender System.governanceAddress method args) :
      VotingStep E allowed s (committed E s sender System.governanceAddress method args)
  | between {s s' : σ} (staking : loadStaking E s' = loadStaking E s)
      (governance : loadGovernance E s' = loadGovernance E s) : VotingStep E allowed s s'

/-- `x` has voted on a proposal that is not decided yet. -/
def HasVoted (gov : GovernanceContract) (x : AccountId) : Prop :=
  ∃ p ∈ gov.proposals, p.status = .active ∧ ∃ v ∈ p.votes, v.voter = x

/-- A call that leaves the stake behind the votes where it is. -/
structure StakeStays (E : Platform) (s : σ) (sender target : AccountId) (method : String)
    (args : Bytes) : Prop where
  /-- What the record holds fits in 128 bits. -/
  fits : target = System.stakingAddress → ∀ amount, stakedAmount? method args = some amount →
    (loadStaking E s).staked + amount.toNat < 2 ^ 128
  /-- Nobody undelegates before the proposals voted on are decided. -/
  undelegate : target = System.stakingAddress → method = "undelegate" →
    ¬ HasVoted (loadGovernance E s) sender
  /-- No slash hits the stake of a voter. -/
  slash : target = System.stakingAddress → method = "slash" →
    ∀ offender, readAccountId args 0 = some offender → ∀ x, HasVoted (loadGovernance E s) x →
      x ≠ offender ∧
        ∀ d ∈ (loadStaking E s).delegations, d.delegator = x → d.validator ≠ offender
  /-- Whoever votes has delegated to active validators only. -/
  vote : target = System.governanceAddress → method = "vote" →
    ∀ d ∈ (loadStaking E s).delegations, d.delegator = sender →
      d.eligibleFromEpoch ≤ readCurrentEpoch s →
      (loadStaking E s).isActiveValidator d.validator = true

/-- The stakes add up and every vote on an open proposal is backed. -/
structure VotesHeld (E : Platform) (s : σ) : Prop where
  consistent : (loadStaking E s).Consistent
  fits : (loadStaking E s).staked < 2 ^ 128
  backed : ∀ p ∈ (loadGovernance E s).proposals, p.status = .active → Backed (loadStaking E s) p

theorem governanceFrame (gov : GovernanceContract) :
    CallFrame E (fun s : σ => loadGovernance E s = gov) (· ≠ GovernanceContract.storageKey)
      fun _ => True where
  put := fun v hk hs => (loadRecord_put_of_ne _ _ _ _ hk).trans hs
  save := fun _ hs => (loadRecord_putAccount _ (by decide) _ _ _).trans hs
  load := fun _ _ => trivial
  balance := fun _ _ => trivial

/-- Staking leaves the proposals alone. -/
theorem stakingCall_governance (s : σ) (sender : AccountId) (method : String) (args : Bytes) :
    loadGovernance E (executeSystemCall E s sender System.stakingAddress method args).2 =
      loadGovernance E s := by
  rw [executeSystemCall_state, systemCall, if_pos rfl]
  exact ((governanceFrame (loadGovernance E s)).executeStakingCall (by decide) _ _ _ s rfl).1

theorem VotesHeld.staking {method : String}
    (h : VotesHeld E s) (ok : StakeStays E s sender System.stakingAddress method args)
    (hgov : loadGovernance E s' = loadGovernance E s) {success : Bool}
    (hchange : StakingChange (loadStaking E s) sender (readCurrentEpoch s) method args success
      (loadStaking E s')) : VotesHeld E s' := by
  obtain ⟨hc, hfits⟩ := hchange.ledger h.consistent h.fits (ok.fits rfl)
  refine ⟨hc, hfits, fun p hp hactive => ?_⟩
  rw [hgov] at hp
  refine (h.backed p hp hactive).mono fun v hv => ?_
  have hvoted : HasVoted (loadGovernance E s) v.voter := ⟨p, hp, hactive, v, hv, rfl⟩
  refine hchange.heldStake_le ?_ ?_
  · rintro hm rfl
    exact ok.undelegate rfl hm hvoted
  · intro hm offender ho
    exact ok.slash rfl hm offender ho _ hvoted

/-- A proposal that is set keeps the rest of the list. -/
theorem backed_set {ps : List Proposal} {i : Nat} {p' : Proposal}
    (h : ∀ p ∈ ps, p.status = .active → Backed c p) (hp' : p'.status = .active → Backed c p') :
    ∀ p ∈ ps.set i p', p.status = .active → Backed c p := by
  intro p hp hactive
  rcases List.mem_or_eq_of_mem_set hp with hp | rfl
  · exact h p hp hactive
  · exact hp' hactive

theorem VotesHeld.governance {method : String} (h : VotesHeld E s)
    (ok : StakeStays E s sender System.governanceAddress method args)
    (hcall : executeSystemCall E s sender System.governanceAddress method args = (r, s'))
    (hok : r.error = none) : VotesHeld E s' := by
  have hstakes := governanceCall_stakes hcall hok
  refine ⟨hstakes.consistent h.consistent, hstakes.staked ▸ h.fits, ?_⟩
  suffices hsuff : ∀ p ∈ (loadGovernance E s').proposals, p.status = .active →
      Backed (loadStaking E s) p by
    intro p hp hactive
    exact (hsuff p hp hactive).mono fun v _ => (hstakes.heldStake v.voter).ge
  by_cases hvote : method = "vote"
  · subst hvote
    obtain ⟨i, p, v, hget, hactive, hfirst, hsender, hweight, hset⟩ := governanceCall_vote hcall hok
    rw [hset]
    refine backed_set h.backed fun _ => ?_
    refine (h.backed p (List.mem_of_getElem? hget) hactive).withVote hfirst ?_
    rw [hsender]
    exact Nat.le_trans hweight (StakingContract.votingStake_le _ _ _ (ok.vote rfl rfl))
  · obtain ⟨e, he, hmove⟩ := executeSystemCall_governance hcall hok
    generalize (loadGovernance E s').proposals = ps' at hmove ⊢
    cases hmove with
    | create fresh =>
      intro p hp hactive
      rcases List.mem_append.mp hp with hp | hp
      · exact h.backed p hp hactive
      · rw [List.mem_singleton.mp hp]
        exact fresh.backed _
    | vote get active first =>
      -- only the method `vote` leaves such an entry
      unfold governanceEntry at he
      split at he
      · exact absurd rfl hvote
      · cases hpos : proposalPosition E s args <;> rw [hpos] at he <;> cases he
      · cases hpos : proposalPosition E s args <;> rw [hpos] at he <;> cases he
      · cases he
    | pass get active ended quorum threshold => exact backed_set h.backed nofun
    | reject get active ended => exact backed_set h.backed nofun
    | again get decided ended => exact h.backed
    | execute get passed timelock => exact backed_set h.backed nofun

theorem VotesHeld.step (h : VotesHeld E s) (hstep : VotingStep E (StakeStays E) s s') :
    VotesHeld E s' := by
  cases hstep with
  | staking sender method args ok =>
    unfold committed
    split
    · exact h.staking ok (stakingCall_governance s sender method args)
        (stakingCall_change E s sender method args)
    · exact h
  | governance sender method args ok =>
    unfold committed
    rcases hcall : executeSystemCall E s sender System.governanceAddress method args with ⟨r, s'⟩
    dsimp only
    split
    · next hok => exact h.governance ok hcall hok
    · exact h
  | between staking governance =>
    exact ⟨staking ▸ h.consistent, staking ▸ h.fits, by rw [staking, governance]; exact h.backed⟩

/-- What is recorded for and against every open proposal is at most the stake
that finalising it now would use. -/
def VotesWithinStake (E : Platform) (s : σ) : Prop :=
  ∀ p ∈ (loadGovernance E s).proposals, p.status = .active →
    p.totalFor.toNat + p.totalAgainst.toNat ≤ (loadStaking E s).totalActiveStake.toNat

/-- Nobody has voted on an open proposal. -/
def Unvoted (gov : GovernanceContract) : Prop :=
  ∀ p ∈ gov.proposals, p.status = .active →
    p.votes = [] ∧ p.totalFor = 0#128 ∧ p.totalAgainst = 0#128

theorem Unvoted.votesHeld (h : Unvoted (loadGovernance E s)) (hc : (loadStaking E s).Consistent)
    (hfits : (loadStaking E s).staked < 2 ^ 128) : VotesHeld E s := by
  refine ⟨hc, hfits, fun p hp hactive => ?_⟩
  obtain ⟨hvotes, hfor, hagainst⟩ := h p hp hactive
  refine ⟨⟨?_, ?_, ?_⟩, fun v hv => ?_⟩
  · rw [hvotes]
    exact List.nodup_nil
  · rw [hvotes, hfor]
    rfl
  · rw [hvotes, hagainst]
    rfl
  · rw [hvotes] at hv
    cases hv

/-- In every run whose calls leave the stake behind the votes where it is, the
votes on a proposal never exceed the stake that its quorum is measured by. -/
theorem votes_within_stake {s₀ s : σ} (hc : (loadStaking E s₀).Consistent)
    (hfits : (loadStaking E s₀).staked < 2 ^ 128) (h₀ : Unvoted (loadGovernance E s₀))
    (hrun : ReflTransGen (VotingStep E (StakeStays E)) s₀ s) : VotesWithinStake E s := by
  have hheld : VotesHeld E s := by
    induction hrun with
    | refl => exact h₀.votesHeld hc hfits
    | tail _ hstep ih => exact ih.step hstep
  intro p hp hactive
  exact (hheld.backed p hp hactive).le_totalActiveStake hheld.consistent hheld.fits

end

/-! ## A voter that undelegates -/

/-- A store with a staking record and a governance record. -/
def recordStore (E : Platform) (c : StakingContract) (gov : GovernanceContract) : Store :=
  saveRecord E.governance GovernanceContract.storageKey gov
    (saveRecord E.staking StakingContract.storageKey c ∅)

/-- `alice` has delegated 30 coins to `bob`, who has 5. -/
def delegatedRecord : StakingContract where
  validators := [⟨bob, 5#128, 30#128, 0#128, true, false, 0#64, 1000#64, 0#64, none, 0#64⟩]
  delegations := [⟨alice, bob, 30#128, 0#128, 0#64⟩]

/-- An open proposal. -/
def openProposal : Proposal where
  id := 0#64
  proposer := bob
  action := .emergencyPause
  description := ""
  createdEpoch := 0#64
  votingEndEpoch := 7#64
  executeAfterEpoch := 10#64
  status := .active
  votes := []
  totalFor := 0#128
  totalAgainst := 0#128
  deposit := proposalDeposit

def openRecord (p : Proposal) : GovernanceContract where
  proposals := [p]
  nextProposalId := 1#64

/-- `alice` votes with all of her delegation. -/
def aliceVotes : Bytes := le64 0#64 ++ [1] ++ le128 30#128

def votingStore : Store := recordStore concretePlatform delegatedRecord (openRecord openProposal)

theorem loadStaking_votingStore : loadStaking concretePlatform votingStore = delegatedRecord := by
  decide +kernel

theorem votingStore_held :
    (loadStaking concretePlatform votingStore).Consistent ∧
      (loadStaking concretePlatform votingStore).staked < 2 ^ 128 ∧
      Unvoted (loadGovernance concretePlatform votingStore) := by
  have hgov : loadGovernance concretePlatform votingStore = openRecord openProposal := by
    decide +kernel
  rw [loadStaking_votingStore, hgov]
  refine ⟨⟨by decide, ?_, ?_⟩, by decide, ?_⟩
  · intro v hv
    rw [List.mem_singleton.mp hv]
    decide
  · intro d hd
    rw [List.mem_singleton.mp hd]
    exact ⟨_, List.mem_singleton.mpr rfl, rfl⟩
  · intro p hp _
    rw [List.mem_singleton.mp hp]
    exact ⟨rfl, rfl, rfl⟩

theorem votes_within_stake_voted :
    ∃ s : Store, (loadGovernance concretePlatform s).proposals.map (·.totalFor) = [30#128] ∧
      VotesWithinStake concretePlatform s := by
  obtain ⟨hc, hfits, hunvoted⟩ := votingStore_held
  refine ⟨committed concretePlatform votingStore alice System.governanceAddress "vote" aliceVotes,
    ?_, votes_within_stake hc hfits hunvoted (.single (.governance alice "vote" aliceVotes ?_))⟩
  · decide +kernel
  · refine ⟨fun h => ?_, fun h => ?_, fun h => ?_, fun _ _ d hd _ _ => ?_⟩
    · exact absurd h (by decide)
    · exact absurd h (by decide)
    · exact absurd h (by decide)
    · rw [loadStaking_votingStore] at hd ⊢
      rw [List.mem_singleton.mp hd]
      decide

/-- `alice` votes with 30 coins and undelegates them; 5 are left to measure the
quorum by. -/
theorem not_votes_within_stake_undelegated :
    (loadStaking concretePlatform votingStore).Consistent ∧
      Unvoted (loadGovernance concretePlatform votingStore) ∧
      ∃ s : Store, ReflTransGen (VotingStep concretePlatform fun _ _ _ _ _ => True) votingStore s ∧
        ¬ VotesWithinStake concretePlatform s := by
  refine ⟨votingStore_held.1, votingStore_held.2.2, _,
    .tail (.single (.governance alice "vote" aliceVotes trivial))
      (.staking alice "undelegate" (delegateArgs 30#128) trivial), fun h => ?_⟩
  exact absurd (h (openProposal.withVote ⟨alice, true, 30#128⟩) (by decide +kernel) rfl)
    (by decide +kernel)

end Solen
