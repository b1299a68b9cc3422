import Solen.CallRules
import Solen.StakingLedger

/-!
# The history of delegations

The changes a staking call can make (`stakingCall_change`) are followed over
runs: the part of a delegation that counts in an epoch was delegated before
it, as long as nobody adds to a delegation that counts already.
-/

namespace Solen

open Machine Prog Relation

/-! ## Delegations that count -/

/-- An accepted delegation. -/
structure StakeDeposit where
  delegator : AccountId
  validator : ValidatorId
  amount : U128
  epoch : U64

/-- What has been delegated to the validators of `p` in epochs before `e`. -/
def depositedBefore (deposits : List StakeDeposit) (delegator : AccountId)
    (p : ValidatorId → Bool) (e : U64) : Nat :=
  (deposits.map fun d =>
    if d.delegator == delegator && p d.validator && decide (d.epoch < e) then d.amount.toNat
    else 0).sum

/-- What of the delegations to the validators of `p` counts in epoch `e`. -/
def eligibleIn (ds : List Delegation) (delegator : AccountId) (p : ValidatorId → Bool)
    (e : U64) : Nat :=
  (ds.map fun d =>
    if d.delegator == delegator && p d.validator && decide (d.eligibleFromEpoch ≤ e) then
      d.amount.toNat
    else 0).sum

/-- What counts in an epoch was delegated before it. -/
def DelegatedBefore (ds : List Delegation) (deposits : List StakeDeposit) : Prop :=
  ∀ delegator p e, eligibleIn ds delegator p e ≤ depositedBefore deposits delegator p e

theorem depositedBefore_append (deposits : List StakeDeposit) (d : StakeDeposit)
    (delegator : AccountId) (p : ValidatorId → Bool) (e : U64) :
    depositedBefore (deposits ++ [d]) delegator p e = depositedBefore deposits delegator p e +
      if d.delegator == delegator && p d.validator && decide (d.epoch < e) then d.amount.toNat
      else 0 := by
  simp [depositedBefore]

/-- Delegations that shrink, entry by entry. -/
theorem eligibleIn_map_le {f : Delegation → Delegation} (hf : ∀ d, (f d).amount ≤ d.amount)
    (hdel : ∀ d, (f d).delegator = d.delegator) (hval : ∀ d, (f d).validator = d.validator)
    (hel : ∀ d, (f d).eligibleFromEpoch = d.eligibleFromEpoch) (ds : List Delegation)
    (delegator : AccountId) (p : ValidatorId → Bool) (e : U64) :
    eligibleIn (ds.map f) delegator p e ≤ eligibleIn ds delegator p e := by
  unfold eligibleIn
  rw [List.map_map]
  refine List.sum_le_sum fun d _ => ?_
  simp only [Function.comp_apply, hdel, hval, hel]
  split
  · exact hf d
  · exact Nat.le_refl _

theorem eligibleIn_sublist {ds' ds : List Delegation} (h : ds'.Sublist ds)
    (delegator : AccountId) (p : ValidatorId → Bool) (e : U64) :
    eligibleIn ds' delegator p e ≤ eligibleIn ds delegator p e :=
  (h.map _).sum_le_sum fun _ _ => Nat.zero_le _

/-- Changing one entry changes what counts by at most what the entry gains,
and only if the entry counts. -/
theorem eligibleIn_updateFirst {q : Delegation → Bool} {f : Delegation → Delegation}
    {d : Delegation} {ds : List Delegation} (gain : Nat) (hd : ds.find? q = some d)
    (hf : (f d).amount.toNat ≤ d.amount.toNat + gain) (hdel : (f d).delegator = d.delegator)
    (hval : (f d).validator = d.validator) (hel : (f d).eligibleFromEpoch = d.eligibleFromEpoch)
    (delegator : AccountId) (p : ValidatorId → Bool) (e : U64) :
    eligibleIn (ds.updateFirst q f) delegator p e ≤ eligibleIn ds delegator p e +
      if d.delegator == delegator && p d.validator && decide (d.eligibleFromEpoch ≤ e) then gain
      else 0 := by
  have hsum := List.sum_map_updateFirst f (fun d =>
    if d.delegator == delegator && p d.validator && decide (d.eligibleFromEpoch ≤ e) then
      d.amount.toNat else 0) hd
  simp only [hdel, hval, hel] at hsum
  unfold eligibleIn
  cases hc : d.delegator == delegator && p d.validator && decide (d.eligibleFromEpoch ≤ e) with
  | true =>
    simp only [hc, if_true] at hsum ⊢
    omega
  | false =>
    simp only [hc, Bool.false_eq_true, if_false] at hsum ⊢
    omega

section

variable {c c' : StakingContract} {deposits : List StakeDeposit} {sender : AccountId}
  {validator : ValidatorId} {amount : U128} {epoch : U64}

theorem DelegatedBefore.mono (h : DelegatedBefore c.delegations deposits)
    (hle : ∀ delegator p e, eligibleIn c'.delegations delegator p e ≤
      eligibleIn c.delegations delegator p e) : DelegatedBefore c'.delegations deposits :=
  fun delegator p e => (hle delegator p e).trans (h delegator p e)

theorem DelegatedBefore.undelegate (h : DelegatedBefore c.delegations deposits)
    (hund : c.undelegate sender validator amount epoch = .ok c') :
    DelegatedBefore c'.delegations deposits := by
  unfold StakingContract.undelegate at hund
  split at hund
  · cases hund
  next d hd =>
    split at hund
    · cases hund
    next hle =>
      split at hund
      · cases hund
      cases hund
      have hreduced : ∀ delegator p e, eligibleIn (c.delegations.updateFirst
          (StakingContract.isDelegation sender validator) fun d =>
            { d with amount := d.amount - amount }) delegator p e ≤
          eligibleIn c.delegations delegator p e := by
        intro delegator p e
        have hcut : (d.amount - amount).toNat ≤ d.amount.toNat + 0 := by
          rw [BitVec.toNat_sub_of_le (BitVec.not_lt.mp hle)]
          omega
        have hone := eligibleIn_updateFirst (f := fun d => { d with amount := d.amount - amount })
          0 hd hcut rfl rfl rfl delegator p e
        rwa [ite_self, Nat.add_zero] at hone
      refine h.mono fun delegator p e => ?_
      dsimp only
      split
      · exact (eligibleIn_sublist List.filter_sublist _ _ _).trans (hreduced _ _ _)
      · exact hreduced _ _ _

/-- A new delegation counts from the next epoch on; so does what is added to
one that does not count yet. -/
theorem DelegatedBefore.delegate (h : DelegatedBefore c.delegations deposits)
    (hepoch : epoch.toNat + 1 < 2 ^ 64)
    (hfirst : ∀ d ∈ c.delegations, StakingContract.isDelegation sender validator d = true →
      epoch < d.eligibleFromEpoch)
    (hdel : c.delegateAtEpoch sender validator amount epoch = .ok c') :
    DelegatedBefore c'.delegations (deposits ++ [⟨sender, validator, amount, epoch⟩]) := by
  unfold StakingContract.delegateAtEpoch at hdel
  split at hdel
  · cases hdel
  cases hdel
  intro delegator p e
  have hbefore := h delegator p e
  rw [depositedBefore_append]
  dsimp only
  split
  · next hany =>
      obtain ⟨d, hd⟩ := Option.isSome_iff_exists.mp (List.find?_isSome.mpr
        (List.any_eq_true.mp hany))
      have hmatch := List.find?_some hd
      have hlater := hfirst d (List.mem_of_find?_eq_some hd) hmatch
      simp only [StakingContract.isDelegation, Bool.and_eq_true, beq_iff_eq] at hmatch
      have hsat : (satAdd d.amount amount).toNat ≤ d.amount.toNat + amount.toNat := by
        rw [toNat_satAdd]
        exact Nat.min_le_left _ _
      refine Nat.le_trans
        (eligibleIn_updateFirst amount.toNat hd hsat rfl rfl rfl delegator p e) ?_
      rw [hmatch.1, hmatch.2]
      cases hc : sender == delegator && p validator with
      | false =>
        simp only [Bool.false_and, Bool.false_eq_true, if_false]
        omega
      | true =>
        simp only [Bool.true_and, decide_eq_true_eq]
        split
        · next hle =>
            have hlt : epoch < e := Nat.lt_of_lt_of_le hlater hle
            rw [if_pos hlt]
            omega
        · omega
  · have happend : ∀ d, eligibleIn (c.delegations ++ [d]) delegator p e =
        eligibleIn c.delegations delegator p e + if d.delegator == delegator && p d.validator &&
          decide (d.eligibleFromEpoch ≤ e) then d.amount.toNat else 0 := by
      intro d
      simp [eligibleIn]
    rw [happend]
    cases hc : sender == delegator && p validator with
    | false =>
      simp only [Bool.false_and, Bool.false_eq_true, if_false]
      omega
    | true =>
      simp only [Bool.true_and, decide_eq_true_eq]
      split
      · next hle =>
          have hlt : epoch < e := by
            have hsucc : (epoch + 1#64).toNat = epoch.toNat + 1 := toNat_add_of_lt hepoch
            rw [BitVec.le_def, hsucc] at hle
            rw [BitVec.lt_def]
            omega
          rw [if_pos hlt]
          omega
      · omega

theorem delegations_register {minStake : U128}
    (h : c.registerValidatorAtEpochWithConfig sender amount epoch minStake = .ok c') :
    c'.delegations = c.delegations := by
  unfold StakingContract.registerValidatorAtEpochWithConfig at h
  split at h
  · cases h
  split at h
  · cases h
  cases h
  rfl

theorem delegations_unjail (h : c.unjail sender = .ok c') : c'.delegations = c.delegations := by
  unfold StakingContract.unjail at h
  split at h
  · cases h
  split at h
  · cases h
    rfl
  dsimp only at h
  split at h
  · cases h
  cases h
  rfl

theorem delegations_rotateKey {newKey : ValidatorId}
    (h : c.rotateKey sender newKey epoch = .ok c') : c'.delegations = c.delegations := by
  unfold StakingContract.rotateKey at h
  split at h
  · cases h
  split at h
  · cases h
  split at h
  · cases h
  cases h
  rfl

theorem DelegatedBefore.slash (offender : ValidatorId) (bps : U64) (h : DelegatedBefore c.delegations deposits) :
    DelegatedBefore (slashRecord c offender bps epoch).1.delegations deposits := by
  refine h.mono fun delegator p e => ?_
  refine eligibleIn_map_le ?_ ?_ ?_ ?_ _ _ _ _
  · intro d
    split
    · rw [BitVec.le_def, toNat_satSub]
      exact Nat.sub_le _ _
    · exact BitVec.le_refl _
  all_goals
    intro d
    split <;> rfl

end

/-! ## Runs -/

section

variable {σ : Type} [StateStore σ] {E : Platform}

/-- A store with the delegations that were accepted in it. -/
structure DelegationRun (σ : Type) where
  store : σ
  deposits : List StakeDeposit := []

/-- The delegation a call makes. -/
def stakingDeposit (E : Platform) (s : σ) (sender : AccountId) (method : String)
    (args : Bytes) : List StakeDeposit :=
  if method = "delegate" ∧
      (executeSystemCall E s sender System.stakingAddress method args).1.error.isNone then
    match readAccountId args 0, readU128 args 32 with
    | some validator, some amount => [⟨sender, validator, amount, readCurrentEpoch s⟩]
    | _, _ => []
  else []

def DelegationRun.call (E : Platform) (r : DelegationRun σ) (sender : AccountId) (method : String)
    (args : Bytes) : DelegationRun σ where
  store := (executeSystemCall E r.store sender System.stakingAddress method args).2
  deposits := r.deposits ++ stakingDeposit E r.store sender method args

/-- A staking call, or anything that leaves the staking record alone; epochs
may pass. `allowed` restricts the calls. -/
inductive DelegationStep (E : Platform) (allowed : σ → AccountId → String → Bytes → Prop) :
    DelegationRun σ → DelegationRun σ → Prop
  | call {r : DelegationRun σ} (sender : AccountId) (method : String) (args : Bytes)
      (ok : allowed r.store sender method args) :
      DelegationStep E allowed r (r.call E sender method args)
  | between {r : DelegationRun σ} {s : σ} (record : loadStaking E s = loadStaking E r.store) :
      DelegationStep E allowed r { r with store := s }

/-- No delegation is added to one that counts already. -/
def NotYetCounting (E : Platform) (s : σ) (sender : AccountId) (method : String)
    (args : Bytes) : Prop :=
  method = "delegate" → ∀ validator, readAccountId args 0 = some validator →
    ∀ d ∈ (loadStaking E s).delegations, StakingContract.isDelegation sender validator d = true →
      readCurrentEpoch s < d.eligibleFromEpoch

/-- Epochs are heights divided by the epoch length. -/
theorem readCurrentEpoch_lt (s : σ) : (readCurrentEpoch s).toNat + 1 < 2 ^ 64 := by
  unfold readCurrentEpoch
  split
  · next height hheight =>
      have hlt : height < 2 ^ 64 := by
        unfold metaHeight at hheight
        split at hheight
        · split at hheight
          · cases hheight
            refine (fromLeBytes_lt _).trans_le ?_
            rw [show (2 : Nat) ^ 64 = 256 ^ 8 by norm_num]
            exact Nat.pow_le_pow_right (by norm_num) (by simp)
          · cases hheight
        · cases hheight
      rw [BitVec.toNat_ofNat]
      have := Nat.mod_le (height / 100) (2 ^ 64)
      omega
  · decide

theorem DelegationStep.covered {r r' : DelegationRun σ}
    (hstep : DelegationStep E (NotYetCounting E) r r')
    (h : DelegatedBefore (loadStaking E r.store).delegations r.deposits) :
    DelegatedBefore (loadStaking E r'.store).delegations r'.deposits := by
  cases hstep with
  | between record =>
    dsimp only
    rw [record]
    exact h
  | call sender method args ok =>
    -- deposits only add to what is covered
    have hmore : ∀ {ds : List Delegation}, DelegatedBefore ds r.deposits →
        DelegatedBefore ds (r.call E sender method args).deposits := by
      intro ds hds delegator p e
      refine (hds delegator p e).trans ?_
      unfold DelegationRun.call depositedBefore
      rw [List.map_append, List.sum_append]
      exact Nat.le_add_right _ _
    have hchange := stakingCall_change E r.store sender method args
    change DelegatedBefore (loadStaking E (executeSystemCall E r.store sender System.stakingAddress
      method args).2).delegations _
    generalize hok : (executeSystemCall E r.store sender System.stakingAddress
      method args).1.error.isNone = ok' at hchange
    generalize loadStaking E (executeSystemCall E r.store sender System.stakingAddress
      method args).2 = c' at hchange ⊢
    cases hchange with
    | same => exact hmore h
    | register amount minStake hm ha hreg =>
      rw [delegations_register hreg]
      exact hmore h
    | delegate validator amount hm hv ha hdel =>
      have hdeposit : stakingDeposit E r.store sender method args =
          [⟨sender, validator, amount, readCurrentEpoch r.store⟩] := by
        rw [stakingDeposit, if_pos ⟨hm, hok⟩, hv, ha]
      rw [DelegationRun.call, hdeposit]
      exact h.delegate (readCurrentEpoch_lt _) (ok hm validator hv) hdel
    | withdraw hm => exact hmore h
    | undelegate validator amount hm hv ha hund =>
      exact hmore (DelegatedBefore.undelegate (c := ((loadStaking E r.store).withdrawUndelegated sender
        (readCurrentEpoch r.store)).1) h hund)
    | slash offender bps v hm ho hbps hv => exact hmore (h.slash offender bps)
    | unjail hm hun =>
      rw [delegations_unjail hun]
      exact hmore h
    | rotateKey newKey hm hrot =>
      rw [delegations_rotateKey hrot]
      exact hmore h

/-- Rewards and votes count what was delegated before their epoch, as long as
nobody adds to a delegation that counts already. -/
theorem eligible_deposited_before {r₀ r : DelegationRun σ}
    (h₀ : DelegatedBefore (loadStaking E r₀.store).delegations r₀.deposits)
    (hrun : ReflTransGen (DelegationStep E (NotYetCounting E)) r₀ r) (delegator : AccountId)
    (validator : ValidatorId) (e : U64) :
    ((((loadStaking E r.store).eligibleDelegationsForValidator validator e).filter
        (·.delegator == delegator)).map (·.amount.toNat)).sum ≤
      depositedBefore r.deposits delegator (· == validator) e ∧
    (((loadStaking E r.store).delegations.filter fun d =>
        d.delegator == delegator && decide (d.eligibleFromEpoch ≤ e)).map (·.amount.toNat)).sum ≤
      depositedBefore r.deposits delegator (fun _ => true) e := by
  have hcovered : DelegatedBefore (loadStaking E r.store).delegations r.deposits := by
    induction hrun with
    | refl => exact h₀
    | tail _ hstep ih => exact hstep.covered ih
  constructor
  · have h := hcovered delegator (· == validator) e
    rw [eligibleIn, ← List.sum_map_filter] at h
    rw [StakingContract.eligibleDelegationsForValidator, List.filter_filter]
    simpa only [Bool.and_assoc] using h
  · have h := hcovered delegator (fun _ => true) e
    rw [eligibleIn, ← List.sum_map_filter] at h
    simpa only [Bool.and_true] using h

end

/-- A store with the staking record `c` and the chain's metadata. -/
def withStaking (E : Platform) (c : StakingContract) (data : Bytes) (s : Store) : Store :=
  StateStore.put (saveRecord E.staking StakingContract.storageKey c s) chainMetaKey data

/-- The record `c` at a height, and `alice` with funds to delegate. -/
def delegatorStore (c : StakingContract) (height : U64) : Store :=
  withStaking concretePlatform c (le64 height ++ le64 0#64)
    (singleAccount alice (keyAccount alice 1000000#128))

/-- `bob` as a validator that nobody has delegated to. -/
def undelegatedRecord : StakingContract where
  validators := [⟨bob, 5#128, 0#128, 0#128, true, false, 0#64, 1000#64, 0#64, none, 0#64⟩]

def delegateArgs (amount : U128) : Bytes := bob.bytes ++ le128 amount

/-- One coin in epoch 0. -/
def firstDelegation : DelegationRun Store :=
  DelegationRun.call concretePlatform ⟨delegatorStore undelegatedRecord 0#64, []⟩ alice "delegate"
    (delegateArgs 1#128)

theorem eligible_deposited_before_first :
    (((loadStaking concretePlatform firstDelegation.store).delegations.filter fun d =>
        d.delegator == alice && decide (d.eligibleFromEpoch ≤ 1#64)).map
          (·.amount.toNat)).sum ≤
      depositedBefore firstDelegation.deposits alice (fun _ => true) 1#64 := by
  have hload : (loadStaking concretePlatform
      (delegatorStore undelegatedRecord 0#64)).delegations = [] := by decide +kernel
  have hstart : DelegatedBefore (loadStaking concretePlatform
      (delegatorStore undelegatedRecord 0#64)).delegations [] := by
    rw [hload]
    intro delegator p e
    exact Nat.le_refl 0
  have hstep : DelegationStep concretePlatform (NotYetCounting concretePlatform)
      ⟨delegatorStore undelegatedRecord 0#64, []⟩ firstDelegation := by
    refine .call alice "delegate" (delegateArgs 1#128) ?_
    intro _ validator _ d hd
    rw [hload] at hd
    cases hd
  refine (eligible_deposited_before ?_ (.single hstep) alice bob 1#64).2
  exact hstart

/-- A further coin in epoch 5 is added to the first and counts in epoch 5. -/
theorem not_eligible_deposited_before_added :
    ∃ r, ReflTransGen (DelegationStep concretePlatform fun _ _ _ _ => True)
        ⟨delegatorStore undelegatedRecord 0#64, []⟩ r ∧
      ¬ (((loadStaking concretePlatform r.store).delegations.filter fun d =>
          d.delegator == alice && decide (d.eligibleFromEpoch ≤ 5#64)).map
            (·.amount.toNat)).sum ≤ depositedBefore r.deposits alice (fun _ => true) 5#64 := by
  let once : StakingContract :=
    { validators := [⟨bob, 5#128, 1#128, 0#128, true, false, 0#64, 1000#64, 0#64, none, 0#64⟩]
      delegations := [⟨alice, bob, 1#128, 0#128, 1#64⟩] }
  have hbetween : loadStaking concretePlatform (delegatorStore once 500#64) =
      loadStaking concretePlatform firstDelegation.store := by decide +kernel
  refine ⟨DelegationRun.call concretePlatform ⟨delegatorStore once 500#64, firstDelegation.deposits⟩
      alice "delegate" (delegateArgs 1#128),
    .tail (.tail (.single (.call alice "delegate" (delegateArgs 1#128) trivial))
      (.between hbetween)) (.call alice "delegate" (delegateArgs 1#128) trivial), ?_⟩
  decide +kernel

end Solen
