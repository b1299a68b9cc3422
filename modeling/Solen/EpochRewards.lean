import Solen.ProRata
import Solen.Block
import Solen.StakeHistory

/-!
# Epoch rewards are funded

At an epoch boundary the reward is taken from the staking pool and split
three times: over the eligible validators by their stake, between a
validator and its delegators, and over the delegators by their delegation.
Every split rounds down, so that what is credited stays within what the
pool pays.
-/

namespace Solen

open Machine
open StateStore (entries)

/-- What the credits add up to. -/
def creditedTotal (credits : List RewardCredit) : Nat := (credits.map (·.amount.toNat)).sum

/-- A staking record whose totals cover the delegations and fit 128 bits. -/
structure RewardSound (c : StakingContract) : Prop where
  delegated : ∀ v ∈ c.validators, c.delegatedTo v.id ≤ v.totalDelegated.toNat
  commission : ∀ v ∈ c.validators, v.commissionRateBps.toNat ≤ 10000
  stake : (c.validators.map fun v => v.selfStake.toNat + v.totalDelegated.toNat).sum < 2 ^ 128

/-! ## One validator -/

section

variable {c : StakingContract} {v : StakingValidator} {epoch : U64}

theorem RewardSound.stake_le (h : RewardSound c) (hv : v ∈ c.validators) :
    v.selfStake.toNat + v.totalDelegated.toNat < 2 ^ 128 :=
  (List.single_le_sum (fun _ _ => Nat.zero_le _) _ (List.mem_map_of_mem hv)).trans_lt h.stake

theorem RewardSound.toNat_totalStake (h : RewardSound c) (hv : v ∈ c.validators) :
    v.totalStake.toNat = v.selfStake.toNat + v.totalDelegated.toNat :=
  toNat_add_of_lt (h.stake_le hv)

theorem eligible_le_delegatedTo (c : StakingContract) (id : ValidatorId) (epoch : U64) :
    ((c.eligibleDelegationsForValidator id epoch).map (·.amount.toNat)).sum ≤
      c.delegatedTo id := by
  unfold StakingContract.eligibleDelegationsForValidator StakingContract.delegatedTo
    StakingContract.delegatedIn
  rw [List.sum_map_filter]
  refine List.sum_le_sum fun d _ => ?_
  by_cases h : (d.validator == id) = true
  · rw [if_pos h]
    split
    · exact Nat.le_refl _
    · exact Nat.zero_le _
  · rw [if_neg h, if_neg (fun hand => h (Bool.and_eq_true_iff.mp hand).1)]

theorem bpsOf_le_self {amount : U128} {bps : U64} (h : bps.toNat ≤ 10000) :
    (bpsOf amount bps).toNat ≤ amount.toNat := by
  refine toNat_satMul_div_le_self ?_
  rw [BitVec.toNat_setWidth]
  exact (Nat.mod_le _ _).trans h

theorem creditedTotal_filterMap_le {l : List Delegation} (share : Delegation → U128) :
    creditedTotal (l.filterMap fun d =>
      if share d = 0#128 then none
      else some ⟨d.delegator, share d, "delegator_reward"⟩) ≤
      (l.map fun d => (share d).toNat).sum := by
  unfold creditedTotal
  induction l with
  | nil => exact Nat.le_refl _
  | cons d l ih =>
    rw [List.filterMap_cons, List.map_cons, List.sum_cons]
    by_cases hzero : share d = 0#128
    · rw [if_pos hzero]
      exact ih.trans (Nat.le_add_left _ _)
    · rw [if_neg hzero]
      exact Nat.add_le_add_left ih _

/-- A validator and its delegators together get no more than its share. -/
theorem validatorCredits_le (h : RewardSound c) (hv : v ∈ c.validators)
    (reward totalStake : U128) :
    creditedTotal (validatorCredits c epoch reward totalStake v) ≤
      (satMul reward v.totalStake / totalStake).toNat := by
  unfold validatorCredits
  dsimp only
  split
  · exact Nat.zero_le _
  generalize satMul reward v.totalStake / totalStake = share
  have hdel : ((c.eligibleDelegationsForValidator v.id epoch).map (·.amount.toNat)).sum ≤
      v.totalDelegated.toNat := (eligible_le_delegatedTo c v.id epoch).trans (h.delegated v hv)
  have heligible := toNat_foldl_add (f := fun d : Delegation => d.amount)
    (hdel.trans_lt v.totalDelegated.isLt)
  generalize c.eligibleDelegationsForValidator v.id epoch = eligible at *
  generalize eligible.foldl (fun t d => t + d.amount) 0#128 = eligibleDelegated at *
  have hvTotal := h.toNat_totalStake hv
  -- the delegators' part of the share
  have hpool : (if 0#128 < eligibleDelegated then
      satMul share eligibleDelegated / v.totalStake else 0#128).toNat ≤ share.toNat := by
    split
    · exact toNat_satMul_div_le_self (by omega)
    · exact Nat.zero_le _
  generalize (if 0#128 < eligibleDelegated then
    satMul share eligibleDelegated / v.totalStake else 0#128) = pool at *
  -- the commission is taken out of it
  have hcommission : (bpsOf pool v.commissionRateBps).toNat ≤ pool.toNat :=
    bpsOf_le_self (h.commission v hv)
  generalize bpsOf pool v.commissionRateBps = commission at *
  have hown : (satSub share pool + commission).toNat =
      share.toNat - pool.toNat + commission.toNat := by
    have hsub := toNat_satSub share pool
    rw [toNat_add_of_lt (by omega), hsub]
  have hnet := toNat_satSub pool commission
  generalize satSub pool commission = net at *
  have hdelegators : creditedTotal (if 0#128 < net ∧ 0#128 < eligibleDelegated then
      eligible.filterMap fun d =>
        if satMul net d.amount / eligibleDelegated = 0#128 then none
        else some ⟨d.delegator, satMul net d.amount / eligibleDelegated, "delegator_reward"⟩
      else []) ≤ net.toNat := by
    split
    · refine (creditedTotal_filterMap_le fun d =>
        satMul net d.amount / eligibleDelegated).trans ?_
      exact sum_share_le (f := fun d : Delegation => d.amount) (Nat.le_of_eq heligible.symm)
    · exact Nat.zero_le _
  unfold creditedTotal at hdelegators ⊢
  rw [List.map_cons, List.sum_cons, hown]
  omega

end

/-! ## The distribution -/

section

variable {σ : Type} [StateStore σ] {E : Platform}

theorem creditedTotal_flatMap {α : Type} (f : α → List RewardCredit) (l : List α) :
    creditedTotal (l.flatMap f) = (l.map fun x => creditedTotal (f x)).sum := by
  unfold creditedTotal
  induction l with
  | nil => rfl
  | cons x l ih => rw [List.flatMap_cons, List.map_append, List.sum_append, ih, List.map_cons,
      List.sum_cons]

theorem sum_eligible_le {c : StakingContract} (h : RewardSound c) (epoch : U64) :
    ((c.eligibleValidators epoch).map fun v => v.totalStake.toNat).sum < 2 ^ 128 := by
  refine lt_of_le_of_lt ?_ h.stake
  have hsub : (c.eligibleValidators epoch).Sublist c.validators := List.filter_sublist
  calc ((c.eligibleValidators epoch).map fun v => v.totalStake.toNat).sum
      = ((c.eligibleValidators epoch).map fun v =>
          v.selfStake.toNat + v.totalDelegated.toNat).sum := by
        refine congrArg List.sum (List.map_congr_left fun v hv => ?_)
        exact h.toNat_totalStake (hsub.subset hv)
    _ ≤ _ := (hsub.map _).sum_le_sum fun _ _ => Nat.zero_le _

/-- What is credited is at most what is taken from the pool, and that is at most
what the pool has. -/
theorem epochRewards_le {s : σ} {height : Nat} {debit : U128} {credits : List RewardCredit}
    (hc : RewardSound (loadStaking E s)) (h : epochRewards E height s = some (debit, credits)) :
    creditedTotal credits ≤ debit.toNat ∧
      ∃ pool, loadAccount E System.stakingPoolAddress s = .ok (some pool) ∧
        debit ≤ pool.balance := by
  unfold epochRewards at h
  rcases hload : loadAccount E System.stakingPoolAddress s with e | (_ | pool)
  · simp [hload] at h
  · simp [hload] at h
  rw [hload] at h
  dsimp only at h
  rw [Option.ite_none_left_eq_some, Option.some.injEq, Prod.mk.injEq] at h
  obtain ⟨-, rfl, rfl⟩ := h
  have hle : umin ((readConfigU128 (ascii "__config_epoch_reward__") s).getD
      defaultEpochReward) pool.balance ≤ pool.balance := by
    rw [BitVec.le_def, toNat_umin]
    exact Nat.min_le_right _ _
  generalize umin _ pool.balance = reward at hle ⊢
  refine ⟨?_, pool, rfl, hle⟩
  have htotal := toNat_foldl_add (f := fun v : StakingValidator => v.totalStake)
    (sum_eligible_le hc (BitVec.ofNat 64 (height / 100)))
  rw [creditedTotal_flatMap]
  refine Nat.le_trans (List.sum_le_sum fun v hv => ?_)
    (sum_share_le (f := fun v : StakingValidator => v.totalStake) (Nat.le_of_eq htotal.symm))
  exact validatorCredits_le hc (List.filter_sublist.subset hv) _ _

/-! ## The store after it -/

/-- What the credits add up to for one account. -/
def creditedTo (credits : List RewardCredit) (id : AccountId) : Nat :=
  creditedTotal (credits.filter (·.account = id))

theorem creditedTo_cons (c : RewardCredit) (credits : List RewardCredit) (id : AccountId) :
    creditedTo (c :: credits) id =
      (if c.account = id then c.amount.toNat else 0) + creditedTo credits id := by
  unfold creditedTo creditedTotal
  by_cases h : c.account = id
  · rw [List.filter_cons_of_pos (by simpa using h), if_pos h, List.map_cons, List.sum_cons]
  · rw [List.filter_cons_of_neg (by simpa using h), if_neg h, Nat.zero_add]

theorem sum_creditedTo_le (credits : List RewardCredit) (ids : Finset AccountId) :
    ∑ id ∈ ids, creditedTo credits id ≤ creditedTotal credits := by
  induction credits with
  | nil => exact (Finset.sum_eq_zero fun _ _ => rfl).le
  | cons c credits ih =>
    simp only [creditedTo_cons, Finset.sum_add_distrib, Finset.sum_ite_eq]
    refine Nat.add_le_add ?_ ih
    split
    · exact Nat.le_refl _
    · exact Nat.zero_le _

/-- The account after a credit that stops at the largest balance. -/
def Account.credited (a : Account) (n : Nat) : Account :=
  { a with balance := BitVec.ofNat 128 (min (a.balance.toNat + n) (2 ^ 128 - 1)) }

theorem Account.toNat_credited (a : Account) (n : Nat) :
    (a.credited n).balance.toNat = min (a.balance.toNat + n) (2 ^ 128 - 1) := by
  rw [Account.credited, BitVec.toNat_ofNat, Nat.mod_eq_of_lt (by omega)]

theorem Account.credited_zero (a : Account) : a.credited 0 = a := by
  have h := a.balance.isLt
  have hbalance : (a.credited 0).balance = a.balance :=
    BitVec.eq_of_toNat_eq (by rw [Account.toNat_credited]; omega)
  exact congrArg (fun b => { a with balance := b }) hbalance

theorem Account.credited_credited (a : Account) (n m : Nat) :
    (a.credited n).credited m = a.credited (n + m) := by
  have hbalance : ((a.credited n).credited m).balance = (a.credited (n + m)).balance :=
    BitVec.eq_of_toNat_eq (by simp only [Account.toNat_credited]; omega)
  exact congrArg (fun b => { a with balance := b }) hbalance

theorem Account.credited_toNat (a : Account) (amount : U128) :
    a.credited amount.toNat = { a with balance := satAdd a.balance amount } := by
  have hbalance : (a.credited amount.toNat).balance = satAdd a.balance amount :=
    BitVec.eq_of_toNat_eq (by rw [Account.toNat_credited, toNat_satAdd])
  exact congrArg (fun b => { a with balance := b }) hbalance

/-- An edit of the record under an account's key, where there is one. -/
theorem account?_edit (s : σ) (id id' : AccountId) (f : Account → Account) :
    account? E (entries (match loadAccount E id s with
      | .ok (some a) => StateStore.put s (accountKey id) (E.account.toVec (f a))
      | _ => s)) id' =
    (account? E (entries s) id').map fun a => if id = id' then f a else a := by
  by_cases hid : id = id'
  · subst hid
    simp only [if_true]
    cases hacct : account? E (entries s) id with
    | none =>
      split
      · next a hload => exact nomatch hacct.symm.trans (account?_of_loadAccount hload)
      · exact hacct
    | some a =>
      rw [loadAccount_of_account? hacct, account?, StateStore.entries_put, Delta.getElem?_insert,
        if_pos rfl]
      exact E.account.fromSlice_toVec _
  · simp only [if_neg hid, Option.map_id']
    split
    · rw [account?, StateStore.entries_put, Delta.getElem?_insert,
        if_neg fun h => hid (accountKey_inj.mp h)]
      rfl
    · rfl

theorem account?_creditAll (credits : List RewardCredit) (s : σ) (id : AccountId) :
    account? E (entries
        (credits.foldl (fun s c => creditAccountRaw E c.account c.amount s) s)) id =
      (account? E (entries s) id).map (·.credited (creditedTo credits id)) := by
  induction credits generalizing s with
  | nil =>
    have hsame : (fun a : Account => a.credited (creditedTo [] id)) = fun a => a :=
      funext fun a => a.credited_zero
    rw [List.foldl_nil, hsame, Option.map_id']
  | cons c credits ih =>
    rw [List.foldl_cons, ih]
    refine (congrArg _ (account?_edit s c.account id _)).trans ?_
    rw [Option.map_map, creditedTo_cons]
    refine congrArg (Option.map · _) (funext fun a => ?_)
    dsimp only [Function.comp]
    split
    · rw [← Account.credited_toNat, Account.credited_credited]
    · rw [Nat.zero_add]

/-- What a distribution does to an account: the pool pays the debit, and everyone
gets their credits. -/
def Account.rewarded (debit : U128) (credits : List RewardCredit) (id : AccountId)
    (a : Account) : Account :=
  (if System.stakingPoolAddress = id then { a with balance := satSub a.balance debit }
    else a).credited (creditedTo credits id)

theorem account?_distribute (debit : U128) (credits : List RewardCredit) (s : σ)
    (id : AccountId) :
    account? E (entries
        (credits.foldl (fun s c => creditAccountRaw E c.account c.amount s)
          (takeFromPool E debit s))) id =
      (account? E (entries s) id).map (Account.rewarded debit credits id) := by
  rw [account?_creditAll]
  refine (congrArg _ (account?_edit s System.stakingPoolAddress id _)).trans ?_
  rw [Option.map_map]
  rfl

/-- Accounts that include the pool hold together no more than before. -/
theorem sum_rewarded_le {m m' : Store} {debit : U128} {credits : List RewardCredit}
    (hsum : creditedTotal credits ≤ debit.toNat)
    (hpool : debit.toNat ≤ balanceIn E m System.stakingPoolAddress)
    (hafter : ∀ id, account? E m' id = (account? E m id).map (Account.rewarded debit credits id))
    {ids : Finset AccountId} (hids : System.stakingPoolAddress ∈ ids) :
    ∑ id ∈ ids, balanceIn E m' id ≤ ∑ id ∈ ids, balanceIn E m id := by
  have hone : ∀ id, balanceIn E m' id +
      (if System.stakingPoolAddress = id then debit.toNat else 0) ≤
        balanceIn E m id + creditedTo credits id := by
    intro id
    unfold balanceIn at hpool ⊢
    rw [hafter]
    cases hacct : account? E m id with
    | none =>
      split
      · next hid =>
        rw [hid, hacct] at hpool
        exact (show 0 + debit.toNat ≤ 0 by simpa using hpool).trans (Nat.zero_le _)
      · exact Nat.zero_le _
    | some a =>
      simp only [Option.map_some, Option.getD_some, Account.rewarded, Account.toNat_credited]
      split
      · next hid =>
        rw [hid, hacct, Option.map_some, Option.getD_some] at hpool
        rw [toNat_satSub]
        omega
      · omega
  have hall := Finset.sum_le_sum fun id (_ : id ∈ ids) => hone id
  rw [Finset.sum_add_distrib, Finset.sum_add_distrib, Finset.sum_ite_eq, if_pos hids] at hall
  have hcredits := sum_creditedTo_le credits ids
  omega

end

/-- The rewards of an epoch boundary are funded. The credits the receipt reports
are at most the debit, which is at most what the pool has. The store afterwards
is the one before with exactly these applied, so that no set of accounts with
the pool among them gains anything. -/
theorem distributeEpochRewards_funded {σ : Type} [StateStore σ] (E : Platform) (height : Nat)
    (s : σ) (hc : RewardSound (loadStaking E s)) :
    ∃ (debit : U128) (credits : List RewardCredit),
      creditedTotal credits ≤ debit.toNat ∧
      debit.toNat ≤ balanceIn E (entries s) System.stakingPoolAddress ∧
      (distributeEpochRewards E height s).1.flatMap (·.events) =
        credits.map RewardCredit.event ∧
      (∀ id, account? E (entries (distributeEpochRewards E height s).2) id =
        (account? E (entries s) id).map (Account.rewarded debit credits id)) ∧
      ∀ ids : Finset AccountId, System.stakingPoolAddress ∈ ids →
        ∑ id ∈ ids, balanceIn E (entries (distributeEpochRewards E height s).2) id ≤
          ∑ id ∈ ids, balanceIn E (entries s) id := by
  unfold distributeEpochRewards
  cases hrewards : epochRewards E height s with
  | none =>
    refine ⟨0#128, [], Nat.le_refl _, Nat.zero_le _, rfl, fun id => ?_, fun ids _ => Nat.le_refl _⟩
    have hid : Account.rewarded 0#128 [] id = fun a => a := by
      funext a
      have hsub : satSub a.balance 0#128 = a.balance :=
        BitVec.eq_of_toNat_eq (by rw [toNat_satSub]; rfl)
      rw [Account.rewarded, hsub, ite_self]
      exact a.credited_zero
    rw [hid, Option.map_id']
  | some rewards =>
    obtain ⟨debit, credits⟩ := rewards
    obtain ⟨hsum, pool, hload, hle⟩ := epochRewards_le hc hrewards
    have hpool : debit.toNat ≤ balanceIn E (entries s) System.stakingPoolAddress := by
      rw [balanceIn, account?_of_loadAccount hload]
      exact hle
    have hafter := account?_distribute (E := E) debit credits s
    refine ⟨debit, credits, hsum, hpool, ?_, hafter, fun ids hids =>
      sum_rewarded_le hsum hpool hafter hids⟩
    by_cases hnil : credits = []
    · simp [hnil]
    · simp [hnil]

/-- `bob` with a stake of 60 and a commission of one tenth, to whom `alice` has
delegated 40; and a second validator with 100, who has no account. -/
def rewardedRecord : StakingContract where
  validators :=
    [⟨bob, 60#128, 40#128, 0#128, true, false, 0#64, 1000#64, 0#64, none, 0#64⟩,
      ⟨System.addr 0x41, 100#128, 0#128, 0#128, true, false, 0#64, 0#64, 0#64, none, 0#64⟩]
  delegations := [⟨alice, bob, 40#128, 0#128, 0#64⟩]

/-- A pool of 5000, of which 1001 are to be paid. -/
def poolStore : Store :=
  StateStore.put (saveRecord concretePlatform.staking StakingContract.storageKey rewardedRecord
    (accountStore concretePlatform [keyAccount System.stakingPoolAddress 5000#128,
      keyAccount alice 7#128, keyAccount bob 0#128]))
    (ascii "__config_epoch_reward__") (le128 1001#128)

/-- Of 1001 the two validators get 500 each. Of the first 500, 200 are for the
delegation of `alice`, less 20. What the missing account was to get is lost. -/
theorem distributeEpochRewards_funded_poolStore :
    let after := (distributeEpochRewards concretePlatform 100 poolStore).2
    balanceIn concretePlatform (entries after) System.stakingPoolAddress = 3999 ∧
      balanceIn concretePlatform (entries after) bob = 320 ∧
      balanceIn concretePlatform (entries after) alice = 187 ∧
      ∑ id ∈ {System.stakingPoolAddress, alice, bob},
          balanceIn concretePlatform (entries after) id ≤
        ∑ id ∈ {System.stakingPoolAddress, alice, bob},
          balanceIn concretePlatform (entries poolStore) id := by
  have hload : loadStaking concretePlatform poolStore = rewardedRecord := by decide +kernel
  have hsound : RewardSound (loadStaking concretePlatform poolStore) := by
    rw [hload]
    exact ⟨by decide, by decide, by decide⟩
  obtain ⟨debit, credits, -, -, -, -, hsum⟩ :=
    distributeEpochRewards_funded concretePlatform 100 poolStore hsound
  exact ⟨by decide +kernel, by decide +kernel, by decide +kernel,
    hsum _ (Finset.mem_insert_self _ _)⟩

end Solen
