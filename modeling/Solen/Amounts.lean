import Solen.Concrete

/-!
# Amounts of system calls

Four calls take an amount from the caller and add it to a contract's
record: `register`, `delegate`, `deposit` and `bridge_to_base`. The
check before the debit compares the balance with the amount plus a fee
reserve, and that sum wraps: an amount within the reserve of `2 ^ 128`
passes it with a small balance. This file says for each of the four
calls exactly when the balance goes down by what the record goes up.
-/

namespace Solen

open Machine Prog
open StateStore (entries)

/-! ## The calls and what they record -/

inductive AmountCall where
  | register
  | delegate
  | deposit
  | bridgeToBase
deriving DecidableEq

namespace AmountCall

def target : AmountCall → AccountId
  | register => System.stakingAddress
  | delegate => System.stakingAddress
  | deposit => System.bridgeAddress
  | bridgeToBase => System.bridgeAddress

def method : AmountCall → String
  | register => "register"
  | delegate => "delegate"
  | deposit => "deposit"
  | bridgeToBase => "bridge_to_base"

/-- The amount in the arguments of the call. -/
def amount? (args : Bytes) : AmountCall → Option U128
  | register => readU128 args 0
  | delegate => readU128 args 32
  | deposit => readU128 args 8
  | bridgeToBase => readU128 args 20

end AmountCall

section

variable {σ : Type} [StateStore σ] (E : Platform)

/-- An account that does not exist has nothing. -/
def balanceOf (id : AccountId) (s : σ) : Nat :=
  ((account? E (entries s) id).map (·.balance.toNat)).getD 0

namespace AmountCall

/-- The entries of the records that a call adds its amount to. -/
def counters (sender : AccountId) (args : Bytes) (s : σ) : AmountCall → List Nat
  | register =>
      [(((loadStaking E s).validators.find? (·.id == sender)).map (·.selfStake.toNat)).getD 0]
  | delegate =>
      let validator := (readAccountId args 0).getD Hash.zero
      [(((loadStaking E s).delegations.find?
          (StakingContract.isDelegation sender validator)).map (·.amount.toNat)).getD 0,
        (((loadStaking E s).validators.find? (·.id == validator)).map
          (·.totalDelegated.toNat)).getD 0]
  | deposit =>
      let rollupId := (readU64 args 0).getD 0#64
      [(((loadBridge E s).getVault rollupId).map (·.balance.toNat)).getD 0,
        (((loadBridge E s).getVault rollupId).map (·.totalDeposited.toNat)).getD 0]
  | bridgeToBase => [balanceOf E System.bridgeAddress s]

/-- The arguments pass the checks made before the debit. -/
def Admits (args : Bytes) (amount : U128) (s : σ) : AmountCall → Prop
  | register => ¬ amount < (readConfigU128 minValidatorStakeKey s).getD minValidatorStake
  | delegate => (readAccountId args 0).isSome = true
  | deposit => (readU64 args 0).isSome = true
  | bridgeToBase => 36 ≤ args.length ∧ amount ≠ 0#128

/-- The record accepts the change made after the debit. -/
def Records (sender : AccountId) (args : Bytes) (s : σ) : AmountCall → Prop
  | register => (loadStaking E s).validators.find? (·.id == sender) = none
  | delegate => ((loadStaking E s).validators.find?
      (·.id == (readAccountId args 0).getD Hash.zero)).isSome = true
  | deposit => ((loadBridge E s).getVault ((readU64 args 0).getD 0#64)).isSome = true
  | bridgeToBase => True

end AmountCall

/-- All accounts have the balances they had. -/
def SameBalances (s s' : σ) : Prop :=
  ∀ id, (account? E (entries s') id).map (·.balance) =
    (account? E (entries s) id).map (·.balance)

/-- All contract records are what they were. -/
structure SameRecords (s s' : σ) : Prop where
  staking : loadStaking E s' = loadStaking E s
  governance : loadGovernance E s' = loadGovernance E s
  bridge : loadBridge E s' = loadBridge E s
  treasury : loadTreasury E s' = loadTreasury E s
  vesting : loadVesting E s' = loadVesting E s
  guardian : loadGuardian E s' = loadGuardian E s

/-- The call either fails and changes no balance and no record, or takes
from the sender exactly the amount that it adds to the record. -/
def AmountExact (call : AmountCall) (sender : AccountId) (args : Bytes) (s : σ) : Prop :=
  let (r, s') := executeSystemCall E s sender call.target call.method args
  (r.error.isSome = true ∧ SameBalances E s s' ∧ SameRecords E s s') ∨
    (r.error = none ∧ ∃ amount, call.amount? args = some amount ∧
      balanceOf E sender s' + amount.toNat = balanceOf E sender s ∧
      call.counters E sender args s' =
        (call.counters E sender args s).map (· + amount.toNat))

/-- When that is so: whoever passes the check of the balance really has the
amount, and no counter reaches `2 ^ 128`. A deposit also goes ahead for a
sender without an account, and the bridge can be asked to pay itself. -/
def AmountSafe (call : AmountCall) (sender : AccountId) (args : Bytes) (s : σ) : Prop :=
  ∀ amount, call.amount? args = some amount → call.Admits args amount s →
    match account? E (entries s) sender with
    | none => call = .deposit → call.Records E sender args s → amount = 0#128
    | some a => ¬ a.balance < amount + minFeeReserve →
        amount ≤ a.balance ∧
          (call.Records E sender args s →
            (∀ n ∈ call.counters E sender args s, n + amount.toNat < 2 ^ 128) ∧
              (call = .bridgeToBase → sender ≠ System.bridgeAddress))

end

/-! ## What is left alone -/

section

variable {σ : Type} [StateStore σ] {E : Platform}

theorem SameBalances.refl (s : σ) : SameBalances E s s := fun _ => rfl

theorem SameRecords.refl (s : σ) : SameRecords E s s := ⟨rfl, rfl, rfl, rfl, rfl, rfl⟩

theorem SameRecords.putAccount {s s' : σ} (h : SameRecords E s s') (a : Account) :
    SameRecords E s (putAccount E a s') where
  staking := (loadRecord_putAccount _ (by decide) _ a s').trans h.staking
  governance := (loadRecord_putAccount _ (by decide) _ a s').trans h.governance
  bridge := (loadRecord_putAccount _ (by decide) _ a s').trans h.bridge
  treasury := (loadRecord_putAccount _ (by decide) _ a s').trans h.treasury
  vesting := (loadRecord_putAccount _ (by decide) _ a s').trans h.vesting
  guardian := (loadRecord_putAccount _ (by decide) _ a s').trans h.guardian

/-- Saving the staking record that was loaded changes nothing. -/
theorem SameRecords.resaveStaking {s s' : σ} (h : SameRecords E s s') :
    SameRecords E s (saveRecord E.staking StakingContract.storageKey (loadStaking E s) s') where
  staking := loadRecord_saveRecord _ _ _ _ s'
  governance := (loadRecord_put_of_ne _ _ s' _ (by decide)).trans h.governance
  bridge := (loadRecord_put_of_ne _ _ s' _ (by decide)).trans h.bridge
  treasury := (loadRecord_put_of_ne _ _ s' _ (by decide)).trans h.treasury
  vesting := (loadRecord_put_of_ne _ _ s' _ (by decide)).trans h.vesting
  guardian := (loadRecord_put_of_ne _ _ s' _ (by decide)).trans h.guardian

theorem SameRecords.resaveBridge {s s' : σ} (h : SameRecords E s s') :
    SameRecords E s (saveRecord E.bridge BridgeContract.storageKey (loadBridge E s) s') where
  staking := (loadRecord_put_of_ne _ _ s' _ (by decide)).trans h.staking
  governance := (loadRecord_put_of_ne _ _ s' _ (by decide)).trans h.governance
  bridge := loadRecord_saveRecord _ _ _ _ s'
  treasury := (loadRecord_put_of_ne _ _ s' _ (by decide)).trans h.treasury
  vesting := (loadRecord_put_of_ne _ _ s' _ (by decide)).trans h.vesting
  guardian := (loadRecord_put_of_ne _ _ s' _ (by decide)).trans h.guardian

/-! ## Debit and refund -/

theorem run_debitWithReserve_none {s : σ} {sender : AccountId} (amount : U128) (msg : String)
    (hwf : WellFormed E (entries s))
    (h : account? E (entries s) sender = none) :
    ∃ msg', (debitWithReserve E sender amount msg).run s = (.error (err msg'), s) := by
  refine ⟨(StateError.accountNotFound (hexEncode sender.bytes)).message, ?_⟩
  rw [debitWithReserve, run_bind_error]
  rw [run_mapError, requireAccount, run_bind, run_getAccount, hwf.loadAccount_eq, h]
  rfl

theorem run_debitWithReserve_some {s : σ} {sender : AccountId} {a : Account} (amount : U128)
    (msg : String) (hwf : WellFormed E (entries s))
    (h : account? E (entries s) sender = some a) :
    (debitWithReserve E sender amount msg).run s =
      if a.balance < amount + minFeeReserve then (.error (err msg), s)
      else (.ok (), putAccount E { a with balance := a.balance - amount } s) := by
  have hload : loadAccount E sender s = .ok (some a) := by rw [hwf.loadAccount_eq, h]
  rw [debitWithReserve, run_bind, run_mapError, run_requireAccount_of_some hload]
  change (stopIf _ _ >>= _).run s = _
  split
  · next hlt => rw [run_bind_error (run_stopIf_pos hlt)]
  · next hlt =>
      rw [run_bind_ok (run_stopIf_neg hlt)]
      rfl

theorem run_creditExisting_some {ε : Type} {s : σ} {id : AccountId} {amount : U128}
    {a : Account} (hwf : WellFormed E (entries s))
    (h : account? E (entries s) id = some a) :
    (creditExisting E id amount : Prog σ ε Unit).run s =
      (.ok (), putAccount E { a with balance := satAdd a.balance amount } s) := by
  refine run_creditExisting ?_
  rw [hwf.loadAccount_eq, h]

/-- What is taken is not more than what is there exactly if adding it back
gives the old balance; a debit that wrapped would be refunded to the
largest value. -/
theorem satAdd_sub_self_iff (b amount : U128) :
    satAdd (b - amount) amount = b ↔ amount ≤ b := by
  have hb := b.isLt
  have ha := amount.isLt
  rw [← BitVec.toNat_inj, toNat_satAdd, BitVec.toNat_sub, BitVec.le_def]
  omega

theorem toNat_sub_add_self_iff (b amount : U128) :
    (b - amount).toNat + amount.toNat = b.toNat ↔ amount ≤ b := by
  have hb := b.isLt
  have ha := amount.isLt
  rw [BitVec.toNat_sub, BitVec.le_def]
  omega

/-! ## Outcomes -/

/-- The store after a debit that the record refused. -/
def refunded (E : Platform) (a : Account) (amount : U128) (s : σ) : σ :=
  putAccount E { a with balance := satAdd (a.balance - amount) amount }
    (putAccount E { a with balance := a.balance - amount } s)

theorem sameBalances_saveRecord_iff {α : Type} (codec : Serde α) {key : Bytes}
    (hk : NotAccountKey key) (r : α) (s s' : σ) :
    SameBalances E s (saveRecord codec key r s') ↔ SameBalances E s s' := by
  simp only [SameBalances, account?_saveRecord codec hk]

theorem sameBalances_refunded_iff {s : σ} {sender : AccountId} {a : Account} {amount : U128}
    (hid : a.id = sender) (h : account? E (entries s) sender = some a) :
    SameBalances E s (refunded E a amount s) ↔ amount ≤ a.balance := by
  rw [← satAdd_sub_self_iff]
  constructor
  · intro hsame
    have hs := hsame sender
    rw [refunded, account?_putAccount, if_pos hid, h] at hs
    exact Option.some.inj hs
  · intro hsat id
    rw [refunded, account?_putAccount, account?_putAccount]
    by_cases hid' : a.id = id
    · rw [if_pos hid', ← hid', hid, h, hsat]
      rfl
    · rw [if_neg hid', if_neg hid']

theorem sameRecords_refunded (a : Account) (amount : U128) (s : σ) :
    SameRecords E s (refunded E a amount s) :=
  ((SameRecords.refl s).putAccount _).putAccount _

theorem balanceOf_debited {α : Type} (codec : Serde α) {key : Bytes} (hk : NotAccountKey key)
    (r : α) {s : σ} {sender : AccountId} {a : Account} {amount : U128} (hid : a.id = sender) :
    balanceOf E sender (saveRecord codec key r
      (putAccount E { a with balance := a.balance - amount } s)) =
        (a.balance - amount).toNat := by
  rw [balanceOf, account?_saveRecord codec hk, account?_putAccount, if_pos hid]
  rfl

variable {call : AmountCall} {sender : AccountId} {args : Bytes} {s : σ}

/-- A call that stops early leaves the store as it was. -/
theorem amountExact_of_early {msg : String}
    (h : executeSystemCall E s sender call.target call.method args = (err msg, s)) :
    AmountExact E call sender args s := by
  rw [AmountExact, h]
  exact .inl ⟨rfl, SameBalances.refl s, SameRecords.refl s⟩

theorem amountExact_failed_iff {r : SystemCallResult} {s' : σ}
    (h : executeSystemCall E s sender call.target call.method args = (r, s'))
    (hr : r.error.isSome = true) :
    AmountExact E call sender args s ↔ SameBalances E s s' ∧ SameRecords E s s' := by
  rw [AmountExact, h]
  constructor
  · rintro (⟨-, hsame⟩ | ⟨hnone, -⟩)
    · exact hsame
    · rw [hnone] at hr
      cases hr
  · intro hsame
    exact .inl ⟨hr, hsame⟩

theorem amountExact_succeeded_iff {r : SystemCallResult} {s' : σ} {amount : U128}
    (h : executeSystemCall E s sender call.target call.method args = (r, s'))
    (hr : r.error = none) (ha : call.amount? args = some amount) :
    AmountExact E call sender args s ↔
      balanceOf E sender s' + amount.toNat = balanceOf E sender s ∧
        call.counters E sender args s' =
          (call.counters E sender args s).map (· + amount.toNat) := by
  rw [AmountExact, h]
  constructor
  · rintro (⟨hsome, -⟩ | ⟨-, amount', ha', hex⟩)
    · rw [hr] at hsome
      cases hsome
    · rw [ha] at ha'
      cases ha'
      exact hex
  · intro hex
    exact .inr ⟨hr, amount, ha, hex⟩

/-! ## Staking calls -/

theorem executeSystemCall_staking (method : String) :
    executeSystemCall E s sender System.stakingAddress method args =
      runSystemCall (executeStakingCall E sender method args) s := by
  simp only [executeSystemCall, systemCall, if_true]

omit [StateStore σ] in
theorem runSystemCall_of_error {m : SysM σ SystemCallResult} {r : SystemCallResult} {s s' : σ}
    (h : m.run s = (.error r, s')) : runSystemCall m s = (r, s') := by
  rw [runSystemCall, h]

theorem executeStakingCall_of_error {method : String} {r : SystemCallResult} {s' : σ}
    (h : (stakingMethod E sender method args).run s = (.error r, s')) :
    runSystemCall (executeStakingCall E sender method args) s = (r, s') := by
  refine runSystemCall_of_error ?_
  rw [executeStakingCall, run_bind_error h]

theorem executeStakingCall_of_ok {method : String} {o : CallOutcome StakingContract} {s' : σ}
    (h : (stakingMethod E sender method args).run s = (.ok o, s')) :
    runSystemCall (executeStakingCall E sender method args) s =
      (o.toResult, saveRecord E.staking StakingContract.storageKey o.record s') := by
  rw [runSystemCall, executeStakingCall, run_bind_ok h]
  rfl

theorem amountExact_stake_of_error {msg : String} (htarget : call.target = System.stakingAddress)
    (h : (stakingMethod E sender call.method args).run s = (.error (err msg), s)) :
    AmountExact E call sender args s := by
  have hexec : executeSystemCall E s sender call.target call.method args = (err msg, s) := by
    rw [htarget, executeSystemCall_staking, executeStakingCall_of_error h]
  exact amountExact_of_early hexec

/-- The part `register` and `delegate` share, from the debit on. -/
def stakeAmount (E : Platform) (sender : AccountId) (amount : U128) (msg : String)
    (event : Event) (change : StakingContract → U64 → Except StakingError StakingContract) :
    SysM σ (CallOutcome StakingContract) := do
  debitWithReserve E sender amount msg
  let staking ← reads (loadStaking E)
  let currentEpoch ← reads readCurrentEpoch
  recordStake E sender amount event staking (change staking currentEpoch)

section

variable {amount : U128} {msg : String} {event : Event}
  {change : StakingContract → U64 → Except StakingError StakingContract} {a : Account}

theorem stakeAmount_run (hwf : WellFormed E (entries s))
    (hacct : account? E (entries s) sender = some a)
    (hpass : ¬ a.balance < amount + minFeeReserve) :
    (stakeAmount E sender amount msg event change).run s =
      (recordStake E sender amount event (loadStaking E s)
        (change (loadStaking E s) (readCurrentEpoch
          (putAccount E { a with balance := a.balance - amount } s)))).run
        (putAccount E { a with balance := a.balance - amount } s) := by
  have hdebit := run_debitWithReserve_some amount msg hwf hacct
  rw [if_neg hpass] at hdebit
  have hload : loadStaking E (putAccount E { a with balance := a.balance - amount } s) =
      loadStaking E s := ((SameRecords.refl s).putAccount _).staking
  rw [stakeAmount, run_bind_ok hdebit, run_reads_bind, run_reads_bind,
    hload]

theorem recordStake_error_run (hwf : WellFormed E (entries s))
    (hacct : account? E (entries s) sender = some a) (staking : StakingContract)
    (e : StakingError) :
    (recordStake E sender amount event staking (.error e)).run
        (putAccount E { a with balance := a.balance - amount } s) =
      (.ok ⟨staking, [], .error e.message⟩, refunded E a amount s) := by
  have hid : a.id = sender := hwf.id_eq hacct
  have hacct' : account? E (entries
      (putAccount E { a with balance := a.balance - amount } s)) sender =
        some { a with balance := a.balance - amount } := by
    rw [account?_putAccount, if_pos hid]
  rw [recordStake, run_bind_ok (run_creditExisting_some (hwf.putAccount _) hacct')]
  rfl

/-- A staking call is exact if whoever passes the check has the amount and
the record goes up by it. -/
theorem amountExact_stake_iff (htarget : call.target = System.stakingAddress)
    (hrun : (stakingMethod E sender call.method args).run s =
      (stakeAmount E sender amount msg event change).run s)
    (hamount : call.amount? args = some amount) (hwf : WellFormed E (entries s))
    (hacct : account? E (entries s) sender = some a) :
    AmountExact E call sender args s ↔
      (¬ a.balance < amount + minFeeReserve → amount ≤ a.balance ∧
        ∀ staking', change (loadStaking E s) (readCurrentEpoch
            (putAccount E { a with balance := a.balance - amount } s)) = .ok staking' →
          call.counters E sender args (saveRecord E.staking StakingContract.storageKey staking'
              (putAccount E { a with balance := a.balance - amount } s)) =
            (call.counters E sender args s).map (· + amount.toNat)) := by
  have hid : a.id = sender := hwf.id_eq hacct
  have hexec : executeSystemCall E s sender call.target call.method args =
      runSystemCall (executeStakingCall E sender call.method args) s := by
    rw [htarget, executeSystemCall_staking]
  by_cases hlow : a.balance < amount + minFeeReserve
  · have hearly : (stakingMethod E sender call.method args).run s = (.error (err msg), s) := by
      rw [hrun, stakeAmount, run_bind_error]
      rw [run_debitWithReserve_some amount msg hwf hacct, if_pos hlow]
    have hexact := amountExact_stake_of_error htarget hearly
    simp only [hexact, hlow, not_true_eq_false, false_implies]
  · rw [stakeAmount_run hwf hacct hlow] at hrun
    simp only [hlow, not_false_eq_true, forall_true_left]
    cases hchange : change (loadStaking E s) (readCurrentEpoch
        (putAccount E { a with balance := a.balance - amount } s)) with
    | error e =>
      rw [hchange, recordStake_error_run hwf hacct] at hrun
      rw [amountExact_failed_iff (hexec.trans (executeStakingCall_of_ok hrun)) rfl]
      rw [sameBalances_saveRecord_iff _ (by decide), sameBalances_refunded_iff hid hacct]
      have hrecords := (sameRecords_refunded a amount s).resaveStaking (E := E)
      simp [hrecords]
    | ok staking' =>
      rw [hchange] at hrun
      rw [amountExact_succeeded_iff (hexec.trans (executeStakingCall_of_ok hrun)) rfl hamount]
      rw [balanceOf_debited _ (by decide) _ hid, balanceOf, hacct, Option.map_some,
        Option.getD_some, toNat_sub_add_self_iff]
      simp

/-- Without an account there is nothing to debit. -/
theorem amountExact_stake_of_none (htarget : call.target = System.stakingAddress)
    (hrun : (stakingMethod E sender call.method args).run s =
      (stakeAmount E sender amount msg event change).run s)
    (hwf : WellFormed E (entries s))
    (hacct : account? E (entries s) sender = none) :
    AmountExact E call sender args s := by
  obtain ⟨msg', hdebit⟩ := run_debitWithReserve_none amount msg hwf hacct
  have hearly : (stakingMethod E sender call.method args).run s = (.error (err msg'), s) := by
    rw [hrun, stakeAmount, run_bind_error hdebit]
  exact amountExact_stake_of_error htarget hearly

/-! ### The condition, once the arguments are read -/

theorem amountSafe_of_not_amount (h : call.amount? args = none) :
    AmountSafe E call sender args s := by
  intro amount ha
  rw [h] at ha
  cases ha

theorem amountSafe_of_not_admits (hamount : call.amount? args = some amount)
    (h : ¬ call.Admits args amount s) : AmountSafe E call sender args s := by
  intro amount' ha hadm
  rw [hamount] at ha
  cases ha
  exact absurd hadm h

theorem amountSafe_iff (hamount : call.amount? args = some amount)
    (hadm : call.Admits args amount s)
    (hacct : account? E (entries s) sender = some a) :
    AmountSafe E call sender args s ↔
      (¬ a.balance < amount + minFeeReserve → amount ≤ a.balance ∧
        (call.Records E sender args s →
          (∀ n ∈ call.counters E sender args s, n + amount.toNat < 2 ^ 128) ∧
            (call = .bridgeToBase → sender ≠ System.bridgeAddress))) := by
  constructor
  · intro h
    have hbody := h amount hamount hadm
    rwa [hacct] at hbody
  · intro h amount' ha _
    rw [hamount] at ha
    cases ha
    rw [hacct]
    exact h

theorem amountSafe_of_none (hcall : call ≠ .deposit)
    (hacct : account? E (entries s) sender = none) :
    AmountSafe E call sender args s := by
  intro amount _ _
  rw [hacct]
  exact fun hdep => absurd hdep hcall

/-! ### Registration -/

variable (E s sender) in
theorem stakingMethod_register_run (ha : readU128 args 0 = some amount)
    (hmin : ¬ amount < (readConfigU128 minValidatorStakeKey s).getD minValidatorStake) :
    (stakingMethod E sender AmountCall.register.method args).run s =
      (stakeAmount E sender amount "insufficient balance for registration (need fee reserve)"
        (stakingEvent "validator_registered" (sender.bytes ++ le128 amount))
        (fun staking epoch => staking.registerValidatorAtEpochWithConfig sender amount epoch
          ((readConfigU128 minValidatorStakeKey s).getD minValidatorStake))).run s := by
  change (stakingRegister E sender args).run s = _
  rw [stakingRegister, ha]
  refine (run_bind_ok rfl).trans ?_
  refine (run_bind_ok (run_reads _ _)).trans ?_
  exact run_bind_ok (run_stopIf_neg hmin)

variable (E s sender) in
theorem stakingRegister_low (ha : readU128 args 0 = some amount)
    (hmin : amount < (readConfigU128 minValidatorStakeKey s).getD minValidatorStake) :
    (stakingMethod E sender AmountCall.register.method args).run s =
      (.error (err (s!"insufficient stake: need {((readConfigU128 minValidatorStakeKey s).getD minValidatorStake).toNat} but got {amount.toNat}")), s) := by
  change (stakingRegister E sender args).run s = _
  rw [stakingRegister, ha]
  refine (run_bind_ok rfl).trans ?_
  refine (run_bind_ok (run_reads _ _)).trans ?_
  exact run_bind_error (run_stopIf_pos hmin)

/-- A new validator starts from nothing, so its stake is the amount. -/
theorem register_counters {minStake : U128} (hmin : ¬ amount < minStake) {epoch : U64}
    {staking' : StakingContract} (s' : σ)
    (hreg : (loadStaking E s).registerValidatorAtEpochWithConfig sender amount epoch minStake =
      .ok staking') :
    AmountCall.register.counters E sender args
        (saveRecord E.staking StakingContract.storageKey staking' s') =
      (AmountCall.register.counters E sender args s).map (· + amount.toNat) := by
  rw [StakingContract.registerValidatorAtEpochWithConfig, if_neg hmin] at hreg
  split at hreg
  · cases hreg
  · next hany =>
      cases hreg
      have hnone : (loadStaking E s).validators.find? (·.id == sender) = none := by
        simpa using hany
      simp only [AmountCall.counters, loadStaking, loadRecord_saveRecord] at hnone ⊢
      rw [List.find?_append, hnone]
      simp

theorem amountExact_register_iff (hwf : WellFormed E (entries s)) :
    AmountExact E .register sender args s ↔ AmountSafe E .register sender args s := by
  cases ha : readU128 args 0 with
  | none =>
    have hearly : (stakingMethod E sender AmountCall.register.method args).run s =
        (.error (err "invalid args: need amount[16]"), s) := by
      change (stakingRegister E sender args).run s = _
      rw [stakingRegister, ha]
      rfl
    exact iff_of_true (amountExact_stake_of_error rfl hearly) (amountSafe_of_not_amount ha)
  | some amount =>
    by_cases hmin : amount < (readConfigU128 minValidatorStakeKey s).getD minValidatorStake
    · have hearly := stakingRegister_low E sender s ha hmin
      exact iff_of_true (amountExact_stake_of_error rfl hearly)
        (amountSafe_of_not_admits ha (not_not.mpr hmin))
    · have hrun := stakingMethod_register_run E sender s ha hmin
      cases hacct : account? E (entries s) sender with
      | none =>
        exact iff_of_true (amountExact_stake_of_none rfl hrun hwf hacct)
          (amountSafe_of_none (by decide) hacct)
      | some a =>
        have ha' : AmountCall.register.amount? args = some amount := ha
        have hadm : AmountCall.register.Admits args amount s := hmin
        rw [amountExact_stake_iff rfl hrun ha' hwf hacct, amountSafe_iff ha' hadm hacct]
        refine imp_congr_right fun _ => and_congr_right fun _ => ?_
        refine iff_of_true (fun staking' hreg => register_counters hmin _ hreg) ?_
        intro hrec
        refine ⟨fun n hn => ?_, fun h => by cases h⟩
        have hzero : n = 0 := by
          have hrec' : (loadStaking E s).validators.find? (·.id == sender) = none := hrec
          simpa [AmountCall.counters, hrec'] using hn
        have := amount.isLt
        omega

/-! ### Delegation -/

variable (E s sender) in
theorem stakingMethod_delegate_run {validator : AccountId}
    (hv : readAccountId args 0 = some validator) (ha : readU128 args 32 = some amount) :
    (stakingMethod E sender AmountCall.delegate.method args).run s =
      (stakeAmount E sender amount "insufficient balance for delegation (need fee reserve)"
        (stakingEvent "delegate" (validator.bytes ++ le128 amount))
        (fun staking epoch => staking.delegateAtEpoch sender validator amount epoch)).run s := by
  change (stakingDelegate E sender args).run s = _
  rw [stakingDelegate, hv, ha]
  refine (run_bind_ok rfl).trans ?_
  exact run_bind_ok rfl

/-- The delegation itself after an amount was added to it. -/
theorem delegateAtEpoch_delegation {c c' : StakingContract} {validator : AccountId}
    {epoch : U64} (h : c.delegateAtEpoch sender validator amount epoch = .ok c') :
    ((c'.delegations.find? (StakingContract.isDelegation sender validator)).map
        (·.amount.toNat)).getD 0 =
      (satAdd (((c.delegations.find?
        (StakingContract.isDelegation sender validator)).map (·.amount)).getD 0#128)
          amount).toNat := by
  unfold StakingContract.delegateAtEpoch at h
  split at h
  · cases h
  · cases h
    dsimp only
    cases hfind : c.delegations.find? (StakingContract.isDelegation sender validator) with
    | some d =>
      have hany : c.delegations.any (StakingContract.isDelegation sender validator) = true := by
        rw [List.any_eq_true]
        exact ⟨d, List.mem_of_find?_eq_some hfind, List.find?_some hfind⟩
      rw [if_pos hany, List.find?_updateFirst, hfind]
      · rfl
      · exact fun d hd => hd
    | none =>
      have hany : ¬ c.delegations.any
          (StakingContract.isDelegation sender validator) = true := by
        simpa using hfind
      have hzero : satAdd 0#128 amount = amount := by
        apply BitVec.eq_of_toNat_eq
        rw [toNat_satAdd_of_lt (by simpa using amount.isLt)]
        simp
      rw [if_neg hany, List.find?_append, hfind]
      simp [StakingContract.isDelegation, hzero]

theorem delegateAtEpoch_validator {c c' : StakingContract} {validator : AccountId}
    {epoch : U64} (h : c.delegateAtEpoch sender validator amount epoch = .ok c') :
    (c'.validators.find? (·.id == validator)).map (·.totalDelegated) =
      (c.validators.find? (·.id == validator)).map fun v => satAdd v.totalDelegated amount := by
  unfold StakingContract.delegateAtEpoch at h
  split at h
  · cases h
  · cases h
    dsimp only
    rw [List.find?_updateFirst, Option.map_map]
    · rfl
    · exact fun v hv => hv

/-- Both counters of a delegation go up by the amount exactly if neither
saturates. -/
theorem delegate_counters_iff {validator : AccountId} (hv : readAccountId args 0 = some validator)
    (epoch : U64) (s' : σ) :
    (∀ staking', (loadStaking E s).delegateAtEpoch sender validator amount epoch =
        .ok staking' →
      AmountCall.delegate.counters E sender args
          (saveRecord E.staking StakingContract.storageKey staking' s') =
        (AmountCall.delegate.counters E sender args s).map (· + amount.toNat)) ↔
      (AmountCall.delegate.Records E sender args s →
        ∀ n ∈ AmountCall.delegate.counters E sender args s, n + amount.toNat < 2 ^ 128) := by
  cases hfind : (loadStaking E s).validators.find? (·.id == validator) with
  | none =>
    refine iff_of_true (fun staking' hdel => ?_) fun hrec => ?_
    · rw [StakingContract.delegateAtEpoch, hfind] at hdel
      cases hdel
    · simp [AmountCall.Records, hv, hfind] at hrec
  | some val =>
    have hrec : AmountCall.delegate.Records E sender args s := by
      simp [AmountCall.Records, hv, hfind]
    obtain ⟨staking', hdel⟩ : ∃ staking',
        (loadStaking E s).delegateAtEpoch sender validator amount epoch = .ok staking' := by
      rw [StakingContract.delegateAtEpoch, hfind]
      exact ⟨_, rfl⟩
    set d := (((loadStaking E s).delegations.find?
      (StakingContract.isDelegation sender validator)).map (·.amount)).getD 0#128 with hd
    have hbefore : AmountCall.delegate.counters E sender args s =
        [d.toNat, val.totalDelegated.toNat] := by
      simp only [AmountCall.counters, hv, Option.getD_some, hfind, Option.map_some, hd]
      cases (loadStaking E s).delegations.find?
        (StakingContract.isDelegation sender validator) <;> rfl
    have hafter : AmountCall.delegate.counters E sender args
        (saveRecord E.staking StakingContract.storageKey staking' s') =
          [(satAdd d amount).toNat, (satAdd val.totalDelegated amount).toNat] := by
      have hload : loadStaking E (saveRecord E.staking StakingContract.storageKey staking' s') =
          staking' := loadRecord_saveRecord _ _ _ _ s'
      have hval := congrArg (Option.map BitVec.toNat) (delegateAtEpoch_validator hdel)
      rw [Option.map_map, hfind] at hval
      simp only [AmountCall.counters, hv, Option.getD_some, hload,
        delegateAtEpoch_delegation hdel, hd]
      exact congrArg (fun x => [_, x]) (congrArg (Option.getD · 0) hval)
    rw [hbefore]
    constructor
    · intro h _ n hn
      have hlist := h staking' hdel
      rw [hafter] at hlist
      simp only [List.map_cons, List.map_nil, List.cons.injEq, and_true,
        toNat_satAdd_eq_add_iff] at hlist
      rcases List.mem_pair.mp hn with rfl | rfl
      · exact hlist.1
      · exact hlist.2
    · intro h staking'' hdel''
      cases hdel.symm.trans hdel''
      have hfits := h hrec
      rw [hafter]
      simp only [List.map_cons, List.map_nil, List.cons.injEq, and_true,
        toNat_satAdd_eq_add_iff]
      exact ⟨hfits _ (by simp), hfits _ (by simp)⟩

theorem amountExact_delegate_iff (hwf : WellFormed E (entries s)) :
    AmountExact E .delegate sender args s ↔ AmountSafe E .delegate sender args s := by
  cases hv : readAccountId args 0 with
  | none =>
    have hearly : (stakingMethod E sender AmountCall.delegate.method args).run s =
        (.error (err "invalid args: need validator[32] + amount[16]"), s) := by
      change (stakingDelegate E sender args).run s = _
      rw [stakingDelegate, hv]
      rfl
    refine iff_of_true (amountExact_stake_of_error rfl hearly) fun amount _ hadm => ?_
    simp [AmountCall.Admits, hv] at hadm
  | some validator =>
    cases ha : readU128 args 32 with
    | none =>
      have hearly : (stakingMethod E sender AmountCall.delegate.method args).run s =
          (.error (err "invalid args: need amount[16]"), s) := by
        change (stakingDelegate E sender args).run s = _
        rw [stakingDelegate, hv, ha]
        rfl
      exact iff_of_true (amountExact_stake_of_error rfl hearly) (amountSafe_of_not_amount ha)
    | some amount =>
      have hrun := stakingMethod_delegate_run E sender s hv ha
      cases hacct : account? E (entries s) sender with
      | none =>
        exact iff_of_true (amountExact_stake_of_none rfl hrun hwf hacct)
          (amountSafe_of_none (by decide) hacct)
      | some a =>
        have ha' : AmountCall.delegate.amount? args = some amount := ha
        have hadm : AmountCall.delegate.Admits args amount s := by
          simp [AmountCall.Admits, hv]
        rw [amountExact_stake_iff rfl hrun ha' hwf hacct, amountSafe_iff ha' hadm hacct,
          delegate_counters_iff hv]
        simp

/-! ## Bridge calls -/

theorem executeSystemCall_bridge (method : String) :
    executeSystemCall E s sender System.bridgeAddress method args =
      runSystemCall (executeBridgeCall E sender method args) s := by
  have h₁ : System.bridgeAddress ≠ System.stakingAddress := by decide
  have h₂ : System.bridgeAddress ≠ System.governanceAddress := by decide
  simp only [executeSystemCall, systemCall, h₁, h₂, if_false, if_true]

theorem executeBridgeCall_of_ok {method : String} {o : CallOutcome BridgeContract} {s' : σ}
    (h : (bridgeMethod E sender method args).run s = (.ok o, s')) :
    executeSystemCall E s sender System.bridgeAddress method args =
      (o.toResult, saveRecord E.bridge BridgeContract.storageKey o.record s') := by
  rw [executeSystemCall_bridge, runSystemCall, executeBridgeCall, run_bind_ok h]
  rfl

theorem amountExact_bridge_of_error (htarget : call.target = System.bridgeAddress)
    (h : (bridgeMethod E sender call.method args).run s = (.error (err msg), s)) :
    AmountExact E call sender args s := by
  have hexec : executeSystemCall E s sender call.target call.method args = (err msg, s) := by
    rw [htarget, executeSystemCall_bridge]
    refine runSystemCall_of_error ?_
    rw [executeBridgeCall, run_bind_error h]
  exact amountExact_of_early hexec

/-! ### Deposits -/

theorem run_debitIfReadable_none (amount : U128) (msg : String)
    (hwf : WellFormed E (entries s))
    (h : account? E (entries s) sender = none) :
    (debitIfReadable E sender amount msg).run s = (.ok (), s) := by
  rw [debitIfReadable, run_bind, run_attempt, requireAccount, run_bind, run_getAccount,
    hwf.loadAccount_eq, h]
  rfl

theorem run_debitIfReadable_some (amount : U128) (msg : String)
    (hwf : WellFormed E (entries s))
    (h : account? E (entries s) sender = some a) :
    (debitIfReadable E sender amount msg).run s =
      if a.balance < amount + minFeeReserve then (.error (err msg), s)
      else (.ok (), putAccount E { a with balance := a.balance - amount } s) := by
  have hload : loadAccount E sender s = .ok (some a) := by rw [hwf.loadAccount_eq, h]
  rw [debitIfReadable, run_bind, run_attempt, run_requireAccount_of_some hload]
  change (stopIf _ _ >>= _).run s = _
  split
  · next hlt => rw [run_bind_error (run_stopIf_pos hlt)]
  · next hlt =>
      rw [run_bind_ok (run_stopIf_neg hlt)]
      rfl

variable (E s sender) in
theorem bridgeDeposit_run {rollupId : U64} (hid : readU64 args 0 = some rollupId)
    (ha : readU128 args 8 = some amount) :
    (bridgeMethod E sender AmountCall.deposit.method args).run s =
      (do
        debitIfReadable E sender amount "insufficient balance for deposit (need fee reserve)"
        let bridge ← reads (loadBridge E)
        recordDeposit E sender rollupId amount bridge).run s := by
  change (bridgeDeposit E sender args).run s = _
  rw [bridgeDeposit, hid, ha]
  refine (run_bind_ok rfl).trans ?_
  exact run_bind_ok rfl

theorem deposit_counters_iff {rollupId : U64} (hid : readU64 args 0 = some rollupId) (s' : σ) :
    (∀ bridge', (loadBridge E s).deposit rollupId amount = .ok bridge' →
      AmountCall.deposit.counters E sender args
          (saveRecord E.bridge BridgeContract.storageKey bridge' s') =
        (AmountCall.deposit.counters E sender args s).map (· + amount.toNat)) ↔
      (AmountCall.deposit.Records E sender args s →
        ∀ n ∈ AmountCall.deposit.counters E sender args s, n + amount.toNat < 2 ^ 128) := by
  cases hfind : (loadBridge E s).getVault rollupId with
  | none =>
    refine iff_of_true (fun bridge' hdep => ?_) fun hrec => ?_
    · rw [BridgeContract.deposit, hfind] at hdep
      cases hdep
    · simp [AmountCall.Records, hid, hfind] at hrec
  | some v =>
    have hrec : AmountCall.deposit.Records E sender args s := by
      simp [AmountCall.Records, hid, hfind]
    have hbefore : AmountCall.deposit.counters E sender args s =
        [v.balance.toNat, v.totalDeposited.toNat] := by
      simp [AmountCall.counters, hid, hfind]
    have hafter : ∀ bridge', (loadBridge E s).deposit rollupId amount = .ok bridge' →
        AmountCall.deposit.counters E sender args
          (saveRecord E.bridge BridgeContract.storageKey bridge' s') =
            [(v.balance + amount).toNat, (v.totalDeposited + amount).toNat] := by
      intro bridge' hdep
      have hload : loadBridge E (saveRecord E.bridge BridgeContract.storageKey bridge' s') =
          bridge' := loadRecord_saveRecord _ _ _ _ s'
      have hvault : bridge'.getVault rollupId = some
          { v with
            balance := v.balance + amount
            totalDeposited := v.totalDeposited + amount } := by
        rw [BridgeContract.deposit, hfind] at hdep
        cases hdep
        rw [BridgeContract.getVault, List.find?_updateFirst]
        · exact congrArg (Option.map _) hfind
        · exact fun v hv => hv
      simp [AmountCall.counters, hid, hload, hvault]
    rw [hbefore]
    constructor
    · intro h _ n hn
      obtain ⟨bridge', hdep⟩ : ∃ bridge',
          (loadBridge E s).deposit rollupId amount = .ok bridge' := by
        rw [BridgeContract.deposit, hfind]
        exact ⟨_, rfl⟩
      have hlist := h bridge' hdep
      rw [hafter bridge' hdep] at hlist
      simp only [List.map_cons, List.map_nil, List.cons.injEq, and_true,
        toNat_add_eq_add_iff] at hlist
      rcases List.mem_pair.mp hn with rfl | rfl
      · exact hlist.1
      · exact hlist.2
    · intro h bridge' hdep
      have hfits := h hrec
      rw [hafter bridge' hdep]
      simp only [List.map_cons, List.map_nil, List.cons.injEq, and_true,
        toNat_add_eq_add_iff]
      exact ⟨hfits _ (by simp), hfits _ (by simp)⟩

/-- A deposit by a sender with an account. -/
theorem amountExact_deposit_some_iff {rollupId : U64} (hid : readU64 args 0 = some rollupId)
    (ha : readU128 args 8 = some amount) (hwf : WellFormed E (entries s))
    (hacct : account? E (entries s) sender = some a) :
    AmountExact E .deposit sender args s ↔
      (¬ a.balance < amount + minFeeReserve → amount ≤ a.balance ∧
        ∀ bridge', (loadBridge E s).deposit rollupId amount = .ok bridge' →
          AmountCall.deposit.counters E sender args
              (saveRecord E.bridge BridgeContract.storageKey bridge'
                (putAccount E { a with balance := a.balance - amount } s)) =
            (AmountCall.deposit.counters E sender args s).map (· + amount.toNat)) := by
  have hsender : a.id = sender := hwf.id_eq hacct
  have hamount : AmountCall.deposit.amount? args = some amount := ha
  have hrun := bridgeDeposit_run E sender s hid ha
  have hdebit := run_debitIfReadable_some amount
    "insufficient balance for deposit (need fee reserve)" hwf hacct
  by_cases hlow : a.balance < amount + minFeeReserve
  · rw [if_pos hlow] at hdebit
    have hexact := amountExact_bridge_of_error rfl (hrun.trans (run_bind_error hdebit))
    simp only [hexact, hlow, not_true_eq_false, false_implies]
  · rw [if_neg hlow] at hdebit
    have hload : loadBridge E (putAccount E { a with balance := a.balance - amount } s) =
        loadBridge E s := ((SameRecords.refl s).putAccount _).bridge
    rw [run_bind_ok hdebit, run_reads_bind, hload] at hrun
    simp only [hlow, not_false_eq_true, forall_true_left]
    cases hdep : (loadBridge E s).deposit rollupId amount with
    | error e =>
      have hacct' : account? E (entries
          (putAccount E { a with balance := a.balance - amount } s)) sender =
            some { a with balance := a.balance - amount } := by
        rw [account?_putAccount, if_pos hsender]
      rw [recordDeposit, hdep] at hrun
      replace hrun := hrun.trans
        (run_bind_ok (run_creditExisting_some (hwf.putAccount _) hacct'))
      rw [amountExact_failed_iff (executeBridgeCall_of_ok hrun) rfl]
      rw [sameBalances_saveRecord_iff _ (by decide)]
      change SameBalances E s (refunded E a amount s) ∧
        SameRecords E s (saveRecord E.bridge _ (loadBridge E s) (refunded E a amount s)) ↔ _
      have hrecords := (sameRecords_refunded a amount s).resaveBridge (E := E)
      rw [sameBalances_refunded_iff hsender hacct]
      simp [hrecords]
    | ok bridge' =>
      rw [recordDeposit, hdep] at hrun
      rw [amountExact_succeeded_iff (executeBridgeCall_of_ok hrun) rfl hamount]
      rw [balanceOf_debited _ (by decide) _ hsender, balanceOf, hacct, Option.map_some,
        Option.getD_some, toNat_sub_add_self_iff]
      simp

omit [StateStore σ] in
theorem toNat_getD_lt {α : Type} (o : Option α) (f : α → U128) :
    (o.map fun x => (f x).toNat).getD 0 < 2 ^ 128 := by
  cases o with
  | none => exact Nat.two_pow_pos 128
  | some x => exact (f x).isLt

/-- Without an account the deposit is recorded all the same. -/
theorem amountExact_deposit_none_iff {rollupId : U64} (hid : readU64 args 0 = some rollupId)
    (ha : readU128 args 8 = some amount) (hwf : WellFormed E (entries s))
    (hacct : account? E (entries s) sender = none) :
    AmountExact E .deposit sender args s ↔
      (AmountCall.deposit.Records E sender args s → amount = 0#128) := by
  have hamount : AmountCall.deposit.amount? args = some amount := ha
  have hrun := bridgeDeposit_run E sender s hid ha
  rw [run_bind_ok (run_debitIfReadable_none amount _ hwf hacct), run_reads_bind]
    at hrun
  cases hdep : (loadBridge E s).deposit rollupId amount with
  | error e =>
    have hcredit : (creditExisting E sender amount : SysM σ Unit).run s = (.ok (), s) := by
      rw [creditExisting, run_bind, run_attempt, requireAccount, run_bind, run_getAccount,
        hwf.loadAccount_eq, hacct]
      rfl
    rw [recordDeposit, hdep] at hrun
    replace hrun := hrun.trans (run_bind_ok hcredit)
    have hvault : (loadBridge E s).getVault rollupId = none := by
      rw [BridgeContract.deposit] at hdep
      split at hdep
      · assumption
      · cases hdep
    rw [amountExact_failed_iff (executeBridgeCall_of_ok hrun) rfl,
      sameBalances_saveRecord_iff _ (by decide)]
    refine iff_of_true ⟨SameBalances.refl s, (SameRecords.refl s).resaveBridge⟩ fun hrec => ?_
    simp [AmountCall.Records, hid, hvault] at hrec
  | ok bridge' =>
    rw [recordDeposit, hdep] at hrun
    have hrec : AmountCall.deposit.Records E sender args s := by
      rw [BridgeContract.deposit] at hdep
      cases hvault : (loadBridge E s).getVault rollupId with
      | none => rw [hvault] at hdep; cases hdep
      | some v => simp [AmountCall.Records, hid, hvault]
    rw [amountExact_succeeded_iff (executeBridgeCall_of_ok hrun) rfl hamount]
    have hbalance : balanceOf E sender (saveRecord E.bridge BridgeContract.storageKey bridge' s) =
        balanceOf E sender s := by
      rw [balanceOf, account?_saveRecord _ (by decide)]
      rfl
    constructor
    · rintro ⟨hpaid, -⟩ -
      change balanceOf E sender (saveRecord E.bridge BridgeContract.storageKey bridge' s) + _ =
        _ at hpaid
      rw [hbalance] at hpaid
      exact BitVec.eq_of_toNat_eq (by rw [BitVec.toNat_zero]; omega)
    · intro hzero
      have hz := hzero hrec
      subst hz
      refine ⟨by simpa using hbalance, ?_⟩
      refine (deposit_counters_iff hid s).mpr (fun _ n hn => ?_) bridge' hdep
      rcases List.mem_pair.mp hn with rfl | rfl
      · exact toNat_getD_lt _ BridgeVault.balance
      · exact toNat_getD_lt _ BridgeVault.totalDeposited

theorem amountExact_deposit_iff (hwf : WellFormed E (entries s)) :
    AmountExact E .deposit sender args s ↔ AmountSafe E .deposit sender args s := by
  cases hid : readU64 args 0 with
  | none =>
    have hearly : (bridgeMethod E sender AmountCall.deposit.method args).run s =
        (.error (err "invalid args: need rollup_id[8] + amount[16]"), s) := by
      change (bridgeDeposit E sender args).run s = _
      rw [bridgeDeposit, hid]
      rfl
    refine iff_of_true (amountExact_bridge_of_error rfl hearly) fun amount _ hadm => ?_
    simp [AmountCall.Admits, hid] at hadm
  | some rollupId =>
    cases ha : readU128 args 8 with
    | none =>
      have hearly : (bridgeMethod E sender AmountCall.deposit.method args).run s =
          (.error (err "invalid args"), s) := by
        change (bridgeDeposit E sender args).run s = _
        rw [bridgeDeposit, hid, ha]
        rfl
      exact iff_of_true (amountExact_bridge_of_error rfl hearly) (amountSafe_of_not_amount ha)
    | some amount =>
      have ha' : AmountCall.deposit.amount? args = some amount := ha
      have hadm : AmountCall.deposit.Admits args amount s := by
        simp [AmountCall.Admits, hid]
      cases hacct : account? E (entries s) sender with
      | none =>
        rw [amountExact_deposit_none_iff hid ha hwf hacct]
        constructor
        · intro h amount' hamt _
          cases hamt.symm.trans ha'
          rw [hacct]
          exact fun _ => h
        · intro h
          have hbody := h amount ha' hadm
          rw [hacct] at hbody
          exact hbody rfl
      | some a =>
        rw [amountExact_deposit_some_iff hid ha hwf hacct, amountSafe_iff ha' hadm hacct,
          deposit_counters_iff hid]
        simp

/-! ### Locking funds for the other chain -/

variable (E s sender) in
theorem bridgeToBase_run (hlen : 36 ≤ args.length) (ha : readU128 args 20 = some amount)
    (hpos : amount ≠ 0#128) :
    (bridgeMethod E sender AmountCall.bridgeToBase.method args).run s =
      (do
        debitWithReserve E sender amount "insufficient balance for bridge (need fee reserve)"
        creditOrCreate E System.bridgeAddress amount
        pure ⟨loadBridge E s, [bridgeEvent "bridge_deposit"
          (sender.bytes ++ args.take 20 ++ le128 amount)], .ok ()⟩ :
        SysM σ (CallOutcome BridgeContract)).run s := by
  change (bridgeToBase E sender args).run s = _
  rw [bridgeToBase, ha]
  refine (run_bind_ok (run_reads _ _)).trans ?_
  refine (run_bind_ok (run_stopIf_neg (Nat.not_lt.mpr hlen))).trans ?_
  refine (run_bind_ok rfl).trans ?_
  exact run_bind_ok (run_stopIf_neg hpos)

/-- The account a credit goes to, fresh when there is none. -/
def accountOrEmpty (E : Platform) (id : AccountId) (s : σ) : Account :=
  (account? E (entries s) id).getD (emptyAccount id)

theorem run_creditOrCreate {ε : Type} (hwf : WellFormed E (entries s))
    (id : AccountId) (amount : U128) :
    (creditOrCreate E id amount : Prog σ ε Unit).run s =
      (.ok (), putAccount E { accountOrEmpty E id s with
        balance := satAdd (accountOrEmpty E id s).balance amount } s) := by
  have hget : (getOrEmpty E id : Prog σ ε Account).run s = (.ok (accountOrEmpty E id s), s) := by
    rw [getOrEmpty, run_bind, run_attempt, run_getAccount, hwf.loadAccount_eq, accountOrEmpty]
    cases account? E (entries s) id <;> rfl
  exact run_bind_ok hget

theorem accountOrEmpty_id (hwf : WellFormed E (entries s)) (id : AccountId) :
    (accountOrEmpty E id s).id = id := by
  rw [accountOrEmpty]
  cases hacct : account? E (entries s) id with
  | none => rfl
  | some a => exact hwf.id_eq hacct

theorem balanceOf_eq_accountOrEmpty (id : AccountId) (s : σ) :
    balanceOf E id s = (accountOrEmpty E id s).balance.toNat := by
  rw [balanceOf, accountOrEmpty]
  cases account? E (entries s) id <;> rfl

theorem amountExact_bridgeToBase_some_iff (hlen : 36 ≤ args.length)
    (ha : readU128 args 20 = some amount) (hpos : amount ≠ 0#128)
    (hwf : WellFormed E (entries s))
    (hacct : account? E (entries s) sender = some a) :
    AmountExact E .bridgeToBase sender args s ↔
      (¬ a.balance < amount + minFeeReserve → amount ≤ a.balance ∧
        balanceOf E System.bridgeAddress s + amount.toNat < 2 ^ 128 ∧
        sender ≠ System.bridgeAddress) := by
  have hsender : a.id = sender := hwf.id_eq hacct
  have hamount : AmountCall.bridgeToBase.amount? args = some amount := ha
  have hrun := bridgeToBase_run E sender s hlen ha hpos
  have hdebit := run_debitWithReserve_some amount
    "insufficient balance for bridge (need fee reserve)" hwf hacct
  by_cases hlow : a.balance < amount + minFeeReserve
  · rw [if_pos hlow] at hdebit
    have hexact := amountExact_bridge_of_error rfl (hrun.trans (run_bind_error hdebit))
    simp only [hexact, hlow, not_true_eq_false, false_implies]
  · rw [if_neg hlow] at hdebit
    set s₁ := putAccount E { a with balance := a.balance - amount } s with hs₁
    have hwf₁ : WellFormed E (entries s₁) := hwf.putAccount _
    rw [run_bind_ok hdebit, run_bind_ok (run_creditOrCreate hwf₁ _ _)] at hrun
    simp only [hlow, not_false_eq_true, forall_true_left]
    rw [amountExact_succeeded_iff (executeBridgeCall_of_ok hrun) rfl hamount]
    set vault := accountOrEmpty E System.bridgeAddress s₁ with hvault
    have hvaultId : vault.id = System.bridgeAddress := accountOrEmpty_id hwf₁ _
    have hafter : ∀ id, account? E (entries (saveRecord E.bridge
        BridgeContract.storageKey (loadBridge E s)
          (putAccount E { vault with balance := satAdd vault.balance amount } s₁))) id =
        if System.bridgeAddress = id then
          some { vault with balance := satAdd vault.balance amount }
        else if sender = id then some { a with balance := a.balance - amount }
        else account? E (entries s) id := by
      intro id
      rw [account?_saveRecord _ (by decide), account?_putAccount, account?_putAccount, hvaultId,
        hsender]
    have hbefore : balanceOf E sender s = a.balance.toNat := by
      rw [balanceOf, hacct]
      rfl
    simp only [AmountCall.counters, List.map_cons, List.map_nil, List.cons.injEq, and_true]
    change ((account? E (entries (saveRecord E.bridge BridgeContract.storageKey
        (loadBridge E s) (putAccount E { vault with balance := satAdd vault.balance amount }
          s₁))) sender).map _).getD 0 + _ = _ ∧
      ((account? E (entries (saveRecord E.bridge BridgeContract.storageKey
        (loadBridge E s) (putAccount E { vault with balance := satAdd vault.balance amount }
          s₁))) System.bridgeAddress).map _).getD 0 = _ ↔ _
    rw [hafter, hafter, if_pos rfl, hbefore]
    have hpos' : 0 < amount.toNat := by
      rcases Nat.eq_zero_or_pos amount.toNat with h | h
      · exact absurd (BitVec.eq_of_toNat_eq h) hpos
      · exact h
    by_cases hself : sender = System.bridgeAddress
    · -- the bridge pays itself: its balance cannot go down
      have hval : vault = { a with balance := a.balance - amount } := by
        rw [hvault, accountOrEmpty, account?_putAccount, if_pos (hsender.trans hself)]
        rfl
      rw [if_pos hself.symm, hval]
      refine iff_of_false (fun h => ?_) fun h => h.2.2 hself
      have hpaid := h.1
      simp only [Option.map_some, Option.getD_some, toNat_satAdd] at hpaid
      have hb := a.balance.isLt
      have hsub : (a.balance - amount).toNat + amount.toNat = a.balance.toNat ∨
          2 ^ 128 ≤ (a.balance - amount).toNat + amount.toNat := by
        rw [BitVec.toNat_sub]
        omega
      omega
    · have hval : vault = accountOrEmpty E System.bridgeAddress s := by
        rw [hvault, accountOrEmpty, account?_putAccount,
          if_neg (fun h => hself (hsender.symm.trans h)), accountOrEmpty]
      rw [if_neg (Ne.symm hself), if_pos rfl]
      simp only [Option.map_some, Option.getD_some]
      rw [toNat_sub_add_self_iff, balanceOf_eq_accountOrEmpty, ← hval, toNat_satAdd_eq_add_iff]
      simp [hself]

theorem amountExact_bridgeToBase_iff (hwf : WellFormed E (entries s)) :
    AmountExact E .bridgeToBase sender args s ↔ AmountSafe E .bridgeToBase sender args s := by
  by_cases hlen : args.length < 36
  · have hearly : (bridgeMethod E sender AmountCall.bridgeToBase.method args).run s =
        (.error (err "invalid args: need base_recipient[20] + amount[16]"), s) := by
      change (bridgeToBase E sender args).run s = _
      rw [bridgeToBase]
      refine (run_bind_ok (run_reads _ _)).trans ?_
      exact run_bind_error (run_stopIf_pos hlen)
    refine iff_of_true (amountExact_bridge_of_error rfl hearly) fun amount _ hadm => ?_
    exact absurd hadm.1 (Nat.not_le.mpr hlen)
  · have hlen' : 36 ≤ args.length := Nat.not_lt.mp hlen
    obtain ⟨amount, ha⟩ : ∃ amount, readU128 args 20 = some amount := by
      rw [readU128, readUint, if_pos hlen']
      exact ⟨_, rfl⟩
    have ha' : AmountCall.bridgeToBase.amount? args = some amount := ha
    by_cases hzero : amount = 0#128
    · have hearly : (bridgeMethod E sender AmountCall.bridgeToBase.method args).run s =
          (.error (err "amount must be > 0"), s) := by
        change (bridgeToBase E sender args).run s = _
        rw [bridgeToBase, ha]
        refine (run_bind_ok (run_reads _ _)).trans ?_
        refine (run_bind_ok (run_stopIf_neg hlen)).trans ?_
        refine (run_bind_ok rfl).trans ?_
        exact run_bind_error (run_stopIf_pos hzero)
      exact iff_of_true (amountExact_bridge_of_error rfl hearly)
        (amountSafe_of_not_admits ha' fun hadm => hadm.2 hzero)
    · have hadm : AmountCall.bridgeToBase.Admits args amount s := ⟨hlen', hzero⟩
      cases hacct : account? E (entries s) sender with
      | none =>
        obtain ⟨msg', hdebit⟩ := run_debitWithReserve_none amount
          "insufficient balance for bridge (need fee reserve)" hwf hacct
        have hrun := bridgeToBase_run E sender s hlen' ha hzero
        exact iff_of_true (amountExact_bridge_of_error rfl (hrun.trans (run_bind_error hdebit)))
          (amountSafe_of_none (by decide) hacct)
      | some a =>
        rw [amountExact_bridgeToBase_some_iff hlen' ha hzero hwf hacct,
          amountSafe_iff ha' hadm hacct]
        simp [AmountCall.Records, AmountCall.counters]

end

end

/-! ## All four calls -/

/-- A call with an amount is exact precisely when its amount is safe. -/
theorem amountExact_iff_amountSafe {σ : Type} [StateStore σ] (E : Platform) (call : AmountCall)
    (sender : AccountId) (args : Bytes) (s : σ) (hwf : WellFormed E (entries s)) :
    AmountExact E call sender args s ↔ AmountSafe E call sender args s := by
  cases call with
  | register => exact amountExact_register_iff hwf
  | delegate => exact amountExact_delegate_iff hwf
  | deposit => exact amountExact_deposit_iff hwf
  | bridgeToBase => exact amountExact_bridgeToBase_iff hwf

/-- The store of the example below: one account with a balance of 10000. -/
def smallBalance : Store := singleAccount alice (keyAccount alice 10000#128)

/-- The largest amount there is, for a recipient of zeros. -/
def largestAmount : Bytes := List.replicate 20 0 ++ le128 (BitVec.allOnes 128)

theorem account?_smallBalance :
    account? concretePlatform (entries smallBalance) alice =
      some (keyAccount alice 10000#128) := by
  rw [Store.entries_eq, account?, smallBalance, getElem?_singleAccount, Option.bind_some,
    concretePlatform.account.fromSlice_toVec]

theorem wellFormed_smallBalance :
    WellFormed concretePlatform (entries smallBalance) :=
  wellFormed_singleAccount rfl

theorem amountExact_iff_smallBalance :
    WellFormed concretePlatform (entries smallBalance) ∧
      (AmountExact concretePlatform .bridgeToBase alice largestAmount smallBalance ↔
        AmountSafe concretePlatform .bridgeToBase alice largestAmount smallBalance) :=
  ⟨wellFormed_smallBalance,
    amountExact_iff_amountSafe concretePlatform .bridgeToBase alice largestAmount smallBalance
      wellFormed_smallBalance⟩

/-- The sum of the largest amount and the reserve wraps to 9999, so a
balance of 10000 passes the check and pays with more than it has. -/
theorem not_amountExact_largestAmount :
    ¬ AmountExact concretePlatform .bridgeToBase alice largestAmount smallBalance := by
  rw [amountExact_bridgeToBase_iff wellFormed_smallBalance]
  intro h
  have hamount : AmountCall.bridgeToBase.amount? largestAmount = some (BitVec.allOnes 128) := by
    decide
  have hbody := h _ hamount ⟨by decide, by decide⟩
  rw [account?_smallBalance] at hbody
  exact absurd (hbody (by decide)).1 (by decide)

end Solen
