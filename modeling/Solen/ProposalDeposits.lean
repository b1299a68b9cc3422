import Solen.Amounts
import Solen.Conservation
import Solen.GovernanceLifecycle

/-!
# What becomes of a proposal's deposit

The deposit is debited when a proposal is created and paid out by
`finalize`: to the proposer when the proposal passed, to the treasury
otherwise. What a call pays out is measured on the accounts, as what they
hold together after it and did not before, whatever its method is and
whoever receives it.

Finalising a proposal that has already been decided changes nothing in the
record, but the call still succeeds and pays the deposit once more. As long
as only undecided proposals are finalised, no more than one deposit is
paid out for a proposal.
-/

namespace Solen

open Machine Prog
open StateStore (entries)

variable {args : Bytes} {i : Nat} {stake : U128} {epoch : U64}

section

variable {σ : Type} [StateStore σ] {E : Platform} {bound : Nat} {s s' : σ} {sender id : AccountId}
  {method : String} {a : Account}

/-! ## What the accounts hold -/

/-- The accounts are well-formed and hold at most `bound` together. -/
structure Within (E : Platform) (bound : Nat) (s : σ) : Prop where
  wellFormed : WellFormed E (entries s)
  total_le : totalBalance E (entries s) ≤ bound

namespace Within

theorem put {k : Bytes} (h : Within E bound s) (hk : NotAccountKey k) (v : Bytes) :
    Within E bound (StateStore.put s k v) where
  wellFormed := by
    rw [StateStore.entries_put]
    exact h.wellFormed.insert_of_notAccountKey hk v
  total_le := by
    rw [StateStore.entries_put, totalBalance_insert_of_notAccountKey _ hk]
    exact h.total_le

theorem save {bound' : Nat} (h : Within E bound s) (hbound :
      bound + a.balance.toNat ≤ bound' + balanceIn E (entries s) a.id) :
    Within E bound' (putAccount E a s) where
  wellFormed := h.wellFormed.putAccount a
  total_le := by
    have hsum := totalBalance_insert_account (E := E) (entries s) a
    have hle := h.total_le
    rw [entries_putAccount]
    omega

/-- Writing the record of an account again, with another balance. -/
theorem saveLoaded {b : U128} {bound' : Nat} (h : Within E bound s)
    (hload : loadAccount E id s = .ok (some a))
    (hbound : bound + b.toNat ≤ bound' + a.balance.toNat) :
    Within E bound' (putAccount E { a with balance := b } s) := by
  have hacct := account?_of_loadAccount hload
  refine h.save ?_
  change bound + b.toNat ≤ bound' + balanceIn E (entries s) a.id
  rw [balanceIn, h.wellFormed.id_eq hacct, hacct]
  exact hbound

theorem creditOrCreate (h : Within E bound s) (id : AccountId) (amount : U128) :
    Within E (bound + amount.toNat) ((creditOrCreate E id amount : SysM σ Unit).run s).2 := by
  rw [run_creditOrCreate h.wellFormed]
  refine h.save ?_
  have hid : { accountOrEmpty E id s with
      balance := satAdd (accountOrEmpty E id s).balance amount }.id = id :=
    accountOrEmpty_id h.wellFormed id
  have hold : balanceIn E (entries s) id = (accountOrEmpty E id s).balance.toNat :=
    balanceOf_eq_accountOrEmpty id s
  rw [hid, hold]
  change bound + (satAdd _ amount).toNat ≤ _
  rw [toNat_satAdd]
  omega

end Within

theorem run_creditExisting_unreadable {amount : U128}
    (hnone : ∀ acct, loadAccount E id s ≠ .ok (some acct)) :
    (creditExisting E id amount : SysM σ Unit).run s = (.ok (), s) := by
  rw [creditExisting, run_bind, run_attempt, requireAccount, run_bind, run_getAccount]
  cases hload : loadAccount E id s with
  | error e => rfl
  | ok o =>
    cases o with
    | none => rfl
    | some acct => exact absurd hload (hnone acct)

theorem Within.creditExisting (h : Within E bound s) (id : AccountId) (amount : U128) :
    Within E (bound + amount.toNat) ((creditExisting E id amount : SysM σ Unit).run s).2 := by
  by_cases hload : ∃ acct, loadAccount E id s = .ok (some acct)
  · obtain ⟨acct, hload⟩ := hload
    rw [run_creditExisting hload]
    refine h.saveLoaded hload ?_
    rw [toNat_satAdd]
    omega
  · rw [run_creditExisting_unreadable fun acct hacct => hload ⟨acct, hacct⟩]
    exact ⟨h.wellFormed, h.total_le.trans (Nat.le_add_right _ _)⟩

/-! ## Calls that pay nothing out -/

theorem debitDeposit_within (msg : String) :
    Keeps (Within E bound) (debitWithReserve E sender proposalDeposit msg : SysM σ Unit)
      fun _ => True := by
  intro s h
  refine ⟨?_, fun _ _ => trivial⟩
  cases hacct : account? E (entries s) sender with
  | none =>
    obtain ⟨_, hrun⟩ := run_debitWithReserve_none proposalDeposit msg h.wellFormed hacct
    rw [hrun]
    exact h
  | some a =>
    rw [run_debitWithReserve_some _ _ h.wellFormed hacct]
    split
    · exact h
    · next hfunds =>
        have hload : loadAccount E sender s = .ok (some a) := by
          rw [h.wellFormed.loadAccount_eq, hacct]
        have hle : proposalDeposit ≤ a.balance :=
          BitVec.le_trans (by decide) (BitVec.not_lt.mp hfunds)
        refine h.saveLoaded hload ?_
        rw [BitVec.toNat_sub_of_le hle]
        omega

/-- What leaves the team pool arrives in the vesting vault. -/
theorem migrateTeamPool_within :
    Keeps (Within E bound) (migrateTeamPool E : SysM σ U128) fun _ => True := by
  intro s h
  refine ⟨?_, fun _ _ => trivial⟩
  rw [migrateTeamPool, run_bind, run_attempt, run_getAccount]
  cases hload : loadAccount E System.teamPoolAddress s with
  | error e => exact h
  | ok o =>
    cases o with
    | none => exact h
    | some teamPool =>
      change Within E bound ((do
        (if 0#128 < teamPool.balance then do
          saveAccount E { teamPool with balance := 0#128 }
          creditOrCreate E System.vestingAddress teamPool.balance
        else pure ())
        pure teamPool.balance : SysM σ U128).run s).2
      split
      · have hle : teamPool.balance.toNat ≤ bound :=
          (balance_le_totalBalance (account?_of_loadAccount hload)).trans h.total_le
        have hemptied : Within E (bound - teamPool.balance.toNat)
            (putAccount E { teamPool with balance := 0#128 } s) := by
          refine h.saveLoaded hload ?_
          change bound + 0 ≤ _
          omega
        have hmoved := hemptied.creditOrCreate System.vestingAddress teamPool.balance
        have hrun := run_creditOrCreate (ε := SystemCallResult) hemptied.wellFormed
          System.vestingAddress teamPool.balance
        rw [Nat.sub_add_cancel hle, hrun] at hmoved
        rw [run_bind_ok ((run_bind_ok (run_saveAccount E _ s)).trans hrun)]
        exact hmoved
      · exact h

theorem putConfig_within {key : String} (hk : NotAccountKey (ascii key)) (value : Bytes) :
    Keeps (Within E bound) (putConfig key value : SysM σ Unit) fun _ => True :=
  Keeps.modify fun _ h => h.put hk value

theorem applyAction_within (c : GovernanceContract) (action : ProposalAction) :
    Keeps (Within E bound) (applyAction E c action : SysM σ (GovernanceContract × String))
      fun _ => True := by
  have hstaking : ∀ c, Keeps (Within E bound) (saveStaking E c : SysM σ Unit) fun _ => True :=
    fun c => Keeps.modify fun _ h => h.put (by decide) _
  cases action with
  | setBaseFee | setBlockTime | setBurnRate | setEpochReward | setBridgeRelayer =>
    exact Keeps.done (putConfig_within (by decide) _)
  | setMinValidatorStake | setUnbondingPeriod =>
    exact Keeps.seq (putConfig_within (by decide) _) fun _ => Keeps.seq Keeps.ask fun _ =>
      Keeps.done (hstaking _)
  | setVestingAdmin =>
    exact Keeps.seq Keeps.ask fun _ =>
      Keeps.done (Keeps.modify fun _ h => h.put (by decide) _)
  | migrateTeamPoolToVesting => exact Keeps.done migrateTeamPool_within
  | emergencyPause | emergencyResume | setGovernanceVotingPeriod | setMaxOpsPerBlock
  | registerRollup => exact Keeps.pure trivial

/-- No call but a finalisation lets the accounts hold more. -/
theorem governanceCall_within {r : SystemCallResult}
    (h : executeSystemCall E s sender System.governanceAddress method args = (r, s'))
    (hok : r.error = none) (hfin : method ≠ "finalize") (hs : Within E bound s) :
    Within E bound s' := by
  obtain ⟨s₁, o, s₂, -, ⟨msg, hdebit⟩, hmethod, -, rfl⟩ := governanceCall_ok h hok
  have hdebited : Within E bound s₁ := by
    refine Keeps.after (P := fun _ => True) ?_ hs hdebit
    exact Keeps.ite (fun _ => debitDeposit_within _) fun _ => Keeps.pure trivial
  exact ((governanceMethod_keeps hfin applyAction_within).after hdebited hmethod).put (by decide) _

/-! ## Finalisations -/

/-- The account that receives the deposit when a proposal ends as `status`. -/
def Proposal.depositRecipient (p : Proposal) (status : ProposalStatus) : AccountId :=
  if status = .passed then p.proposer else System.treasuryAddress

theorem GovernanceContract.finalize_decided {c c' : GovernanceContract} {id : U64} {p : Proposal}
    {status : ProposalStatus} (hget : c.getProposal id = some p) (hdecided : p.status ≠ .active)
    (h : c.finalize id stake epoch false = .ok (c', status)) : c' = c ∧ status = p.status := by
  unfold GovernanceContract.finalize at h
  rw [hget] at h
  simp only [Bool.false_and, Bool.not_false, Bool.true_and, decide_eq_true_eq] at h
  split at h
  · cases h
  · cases h
    exact ⟨rfl, rfl⟩

/-- What a finalisation of the proposal `p` at position `i` leaves: at most
the deposit is paid out, and nothing when the proposal was decided and the
account it would go to can not be read. -/
structure Settles (E : Platform) (bound : Nat) (s s' : σ) (args : Bytes) (i : Nat)
    (p : Proposal) : Prop where
  position : proposalPosition E s args = some i
  get : (loadGovernance E s).proposals[i]? = some p
  within : Within E (bound + p.deposit.toNat) s'
  unpaid : p.status ≠ .active →
    (∀ acct, loadAccount E (p.depositRecipient p.status) s ≠ .ok (some acct)) →
    Within E bound s'

/-- The proposal is still undecided, or there is no account to pay to. -/
def FirstFinalize (E : Platform) (s : σ) (args : Bytes) : Prop :=
  ∀ i p, proposalPosition E s args = some i → (loadGovernance E s).proposals[i]? = some p →
    p.status = .active ∨
      ∀ acct, loadAccount E (p.depositRecipient p.status) s ≠ .ok (some acct)

theorem governanceFinalize_settles {o : CallOutcome GovernanceContract}
    (h : (governanceFinalize E args).run s = (.ok o, s')) (hok : o.result = .ok ())
    (hs : Within E bound s) : ∃ i p, Settles E bound s s' args i p := by
  obtain ⟨id, s₁, hread, h₁⟩ := run_bind_eq_ok.mp h
  obtain ⟨hid, rfl⟩ := orErr_eq_ok hread
  dsimp only at h₁
  rw [run_reads_bind, run_reads_bind, run_reads_bind, emergencyFasttrackActive_eq] at h₁
  split at h₁
  case h_2 =>
    cases h₁
    cases hok
  next c status hfin =>
  cases hget : (loadGovernance E s₁).getProposal id with
  | none =>
    rw [GovernanceContract.finalize, hget] at hfin
    cases hfin
  | some p =>
    obtain ⟨i, hpos, hi, -⟩ := GovernanceContract.updateProposal_eq_set hget
    obtain ⟨⟨⟩, s₂, hsave, h₂⟩ := run_bind_eq_ok.mp h₁
    cases hsave
    obtain ⟨⟨⟩, s₃, hcredit, h₃⟩ := run_bind_eq_ok.mp h₂
    cases h₃
    rw [hget, Option.map_some, Option.map_some, Option.getD_some, Option.getD_some] at hcredit
    have hsaved : Within E bound (saveRecord E.governance GovernanceContract.storageKey c s₁) :=
      hs.put (by decide) _
    refine ⟨i, p, ?_, hi, ?_, fun hdecided hnone => ?_⟩
    · rw [proposalPosition, hid, Option.bind_some, hpos]
    · split at hcredit
      · have hpaid := hsaved.creditExisting (p.depositRecipient status) p.deposit
        rw [show (creditExisting E (p.depositRecipient status) p.deposit : SysM σ Unit).run _ =
          (.ok (), s') from hcredit] at hpaid
        exact hpaid
      · cases hcredit
        exact ⟨hsaved.wellFormed, hsaved.total_le.trans (Nat.le_add_right _ _)⟩
    · obtain ⟨-, rfl⟩ := GovernanceContract.finalize_decided hget hdecided hfin
      split at hcredit
      · have hunread : (creditExisting E (p.depositRecipient p.status) p.deposit : SysM σ Unit).run
            (saveRecord E.governance GovernanceContract.storageKey c s₁) = (.ok (), _) :=
          run_creditExisting_unreadable fun acct => by
            rw [loadAccount_saveRecord _ (by decide)]
            exact hnone acct
        cases hunread.symm.trans hcredit
        exact hsaved
      · cases hcredit
        exact hsaved

theorem finalizeCall_settles {r : SystemCallResult}
    (h : executeSystemCall E s sender System.governanceAddress "finalize" args = (r, s'))
    (hok : r.error = none) (hs : Within E bound s) : ∃ i p, Settles E bound s s' args i p := by
  obtain ⟨s₁, o, s₂, -, ⟨msg, hdebit⟩, hmethod, hres, rfl⟩ := governanceCall_ok h hok
  rw [if_neg (by decide)] at hdebit
  cases hdebit
  obtain ⟨i, p, hsettles⟩ := governanceFinalize_settles hmethod hres hs
  exact ⟨i, p, hsettles.position, hsettles.get, hsettles.within.put (by decide) _,
    fun hdecided hnone => (hsettles.unpaid hdecided hnone).put (by decide) _⟩

/-! ## Runs -/

/-- A store, and for every call that succeeded the position its first
argument points to and what the accounts hold more after it. -/
structure DepositRun (σ : Type) where
  store : σ
  payouts : List (Option Nat × Nat)

/-- A call through the executor, which undoes a call that fails. -/
def DepositRun.call (E : Platform) (s : DepositRun σ) (sender : AccountId) (method : String)
    (args : Bytes) : DepositRun σ :=
  let r := executeSystemCall E s.store sender System.governanceAddress method args
  if r.1.error = none then
    ⟨r.2, (proposalPosition E s.store args, totalBalance E (entries r.2) -
      totalBalance E (entries s.store)) :: s.payouts⟩
  else s

/-- The steps of a run in which `allowed` says what may be finalised. -/
inductive DepositStep (E : Platform) (allowed : σ → Bytes → Prop) :
    DepositRun σ → DepositRun σ → Prop
  | call {s : DepositRun σ} (sender : AccountId) (method : String) (args : Bytes)
      (h : method = "finalize" → allowed s.store args) :
      DepositStep E allowed s (s.call E sender method args)
  | between {s : DepositRun σ} (store : σ)
      (proposals : (loadGovernance E store).proposals = (loadGovernance E s.store).proposals)
      (wellFormed : WellFormed E (entries store)) :
      DepositStep E allowed s ⟨store, s.payouts⟩

/-- What the calls that name position `i`, or none, have paid out together. -/
def paidFor (payouts : List (Option Nat × Nat)) (i : Option Nat) : Nat :=
  ((payouts.filter (·.1 == i)).map (·.2)).sum

theorem paidFor_cons (entry : Option Nat × Nat) (payouts : List (Option Nat × Nat))
    (i : Option Nat) :
    paidFor (entry :: payouts) i = (if entry.1 = i then entry.2 else 0) + paidFor payouts i := by
  unfold paidFor
  by_cases h : entry.1 = i
  · rw [List.filter_cons_of_pos (by rw [beq_iff_eq]; exact h), if_pos h]
    rfl
  · rw [List.filter_cons_of_neg (by rw [beq_iff_eq]; exact h), if_neg h, Nat.zero_add]

/-- At most one deposit was paid out for each proposal, and only when it is
decided. -/
structure PaidOnce (ps : List Proposal) (payouts : List (Option Nat × Nat)) : Prop where
  deposits : ∀ p ∈ ps, p.deposit = proposalDeposit
  decided : ∀ i, paidFor payouts (some i) ≠ 0 → ∃ p, ps[i]? = some p ∧ p.status ≠ .active
  once : ∀ i, paidFor payouts (some i) ≤ proposalDeposit.toNat
  unnamed : paidFor payouts none = 0

/-- A decided proposal stays decided. -/
theorem ProposalMove.decided {ps ps' : List Proposal} {e : GovernanceEntry} {p : Proposal}
    (h : ProposalMove ps stake epoch ps' e) (hget : ps[i]? = some p) (hp : p.status ≠ .active) :
    ∃ p', ps'[i]? = some p' ∧ p'.status ≠ .active := by
  have hset : ∀ {j : Nat} {q q' : Proposal}, ps[j]? = some q →
      (q'.status = .active → q.status = .active) →
      ∃ p', (ps.set j q')[i]? = some p' ∧ p'.status ≠ .active := by
    intro j q q' hj hq
    by_cases hij : i = j
    · subst hij
      rw [hget] at hj
      cases hj
      exact ⟨q', List.getElem?_set_self (List.getElem?_eq_some_iff.mp hget).1, fun h => hp (hq h)⟩
    · exact ⟨p, (List.getElem?_set_ne (Ne.symm hij)).trans hget, hp⟩
  cases h with
  | create =>
    have hlt : i < ps.length := (List.getElem?_eq_some_iff.mp hget).1
    exact ⟨p, (List.getElem?_append_left hlt).trans hget, hp⟩
  | vote hj => exact hset hj id
  | pass hj => exact hset hj nofun
  | reject hj => exact hset hj nofun
  | again => exact ⟨p, hget, hp⟩
  | execute hj => exact hset hj nofun

/-- After a finalisation the proposal is decided. -/
theorem ProposalMove.finalized_decided {ps ps' : List Proposal}
    (h : ProposalMove ps stake epoch ps' (.finalized i)) :
    ∃ p, ps'[i]? = some p ∧ p.status ≠ .active := by
  cases h with
  | pass hget => exact ⟨_, List.getElem?_set_self (List.getElem?_eq_some_iff.mp hget).1, nofun⟩
  | reject hget => exact ⟨_, List.getElem?_set_self (List.getElem?_eq_some_iff.mp hget).1, nofun⟩
  | again hget hdecided => exact ⟨_, hget, hdecided⟩

theorem ProposalMove.deposits {ps ps' : List Proposal} {e : GovernanceEntry}
    (h : ProposalMove ps stake epoch ps' e) (hps : ∀ p ∈ ps, p.deposit = proposalDeposit) :
    ∀ p ∈ ps', p.deposit = proposalDeposit := by
  have hset : ∀ {j : Nat} {q q' : Proposal}, ps[j]? = some q → q'.deposit = q.deposit →
      ∀ p ∈ ps.set j q', p.deposit = proposalDeposit := by
    intro j q q' hj hq p hp
    obtain hp | rfl := List.mem_or_eq_of_mem_set hp
    · exact hps p hp
    · exact hq.trans (hps q (List.mem_of_getElem? hj))
  cases h with
  | create fresh =>
    intro p hp
    obtain hp | hp := List.mem_append.mp hp
    · exact hps p hp
    · rw [List.mem_singleton.mp hp]
      exact fresh.deposit
  | vote hj => exact hset hj rfl
  | pass hj => exact hset hj rfl
  | reject hj => exact hset hj rfl
  | again => exact hps
  | execute hj => exact hset hj rfl

theorem PaidOnce.move {ps ps' : List Proposal} {payouts : List (Option Nat × Nat)}
    {e : GovernanceEntry} (h : PaidOnce ps payouts) (hmove : ProposalMove ps stake epoch ps' e) :
    PaidOnce ps' payouts := by
  refine ⟨hmove.deposits h.deposits, fun i hpaid => ?_, h.once, h.unnamed⟩
  obtain ⟨p, hget, hp⟩ := h.decided i hpaid
  exact hmove.decided hget hp

/-- A call that pays nothing out. -/
theorem PaidOnce.idle {ps : List Proposal} {payouts : List (Option Nat × Nat)}
    (h : PaidOnce ps payouts) (named : Option Nat) : PaidOnce ps ((named, 0) :: payouts) := by
  have hsame : ∀ i, paidFor ((named, 0) :: payouts) i = paidFor payouts i := by
    intro i
    rw [paidFor_cons, ite_self, Nat.zero_add]
  refine ⟨h.deposits, fun i => ?_, fun i => ?_, ?_⟩
  · rw [hsame]
    exact h.decided i
  · rw [hsame]
    exact h.once i
  · rw [hsame]
    exact h.unnamed

/-- A first payout for a proposal that is decided now. -/
theorem PaidOnce.pay {ps : List Proposal} {payouts : List (Option Nat × Nat)} {amount : Nat}
    (h : PaidOnce ps payouts) (hnew : paidFor payouts (some i) = 0)
    (hle : amount ≤ proposalDeposit.toNat) (hdecided : ∃ p, ps[i]? = some p ∧ p.status ≠ .active) :
    PaidOnce ps ((some i, amount) :: payouts) := by
  refine ⟨h.deposits, fun j hpaid => ?_, fun j => ?_, ?_⟩
  · rw [paidFor_cons] at hpaid
    by_cases hij : i = j
    · exact hij ▸ hdecided
    · rw [if_neg (fun heq => hij (Option.some.inj heq)), Nat.zero_add] at hpaid
      exact h.decided j hpaid
  · rw [paidFor_cons]
    by_cases hij : i = j
    · rw [if_pos (congrArg some hij), ← hij, hnew]
      exact hle
    · rw [if_neg (fun heq => hij (Option.some.inj heq)), Nat.zero_add]
      exact h.once j
  · rw [paidFor_cons, if_neg nofun, Nat.zero_add]
    exact h.unnamed

/-- The state of a run: well-formed accounts, and deposits paid out once. -/
structure DepositRun.Sound (E : Platform) (s : DepositRun σ) : Prop where
  wellFormed : WellFormed E (entries s.store)
  paid : PaidOnce (loadGovernance E s.store).proposals s.payouts

theorem DepositRun.wellFormed_call {s : DepositRun σ}
    (hwf : WellFormed E (entries s.store)) (sender : AccountId) (method : String)
    (args : Bytes) : WellFormed E (entries (s.call E sender method args).store) := by
  have hs : Within E _ s.store := ⟨hwf, Nat.le_refl _⟩
  unfold DepositRun.call
  rcases hcall : executeSystemCall E s.store sender System.governanceAddress method args with
    ⟨r, store⟩
  dsimp only
  split
  · next hok =>
      by_cases hfin : method = "finalize"
      · subst hfin
        obtain ⟨i, p, hsettles⟩ := finalizeCall_settles hcall hok hs
        exact hsettles.within.wellFormed
      · exact (governanceCall_within hcall hok hfin hs).wellFormed
  · exact hwf

theorem DepositRun.Sound.call {s : DepositRun σ} (hs : s.Sound E)
    (hfirst : method = "finalize" → FirstFinalize E s.store args) :
    (s.call E sender method args).Sound E := by
  refine ⟨DepositRun.wellFormed_call hs.wellFormed sender method args, ?_⟩
  have hwithin : Within E _ s.store := ⟨hs.wellFormed, Nat.le_refl _⟩
  unfold DepositRun.call
  rcases hcall : executeSystemCall E s.store sender System.governanceAddress method args with
    ⟨r, store⟩
  dsimp only
  split
  case isFalse => exact hs.paid
  next hok =>
  obtain ⟨e, he, hmove⟩ := executeSystemCall_governance hcall hok
  have hmoved := hs.paid.move hmove
  have hidle : Within E (totalBalance E (entries s.store)) store →
      PaidOnce (loadGovernance E store).proposals ((proposalPosition E s.store args,
        totalBalance E (entries store) -
          totalBalance E (entries s.store)) :: s.payouts) := by
    intro h
    rw [Nat.sub_eq_zero_of_le h.total_le]
    exact hmoved.idle _
  by_cases hfin : method = "finalize"
  · subst hfin
    obtain ⟨i, p, hsettles⟩ := finalizeCall_settles hcall hok hwithin
    by_cases hactive : p.status = .active
    · have hentry : e = .finalized i := by
        have hmap : (proposalPosition E s.store args).map GovernanceEntry.finalized = some e := he
        rw [hsettles.position] at hmap
        exact (Option.some.inj hmap).symm
      subst hentry
      have hnew : paidFor s.payouts (some i) = 0 := by
        by_contra hpaid
        obtain ⟨q, hq, hdecided⟩ := hs.paid.decided i hpaid
        cases hq.symm.trans hsettles.get
        exact hdecided hactive
      have hle := hsettles.within.total_le
      rw [hs.paid.deposits p (List.mem_of_getElem? hsettles.get)] at hle
      rw [hsettles.position]
      exact hmoved.pay hnew (by omega) hmove.finalized_decided
    · exact hidle (hsettles.unpaid hactive
        ((hfirst rfl i p hsettles.position hsettles.get).resolve_left hactive))
  · exact hidle (governanceCall_within hcall hok hfin hwithin)

theorem DepositRun.Sound.step {s s' : DepositRun σ} (hs : s.Sound E)
    (h : DepositStep E (FirstFinalize E) s s') : s'.Sound E := by
  cases h with
  | call sender method args hfirst => exact hs.call hfirst
  | between store proposals wellFormed =>
    refine ⟨wellFormed, ?_⟩
    rw [proposals]
    exact hs.paid

end

/-! ## Ballots and their deposits -/

namespace Ballot

theorem wellFormed_ballotStore : WellFormed concretePlatform (entries ballotStore) :=
  (wellFormed_accountStore _ _).insert_of_notAccountKey (by decide) _

theorem wellFormed_inEpoch {s : Store} (h : WellFormed concretePlatform (entries s))
    (epoch : U64) : WellFormed concretePlatform (entries (inEpoch epoch s)) :=
  h.insert_of_notAccountKey (by decide) _

def proposed : DepositRun Store :=
  (⟨ballotStore, []⟩ : DepositRun Store).call concretePlatform alice
    "propose_migrate_team_pool_to_vesting" []

def supported : DepositRun Store :=
  proposed.call concretePlatform alice "vote" (le64 0#64 ++ [1] ++ le128 500#128)

/-- After the end of the vote. -/
def closed (s : DepositRun Store) : DepositRun Store := { s with store := inEpoch 2017#64 s.store }

def finalized (s : DepositRun Store) : DepositRun Store :=
  s.call concretePlatform bob "finalize" (le64 0#64)

/-- The proposal that passed is executed. -/
def carried : DepositRun Store :=
  DepositRun.call concretePlatform { finalized (closed supported) with
    store := inEpoch 2020#64 (finalized (closed supported)).store } bob "execute" (le64 0#64)

theorem wellFormed_proposed : WellFormed concretePlatform (entries proposed.store) :=
  DepositRun.wellFormed_call wellFormed_ballotStore _ _ _

/-- Up to the end of the vote, on which nothing was finalised. -/
theorem closed_run (allowed : Store → Bytes → Prop) :
    Relation.ReflTransGen (DepositStep concretePlatform allowed) ⟨ballotStore, []⟩
        (closed proposed) ∧
      Relation.ReflTransGen (DepositStep concretePlatform allowed) ⟨ballotStore, []⟩
        (closed supported) := by
  have hproposed : Relation.ReflTransGen (DepositStep concretePlatform allowed) ⟨ballotStore, []⟩
      proposed := .single (.call _ _ _ fun h => absurd h (by decide))
  refine ⟨hproposed.tail (.between _ (by decide +kernel) (wellFormed_inEpoch wellFormed_proposed _)),
    (hproposed.tail (.call _ _ _ fun h => absurd h (by decide))).tail
      (.between _ (by decide +kernel) (wellFormed_inEpoch ?_ _))⟩
  exact DepositRun.wellFormed_call wellFormed_proposed _ _ _

end Ballot

/-! ## Safety -/

/-- In a run that starts without proposals and in which only undecided
proposals are finalised, no more than one deposit is paid out for a
proposal, and no other call pays anything out. -/
theorem paidFor_le_deposit {σ : Type} [StateStore σ] {E : Platform} {s₀ s : DepositRun σ}
    (hwf : WellFormed E (entries s₀.store))
    (h₀ : (loadGovernance E s₀.store).proposals = [] ∧ s₀.payouts = [])
    (h : Relation.ReflTransGen (DepositStep E (FirstFinalize E)) s₀ s) :
    (∀ i, paidFor s.payouts (some i) ≤ proposalDeposit.toNat) ∧ paidFor s.payouts none = 0 := by
  have hsound : s.Sound E := by
    induction h with
    | refl =>
        refine ⟨hwf, ?_⟩
        rw [h₀.1, h₀.2]
        exact ⟨nofun, fun i h => absurd rfl h, fun i => Nat.zero_le _, rfl⟩
    | tail _ hstep ih => exact ih.step hstep
  exact ⟨hsound.paid.once, hsound.paid.unnamed⟩

/-- A proposal passes and is executed: the finalisation pays the deposit
back, and the execution, which moves the team pool, pays nothing out. -/
theorem paidFor_le_deposit_carried :
    Ballot.carried.payouts =
        [(some 0, 0), (some 0, 100000000000), (some 0, 0), (none, 0)] ∧
      (loadGovernance concretePlatform Ballot.carried.store).proposals =
        [teamProposal .executed [aliceVote] 500#128] ∧
      paidFor Ballot.carried.payouts (some 0) ≤ proposalDeposit.toNat := by
  have hended : loadGovernance concretePlatform (Ballot.closed Ballot.supported).store =
      teamRecord .active [aliceVote] 500#128 := by decide +kernel
  have hfirst : FirstFinalize concretePlatform (Ballot.closed Ballot.supported).store
      (le64 0#64) := by
    intro i p hpos hget
    have hzero : proposalPosition concretePlatform (Ballot.closed Ballot.supported).store
        (le64 0#64) = some 0 := by decide +kernel
    cases hzero.symm.trans hpos
    rw [hended] at hget
    cases hget
    exact .inl rfl
  have hclosed := (Ballot.closed_run (FirstFinalize concretePlatform)).2
  have hwf : WellFormed concretePlatform
      (entries (Ballot.finalized (Ballot.closed Ballot.supported)).store) := by
    refine DepositRun.wellFormed_call (Ballot.wellFormed_inEpoch ?_ _) _ _ _
    exact DepositRun.wellFormed_call Ballot.wellFormed_proposed _ _ _
  have hrun := ((hclosed.tail (.call bob "finalize" (le64 0#64) fun _ => hfirst)).tail
    (.between _ (by decide +kernel) (Ballot.wellFormed_inEpoch hwf 2020#64))).tail
    (.call bob "execute" (le64 0#64) fun h => absurd h (by decide))
  refine ⟨by decide +kernel, by decide +kernel, ?_⟩
  exact (paidFor_le_deposit Ballot.wellFormed_ballotStore ⟨by decide +kernel, rfl⟩ hrun).1 0

/-- A proposal nobody voted on is finalised twice, and its deposit is paid to
the treasury twice. -/
theorem paidFor_twice :
    let s := Ballot.finalized (Ballot.finalized (Ballot.closed Ballot.proposed))
    Relation.ReflTransGen (DepositStep concretePlatform fun _ _ => True) ⟨ballotStore, []⟩ s ∧
      WellFormed concretePlatform (entries ballotStore) ∧
      (loadGovernance concretePlatform ballotStore).proposals = [] ∧
      paidFor s.payouts (some 0) = 2 * proposalDeposit.toNat ∧
      (loadAccount concretePlatform System.treasuryAddress s.store).toOption.join.map (·.balance) =
        some (proposalDeposit + proposalDeposit) := by
  refine ⟨?_, Ballot.wellFormed_ballotStore, by decide +kernel, by decide +kernel,
    by decide +kernel⟩
  exact ((Ballot.closed_run fun _ _ => True).1.tail (.call _ _ _ fun _ => trivial)).tail
    (.call _ _ _ fun _ => trivial)

end Solen
