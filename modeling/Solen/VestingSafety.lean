import Solen.ReadFrame
import Solen.Concrete

/-!
# Vesting over runs of calls

A run of the vesting contract is a sequence of calls, each kept only if
it succeeds, between which the rest of the chain may do anything that
leaves the schedules alone and does not turn back the epoch. What
claims have paid is read off the events they emit.

A claim reloads the record before it is saved, so the counter of what
has been claimed never moves and a second claim pays again. As long as
nobody claims again after being paid, no recipient gets more than what
has vested.
-/

namespace Solen

open Machine Prog

variable {sender : AccountId} {args : Bytes} {o : CallOutcome VestingContract} {method : String}
  {c : VestingContract}

section

variable {σ : Type} [StateStore σ] {E : Platform} {s₀ s : σ}

/-! ## What a call can do -/

theorem loadVesting_sameElsewhere (h : SameElsewhere s₀ s) :
    loadVesting E s = loadVesting E s₀ :=
  h.loadRecord E.vesting (by decide) {}

def claimEvent (sender : AccountId) (amount : U128) : Event :=
  vestingEvent "vesting_claim" (sender.bytes ++ le128 amount)

/-- What a successful claim does: the vault covers what the first schedule
has left to claim, and the record stays as it was. -/
structure Claims (E : Platform) (s : σ) (sender : AccountId) (o : CallOutcome VestingContract)
    (sch : VestingSchedule) : Prop where
  schedule : (loadVesting E s).getSchedule sender = some sch
  covered : ∃ vault, loadAccount E System.vestingAddress s = .ok (some vault) ∧
    sch.claimableAt (readCurrentEpoch s) ≤ vault.balance
  record : o.record = loadVesting E s
  events : o.events = [claimEvent sender (sch.claimableAt (readCurrentEpoch s))]

theorem vestingClaim_eq_ok {s' : σ}
    (h : (vestingClaim E sender).run s = (.ok o, s')) (hok : o.result = .ok ()) :
    (∃ sch, Claims E s sender o sch) ∧ SameElsewhere s s' := by
  rw [vestingClaim, run_reads_bind, run_reads_bind] at h
  cases hclaim : (loadVesting E s).claim sender (readCurrentEpoch s) with
  | error e =>
    rw [hclaim] at h
    cases h
    cases hok
  | ok p =>
    obtain ⟨c', amount⟩ := p
    rw [hclaim] at h
    obtain ⟨sch, hsch, rfl, -⟩ := VestingContract.claim_eq_ok hclaim
    obtain ⟨⟨⟩, s₁, hdebit, h⟩ := run_bind_eq_ok.mp h
    obtain ⟨⟨⟩, s₂, hcredit, h⟩ := run_bind_eq_ok.mp h
    cases h
    have h₁ : SameElsewhere s s₁ :=
      (debitCovered_sameElsewhere _ _ _ _).after (fun _ _ => rfl) hdebit
    have h₂ : SameElsewhere s _ := (creditExisting_sameElsewhere _ _).after h₁ hcredit
    refine ⟨⟨sch, hsch, debitCovered_eq_ok hdebit, ?_, rfl⟩, h₂⟩
    exact loadVesting_sameElsewhere h₂

/-- The other calls at most append schedules, and emit no claim. -/
structure Appends (c : VestingContract) (o : CallOutcome VestingContract) : Prop where
  record : ∃ added, o.record.schedules = c.schedules ++ added
  events : ∀ e ∈ o.events, e.topic ≠ ascii "vesting_claim"

theorem Appends.same {events : List Event} {result : Except String Unit}
    (h : ∀ e ∈ events, e.topic ≠ ascii "vesting_claim") : Appends c ⟨c, events, result⟩ :=
  ⟨⟨[], (List.append_nil _).symm⟩, h⟩

theorem loadVesting_keeps {ε : Type} :
    Keeps (SameElsewhere s₀) (reads (loadVesting E) : Prog σ ε VestingContract)
      (· = loadVesting E s₀) :=
  Keeps.reads fun _ hs => loadVesting_sameElsewhere hs

theorem vestingStatus_appends (sender : AccountId) :
    Keeps (SameElsewhere s₀) (vestingStatus E sender) (Appends (loadVesting E s₀)) := by
  refine Keeps.bind loadVesting_keeps fun c hc => Keeps.seq Keeps.ask fun e => ?_
  subst hc
  split
  · exact Keeps.pure (Appends.same (by simp [vestingEvent]; decide))
  · exact Keeps.pure (Appends.same (by simp))

theorem vestingAdd_appends (sender : AccountId) (args : Bytes) :
    Keeps (SameElsewhere s₀) (vestingAdd E sender args) (Appends (loadVesting E s₀)) := by
  refine Keeps.seq Keeps.guard fun _ => Keeps.seq (orErr_keeps _ _) fun recipient => ?_
  refine Keeps.seq (orErr_keeps _ _) fun amount => ?_
  refine Keeps.seq (parseVestingType_keeps _) fun vestingType => ?_
  refine Keeps.seq (debitCovered_sameElsewhere _ _ _ _) fun _ => ?_
  refine Keeps.seq (creditOrCreate_sameElsewhere _ _) fun _ => ?_
  refine Keeps.bind loadVesting_keeps fun c hc => Keeps.seq Keeps.ask fun e => ?_
  subst hc
  split
  · next c' hadd =>
      refine Keeps.pure ⟨?_, by simp [vestingEvent]; decide⟩
      unfold VestingContract.addScheduleAdmin at hadd
      split at hadd
      · cases hadd
        exact ⟨_, rfl⟩
      · cases hadd
  · exact Keeps.pure (Appends.same (by simp))

theorem vestingSetAdmin_appends (sender : AccountId) (args : Bytes) :
    Keeps (SameElsewhere s₀) (vestingSetAdmin E sender args) (Appends (loadVesting E s₀)) := by
  refine Keeps.seq (orErr_keeps _ _) fun newAdmin => ?_
  refine Keeps.bind loadVesting_keeps fun c hc => ?_
  subst hc
  split
  · next c' hset =>
      refine Keeps.pure ⟨?_, by simp [vestingEvent]; decide⟩
      unfold VestingContract.setAdmin at hset
      split at hset
      · cases hset
        exact ⟨[], (List.append_nil _).symm⟩
      · cases hset
  · exact Keeps.pure (Appends.same (by simp))

theorem vestingMethod_appends (sender : AccountId) (args : Bytes)
    (hm : method ≠ "claim") :
    Keeps (SameElsewhere s₀) (vestingMethod E sender method args)
      (Appends (loadVesting E s₀)) := by
  unfold vestingMethod
  split
  · exact absurd rfl hm
  · exact vestingStatus_appends sender
  · exact vestingAdd_appends sender args
  · exact vestingSetAdmin_appends sender args
  · refine Keeps.bind loadVesting_keeps fun c hc => ?_
    subst hc
    exact Keeps.pure (Appends.same (by simp))

/-! ## Calls and runs -/

theorem readCurrentEpoch_saveVesting (c : VestingContract) (s : σ) :
    readCurrentEpoch (saveRecord E.vesting VestingContract.storageKey c s) =
      readCurrentEpoch s := by
  simp only [readCurrentEpoch, metaHeight, saveRecord]
  rw [StateStore.get_put_of_ne _ _ (by decide)]

/-- A successful method leaves everything but accounts alone, and either
pays a claim or appends schedules to the record. -/
theorem vestingMethod_cases {s' : σ}
    (h : (vestingMethod E sender method args).run s = (.ok o, s')) (hok : o.result = .ok ()) :
    SameElsewhere s s' ∧
      ((method = "claim" ∧ ∃ sch, Claims E s sender o sch) ∨ Appends (loadVesting E s) o) := by
  by_cases hm : method = "claim"
  · subst hm
    obtain ⟨hclaim, hsame⟩ := vestingClaim_eq_ok h hok
    exact ⟨hsame, .inl ⟨rfl, hclaim⟩⟩
  · have hkeep : Keeps (SameElsewhere s) (vestingMethod E sender method args)
        (Appends (loadVesting E s)) := vestingMethod_appends sender args hm
    exact ⟨hkeep.after (fun _ _ => rfl) h, .inr (hkeep.value (fun _ _ => rfl) h)⟩

/-- A successful call leaves the epoch alone and either pays a claim or
appends schedules. -/
theorem executeVestingCall_cases
    {r : SystemCallResult} {s' : σ}
    (h : executeSystemCall E s sender System.vestingAddress method args = (r, s'))
    (hok : r.error = none) :
    readCurrentEpoch s' = readCurrentEpoch s ∧
      ∃ o, r.events = o.events ∧ loadVesting E s' = o.record ∧
        ((method = "claim" ∧ ∃ sch, Claims E s sender o sch) ∨ Appends (loadVesting E s) o) := by
  have hrun : (executeVestingCall E sender method args).run s = (.ok r, s') :=
    run_of_executeSystemCall h hok
  obtain ⟨o, s₁, hmethod, hsave⟩ := run_bind_eq_ok.mp hrun
  cases hsave
  obtain ⟨hsame, hcases⟩ := vestingMethod_cases hmethod (CallOutcome.result_of_toResult hok)
  refine ⟨?_, o, o.events_toResult, loadRecord_saveRecord _ _ _ _ _, hcases⟩
  exact (readCurrentEpoch_saveVesting o.record s₁).trans hsame.readCurrentEpoch

/-! ## Runs -/

/-- What an event says a claim has paid to `recipient`. -/
def paidBy (recipient : AccountId) (e : Event) : Nat :=
  if e.topic = ascii "vesting_claim" ∧ readAccountId e.data 0 = some recipient then
    ((readU128 e.data 32).getD 0#128).toNat
  else 0

/-- A store, and what the claims of the run have paid to each account. -/
structure VestingRun (σ : Type) where
  store : σ
  paid : AccountId → Nat

/-- A call through the executor, which undoes a call that fails. -/
def VestingRun.call (E : Platform) (s : VestingRun σ) (sender : AccountId) (method : String)
    (args : Bytes) : VestingRun σ :=
  let r := executeSystemCall E s.store sender System.vestingAddress method args
  if r.1.error = none then
    ⟨r.2, fun recipient => s.paid recipient + (r.1.events.map (paidBy recipient)).sum⟩
  else s

/-- The steps of a run in which `allowed` says who may claim. -/
inductive VestingStep (E : Platform) (allowed : VestingRun σ → AccountId → Prop) :
    VestingRun σ → VestingRun σ → Prop
  | call {s : VestingRun σ} (sender : AccountId) (method : String) (args : Bytes)
      (h : method = "claim" → allowed s sender) :
      VestingStep E allowed s (s.call E sender method args)
  | between {s : VestingRun σ} (store : σ)
      (schedules : (loadVesting E store).schedules = (loadVesting E s.store).schedules)
      (epoch : readCurrentEpoch s.store ≤ readCurrentEpoch store) :
      VestingStep E allowed s ⟨store, s.paid⟩

/-- What the first schedule of an account has vested. -/
def firstVested (c : VestingContract) (epoch : U64) (recipient : AccountId) : Nat :=
  ((c.getSchedule recipient).map fun sch => (sch.vestedAt epoch).toNat).getD 0

/-- What all schedules of an account have vested. -/
def totalVested (c : VestingContract) (epoch : U64) (recipient : AccountId) : Nat :=
  ((c.schedules.filter (·.recipient == recipient)).map fun sch => (sch.vestedAt epoch).toNat).sum

theorem firstVested_le_totalVested (c : VestingContract) (e : U64) (r : AccountId) :
    firstVested c e r ≤ totalVested c e r := by
  unfold firstVested totalVested VestingContract.getSchedule
  cases hfind : c.schedules.find? (·.recipient == r) with
  | none => exact Nat.zero_le _
  | some sch =>
    have hmem : sch ∈ c.schedules.filter (·.recipient == r) :=
      List.mem_filter.mpr ⟨List.mem_of_find?_eq_some hfind, by simpa using List.find?_some hfind⟩
    exact List.single_le_sum (fun _ _ => Nat.zero_le _) _ (List.mem_map_of_mem hmem)

/-- Schedules that are appended and epochs that pass only add to it. -/
theorem firstVested_mono {c' : VestingContract} {e e' : U64} (r : AccountId)
    (hc : ∃ added, c'.schedules = c.schedules ++ added) (he : e ≤ e') :
    firstVested c e r ≤ firstVested c' e' r := by
  obtain ⟨added, hadd⟩ := hc
  unfold firstVested VestingContract.getSchedule
  rw [hadd, List.find?_append]
  cases c.schedules.find? (·.recipient == r) with
  | none => exact Nat.zero_le _
  | some sch => exact sch.vestedAt_mono he

theorem paidBy_claimEvent (recipient sender : AccountId) (amount : U128) :
    paidBy recipient (claimEvent sender amount) =
      if sender = recipient then amount.toNat else 0 := by
  have hsender : readAccountId (sender.bytes ++ le128 amount) 0 = some sender :=
    readAccountId_bytes_append _ _
  have hamount : readU128 (sender.bytes ++ le128 amount) 32 = some amount := by
    rw [readU128_append_left sender.length_bytes.le, sender.length_bytes,
      ← List.append_nil (le128 amount), readU128_le128_append]
  simp only [paidBy, claimEvent, vestingEvent, hsender, hamount, true_and, Option.some.injEq,
    Option.getD_some]

theorem sum_paidBy_of_appends
    (h : Appends c o) (r : AccountId) : (o.events.map (paidBy r)).sum = 0 := by
  refine List.sum_eq_zero fun n hn => ?_
  obtain ⟨e, he, rfl⟩ := List.mem_map.mp hn
  exact if_neg fun h' => h.events e he h'.1

/-- Nothing has been paid to the sender yet, or the vault cannot pay. -/
def FirstClaim (E : Platform) (s : VestingRun σ) (sender : AccountId) : Prop :=
  s.paid sender = 0 ∨
    ∀ vault sch, loadAccount E System.vestingAddress s.store = .ok (some vault) →
      (loadVesting E s.store).getSchedule sender = some sch →
      vault.balance < sch.claimableAt (readCurrentEpoch s.store)

/-- Nobody has been paid more than what their first schedule has vested. -/
def WithinVested (E : Platform) (s : VestingRun σ) : Prop :=
  ∀ r, s.paid r ≤ firstVested (loadVesting E s.store) (readCurrentEpoch s.store) r

theorem withinVested_call {s : VestingRun σ} (hs : WithinVested E s) (hfirst : method = "claim" → FirstClaim E s sender) :
    WithinVested E (s.call E sender method args) := by
  unfold VestingRun.call
  rcases hcall : executeSystemCall E s.store sender System.vestingAddress method args with ⟨r, s'⟩
  dsimp only
  split
  · next hok =>
      obtain ⟨hepoch, o, hevents, hrecord, hcases⟩ := executeVestingCall_cases hcall hok
      intro a
      dsimp only
      rw [hepoch, hrecord, hevents]
      rcases hcases with ⟨hm, sch, hclaim⟩ | happ
      · obtain ⟨vault, hvault, hcovered⟩ := hclaim.covered
        have hpaid : s.paid sender = 0 := by
          rcases hfirst hm with h0 | hshort
          · exact h0
          · exact absurd (hshort vault sch hvault hclaim.schedule) (BitVec.not_lt.mpr hcovered)
        rw [hclaim.record, hclaim.events, List.map_singleton, List.sum_singleton,
          paidBy_claimEvent]
        split
        · next ha =>
            subst ha
            rw [hpaid, Nat.zero_add, firstVested, hclaim.schedule]
            simp only [Option.map_some, Option.getD_some, VestingSchedule.claimableAt,
              toNat_satSub]
            exact Nat.sub_le _ _
        · exact hs a
      · rw [sum_paidBy_of_appends happ]
        exact (hs a).trans (firstVested_mono a happ.record (BitVec.le_refl _))
  · exact hs

theorem withinVested_step {s s' : VestingRun σ} (hs : WithinVested E s)
    (h : VestingStep E (FirstClaim E) s s') : WithinVested E s' := by
  cases h with
  | call sender method args hfirst => exact withinVested_call hs hfirst
  | between store schedules epoch =>
    exact fun r => (hs r).trans
      (firstVested_mono r ⟨[], by rw [List.append_nil, schedules]⟩ epoch)

end

/-! ## Safety -/

/-- In a run that starts with nothing paid and in which nobody claims again
once paid, no account has been paid more than its schedules have vested. -/
theorem paid_le_totalVested {σ : Type} [StateStore σ] {E : Platform} {s₀ s : VestingRun σ}
    (h₀ : s₀.paid = fun _ => 0)
    (h : Relation.ReflTransGen (VestingStep E (FirstClaim E)) s₀ s) (r : AccountId) :
    s.paid r ≤ totalVested (loadVesting E s.store) (readCurrentEpoch s.store) r := by
  have hwithin : WithinVested E s := by
    induction h with
    | refl =>
        intro a
        rw [h₀]
        exact Nat.zero_le _
    | tail _ hstep ih => exact withinVested_step ih hstep
  exact (hwithin r).trans (firstVested_le_totalVested _ _ _)

/-- A grant of 100 that has vested from the start. -/
def grant : VestingSchedule := ⟨alice, 100#128, 0#128, .custom 0#64 0#64, 0#64⟩

def vaultAccount (balance : U128) : Account := keyAccount System.vestingAddress balance

/-- A vault of 1000, an empty account and its grant. -/
def grantStore : Store :=
  saveRecord concretePlatform.vesting VestingContract.storageKey ⟨[grant], none⟩
    (putAccount concretePlatform (vaultAccount 1000#128)
      (putAccount concretePlatform (keyAccount alice 0#128) (∅ : Store)))

def grantRun : VestingRun Store := ⟨grantStore, fun _ => 0⟩

/-- The first claim of the grant pays all of it. -/
theorem paid_le_totalVested_grant :
    (grantRun.call concretePlatform alice "claim" []).paid alice = 100 ∧
      (grantRun.call concretePlatform alice "claim" []).paid alice ≤
        totalVested (loadVesting concretePlatform
            (grantRun.call concretePlatform alice "claim" []).store)
          (readCurrentEpoch (grantRun.call concretePlatform alice "claim" []).store) alice := by
  have hrun : Relation.ReflTransGen (VestingStep concretePlatform (FirstClaim concretePlatform))
      grantRun (grantRun.call concretePlatform alice "claim" []) :=
    .single (.call alice "claim" [] fun _ => .inl rfl)
  exact ⟨by decide +kernel, paid_le_totalVested rfl hrun alice⟩

/-- Two claims in a row pay 200 out of a grant of 100. -/
theorem paid_twice_grant :
    ∃ s, Relation.ReflTransGen (VestingStep concretePlatform fun _ _ => True) grantRun s ∧
      grantRun.paid = (fun _ => 0) ∧ s.paid alice = 200 ∧
      totalVested (loadVesting concretePlatform s.store) (readCurrentEpoch s.store) alice = 100 ∧
      ∃ acct, loadAccount concretePlatform alice s.store = .ok (some acct) ∧
        acct.balance = 200#128 := by
  refine ⟨_, .tail (.single (.call alice "claim" [] fun _ => trivial))
    (.call alice "claim" [] fun _ => trivial), rfl, by decide +kernel, by decide +kernel,
    keyAccount alice 200#128, loadAccount_of_account? ?_, rfl⟩
  decide +kernel

end Solen
