import Solen.CallRules
import Solen.Conservation
import Solen.Parallel

/-!
# The base fee

Governance stores a new base fee in the chain configuration. The
settlement of an operation reads the burn rate from there, but takes
the price of gas from the settings the node was started with, so that
a vote on the base fee changes what operations pay only where it
repeats that price.
-/

namespace Solen

open Machine Prog

def baseFeeKey : Bytes := ascii "__config_base_fee__"

/-! ## Setting the fee -/

section Governance

variable {σ : Type} [StateStore σ] {E : Platform}

/-- A call of `execute` with these arguments executes a proposal that sets the
base fee to `f`. -/
def SetsBaseFee (E : Platform) (s : σ) (args : Bytes) (f : U128) : Prop :=
  ∃ proposalId gov, readU64 args 0 = some proposalId ∧
    (loadGovernance E s).execute proposalId (readCurrentEpoch s)
      (emergencyFasttrackActive (readCurrentEpoch s)) = .ok (gov, .setBaseFee f)

theorem readConfigU128_put_le128 (s : σ) (k : Bytes) (v : U128) :
    readConfigU128 k (StateStore.put s k (le128 v)) = some v := by
  have hlen : (le128 v).length = 16 := length_toLeBytes _ _
  have hval : fromLeBytes (le128 v) = v.toNat := fromLeBytes_toLeBytes (by
    have := v.isLt
    omega)
  rw [readConfigU128, StateStore.get_put_self]
  simp only [hlen, le_refl, if_true, List.take_of_length_le hlen.le, hval, BitVec.ofNat_toNat,
    BitVec.setWidth_eq]

theorem governanceExecute_setsBaseFee {s : σ} {args : Bytes} {f : U128}
    (h : SetsBaseFee E s args f) :
    ∃ o, (governanceExecute E args).run s = (.ok o, StateStore.put s baseFeeKey (le128 f)) ∧
      o.result = .ok () := by
  obtain ⟨proposalId, gov, hid, hexec⟩ := h
  refine ⟨⟨gov, [governanceEvent "proposal_executed"
    (le64 proposalId ++ asBytes s!"base_fee={f.toNat}")], .ok ()⟩, ?_, rfl⟩
  rw [governanceExecute, run_bind_ok (run_orErr_some _ _ hid), run_reads_bind,
    run_reads_bind, hexec]
  rfl

/-- The call succeeds and the new fee is in the configuration. -/
theorem executeSystemCall_setsBaseFee {s : σ} {args : Bytes} {f : U128}
    (h : SetsBaseFee E s args f) (sender : AccountId) :
    (executeSystemCall E s sender System.governanceAddress "execute" args).1.error = none ∧
      readConfigU128 baseFeeKey
        (executeSystemCall E s sender System.governanceAddress "execute" args).2 = some f := by
  obtain ⟨o, hrun, hok⟩ := governanceExecute_setsBaseFee h
  have hcall : (systemCall E sender System.governanceAddress "execute" args).run s =
      (.ok o.toResult, saveRecord E.governance GovernanceContract.storageKey o.record
        (StateStore.put s baseFeeKey (le128 f))) := by
    rw [systemCall, if_neg (by decide), if_pos rfl, executeGovernanceCall, if_neg (by decide),
      run_bind_ok (run_pure _ _)]
    refine (run_bind_ok hrun).trans ?_
    rw [saveGovernance, run_bind_ok (run_modify _ _), hok]
    rfl
  rw [executeSystemCall, runSystemCall, hcall]
  refine ⟨?_, ?_⟩
  · rw [CallOutcome.toResult, hok]
  · have hne : baseFeeKey ≠ GovernanceContract.storageKey := by decide
    change readConfigU128 baseFeeKey (StateStore.put _ GovernanceContract.storageKey _) = some f
    rw [readConfigU128, StateStore.get_put_of_ne _ _ hne.symm]
    exact readConfigU128_put_le128 s baseFeeKey f

end Governance

/-! ## Settlement -/

section Settlement

variable {base : Store} {E : Platform} {X : BlockExecutor}

/-- What the sender's account and the reserve come to. -/
def fundsAt (E : Platform) (op : UserOperation) (reserved : U128) (s : ExecState base) : U128 :=
  match loadAccount E op.sender s with
  | .ok (some acct) => satAdd acct.balance reserved
  | _ => 0#128

/-- What the sender can pay with when the fee is settled: its balance after
the actions and the reserve. -/
def feeFunds (E : Platform) (X : BlockExecutor) (o : OverlayStore base) (op : UserOperation)
    (height : Nat) : U128 :=
  match (validateAndPrepare E X op height).run o with
  | (.error _, _) => 0#128
  | (.ok prepared, o') =>
      match (reserveAndRun E op height prepared.subcallPolicy).run { store := o' } with
      | (.error _, _) => 0#128
      | (.ok reserved, s) => fundsAt E op reserved s

theorem effectiveFeeConfig_baseFee (s : ExecState base) :
    (effectiveFeeConfig X s).baseFeePerGas = X.feeConfig.baseFeePerGas := by
  rw [effectiveFeeConfig]
  split
  · split <;> rfl
  · rfl

/-- A fee that fits is not cut. -/
theorem cappedFee_of_le {op : UserOperation} {height : Nat} {c : FeeConfig} {gas : U64}
    (h : gas.toNat * c.baseFeePerGas.toNat ≤ op.maxFee.toNat) :
    (cappedFee X op height c gas).toNat = gas.toNat * c.baseFeePerGas.toNat := by
  have hlt := op.maxFee.isLt
  have hgas : (gas.setWidth 128).toNat = gas.toNat := by
    rw [BitVec.toNat_setWidth, Nat.mod_eq_of_lt (by have := gas.isLt; omega)]
  have hfee : (c.calculateFee gas).toNat = gas.toNat * c.baseFeePerGas.toNat := by
    rw [FeeConfig.calculateFee, toNat_satMul, hgas, Nat.mul_comm]
    omega
  rw [cappedFee]
  split
  · rw [toNat_umin, hfee]
    omega
  · exact hfee

/-- Where the maximum and the funds allow it, the fee is the gas at the
built-in price. -/
theorem settleFees_paid {op : UserOperation} {height : Nat} {reserved : U128} {s : ExecState base}
    (hmax : s.gasUsed.toNat * X.feeConfig.baseFeePerGas.toNat ≤ op.maxFee.toNat)
    (hfunds : s.gasUsed.toNat * X.feeConfig.baseFeePerGas.toNat ≤
      (fundsAt E op reserved s).toNat) :
    Ends (fun t => t = s) (settleFees E X op height reserved : Prog (ExecState base) Empty _)
      fun fees _ => fees.1.toNat = s.gasUsed.toNat * X.feeConfig.baseFeePerGas.toNat := by
  have hfee : (cappedFee X op height (effectiveFeeConfig X s) s.gasUsed).toNat =
      s.gasUsed.toNat * X.feeConfig.baseFeePerGas.toNat := by
    rw [← effectiveFeeConfig_baseFee s] at hmax ⊢
    exact cappedFee_of_le hmax
  rintro t fees s' rfl hrun
  rw [settleFees, run_reads_bind, run_reads_bind] at hrun
  dsimp only at hrun
  split at hrun
  · obtain ⟨r, t₁, hget, hrun⟩ := run_bind_eq_ok.mp hrun
    obtain ⟨rfl, hload⟩ := attemptGet_ends (P := (· = t)) op.sender t r t₁ rfl hget
    rw [fundsAt, hload] at hfunds
    rcases r with e | (_ | acct)
    · cases hrun
      exact (Nat.le_zero.mp hfunds).symm
    · cases hrun
      exact (Nat.le_zero.mp hfunds).symm
    · obtain ⟨-, t₂, -, hrun⟩ := run_bind_eq_ok.mp hrun
      obtain ⟨credit, t₃, -, hrun⟩ := run_bind_eq_ok.mp hrun
      obtain ⟨-, t₄, -, hrun⟩ := run_bind_eq_ok.mp hrun
      cases hrun
      dsimp only at hfunds ⊢
      rw [toNat_umin]
      split
      · rw [toNat_umin, hfee, min_eq_left hfunds, min_eq_left hfunds]
      · rw [hfee, min_eq_left hfunds]
  · next hnone =>
      cases hrun
      have hzero := mt Or.inr hnone
      rw [BitVec.lt_def, hfee] at hzero
      exact (Nat.eq_zero_of_not_pos hzero).symm

theorem feePaid_of_covered {o : OverlayStore base} {op : UserOperation} {height : Nat}
    (hok : (executeOperation E X o op height).receipt.success = true)
    (hmax : (executeOperation E X o op height).receipt.gasUsed.toNat *
      X.feeConfig.baseFeePerGas.toNat ≤ op.maxFee.toNat)
    (hfunds : (executeOperation E X o op height).receipt.gasUsed.toNat *
      X.feeConfig.baseFeePerGas.toNat ≤ (feeFunds E X o op height).toNat) :
    (executeOperation E X o op height).feePaid.toNat =
      (executeOperation E X o op height).receipt.gasUsed.toNat *
        X.feeConfig.baseFeePerGas.toNat := by
  revert hok hmax hfunds
  rw [executeOperation, feeFunds]
  cases hpre : precheck E op with
  | some msg => exact fun hok => by cases hok
  | none =>
    rcases hval : (validateAndPrepare E X op height).run o with ⟨e | prepared, o'⟩
    · exact fun hok => by cases hok
    dsimp only
    rw [executePrepared]
    rcases hrun : (reserveAndRun E op height prepared.subcallPolicy).run { store := o' } with
      ⟨msg | reserved, s⟩
    · exact fun hok => by cases hok
    intro _ hmax hfunds
    rcases hsettle : (settleFees E X op height reserved : Prog (ExecState base) Empty _).run s
      with ⟨e | fees, s'⟩
    · exact e.elim
    have hpaid := settleFees_paid (X := X) hmax hfunds s fees s' rfl hsettle
    simp only [finishOperation, hsettle]
    exact hpaid

end Settlement

/-! ## Blocks -/

section Blocks

variable {E : Platform} {X : BlockExecutor}

/-- An operation of a block that succeeded was executed. -/
theorem outcome_of_success {base : Store} {start o : OverlayStore base}
    {all ops : List UserOperation} {height : Nat} {r : OpRun base}
    (hr : r ∈ runSteps (blockStep E X start all height) ops o)
    (hok : r.outcome.receipt.success = true) :
    r.outcome.feePaid = (executeOperation E X r.before r.op height).feePaid ∧
      r.outcome.receipt.success =
        (executeOperation E X r.before r.op height).receipt.success ∧
      r.outcome.receipt.gasUsed =
        (executeOperation E X r.before r.op height).receipt.gasUsed := by
  rw [outcome_of_mem_runSteps hr] at hok ⊢
  revert hok
  unfold blockStep
  split
  · unfold parallelStep
    split
    · exact fun hok => by cases hok
    · exact fun _ => ⟨rfl, rfl, rfl⟩
  · exact fun _ => ⟨rfl, rfl, rfl⟩

/-- A successful operation of the run `r` whose maximum and whose funds cover
its gas at the price `f`. -/
structure Affords {base : Store} (E : Platform) (X : BlockExecutor) (height : Nat)
    (r : OpRun base) (f : U128) : Prop where
  success : r.outcome.receipt.success = true
  maxFee : r.outcome.receipt.gasUsed.toNat * f.toNat ≤ r.op.maxFee.toNat
  funds : r.outcome.receipt.gasUsed.toNat * f.toNat ≤
    (feeFunds E X r.before r.op height).toNat

theorem Affords.feePaid {base : Store} {start o : OverlayStore base}
    {all ops : List UserOperation} {height : Nat} {r : OpRun base}
    (hr : r ∈ runSteps (blockStep E X start all height) ops o)
    (h : Affords E X height r X.feeConfig.baseFeePerGas) :
    r.outcome.feePaid.toNat =
      r.outcome.receipt.gasUsed.toNat * X.feeConfig.baseFeePerGas.toNat := by
  obtain ⟨hfee, hok, hgas⟩ := outcome_of_success hr h.success
  have hmax := h.maxFee
  have hfunds := h.funds
  rw [hgas] at hmax hfunds ⊢
  rw [hfee]
  exact feePaid_of_covered (hok ▸ h.success) hmax hfunds

/-- A vote on the base fee reaches the configuration, and no operation of any
block asks for it: one that affords the new price is charged that price for
its gas if it is the built-in one; and if it uses gas and affords the
built-in price too, only then. -/
theorem base_fee_vote_charged_iff {σ : Type} [StateStore σ] (E : Platform) (X : BlockExecutor)
    (s : σ) (sender : AccountId) (args : Bytes) (f : U128) (hvote : SetsBaseFee E s args f) :
    ((executeSystemCall E s sender System.governanceAddress "execute" args).1.error = none ∧
      readConfigU128 baseFeeKey
        (executeSystemCall E s sender System.governanceAddress "execute" args).2 = some f) ∧
    ∀ (later : Store) (ops : List UserOperation) (height : Nat),
      ∀ r ∈ (stageBlock E X later ops height).runs,
        Affords E X height r f →
          (f = X.feeConfig.baseFeePerGas →
            r.outcome.feePaid.toNat = r.outcome.receipt.gasUsed.toNat * f.toNat) ∧
          (r.outcome.receipt.gasUsed ≠ 0#64 → Affords E X height r X.feeConfig.baseFeePerGas →
            (r.outcome.feePaid.toNat = r.outcome.receipt.gasUsed.toNat * f.toNat ↔
              f = X.feeConfig.baseFeePerGas)) := by
  refine ⟨executeSystemCall_setsBaseFee hvote sender, fun later ops height r hr haff => ?_⟩
  refine ⟨?_, fun hgas hbuiltin => ?_⟩
  · rintro rfl
    exact haff.feePaid hr
  · rw [hbuiltin.feePaid hr]
    constructor
    · intro heq
      have hpos : 0 < r.outcome.receipt.gasUsed.toNat := by
        refine Nat.pos_of_ne_zero fun hzero => hgas (BitVec.eq_of_toNat_eq ?_)
        rw [hzero]
        rfl
      exact BitVec.eq_of_toNat_eq (Nat.eq_of_mul_eq_mul_left hpos heq).symm
    · rintro rfl
      rfl

/-! A vote for a price of 7, where the node was started with a price of 1. -/

def feeProposal : Proposal where
  id := 0#64
  proposer := alice
  action := .setBaseFee 7#128
  description := ""
  createdEpoch := 0#64
  votingEndEpoch := 0#64
  executeAfterEpoch := 0#64
  status := .passed
  votes := []
  totalFor := 0#128
  totalAgainst := 0#128
  deposit := 0#128

def feeGovernance : GovernanceContract := { proposals := [feeProposal], nextProposalId := 1#64 }

def feeStore : Store :=
  saveRecord concretePlatform.governance GovernanceContract.storageKey feeGovernance
    (accountStore concretePlatform [keyAccount alice 1000000#128])

/-- After the block in which Alice executes the proposal. -/
def feeVoted : BlockResult × Store :=
  executeBlockWithHeight concretePlatform {} feeStore
    [signWith alice 0#64 ⟨alice, 0#64,
      [.call System.governanceAddress "execute" (le64 0#64)], 1000#128, []⟩] 1

/-- The block after that. -/
def afterVote : StagedBlock feeVoted.2 :=
  stageBlock concretePlatform {} feeVoted.2
    [signWith alice 0#64 ⟨alice, 1#64, [.transfer bob 10#128], 500000#128, []⟩] 2

theorem feeStore_setsBaseFee : SetsBaseFee concretePlatform feeStore (le64 0#64) 7#128 := by
  have hgov : loadGovernance concretePlatform feeStore = feeGovernance := by decide +kernel
  have hepoch : readCurrentEpoch feeStore = 0#64 := by decide +kernel
  refine ⟨0#64, { feeGovernance with proposals := [{ feeProposal with status := .executed }] },
    by decide, ?_⟩
  rw [hgov, hepoch]
  rfl

theorem base_fee_vote_charged_iff_seven :
    SetsBaseFee concretePlatform feeStore (le64 0#64) 7#128 ∧
      ∀ r ∈ afterVote.runs,
        r.outcome.feePaid.toNat ≠ r.outcome.receipt.gasUsed.toNat * (7#128).toNat := by
  refine ⟨feeStore_setsBaseFee, fun r hr => ?_⟩
  have hall : afterVote.runs.all (fun r => decide (
      (r.outcome.receipt.success = true ∧ r.outcome.receipt.gasUsed ≠ 0#64) ∧
      (r.outcome.receipt.gasUsed.toNat * 7 ≤ r.op.maxFee.toNat ∧
        r.outcome.receipt.gasUsed.toNat * 7 ≤
          (feeFunds concretePlatform {} r.before r.op 2).toNat))) = true := by
    decide +kernel
  obtain ⟨⟨hok, hgas⟩, hmax, hfunds⟩ := of_decide_eq_true (List.all_eq_true.mp hall r hr)
  have hcharged := (base_fee_vote_charged_iff concretePlatform {} feeStore alice (le64 0#64) 7#128
    feeStore_setsBaseFee).2 feeVoted.2 _ 2 r hr ⟨hok, hmax, hfunds⟩
  have hle : r.outcome.receipt.gasUsed.toNat * 1 ≤ r.outcome.receipt.gasUsed.toNat * 7 :=
    Nat.mul_le_mul_left _ (by decide)
  exact mt (hcharged.2 hgas ⟨hok, hle.trans hmax, hle.trans hfunds⟩).mp (by decide)

/-- The proposal is executed, and a transfer in the next block pays 25100 for
25100 units of gas. -/
theorem base_fee_vote_ignored :
    feeVoted.1.receipts.map (·.success) = [true] ∧
      readConfigU128 baseFeeKey feeVoted.2 = some 7#128 ∧
      afterVote.runs.map (fun r => (r.outcome.receipt.success, r.outcome.receipt.gasUsed,
        r.outcome.feePaid, r.op.maxFee, feeFunds concretePlatform {} r.before r.op 2)) =
        [(true, 25100#64, 25100#128, 500000#128, 999790#128)] := by
  decide +kernel

end Blocks

end Solen
