import Solen.StateOnly

/-!
# Parallel execution and sequential execution

The parallel path checks the signatures of all operations against the
store before the block, skips those that fail, and executes the others
one after the other. It agrees with the sequential path as long as no
skipped operation would have been accepted at its turn
(`parallel_refines_iff`). An operation that changes the authentication
methods of an account makes this fail.
-/

namespace Solen

open Machine Prog

variable {a : Account} {height : Nat} {op : UserOperation}

/-- Overlays that stand for the same map read the same. -/
theorem sameEntries_frame {base base' : Store} :
    OverlayFrame (fun _ => True)
      (fun (o : OverlayStore base) (o' : OverlayStore base') => o.entries = o'.entries) where
  state _ := trivial
  get {o o' k} h _ := by
    change o.get k = o'.get k
    rw [OverlayStore.get_eq_entries, OverlayStore.get_eq_entries, h]
  scan {o o' p} h _ := by
    change o.scanPrefix p = o'.scanPrefix p
    rw [OverlayStore.scanPrefix_eq, OverlayStore.scanPrefix_eq, h]
  put {o o'} k v h := by
    change (o.put k v).entries = (o'.put k v).entries
    rw [OverlayStore.entries_put, OverlayStore.entries_put, h]
  restore t t' h := by
    rw [OverlayStore.entries_restoreSavepoint, OverlayStore.entries_restoreSavepoint, h]

section Runs

variable {base : Store} {step : OverlayStore base → UserOperation → OpOutcome base}

theorem runSteps_append (l l' : List UserOperation) (o : OverlayStore base) :
    runSteps step (l ++ l') o =
      runSteps step l o ++ runSteps step l' (finalStore o (runSteps step l o)) := by
  induction l generalizing o with
  | nil => rfl
  | cons op l ih => exact congrArg (_ :: ·) (ih _)

theorem finalStore_append (rs rs' : List (OpRun base)) (o : OverlayStore base) :
    finalStore o (rs ++ rs') = finalStore (finalStore o rs) rs' := by
  induction rs generalizing o with
  | nil => rfl
  | cons r rs ih => exact ih _

/-- Each operation of a run starts where those before it have come to. -/
theorem mem_runSteps {ops : List UserOperation} {o : OverlayStore base} {r : OpRun base}
    (h : r ∈ runSteps step ops o) :
    ∃ l l', ops = l ++ r.op :: l' ∧ r.before = finalStore o (runSteps step l o) := by
  induction ops generalizing o with
  | nil => cases h
  | cons op ops ih =>
    rcases List.mem_cons.mp h with rfl | h
    · exact ⟨[], ops, rfl, rfl⟩
    · obtain ⟨l, l', hops, hbefore⟩ := ih h
      exact ⟨op :: l, l', congrArg (op :: ·) hops, hbefore⟩

theorem outcome_of_mem_runSteps {l : List UserOperation} {o : OverlayStore base} {r : OpRun base}
    (hr : r ∈ runSteps step l o) : r.outcome = step r.before r.op := by
  induction l generalizing o with
  | nil => cases hr
  | cons op l ih =>
    rcases List.mem_cons.mp hr with rfl | hr
    · rfl
    · exact ih hr

end Runs

/-! ## Agreement of the two paths -/

section Paths

variable {base : Store} (E : Platform) (X : BlockExecutor)

def executeBlockSequential (o : OverlayStore base) (ops : List UserOperation) (height : Nat) :
    List (OpRun base) :=
  runSteps (fun o op => executeOperation E X o op height) ops o

def executeBlockParallel (o : OverlayStore base) (ops : List UserOperation) (height : Nat) :
    List (OpRun base) :=
  runSteps (parallelStep E X o height) ops o

/-- Both paths end in the same store, and each operation succeeds on both or
on neither. -/
def ParallelRefines (o : OverlayStore base) (ops : List UserOperation) (height : Nat) : Prop :=
  (finalStore o (executeBlockSequential E X o ops height)).entries =
      (finalStore o (executeBlockParallel E X o ops height)).entries ∧
    (executeBlockSequential E X o ops height).map (fun r => r.outcome.receipt.success) =
      (executeBlockParallel E X o ops height).map fun r => r.outcome.receipt.success

/-- The operation passes every check that is made before its actions run. -/
def Accepted (o : OverlayStore base) (op : UserOperation) (height : Nat) : Prop :=
  precheck E op = none ∧
    ∃ prepared o', (validateAndPrepare E X op height).run o = (.ok prepared, o')

/-- The operation fails and leaves no trace. -/
def Idle (o : OverlayStore base) (op : UserOperation) (height : Nat) : Prop :=
  (executeOperation E X o op height).receipt.success = false ∧
    (executeOperation E X o op height).store.entries = o.entries

/-- The record under the key of `id` belongs to another account. -/
def Misfiled (o : OverlayStore base) (id : AccountId) : Prop :=
  ∃ a, account? E o.entries id = some a ∧ a.id ≠ id

/-- No operation that fails the early check is accepted at its turn. The one
exception is an operation whose sender's record is misfiled and that
leaves no trace all the same. -/
def NoStaleCheck (o : OverlayStore base) (ops : List UserOperation) (height : Nat) : Prop :=
  ∀ r ∈ executeBlockSequential E X o ops height, prevalidate E X o height r.op = none →
    Accepted E X r.before r.op height →
      Misfiled E r.before r.op.sender ∧ Idle E X r.before r.op height

end Paths

variable {base : Store} {E : Platform} {X : BlockExecutor}

theorem idle_of_not_accepted {o : OverlayStore base}
    (h : ¬ Accepted E X o op height) : Idle E X o op height := by
  unfold Idle executeOperation
  split
  · exact ⟨rfl, rfl⟩
  next hpre =>
  rcases hval : (validateAndPrepare E X op height).run o with ⟨e | prepared, o'⟩
  · refine ⟨rfl, ?_⟩
    rw [validateAndPrepare_eq_error hval]
  · exact absurd ⟨hpre, prepared, o', hval⟩ h

/-- An accepted operation uses up a nonce, so it leaves a trace. -/
theorem misfiled_of_idle {o : OverlayStore base}
    (huser : isSystemAuthorized op = false) (hidle : Idle E X o op height)
    (hacc : Accepted E X o op height) : Misfiled E o op.sender := by
  obtain ⟨hpre, prepared, o', hval⟩ := hacc
  obtain ⟨a, hload, hnonce, -, ho'⟩ := validateAndPrepare_eq_ok huser hval
  have hacct : account? E o.entries op.sender = some a := account?_of_loadAccount hload
  refine ⟨a, hacct, fun hid => ?_⟩
  have hload' : loadAccount E op.sender o' =
      .ok (some { a with nonce := a.nonce + 1#64 }) := by
    rw [ho', loadAccount_putAccount, if_pos hid]
  have hexec := executeOperation_of_validated hpre hval
  rw [Idle, hexec] at hidle
  obtain ⟨hfail, hsame⟩ := hidle
  obtain ⟨msg, s, hrun⟩ := executePrepared_failed hfail
  rw [hrun] at hsame
  have hafter := account?_failOperation (X := X) op height msg s hload'
  rw [hsame, hacct, if_pos hid] at hafter
  have hkept : a.nonce = nextNonce { a with nonce := a.nonce + 1#64 } op.nonce :=
    congrArg Account.nonce (Option.some.inj hafter)
  have hne : op.nonce ≠ a.nonce + 1#64 := by
    rw [hnonce]
    exact (add_one_ne_self a.nonce).symm
  rw [(nextNonce_eq_self_iff _ op.nonce).mpr (.inl hne)] at hkept
  exact add_one_ne_self a.nonce hkept.symm

/-- For an operation that is skipped, leaving no trace is all that agreement
asks for. -/
theorem idle_iff {o : OverlayStore base}
    (huser : isSystemAuthorized op = false) :
    Idle E X o op height ↔
      (Accepted E X o op height → Misfiled E o op.sender ∧ Idle E X o op height) := by
  constructor
  · exact fun hidle hacc => ⟨misfiled_of_idle huser hidle hacc, hidle⟩
  · intro h
    by_cases hacc : Accepted E X o op height
    · exact (h hacc).2
    · exact idle_of_not_accepted hacc

theorem isSystemAuthorized_of_prevalidate {o : OverlayStore base} (h : prevalidate E X o height op = none) :
    isSystemAuthorized op = false := by
  cases hsys : isSystemAuthorized op with
  | false => rfl
  | true => simp [prevalidate, hsys] at h

theorem parallelStep_of_none {start : OverlayStore base}
    (o : OverlayStore base) (h : prevalidate E X start height op = none) :
    (parallelStep E X start height o op).receipt.success = false ∧
      (parallelStep E X start height o op).store = o := by
  rw [parallelStep, h]
  exact ⟨rfl, rfl⟩

theorem parallelStep_of_some {start : OverlayStore base}
    {name : String} (o : OverlayStore base) (h : prevalidate E X start height op = some name) :
    (parallelStep E X start height o op).receipt.success =
        (executeOperation E X o op height).receipt.success ∧
      (parallelStep E X start height o op).store = (executeOperation E X o op height).store := by
  rw [parallelStep, h]
  exact ⟨rfl, rfl⟩

/-- The two paths stay together as long as what is skipped leaves no trace. -/
theorem parallelRefines_of_idle {o : OverlayStore base} {ops : List UserOperation}
    (h : ∀ r ∈ executeBlockSequential E X o ops height,
      prevalidate E X o height r.op = none → Idle E X r.before r.op height) :
    ParallelRefines E X o ops height := by
  refine (runSteps_same ExecutionReceipt.success
    (R := fun (t t' : OverlayStore base) => t.entries = t'.entries) _ _ rfl ?_).symm
  intro r hr t' ht
  cases hpre : prevalidate E X o height r.op with
  | none =>
    obtain ⟨hsuccess, hstore⟩ := parallelStep_of_none t' hpre
    obtain ⟨hfail, hkept⟩ := h r hr hpre
    rw [hsuccess, hstore]
    exact ⟨hfail, hkept.trans ht⟩
  | some name =>
    obtain ⟨hsuccess, hstore⟩ := parallelStep_of_some t' hpre
    rw [hsuccess, hstore]
    exact (sameEntries_frame.executeOperation_of_reads height ht fun _ _ => trivial).imp_left
      (congrArg ExecutionReceipt.success)

/-- Where the paths agree on a list and on one operation more, a skipped
operation leaves no trace. -/
theorem idle_of_parallelRefines {o : OverlayStore base} {l : List UserOperation} (hl : ParallelRefines E X o l height)
    (hnext : ParallelRefines E X o (l ++ [op]) height)
    (hpre : prevalidate E X o height op = none) :
    Idle E X (finalStore o (executeBlockSequential E X o l height)) op height := by
  obtain ⟨hentries, hflags⟩ := hl
  obtain ⟨hentries', hflags'⟩ := hnext
  simp only [executeBlockSequential, executeBlockParallel, runSteps_append, finalStore_append,
    List.map_append] at hentries hflags hentries' hflags' ⊢
  obtain ⟨hsuccess, hstore⟩ := parallelStep_of_none
    (finalStore o (runSteps (parallelStep E X o height) l o)) hpre
  constructor
  · have hlast := List.append_inj_right hflags' (by rw [hflags])
    exact (List.cons.inj hlast).1.trans hsuccess
  · refine Eq.trans hentries' (Eq.trans ?_ hentries.symm)
    exact congrArg OverlayStore.entries hstore

/-- The parallel path agrees with the sequential one, on a list of operations
and on each initial part of it, exactly if no early check is stale. -/
theorem parallel_refines_iff (E : Platform) (X : BlockExecutor) (o : OverlayStore base)
    (ops : List UserOperation) (height : Nat) :
    (∀ l, l <+: ops → ParallelRefines E X o l height) ↔ NoStaleCheck E X o ops height := by
  constructor
  · intro h r hr hpre
    obtain ⟨l, l', hops, hbefore⟩ := mem_runSteps hr
    have hnext : l ++ [r.op] <+: ops := ⟨l', by rw [hops]; simp⟩
    have hidle := idle_of_parallelRefines (h l ((List.prefix_append l [r.op]).trans hnext))
      (h _ hnext) hpre
    rw [hbefore]
    exact (idle_iff (isSystemAuthorized_of_prevalidate hpre)).mp hidle
  · rintro h l ⟨l', rfl⟩
    refine parallelRefines_of_idle fun r hr hpre => ?_
    refine (idle_iff (isSystemAuthorized_of_prevalidate hpre)).mpr (h r ?_ hpre)
    rw [executeBlockSequential, runSteps_append]
    exact List.mem_append_left _ hr

/-! ## A key change in the same block -/

/-- `alice` hands the account over to the key of `bob`. -/
def handOver : UserOperation :=
  signWith alice 0#64
    { sender := alice
      nonce := 0#64
      actions := [.setAuth [.ed25519 bob]]
      maxFee := 0#128
      signature := [] }

/-- The first operation under the new key. -/
def withNewKey : UserOperation :=
  signWith bob 0#64
    { sender := alice
      nonce := 1#64
      actions := []
      maxFee := 0#128
      signature := [] }

/-- The early check sees the old key: the parallel path skips an operation that
its predecessor in the block makes valid. -/
theorem not_parallelRefines_handOver :
    ¬ ParallelRefines concretePlatform {}
      (OverlayStore.new (singleAccount alice (keyAccount alice 0#128))) [handOver, withNewKey]
      1 :=
  fun h => absurd h.2 (by decide +kernel)

end Solen
