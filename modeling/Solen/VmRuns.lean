import Solen.CallStates

/-!
# The runs of the virtual machine in a call tree

Every frame of a call tree runs its contract at most once, with what is
left of the fuel of the whole tree. `vmRuns` lists these runs, in order,
with the fuel each is given and what it returns. Given a virtual machine
that keeps to its fuel and to its sixteen queued calls, neither the fuel
nor the number of calls can grow with the depth of the tree
(`callTree_bounded`).
-/

namespace Solen

open Machine Prog

variable {base : Store}

/-- One run of the virtual machine. -/
structure VmRun where
  fuel : U64
  result : Except VmError ExecutionResult

/-- The fuel a run consumes. One that fails does not report it, and may
have used up all it was given. -/
def VmRun.consumed (r : VmRun) : Nat :=
  match r.result with
  | .ok result => result.gasUsed.toNat
  | .error _ => r.fuel.toNat

def consumedBy (runs : List VmRun) : Nat := (runs.map VmRun.consumed).sum

theorem consumedBy_append (runs runs' : List VmRun) :
    consumedBy (runs ++ runs') = consumedBy runs + consumedBy runs' := by
  rw [consumedBy, List.map_append, List.sum_append]
  rfl

/-! ## The run of one frame -/

section

variable (E : Platform)

/-- The run of a contract with the given account record. -/
def contractRun (height : Nat) (caller target : AccountId) (method args : Bytes)
    (msgValue : U128) (account : Account) (s : ExecState base) : Option VmRun :=
  match loadBytecode account.codeHash s with
  | none => none
  | some bytecode =>
      if s.fuelBudget = 0#64 then none
      else
        let ctx : HostContext :=
          { caller := caller
            contractId := target
            blockHeight := height
            storage := loadContractStorage target s
            msgValue := msgValue
            selfBalance := account.balance }
        let fuel := umin s.fuelBudget maxFuelPerCall
        some ⟨fuel, E.vmExecute account.codeHash bytecode (method ++ 0 :: args) ctx fuel⟩

/-- What a contract does with the result of its run. -/
def commitResult (target : AccountId) (result : ExecutionResult) : ExecM base Unit := do
  onState (saveContractStorage E target result.storage)
  each (nativeTransfer E target) result.nativeTransfers
  each (fun e => emit ⟨target, e.topic, e.data⟩) result.events

/-- The run of a frame, if it gets to one. -/
def frameRun (height : Nat) (policy : Option SubcallPolicy) (left : Nat)
    (caller target : AccountId) (method args : Bytes) (msgValue : U128) (s : ExecState base) :
    Option VmRun :=
  match (if left < maxCallDepth then policy.bind (·.refusal target method) else none) with
  | some _ => none
  | none =>
      if System.isSystemContract target then none
      else
        match loadAccount E target s with
        | .ok (some account) =>
            if account.codeHash = Hash.zero then none
            else contractRun E height caller target method args msgValue account s
        | _ => none

end

/-- A run of the virtual machine of `E` that the budget of `s` pays for. -/
def VmRun.Paid (E : Platform) (s : ExecState base) (r : VmRun) : Prop :=
  r.fuel ≤ s.fuelBudget ∧
    ∃ codeHash code input ctx, r.result = E.vmExecute codeHash code input ctx r.fuel

/-- Everything that opening a frame in `s` can lead to, given the run of
the frame: a refusal that leaves the state alone, a system call, a call to
an account without code, or a run whose result is committed. -/
inductive Opened (E : Platform) (caller target : AccountId) (method args : Bytes)
    (s : ExecState base) (run : Option VmRun) :
    Except ExecutionError (U64 × List PendingCall) × ExecState base → Prop
  | refused (e : ExecutionError)
      (hrun : ∀ r, run = some r → r.Paid E s ∧ ∃ err, r.result = .error err) :
      Opened E caller target method args s run (.error e, s)
  | system (hsys : System.isSystemContract target = true) (hrun : run = none) :
      Opened E caller target method args s run
        ((do
          let gas ← dispatchSystemCall E caller target method args
          pure (gas, []) : ExecM base _).run s)
  | noCode (hsys : System.isSystemContract target = false) (hrun : run = none)
      (topic data : Bytes) :
      Opened E caller target method args s run
        (.ok (callBaseGas, []), { s with events := s.events ++ [⟨target, topic, data⟩] })
  | code (hsys : System.isSystemContract target = false) {r : VmRun} (hrun : run = some r)
      (hpaid : r.Paid E s) {result : ExecutionResult} (hresult : r.result = .ok result) :
      Opened E caller target method args s run
        ((do
          commitResult E target result
          pure (callBaseGas + result.gasUsed, result.pendingCalls) : ExecM base _).run
            { s with fuelBudget := satSub s.fuelBudget result.gasUsed })

section

variable {E : Platform} {height : Nat} {policy : Option SubcallPolicy}

theorem umin_le_left {w : Nat} (a b : BitVec w) : umin a b ≤ a := by
  rw [BitVec.le_def, toNat_umin]
  exact Nat.min_le_left _ _

theorem opened_runContract (caller : AccountId) {target : AccountId}
    (hsys : System.isSystemContract target = false) (method args : Bytes) (msgValue : U128)
    (account : Account) (s : ExecState base) :
    Opened E caller target method args s
      (contractRun E height caller target method args msgValue account s)
      ((do
        let result ← runContract E height caller target method args msgValue account
        pure (callBaseGas + result.gasUsed, result.pendingCalls) : ExecM base _).run s) := by
  unfold runContract contractRun
  cases hcode : loadBytecode account.codeHash s with
  | none =>
    rw [bind_assoc, run_reads_bind, hcode]
    exact .refused _ nofun
  | some bytecode =>
    rw [bind_assoc, run_reads_bind, hcode]
    dsimp only
    rw [bind_assoc, run_reads_bind, bind_assoc, run_reads_bind,
      bind_assoc]
    by_cases hfuel : s.fuelBudget = 0#64
    · rw [if_pos hfuel, run_bind_error (run_stopIf_pos hfuel)]
      exact .refused _ nofun
    rw [if_neg hfuel, run_bind_ok (run_stopIf_neg hfuel)]
    have hpaid : VmRun.Paid E s ⟨umin s.fuelBudget maxFuelPerCall,
        E.vmExecute account.codeHash bytecode (method ++ 0 :: args)
          { caller := caller, contractId := target, blockHeight := height,
            storage := loadContractStorage target s, msgValue := msgValue,
            selfBalance := account.balance } (umin s.fuelBudget maxFuelPerCall)⟩ :=
      ⟨umin_le_left _ _, _, _, _, _, rfl⟩
    generalize E.vmExecute account.codeHash bytecode (method ++ 0 :: args) _ _ = outcome
      at hpaid ⊢
    cases outcome with
    | error err =>
      have hfails : ∀ r, some (VmRun.mk (umin s.fuelBudget maxFuelPerCall) (.error err)) =
          some r → r.Paid E s ∧ ∃ err, r.result = .error err := by
        rintro r ⟨rfl⟩
        exact ⟨hpaid, err, rfl⟩
      cases err <;> exact .refused _ hfails
    | ok result =>
      have hcommit : Opened E caller target method args s (some _) _ :=
        .code hsys rfl hpaid rfl
      rw [commitResult] at hcommit
      simp only [bind_assoc] at hcommit ⊢
      exact hcommit

theorem opened_openFrame (left : Nat) (caller target : AccountId) (method args : Bytes)
    (msgValue : U128) (s : ExecState base) :
    Opened E caller target method args s
      (frameRun E height policy left caller target method args msgValue s)
      ((openFrame E height policy left caller target method args msgValue).run s) := by
  unfold openFrame frameRun
  generalize (if left < maxCallDepth then policy.bind (·.refusal target method) else none) = r
  cases r with
  | some msg => exact .refused _ fun _ h => by cases h
  | none =>
    dsimp only
    by_cases hsys : System.isSystemContract target = true
    · rw [if_pos hsys, if_pos hsys]
      exact .system hsys rfl
    rw [if_neg hsys, if_neg hsys]
    have hsys : System.isSystemContract target = false := eq_false_of_ne_true hsys
    cases hload : loadAccount E target s with
    | error e =>
      have hstop : (onState (requireAccount E target) : ExecM base _).run s =
          (.error (.state e), s) := by
        rw [onState, run_mapError, requireAccount, run_bind, run_getAccount, hload]
      rw [run_bind_error hstop]
      exact .refused _ fun _ h => by cases h
    | ok o =>
      cases o with
      | none =>
        have hstop : (onState (requireAccount E target) : ExecM base _).run s =
            (.error (.state (.accountNotFound (hexEncode target.bytes))), s) := by
          rw [onState, run_mapError, requireAccount, run_bind, run_getAccount, hload]
          rfl
        rw [run_bind_error hstop]
        exact .refused _ fun _ h => by cases h
      | some account =>
        have hfound : (onState (requireAccount E target) : ExecM base _).run s =
            (.ok account, s) := by
          rw [onState, run_mapError, run_requireAccount_of_some hload]
        rw [run_bind_ok hfound]
        dsimp only
        by_cases hcode : account.codeHash = Hash.zero
        · rw [if_pos hcode, if_pos hcode]
          exact .noCode hsys rfl _ _
        · rw [if_neg hcode, if_neg hcode]
          exact opened_runContract caller hsys method args msgValue account s

end

/-- A call is opened as a frame in the state in which it is noted. -/
theorem opened_openCall (E : Platform) (height : Nat) (policy : Option SubcallPolicy) (left : Nat)
    (caller target : AccountId) (method args : Bytes) (msgValue : U128) (s : ExecState base) :
    Opened E caller target method args (noteCall target s)
      (frameRun E height policy left caller target method args msgValue (noteCall target s))
      ((openCall E height policy left caller target method args msgValue).run s) :=
  opened_openFrame left caller target method args msgValue (noteCall target s)

/-! ## The runs of a tree -/

section

variable (E : Platform)

/-- The runs below a queue, as far as it is run. -/
def pendingRuns (call : PendingCall → ExecM base U64)
    (runs : PendingCall → ExecState base → List VmRun) :
    List PendingCall → ExecState base → List VmRun
  | [], _ => []
  | p :: ps, s =>
      runs p s ++
        match (call p).run s with
        | (.ok _, s') => pendingRuns call runs ps s'
        | (.error _, _) => []

/-- The runs of the virtual machine that `dispatchContractCall` makes from
`s`, in order. -/
def vmRuns (height : Nat) (policy : Option SubcallPolicy) :
    Nat → AccountId → AccountId → Bytes → Bytes → U128 → ExecState base → List VmRun
  | 0, _, _, _, _, _, _ => []
  | left + 1, caller, target, method, args, msgValue, s =>
      (frameRun E height policy left caller target method args msgValue (noteCall target s)).toList ++
        match (openCall E height policy left caller target method args msgValue).run s with
        | (.ok opened, s') =>
            pendingRuns
              (fun p => dispatchContractCall E height policy left target p.target p.method
                p.args 0#128)
              (fun p => vmRuns height policy left target p.target p.method p.args 0#128)
              opened.2 s'
        | (.error _, _) => []

end

/-! ## Fuel -/

/-- A virtual machine that reports no more fuel than it was given and queues
at most sixteen calls. -/
structure VmBounded (E : Platform) : Prop where
  fuel : ∀ {codeHash code input ctx fuel result},
    E.vmExecute codeHash code input ctx fuel = .ok result → result.gasUsed ≤ fuel
  queue : ∀ {codeHash code input ctx fuel result},
    E.vmExecute codeHash code input ctx fuel = .ok result → result.pendingCalls.length ≤ 16

/-- The program takes `n` units of fuel off the budget, and never more than
there are. -/
def Spends {α : Type} (n : Nat) (m : ExecM base α) (s : ExecState base) : Prop :=
  n ≤ s.fuelBudget.toNat ∧
    ∀ a s', m.run s = (.ok a, s') → n + s'.fuelBudget.toNat ≤ s.fuelBudget.toNat

section

variable {E : Platform} {height : Nat} {policy : Option SubcallPolicy}

/-- Saving records and accounts leaves the budget alone. -/
theorem budgetFrame (E : Platform) (b : U64) :
    AccountFrame E (fun s : ExecState base => s.fuelBudget = b) fun _ => True where
  put _ _ hs := hs
  save _ hs := hs
  load _ _ := trivial
  fresh _ _ := trivial
  edit _ _ _ _ := trivial

theorem budgetFrame_contract (E : Platform) (contract : AccountId) (b : U64) :
    ContractFrame E contract (fun s : ExecState base => s.fuelBudget = b) fun _ => True where
  put _ _ hs := hs
  save _ hs := hs
  load _ _ := trivial
  balance _ _ := trivial
  emit _ _ hs := hs

theorem dispatchSystemCall_budget (caller target : AccountId) (method args : Bytes) (b : U64) :
    Keeps (fun s : ExecState base => s.fuelBudget = b)
      (dispatchSystemCall E caller target method args) fun _ => True := by
  have hcall : KeepsCall E (fun s : ExecState base => s.fuelBudget = b) fun _ _ _ => True :=
    fun _ caller target method args _ hs =>
      (budgetFrame E b).executeSystemCall hs caller target method args
  exact ActionFrame.dispatchSystemCall hcall caller fun _ _ => trivial

end

theorem ContractFrame.commitResult {E : Platform} {contract : AccountId}
    {I : ExecState base → Prop} {Good : Account → Prop} (F : ContractFrame E contract I Good)
    {result : ExecutionResult}
    (hnew : ∀ t ∈ result.nativeTransfers, Creatable E I Good t.dest) :
    Keeps I (commitResult E contract result) fun _ => True := by
  refine Keeps.seq (F.saveContractStorage _).mapError fun _ => ?_
  refine Keeps.seq (Keeps.each fun t ht => F.nativeTransfer (hnew t ht)) fun _ => ?_
  exact Keeps.each fun e _ => F.note _ _

section

variable {E : Platform} {height : Nat} {policy : Option SubcallPolicy}

/-- A frame pays for its run, and queues at most sixteen calls. -/
theorem Opened.spends (hvm : VmBounded E) {caller target : AccountId} {method args : Bytes}
    {s : ExecState base} {run : Option VmRun}
    {outcome : Except ExecutionError (U64 × List PendingCall) × ExecState base}
    (h : Opened E caller target method args s run outcome) :
    consumedBy run.toList ≤ s.fuelBudget.toNat ∧
      ∀ opened s', outcome = (.ok opened, s') →
        consumedBy run.toList + s'.fuelBudget.toNat ≤ s.fuelBudget.toNat ∧
          opened.2.length ≤ 16 := by
  cases h with
  | refused e hrun =>
    refine ⟨?_, nofun⟩
    cases run with
    | none => exact Nat.zero_le _
    | some r =>
      obtain ⟨⟨hfuel, -⟩, err, herr⟩ := hrun r rfl
      have hle : r.fuel.toNat ≤ s.fuelBudget.toNat := hfuel
      simp only [consumedBy, Option.toList_some, List.map_cons, List.map_nil, List.sum_cons,
        List.sum_nil, VmRun.consumed, herr]
      omega
  | system hsys hrun =>
    subst hrun
    refine ⟨Nat.zero_le _, fun opened s' hok => ?_⟩
    obtain ⟨gas, s₁, hcall, hpure⟩ := run_bind_eq_ok.mp hok
    cases hpure
    have hbudget : s'.fuelBudget = s.fuelBudget :=
      (dispatchSystemCall_budget caller target method args s.fuelBudget).after rfl hcall
    rw [hbudget]
    exact ⟨Nat.le_of_eq (Nat.zero_add _), Nat.zero_le _⟩
  | noCode hsys hrun topic data =>
    subst hrun
    refine ⟨Nat.zero_le _, fun opened s' hok => ?_⟩
    cases hok
    exact ⟨Nat.le_of_eq (Nat.zero_add _), Nat.zero_le _⟩
  | code hsys hrun hpaid hresult =>
    next r result =>
    subst hrun
    obtain ⟨hfuel, codeHash, code, input, ctx, hexec⟩ := hpaid
    rw [hresult] at hexec
    have hgas : result.gasUsed.toNat ≤ r.fuel.toNat := hvm.fuel hexec.symm
    have hle : r.fuel.toNat ≤ s.fuelBudget.toNat := hfuel
    have hconsumed : consumedBy (some r).toList = result.gasUsed.toNat := by
      simp only [consumedBy, Option.toList_some, List.map_cons, List.map_nil, List.sum_cons,
        List.sum_nil, VmRun.consumed, hresult, Nat.add_zero]
    rw [hconsumed]
    refine ⟨hgas.trans hle, fun opened s' hok => ?_⟩
    obtain ⟨⟨⟩, s₁, hcommit, hpure⟩ := run_bind_eq_ok.mp hok
    cases hpure
    refine ⟨?_, hvm.queue hexec.symm⟩
    have hbudget : s'.fuelBudget = satSub s.fuelBudget result.gasUsed :=
      ((budgetFrame_contract E target _).commitResult fun _ _ _ _ _ => trivial).after rfl hcommit
    rw [hbudget, toNat_satSub]
    omega

theorem spends_runPending {call : PendingCall → ExecM base U64}
    {runs : PendingCall → ExecState base → List VmRun}
    (h : ∀ p s, Spends (consumedBy (runs p s)) (call p) s) (ps : List PendingCall) (total : U64)
    (s : ExecState base) :
    Spends (consumedBy (pendingRuns call runs ps s)) (runPending call ps total) s := by
  induction ps generalizing total s with
  | nil =>
    refine ⟨Nat.zero_le _, fun a s' hok => ?_⟩
    cases hok
    exact Nat.le_of_eq (Nat.zero_add _)
  | cons p ps ih =>
    obtain ⟨hle, hok⟩ := h p s
    rw [pendingRuns, runPending, consumedBy_append]
    rcases hrun : (call p).run s with ⟨e | gas, s₁⟩
    · refine ⟨hle, fun a s' h' => ?_⟩
      rw [run_bind_error hrun] at h'
      cases h'
    · have hfirst := hok gas s₁ hrun
      obtain ⟨hle', hok'⟩ := ih (satAdd total gas) s₁
      dsimp only
      refine ⟨by omega, fun a s' h' => ?_⟩
      rw [run_bind_ok hrun] at h'
      have hrest := hok' a s' h'
      omega

/-- By induction on the frames that may still be opened: the runs of a tree
are paid for from one budget. -/
theorem spends_dispatchContractCall (hvm : VmBounded E) (left : Nat) (caller target : AccountId)
    (method args : Bytes) (msgValue : U128) (s : ExecState base) :
    Spends (consumedBy (vmRuns E height policy left caller target method args msgValue s))
      (dispatchContractCall E height policy left caller target method args msgValue) s := by
  induction left generalizing caller target method args msgValue s with
  | zero => exact ⟨Nat.zero_le _, nofun⟩
  | succ left ih =>
    obtain ⟨hle, hok⟩ := (opened_openCall E height policy left caller target method args msgValue
      s).spends hvm
    rw [dispatchContractCall_succ, vmRuns, consumedBy_append]
    rcases hrun : (openCall E height policy left caller target method args msgValue).run s with
      ⟨e | opened, s₁⟩
    · refine ⟨hle, fun a s' h' => ?_⟩
      rw [run_bind_error hrun] at h'
      cases h'
    · have hfirst := (hok opened s₁ hrun).1
      obtain ⟨hle', hok'⟩ := spends_runPending (fun p s => ih target p.target p.method p.args 0#128 s)
        opened.2 opened.1 s₁
      have hnote : (noteCall target s).fuelBudget = s.fuelBudget := rfl
      rw [hnote] at hfirst
      dsimp only
      refine ⟨by omega, fun a s' h' => ?_⟩
      rw [run_bind_ok hrun] at h'
      have hrest := hok' a s' h'
      omega

/-! ## The number of calls -/

/-- How many calls a tree of this many frames can have: one, and sixteen
trees that are one frame lower. -/
def treeSize : Nat → Nat
  | 0 => 0
  | left + 1 => 1 + 16 * treeSize left

theorem treeSize_eq (left : Nat) : treeSize left = (16 ^ left - 1) / 15 := by
  have hgeom : 15 * treeSize left + 1 = 16 ^ left := by
    induction left with
    | zero => rfl
    | succ left ih =>
      rw [treeSize, Nat.pow_succ, ← ih]
      omega
  omega

theorem length_pendingTree_le (call : PendingCall → ExecM base U64)
    {tree : PendingCall → ExecState base → List TreeCall} {n : Nat}
    (h : ∀ p s, (tree p s).length ≤ n) (ps : List PendingCall) (s : ExecState base) :
    (pendingTree call tree ps s).length ≤ ps.length * n := by
  induction ps generalizing s with
  | nil => exact Nat.zero_le _
  | cons p ps ih =>
    have hp := h p s
    rw [pendingTree, List.length_append, List.length_cons, Nat.succ_mul]
    rcases (call p).run s with ⟨e | gas, s'⟩
    · dsimp only [List.length_nil]
      omega
    · have hrest := ih s'
      dsimp only
      omega

theorem length_callTree_le (hvm : VmBounded E) (left : Nat) (caller target : AccountId)
    (method args : Bytes) (msgValue : U128) (s : ExecState base) :
    (callTree E height policy left caller target method args msgValue s).length ≤
      treeSize left := by
  induction left generalizing caller target method args msgValue s with
  | zero => exact Nat.le_refl _
  | succ left ih =>
    obtain ⟨-, hok⟩ := (opened_openCall E height policy left caller target method args msgValue
      s).spends hvm
    rw [callTree, treeSize, List.length_cons]
    rcases hrun : (openCall E height policy left caller target method args msgValue).run s with
      ⟨e | opened, s₁⟩
    · dsimp only [List.length_nil]
      omega
    · have hqueue := (hok opened s₁ hrun).2
      have hrest := length_pendingTree_le
        (fun p => dispatchContractCall E height policy left target p.target p.method p.args 0#128)
        (fun p s => ih target p.target p.method p.args 0#128 s) opened.2 s₁
      have hmul := Nat.mul_le_mul_right (treeSize left) hqueue
      dsimp only
      omega

end

/-- The whole tree of a call is run with the fuel of 64 full calls, and has
no more than 1 + 16 + ... + 16^8 calls. -/
theorem callTree_bounded (E : Platform) (hvm : VmBounded E) (height : Nat)
    (policy : Option SubcallPolicy) (sender target : AccountId) (method : String) (args : Bytes)
    (msgValue : U128) (s : ExecState base) :
    ∃ r s', (callAction E height policy sender target method args msgValue).run s = (r, s') ∧
      consumedBy (vmRuns E height policy (maxCallDepth + 1) sender target (asBytes method) args
        msgValue { s with fuelBudget := maxCallTreeFuel }) ≤ 64000000 ∧
      s'.calls.length ≤ s.calls.length + (16 ^ 9 - 1) / 15 := by
  set s₀ := { s with fuelBudget := maxCallTreeFuel }
  have hrun : (callAction E height policy sender target method args msgValue).run s =
      (dispatchContractCall E height policy (maxCallDepth + 1) sender target (asBytes method) args
        msgValue).run s₀ := by
    rw [callAction, run_bind_ok (run_modify _ _)]
  have hsize : (callTree E height policy (maxCallDepth + 1) sender target (asBytes method) args
      msgValue s₀).length ≤ treeSize (maxCallDepth + 1) :=
    length_callTree_le hvm _ _ _ _ _ _ _
  have hcalls : ((dispatchContractCall E height policy (maxCallDepth + 1) sender target
      (asBytes method) args msgValue).run s₀).2.calls = s.calls ++ (callTree E height policy
        (maxCallDepth + 1) sender target (asBytes method) args msgValue s₀).map (·.target) :=
    calls_callTree _ _ _ _ _ _ _
  rcases hout : (dispatchContractCall E height policy (maxCallDepth + 1) sender target
      (asBytes method) args msgValue).run s₀ with ⟨r, s'⟩
  rw [hout] at hrun hcalls
  refine ⟨r, s', hrun, ?_, ?_⟩
  · exact (spends_dispatchContractCall hvm _ _ _ _ _ _ s₀).1
  · rw [hcalls, List.length_append, List.length_map]
    rw [treeSize_eq] at hsize
    exact Nat.add_le_add_left hsize _

/-- Every contract uses up its fuel, and has the teller called sixteen times
when it is asked to. -/
def callingPlatform : Platform :=
  { contractPlatform with
    vmExecute := fun _ _ input ctx fuel => .ok
      { gasUsed := fuel
        events := []
        storage := ctx.storage
        nativeTransfers := []
        pendingCalls :=
          if input = ascii "call" ++ [0] then List.replicate 16 ⟨teller, [], []⟩ else [] } }

theorem vmBounded_callingPlatform : VmBounded callingPlatform := by
  constructor
  · rintro _ _ _ _ _ _ ⟨⟩
    exact BitVec.le_refl _
  · rintro _ _ _ _ _ _ ⟨⟩
    dsimp only
    split <;> simp

theorem callTree_bounded_calling :
    let s : ExecState (contractStore (keyAccount alice 50#128)) := { store := OverlayStore.new _ }
    VmBounded callingPlatform ∧ ∃ r s',
      (callAction callingPlatform 1 none alice teller "call" [] 0#128).run s = (r, s') ∧
        r.isOk = true ∧
        consumedBy (vmRuns callingPlatform 1 none (maxCallDepth + 1) alice teller
          (asBytes "call") [] 0#128 { s with fuelBudget := maxCallTreeFuel }) = 17000000 ∧
        s'.calls = List.replicate 17 teller ∧ 17000000 ≤ 64000000 ∧ 17 ≤ (16 ^ 9 - 1) / 15 := by
  intro s
  obtain ⟨r, s', hrun, hfuel, hcalls⟩ := callTree_bounded callingPlatform
    vmBounded_callingPlatform 1 none alice teller "call" [] 0#128 s
  have hconsumed : consumedBy (vmRuns callingPlatform 1 none (maxCallDepth + 1) alice teller
      (asBytes "call") [] 0#128 { s with fuelBudget := maxCallTreeFuel }) = 17000000 := by
    decide +kernel
  have hmade : ((callAction callingPlatform 1 none alice teller "call" [] 0#128).run s).2.calls =
      List.replicate 17 teller := by decide +kernel
  have hok : ((callAction callingPlatform 1 none alice teller "call" [] 0#128).run
      s).1.isOk = true := by decide +kernel
  rw [hrun] at hmade hok
  rw [hconsumed] at hfuel
  rw [hmade, List.length_replicate] at hcalls
  change 17 ≤ 0 + (16 ^ 9 - 1) / 15 at hcalls
  rw [Nat.zero_add] at hcalls
  exact ⟨vmBounded_callingPlatform, r, s', hrun, hok, hconsumed, hmade, hfuel, hcalls⟩

end Solen
