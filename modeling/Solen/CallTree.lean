import Solen.ExecFrame
import Solen.Session

/-!
# The call tree of an operation

A call to a contract may queue further calls, and these again, so one
operation runs a whole tree of calls. `operationTree` lists them with their
methods; its targets are the calls the executor notes down itself
(`calls_operationTree`). A session key with `restrict_subcalls` confines
every one of them to its lists.
-/

namespace Solen

open Machine Prog

variable {sender target : AccountId} {args : Bytes} {method : String} {msgValue : U128}

variable {base : Store}

/-! ## The tree -/

structure TreeCall where
  target : AccountId
  method : Bytes
deriving DecidableEq

section

variable (E : Platform)

/-- One call, once it is noted, up to the calls it queues: the gas it has used
and the queue. -/
def openFrame (height : Nat) (policy : Option SubcallPolicy) (left : Nat)
    (caller target : AccountId) (method args : Bytes) (msgValue : U128) :
    ExecM base (U64 × List PendingCall) :=
  match (if left < maxCallDepth then policy.bind (·.refusal target method) else none) with
  | some msg => stop (refused msg)
  | none =>
      if System.isSystemContract target then do
        let gas ← dispatchSystemCall E caller target method args
        pure (gas, [])
      else do
        let account ← onState (requireAccount E target)
        if account.codeHash = Hash.zero then do
          emit ⟨target, asBytes s!"call:{fromUtf8Lossy method}", args⟩
          pure (callBaseGas, [])
        else do
          let result ← runContract E height caller target method args msgValue account
          pure (callBaseGas + result.gasUsed, result.pendingCalls)

def openCall (height : Nat) (policy : Option SubcallPolicy) (left : Nat)
    (caller target : AccountId) (method args : Bytes) (msgValue : U128) :
    ExecM base (U64 × List PendingCall) := do
  recordCall target
  openFrame E height policy left caller target method args msgValue

/-- The calls below a queue, as far as it is run. -/
def pendingTree (call : PendingCall → ExecM base U64)
    (tree : PendingCall → ExecState base → List TreeCall) :
    List PendingCall → ExecState base → List TreeCall
  | [], _ => []
  | p :: ps, s =>
      tree p s ++
        match (call p).run s with
        | (.ok _, s') => pendingTree call tree ps s'
        | (.error _, _) => []

/-- The calls that `dispatchContractCall` makes from `s`, in order. -/
def callTree (height : Nat) (policy : Option SubcallPolicy) :
    Nat → AccountId → AccountId → Bytes → Bytes → U128 → ExecState base → List TreeCall
  | 0, _, _, _, _, _, _ => []
  | left + 1, caller, target, method, args, msgValue, s =>
      ⟨target, method⟩ ::
        match (openCall E height policy left caller target method args msgValue).run s with
        | (.ok opened, s') =>
            pendingTree
              (fun p => dispatchContractCall E height policy left target p.target p.method
                p.args 0#128)
              (fun p => callTree height policy left target p.target p.method p.args 0#128)
              opened.2 s'
        | (.error _, _) => []

def actionTree (height : Nat) (policy : Option SubcallPolicy) (sender : AccountId)
    (msgValue : U128) (s : ExecState base) : Action → List TreeCall
  | .call target method args =>
      if System.isSystemContract target then [⟨target, asBytes method⟩]
      else
        callTree E height policy (maxCallDepth + 1) sender target (asBytes method) args msgValue
          { s with fuelBudget := maxCallTreeFuel }
  | _ => []

def actionsTree (height : Nat) (policy : Option SubcallPolicy) (sender : AccountId) :
    List Action → PendingTransfers → ExecState base → List TreeCall
  | [], _, _ => []
  | action :: rest, pending, s =>
      actionTree E height policy sender (takeMsgValue pending action).1 s action ++
        match (operationAction E height policy sender (takeMsgValue pending action).1 action).run s
          with
        | (.ok _, s') => actionsTree height policy sender rest (takeMsgValue pending action).2 s'
        | (.error _, _) => []

/-- The state in which the actions of an operation start. -/
def reservedState (op : UserOperation) (o : OverlayStore base) : ExecState base :=
  ((reserveFee E op : Prog (ExecState base) Empty U128).run { store := o }).2

/-- The calls of a whole operation. -/
def operationTree (X : BlockExecutor) (o : OverlayStore base) (op : UserOperation)
    (height : Nat) : List TreeCall :=
  match precheck E op, (validateAndPrepare E X op height).run o with
  | none, (.ok prepared, o') =>
      actionsTree E height prepared.subcallPolicy op.sender op.actions ∅ (reservedState E op o')
  | _, _ => []

end

/-! ## The tree is what the executor runs -/

section

variable {E : Platform} {height : Nat} {policy : Option SubcallPolicy}

theorem dispatchContractCall_succ (left : Nat) (caller target : AccountId) (method args : Bytes)
    (msgValue : U128) :
    (dispatchContractCall E height policy (left + 1) caller target method args msgValue :
      ExecM base U64) =
      openCall E height policy left caller target method args msgValue >>= fun opened =>
        runPending (fun p => dispatchContractCall E height policy left target p.target p.method
          p.args 0#128) opened.2 opened.1 := by
  rw [dispatchContractCall, openCall, bind_assoc]
  refine congrArg _ (funext fun _ => ?_)
  unfold openFrame
  generalize (if left < maxCallDepth then policy.bind (·.refusal target method) else none) = r
  cases r with
  | some msg => rfl
  | none =>
    by_cases hsys : System.isSystemContract target = true
    · simp only [hsys, if_true, bind_assoc]
      exact (bind_pure _).symm
    · simp only [hsys, if_false, bind_assoc, Bool.false_eq_true]
      refine congrArg _ (funext fun account => ?_)
      by_cases hcode : account.codeHash = Hash.zero
      · simp only [hcode, if_true, bind_assoc]
        rfl
      · simp only [hcode, if_false, bind_assoc]
        rfl

/-- Opening a call notes its target and no other. -/
theorem calls_openCall (left : Nat) (caller target : AccountId) (method args : Bytes)
    (msgValue : U128) (s : ExecState base) :
    ((openCall E height policy left caller target method args msgValue).run s).2.calls =
      s.calls ++ [target] := by
  have F : LogFrame E (fun s' : ExecState base => s'.calls = s.calls ++ [target])
      fun _ => True := listsFrame E fun calls _ => calls = s.calls ++ [target]
  have hframe : Keeps (fun s' : ExecState base => s'.calls = s.calls ++ [target])
      (openFrame E height policy left caller target method args msgValue) fun _ => True := by
    unfold openFrame
    split
    · exact Keeps.stop
    refine Keeps.ite (fun _ => ?_) fun hsys => ?_
    · exact Keeps.done (F.dispatchSystemCall _ _ _ _)
    refine Keeps.seq (F.requireAccount target).mapError.triv fun account => ?_
    refine Keeps.ite (fun _ => Keeps.done (F.emit _)) fun _ => ?_
    have htarget : System.isSystemContract target = false := eq_false_of_ne_true hsys
    exact Keeps.done (F.runContract _ _ htarget _ _ _ _)
  exact (hframe { s with calls := s.calls ++ [target] } rfl).1

theorem calls_runPending {call : PendingCall → ExecM base U64}
    {tree : PendingCall → ExecState base → List TreeCall}
    (h : ∀ p s, ((call p).run s).2.calls = s.calls ++ (tree p s).map (·.target))
    (ps : List PendingCall) (total : U64) (s : ExecState base) :
    ((runPending call ps total).run s).2.calls =
      s.calls ++ (pendingTree call tree ps s).map (·.target) := by
  induction ps generalizing total s with
  | nil => exact (List.append_nil _).symm
  | cons p ps ih =>
    have hp := h p s
    rw [runPending, pendingTree, run_bind]
    rcases hrun : (call p).run s with ⟨e | gas, s'⟩
    · rw [hrun] at hp
      dsimp only at hp ⊢
      rw [hp, List.append_nil]
    · rw [hrun] at hp
      dsimp only at hp ⊢
      rw [ih, hp, List.map_append, List.append_assoc]

/-- By induction on the frames that may still be opened. -/
theorem calls_callTree (left : Nat) (caller target : AccountId) (method args : Bytes)
    (msgValue : U128) (s : ExecState base) :
    ((dispatchContractCall E height policy left caller target method args msgValue).run s).2.calls =
      s.calls ++ (callTree E height policy left caller target method args msgValue s).map
        (·.target) := by
  induction left generalizing caller target method args msgValue s with
  | zero => exact (List.append_nil _).symm
  | succ left ih =>
    have hopen : ((openCall E height policy left caller target method args msgValue).run
        s).2.calls = s.calls ++ [target] := calls_openCall _ _ _ _ _ _ _
    rw [dispatchContractCall_succ, callTree, run_bind]
    rcases hrun : (openCall E height policy left caller target method args msgValue).run s with
      ⟨e | opened, s'⟩
    · rw [hrun] at hopen
      exact hopen
    · rw [hrun] at hopen
      dsimp only at hopen ⊢
      rw [calls_runPending fun p s => ih _ _ _ _ _ s, hopen, List.map_cons, List.append_assoc]
      rfl

theorem calls_withGas (m : ExecM base U64) (s : ExecState base) :
    ((mapError ExecutionError.message m >>= fun gas => addGas gas).run s).2.calls =
      (m.run s).2.calls := by
  rw [run_bind, run_mapError]
  rcases m.run s with ⟨e | gas, s'⟩ <;> rfl

/-- An action that calls nothing leaves the list alone. -/
theorem calls_executeAction (sender : AccountId) (msgValue : U128) {action : Action}
    (hcall : ∀ target method args, action ≠ .call target method args) (s : ExecState base) :
    ((executeAction E height policy sender msgValue action).run s).2.calls = s.calls := by
  have F : LogFrame E (fun s' : ExecState base => s'.calls = s.calls) fun _ => True :=
    listsFrame E fun calls _ => calls = s.calls
  suffices h : Keeps (fun s' : ExecState base => s'.calls = s.calls)
      (executeAction E height policy sender msgValue action) fun _ => True from (h s rfl).1
  cases action with
  | transfer dest amount => exact F.transferAction _ _ _
  | call target method args => exact absurd rfl (hcall target method args)
  | setAuth authMethods => exact F.setAuthAction _ _
  | deploy code salt =>
    refine Keeps.seq Keeps.guard fun _ => Keeps.seq (F.storeBytecode _).mapError fun codeHash => ?_
    refine Keeps.seq ?_ fun _ => F.createContract _ _ trivial
    refine Keeps.seq (getAccount_keeps _).attempt.triv fun r => ?_
    split
    · exact Keeps.seq (Keeps.modify fun _ hs => hs) fun _ => Keeps.guard
    · exact Keeps.pure trivial

theorem calls_actionTree (sender : AccountId) (msgValue : U128) (action : Action)
    (s : ExecState base) :
    ((operationAction E height policy sender msgValue action).run s).2.calls =
      s.calls ++ (actionTree E height policy sender msgValue s action).map (·.target) := by
  cases action with
  | transfer dest amount =>
    refine (calls_withGas _ s).trans ?_
    rw [calls_executeAction _ _ (by rintro _ _ _ ⟨⟩)]
    exact (List.append_nil _).symm
  | setAuth authMethods =>
    refine (calls_withGas _ s).trans ?_
    rw [calls_executeAction _ _ (by rintro _ _ _ ⟨⟩)]
    exact (List.append_nil _).symm
  | deploy code salt =>
    refine (calls_withGas _ s).trans ?_
    rw [calls_executeAction _ _ (by rintro _ _ _ ⟨⟩)]
    exact (List.append_nil _).symm
  | call target method args =>
    unfold operationAction actionTree
    dsimp only
    split
    · have F : LogFrame E (fun s' : ExecState base => s'.calls = s.calls ++ [target])
          fun _ => True := listsFrame E fun calls _ => calls = s.calls ++ [target]
      have hcall : Keeps (fun s' : ExecState base => s'.calls = s.calls ++ [target])
          (do
            let r ← callSystem E sender target method args
            addGas r.gasUsed
            match r.error with
            | some e => stop e
            | none => pure () : Prog (ExecState base) String Unit) fun _ => True := by
        refine Keeps.seq (F.callSystem _ _ _ _) fun r => Keeps.seq (F.addGas _) fun _ => ?_
        split
        · exact Keeps.stop
        · exact Keeps.pure trivial
      exact (hcall { s with calls := s.calls ++ [target] } rfl).1
    · refine (calls_withGas _ s).trans ?_
      exact calls_callTree (maxCallDepth + 1) sender target (asBytes method) args msgValue
        { s with fuelBudget := maxCallTreeFuel }

theorem calls_actionsTree (sender : AccountId) (actions : List Action)
    (pending : PendingTransfers) (s : ExecState base) :
    ((operationActions E height policy sender actions pending).run s).2.calls =
      s.calls ++ (actionsTree E height policy sender actions pending s).map (·.target) := by
  induction actions generalizing pending s with
  | nil => exact (List.append_nil _).symm
  | cons action rest ih =>
    have hcalls : ((operationAction E height policy sender (takeMsgValue pending action).1
        action).run s).2.calls = s.calls ++ (actionTree E height policy sender
          (takeMsgValue pending action).1 s action).map (·.target) := calls_actionTree _ _ _ _
    rw [operationActions, actionsTree, run_bind]
    rcases hrun : (operationAction E height policy sender (takeMsgValue pending action).1
      action).run s with ⟨e | u, s'⟩
    · rw [hrun] at hcalls
      dsimp only at hcalls ⊢
      rw [hcalls, List.append_nil]
    · rw [hrun] at hcalls
      dsimp only at hcalls ⊢
      rw [ih, hcalls, List.map_append, List.append_assoc]

end

section

variable {E : Platform} {X : BlockExecutor} {op : UserOperation} {height : Nat}
  {policy : Option SubcallPolicy} {o : OverlayStore base}

/-- The reserve is taken without an error. -/
theorem run_reserveFee (o : OverlayStore base) :
    ∃ reserved, (reserveFee E op : Prog (ExecState base) String U128).run { store := o } =
      (.ok reserved, reservedState E op o) := by
  unfold reservedState
  rw [reserveFee, reserveFee, run_bind, run_bind, run_attempt, run_attempt, run_getAccount]
  rcases loadAccount E op.sender ({ store := o } : ExecState base) with e | (_ | a)
  · exact ⟨_, rfl⟩
  · exact ⟨_, rfl⟩
  · exact ⟨_, rfl⟩

theorem calls_reservedState (o : OverlayStore base) : (reservedState E op o).calls = [] := by
  have F : LogFrame E (fun s' : ExecState base => s'.calls = []) fun _ => True :=
    listsFrame E fun calls _ => calls = []
  have hkeep : Keeps (fun s' : ExecState base => s'.calls = [])
      (reserveFee E op : Prog (ExecState base) Empty U128) fun _ => True := F.reserveFee op
  exact (hkeep { store := o } rfl).1

/-- The reserve and the actions, run one after the other. -/
theorem run_reserveAndRun (o : OverlayStore base) :
    ∃ reserved, (reserveAndRun E op height policy).run { store := o } =
      match (operationActions E height policy op.sender op.actions ∅).run (reservedState E op o) with
      | (.ok _, s) => (.ok reserved, s)
      | (.error msg, s) => (.error msg, s) := by
  obtain ⟨reserved, hreserve⟩ : ∃ reserved, (reserveFee E op : Prog _ String U128).run
      { store := o } = (.ok reserved, reservedState E op o) := run_reserveFee o
  refine ⟨reserved, ?_⟩
  rw [reserveAndRun, run_bind_ok hreserve, run_bind]
  rcases (operationActions E height policy op.sender op.actions ∅).run (reservedState E op o) with
    ⟨e | u, s⟩ <;> rfl

/-- The targets of the tree are the calls the executor notes down. -/
theorem calls_operationTree (E : Platform) (X : BlockExecutor) (o : OverlayStore base)
    (op : UserOperation) (height : Nat) :
    (executeOperation E X o op height).calls =
      (operationTree E X o op height).map (·.target) := by
  unfold executeOperation operationTree
  cases precheck E op with
  | some msg => rfl
  | none =>
    rcases (validateAndPrepare E X op height).run o with ⟨e | prepared, o'⟩
    · rfl
    have hcalls : ((operationActions E height prepared.subcallPolicy op.sender op.actions ∅).run
        (reservedState E op o')).2.calls = (actionsTree E height prepared.subcallPolicy op.sender
          op.actions ∅ (reservedState E op o')).map (·.target) := by
      rw [calls_actionsTree, calls_reservedState, List.nil_append]
    obtain ⟨reserved, hrun⟩ : ∃ reserved, (reserveAndRun E op height
      prepared.subcallPolicy).run { store := o' } = _ := run_reserveAndRun o'
    dsimp only
    rw [executePrepared, hrun]
    rcases hactions : (operationActions E height prepared.subcallPolicy op.sender op.actions
      ∅).run (reservedState E op o') with ⟨msg | u, s⟩
    · rw [hactions] at hcalls
      exact hcalls
    · rw [hactions] at hcalls
      exact hcalls

end

/-! ## Confinement -/

/-- The call stays within the lists of a session; an empty list allows all. -/
def TreeCall.Within (targets : List AccountId) (methods : List String) (c : TreeCall) : Prop :=
  (targets ≠ [] → c.target ∈ targets) ∧ (methods ≠ [] → ∃ m ∈ methods, asBytes m = c.method)

theorem within_of_refusal {p : SubcallPolicy} {c : TreeCall}
    (h : p.refusal c.target c.method = none) : c.Within p.allowedTargets p.allowedMethods := by
  unfold SubcallPolicy.refusal at h
  split at h
  · cases h
  next htarget =>
    split at h
    · cases h
    next hmethod =>
      refine ⟨fun hne => ?_, fun hne => ?_⟩
      · exact not_not.mp fun hout => htarget ⟨hne, hout⟩
      · have hany : ¬ (p.allowedMethods.any fun m => asBytes m == c.method) = false :=
          fun hfalse => hmethod ⟨hne, hfalse⟩
        rw [Bool.not_eq_false, List.any_eq_true] at hany
        obtain ⟨m, hm, heq⟩ := hany
        exact ⟨m, hm, beq_iff_eq.mp heq⟩

section

variable {E : Platform} {height : Nat} {p : SubcallPolicy}

/-- A call below the outermost one that is opened has passed the policy. -/
theorem refusal_of_openCall {left : Nat} {caller : AccountId} {method : Bytes} {s s' : ExecState base} {opened : U64 × List PendingCall}
    (hleft : left < maxCallDepth)
    (h : (openCall E height (some p) left caller target method args msgValue).run s =
      (.ok opened, s')) : p.refusal target method = none := by
  obtain ⟨⟨⟩, s₁, -, h⟩ := run_bind_eq_ok.mp h
  unfold openFrame at h
  rw [if_pos hleft, Option.bind_some] at h
  cases hrefusal : p.refusal target method with
  | none => rfl
  | some msg =>
    rw [hrefusal] at h
    cases h

theorem pendingTree_forall {call : PendingCall → ExecM base U64}
    {tree : PendingCall → ExecState base → List TreeCall} {P : TreeCall → Prop}
    {ps : List PendingCall} {total gas : U64} {s s' : ExecState base}
    (hrun : (runPending call ps total).run s = (.ok gas, s'))
    (h : ∀ q s s' gas, (call q).run s = (.ok gas, s') → ∀ c ∈ tree q s, P c) :
    ∀ c ∈ pendingTree call tree ps s, P c := by
  induction ps generalizing total s with
  | nil => exact fun c hc => absurd hc List.not_mem_nil
  | cons q ps ih =>
    obtain ⟨gas₁, s₁, hq, hrest⟩ := run_bind_eq_ok.mp hrun
    intro c hc
    rw [pendingTree, hq] at hc
    rcases List.mem_append.mp hc with hc | hc
    · exact h q s s₁ gas₁ hq c hc
    · exact ih hrest c hc

/-- By induction on the frames that may still be opened: below the outermost
call everything has passed the policy. -/
theorem callTree_refusal {left : Nat} (hleft : left ≤ maxCallDepth) {caller : AccountId}
    {method : Bytes} {gas : U64} {s s' : ExecState base}
    (h : (dispatchContractCall E height (some p) left caller target method args msgValue).run s =
      (.ok gas, s')) :
    ∀ c ∈ callTree E height (some p) left caller target method args msgValue s,
      p.refusal c.target c.method = none := by
  induction left generalizing caller target method args msgValue gas s s' with
  | zero => exact fun c hc => absurd hc List.not_mem_nil
  | succ left ih =>
    rw [dispatchContractCall_succ] at h
    obtain ⟨opened, s₁, hopen, hpending⟩ := run_bind_eq_ok.mp h
    intro c hc
    rw [callTree, hopen] at hc
    rcases List.mem_cons.mp hc with rfl | hc
    · exact refusal_of_openCall hleft hopen
    · refine pendingTree_forall (P := fun c => p.refusal c.target c.method = none) hpending
        ?_ c hc
      exact fun q s s' gas hq => ih (by omega) hq

/-- The tree of an action: the call it names, and calls that have passed the
policy. -/
theorem actionTree_within {action : Action}
    {s s' : ExecState base}
    (h : (operationAction E height (some p) sender msgValue action).run s = (.ok (), s')) :
    ∀ c ∈ actionTree E height (some p) sender msgValue s action,
      (∃ method args, action = .call c.target method args ∧ c.method = asBytes method) ∨
        p.refusal c.target c.method = none := by
  cases action with
  | transfer dest amount => exact fun c hc => absurd hc List.not_mem_nil
  | setAuth authMethods => exact fun c hc => absurd hc List.not_mem_nil
  | deploy code salt => exact fun c hc => absurd hc List.not_mem_nil
  | call target method args =>
    intro c hc
    unfold operationAction at h
    unfold actionTree at hc
    dsimp only at h hc
    split at hc
    · rw [List.mem_singleton.mp hc]
      exact .inl ⟨method, args, rfl, rfl⟩
    next hsys =>
      rw [if_neg hsys] at h
      obtain ⟨gas, s₁, hexec, -⟩ := run_bind_eq_ok.mp h
      have hcall := run_mapError_eq_ok.mp hexec
      change (dispatchContractCall E height (some p) (maxCallDepth + 1) sender target
        (asBytes method) args msgValue).run { s with fuelBudget := maxCallTreeFuel } = _ at hcall
      rw [dispatchContractCall_succ] at hcall
      obtain ⟨opened, s₂, hopen, hpending⟩ := run_bind_eq_ok.mp hcall
      rw [callTree, hopen] at hc
      rcases List.mem_cons.mp hc with rfl | hc
      · exact .inl ⟨method, args, rfl, rfl⟩
      · refine .inr (pendingTree_forall (P := fun c => p.refusal c.target c.method = none)
          hpending ?_ c hc)
        exact fun q s s' gas hq => callTree_refusal (Nat.le_refl _) hq

theorem actionsTree_within {actions : List Action}
    {pending : PendingTransfers} {s s' : ExecState base}
    (h : (operationActions E height (some p) sender actions pending).run s = (.ok (), s')) :
    ∀ c ∈ actionsTree E height (some p) sender actions pending s,
      (∃ method args, .call c.target method args ∈ actions ∧ c.method = asBytes method) ∨
        p.refusal c.target c.method = none := by
  induction actions generalizing pending s with
  | nil => exact fun c hc => absurd hc List.not_mem_nil
  | cons action rest ih =>
    obtain ⟨⟨⟩, s₁, haction, hrest⟩ := run_bind_eq_ok.mp h
    intro c hc
    rw [actionsTree, haction] at hc
    rcases List.mem_append.mp hc with hc | hc
    · rcases actionTree_within haction c hc with ⟨method, args, rfl, hmethod⟩ | hrefusal
      · exact .inl ⟨method, args, List.mem_cons_self, hmethod⟩
      · exact .inr hrefusal
    · rcases ih hrest c hc with ⟨method, args, hmem, hmethod⟩ | hrefusal
      · exact .inl ⟨method, args, List.mem_cons_of_mem _ hmem, hmethod⟩
      · exact .inr hrefusal

end

/-! ## Sessions -/

/-- What a restricted session asks of the actions, and the policy it hands on. -/
structure SessionConfined (op : UserOperation) (targets : List AccountId) (methods : List String)
    (prepared : PreparedOp) : Prop where
  insideTargets : targets ≠ [] → ∀ a ∈ op.actions, outsideTargets targets a = none
  insideMethods : methods ≠ [] → ∀ a ∈ op.actions, outsideMethods methods a = none
  policy : targets ≠ [] ∨ methods ≠ [] → prepared.subcallPolicy = some ⟨targets, methods⟩

theorem checkSession_confined {σ : Type} [StateStore σ] {I : σ → Prop} (op : UserOperation)
    (sessionKey : Hash) (expiresAt : U64) (spendingLimit budgetTotal : U128)
    (targets : List AccountId) (methods : List String) :
    Keeps I (checkSession op sessionKey expiresAt spendingLimit budgetTotal targets methods true)
      (SessionConfined op targets methods) := by
  have hlist : ∀ {α : Type} (l : List α) (f : Action → Option String),
      Keeps I (if l = [] then pure () else refuseFirst f op.actions : Prog σ ExecutionError Unit)
        fun _ => l ≠ [] → ∀ a ∈ op.actions, f a = none := fun l f =>
    Keeps.ite (fun h => Keeps.pure fun hne => absurd h hne) fun _ =>
      (refuseFirst_value f op.actions).mono fun _ h _ => h
  refine Keeps.seq Keeps.ask fun height => Keeps.seq Keeps.guard fun _ => ?_
  refine Keeps.seq Keeps.guard fun _ => Keeps.seq Keeps.ask fun prior => ?_
  refine Keeps.seq Keeps.guard fun _ => Keeps.bind (hlist targets _) fun _ htargets => ?_
  refine Keeps.seq (refuseFirst_keeps _ _) fun _ => ?_
  refine Keeps.bind (hlist methods _) fun _ hmethods => ?_
  exact Keeps.pure ⟨htargets, hmethods, fun h => if_pos ⟨rfl, h⟩⟩

/-- A call that an action of a confined operation names is within the lists. -/
theorem SessionConfined.within {op : UserOperation} {targets : List AccountId}
    {methods : List String} {prepared : PreparedOp} (h : SessionConfined op targets methods prepared)
    {c : TreeCall} (hmem : .call c.target method args ∈ op.actions)
    (hmethod : c.method = asBytes method) : c.Within targets methods := by
  refine ⟨fun hne => ?_, fun hne => ?_⟩
  · have hout := h.insideTargets hne _ hmem
    unfold outsideTargets at hout
    exact not_not.mp fun hnot => by simp [hnot] at hout
  · have hout := h.insideMethods hne _ hmem
    unfold outsideMethods at hout
    refine ⟨method, not_not.mp fun hnot => ?_, hmethod.symm⟩
    simp [hnot] at hout

/-- Every call in the tree of a successful operation whose first matching
session method restricts sub-calls is within the lists of the session. The
tree has all the calls that the executor notes down. -/
theorem subcalls_within {E : Platform} {X : BlockExecutor} {o : OverlayStore base}
    {op : UserOperation} {height : Nat} {account : Account} {sessionKey : Hash} {expiresAt : U64}
    {spendingLimit budgetTotal : U128} {targets : List AccountId} {methods : List String}
    (hload : loadAccount E op.sender o = .ok (some account))
    (hsession : account.authMethods.find?
        (matchesSession E (op.signingMessage E X.chainId) op.signature) =
      some (.session sessionKey expiresAt spendingLimit budgetTotal targets methods true))
    (hok : (executeOperation E X o op height).receipt.success = true) :
    (executeOperation E X o op height).calls = (operationTree E X o op height).map (·.target) ∧
      ∀ c ∈ operationTree E X o op height, c.Within targets methods := by
  refine ⟨calls_operationTree E X o op height, fun c hc => ?_⟩
  unfold operationTree at hc
  unfold executeOperation at hok
  cases hpre : precheck E op with
  | some msg =>
      rw [hpre] at hc
      cases hc
  | none =>
      rw [hpre] at hc hok
      rcases hval : (validateAndPrepare E X op height).run o with ⟨e | prepared, o'⟩
      · rw [hval] at hc
        cases hc
      rw [hval] at hc hok
      dsimp only at hc hok
      obtain ⟨s₁, hcheck⟩ := validateAndPrepare_checkSession hload hsession hval
      have hconfined : SessionConfined op targets methods prepared :=
        (checkSession_confined (I := fun _ => True) op sessionKey expiresAt spendingLimit
          budgetTotal targets methods).value trivial hcheck
      by_cases hempty : targets ≠ [] ∨ methods ≠ []
      · have hpolicy := hconfined.policy hempty
        obtain ⟨reserved, hrun⟩ : ∃ reserved, (reserveAndRun E op height
          prepared.subcallPolicy).run { store := o' } = _ := run_reserveAndRun o'
        rw [executePrepared, hrun, hpolicy] at hok
        rw [hpolicy] at hc
        rcases hactions : (operationActions E height (some ⟨targets, methods⟩) op.sender op.actions
          ∅).run (reservedState E op o') with ⟨msg | ⟨⟩, s⟩
        · rw [hactions] at hok
          cases hok
        · rcases actionsTree_within hactions c hc with ⟨method, args, hmem, hmethod⟩ | hrefusal
          · exact hconfined.within hmem hmethod
          · exact within_of_refusal hrefusal
      · -- both lists are empty
        rw [not_or, not_not, not_not] at hempty
        exact ⟨fun hne => absurd hempty.1 hne, fun hne => absurd hempty.2 hne⟩

/-- An account of `alice` with a session key of `bob` that may have the teller
pay and the keeper take a note. -/
def noteAccount : Account :=
  { emptyAccount alice with
    authMethods := [.session bob 10#64 0#128 0#128 [teller, keeper] ["pay", "note"] true]
    balance := 200000#128 }

/-- The keeper is called by the teller. -/
def noteOp : UserOperation :=
  signWith bob 0#64
    { sender := alice
      nonce := 0#64
      actions := [.call teller "pay" []]
      maxFee := 200000#128
      signature := [] }

theorem subcalls_within_noteOp :
    let o := OverlayStore.new (contractStore noteAccount)
    (executeOperation contractPlatform {} o noteOp 1).receipt.success = true ∧
      (executeOperation contractPlatform {} o noteOp 1).calls = [teller, keeper] ∧
      (operationTree contractPlatform {} o noteOp 1).length = 2 ∧
      ∀ c ∈ operationTree contractPlatform {} o noteOp 1,
        c.Within [teller, keeper] ["pay", "note"] := by
  intro o
  have hload : loadAccount contractPlatform noteOp.sender o = .ok (some noteAccount) :=
    loadAccount_of_account? (by decide +kernel)
  have hsession : noteAccount.authMethods.find? (matchesSession contractPlatform
      (noteOp.signingMessage contractPlatform ({} : BlockExecutor).chainId) noteOp.signature) =
        some (.session bob 10#64 0#128 0#128 [teller, keeper] ["pay", "note"] true) := by
    decide +kernel
  have hok : (executeOperation contractPlatform {} o noteOp 1).receipt.success = true := by
    decide +kernel
  exact ⟨hok, by decide +kernel, by decide +kernel, (subcalls_within hload hsession hok).2⟩

end Solen
