import Solen.CallTree
import Solen.OperationFrame

/-!
# The states calls are made in

`operationTree` lists the calls of an operation. Here each of them comes
with its caller, its arguments, the state in which it is made and the one
it leaves (`operationMade`), so that a fact about single calls can be stated of all
calls of a run, failed ones and those that are rolled back included. An
invariant of the executor holds in each of these states
(`OperationFrame.made`), and one that speaks of the calls made so far is
kept by the run if it is kept by each call (`MadeHistory.operation`).
-/

namespace Solen

open Machine Prog

variable {base : Store}

/-- A call with the state in which it is made, where it is noted already,
and the state it leaves by itself, before the calls it queues are run. `text`
is the method as a system contract gets it, unless the call is refused. -/
structure MadeCall (base : Store) where
  state : ExecState base
  after : ExecState base
  caller : AccountId
  target : AccountId
  method : Bytes
  text : Option String
  args : Bytes

def MadeCall.treeCall (c : MadeCall base) : TreeCall := ⟨c.target, c.method⟩

/-! ## The calls of an operation -/

section

variable (E : Platform)

def noteCall (target : AccountId) (s : ExecState base) : ExecState base :=
  { s with calls := s.calls ++ [target] }

def pendingMade (call : PendingCall → ExecM base U64)
    (made : PendingCall → ExecState base → List (MadeCall base)) :
    List PendingCall → ExecState base → List (MadeCall base)
  | [], _ => []
  | p :: ps, s =>
      made p s ++
        match (call p).run s with
        | (.ok _, s') => pendingMade call made ps s'
        | (.error _, _) => []

def callsMade (height : Nat) (policy : Option SubcallPolicy) :
    Nat → AccountId → AccountId → Bytes → Bytes → U128 → ExecState base → List (MadeCall base)
  | 0, _, _, _, _, _, _ => []
  | left + 1, caller, target, method, args, msgValue, s =>
      { state := noteCall target s
        after := ((openCall E height policy left caller target method args msgValue).run s).2
        caller := caller
        target := target
        method := method
        text :=
          if (if left < maxCallDepth then policy.bind (·.refusal target method) else none) = none
          then fromUtf8 method else none
        args := args } ::
        match (openCall E height policy left caller target method args msgValue).run s with
        | (.ok opened, s') =>
            pendingMade
              (fun p => dispatchContractCall E height policy left target p.target p.method
                p.args 0#128)
              (fun p => callsMade height policy left target p.target p.method p.args 0#128)
              opened.2 s'
        | (.error _, _) => []

def actionMade (height : Nat) (policy : Option SubcallPolicy) (sender : AccountId)
    (msgValue : U128) (s : ExecState base) : Action → List (MadeCall base)
  | .call target method args =>
      if System.isSystemContract target then
        [{ state := noteCall target s
           after := ((callSystem E sender target method args : Prog (ExecState base) Empty _).run
             (noteCall target s)).2
           caller := sender
           target := target
           method := asBytes method
           text := some method
           args := args }]
      else
        callsMade E height policy (maxCallDepth + 1) sender target (asBytes method) args msgValue
          { s with fuelBudget := maxCallTreeFuel }
  | _ => []

def actionsMade (height : Nat) (policy : Option SubcallPolicy) (sender : AccountId) :
    List Action → PendingTransfers → ExecState base → List (MadeCall base)
  | [], _, _ => []
  | action :: rest, pending, s =>
      actionMade E height policy sender (takeMsgValue pending action).1 s action ++
        match (operationAction E height policy sender (takeMsgValue pending action).1 action).run s
          with
        | (.ok _, s') => actionsMade height policy sender rest (takeMsgValue pending action).2 s'
        | (.error _, _) => []

/-- The calls of a whole operation. -/
def operationMade (X : BlockExecutor) (o : OverlayStore base) (op : UserOperation)
    (height : Nat) : List (MadeCall base) :=
  match precheck E op, (validateAndPrepare E X op height).run o with
  | none, (.ok prepared, o') =>
      actionsMade E height prepared.subcallPolicy op.sender op.actions ∅ (reservedState E op o')
  | _, _ => []

end

/-! ## They are the calls of the tree -/

section

variable {E : Platform} {height : Nat} {policy : Option SubcallPolicy}

theorem treeCall_pendingMade {call : PendingCall → ExecM base U64}
    {made : PendingCall → ExecState base → List (MadeCall base)}
    {tree : PendingCall → ExecState base → List TreeCall}
    (h : ∀ p s, (made p s).map MadeCall.treeCall = tree p s) (ps : List PendingCall)
    (s : ExecState base) :
    (pendingMade call made ps s).map MadeCall.treeCall = pendingTree call tree ps s := by
  induction ps generalizing s with
  | nil => rfl
  | cons p ps ih =>
    rw [pendingMade, pendingTree, List.map_append, h]
    rcases (call p).run s with ⟨e | gas, s'⟩
    · rfl
    · exact congrArg _ (ih s')

theorem treeCall_callsMade (left : Nat) (caller target : AccountId) (method args : Bytes)
    (msgValue : U128) (s : ExecState base) :
    (callsMade E height policy left caller target method args msgValue s).map MadeCall.treeCall =
      callTree E height policy left caller target method args msgValue s := by
  induction left generalizing caller target method args msgValue s with
  | zero => rfl
  | succ left ih =>
    rw [callsMade, callTree, List.map_cons]
    rcases (openCall E height policy left caller target method args msgValue).run s with
      ⟨e | opened, s'⟩
    · rfl
    · exact congrArg _ (treeCall_pendingMade (fun p s => ih _ _ _ _ _ s) _ _)

theorem treeCall_actionMade (sender : AccountId) (msgValue : U128) (s : ExecState base)
    (action : Action) :
    (actionMade E height policy sender msgValue s action).map MadeCall.treeCall =
      actionTree E height policy sender msgValue s action := by
  cases action with
  | call target method args =>
    unfold actionMade actionTree
    dsimp only
    split
    · rfl
    · exact treeCall_callsMade _ _ _ _ _ _ _
  | transfer dest amount => rfl
  | setAuth authMethods => rfl
  | deploy code salt => rfl

theorem treeCall_actionsMade (sender : AccountId) (actions : List Action)
    (pending : PendingTransfers) (s : ExecState base) :
    (actionsMade E height policy sender actions pending s).map MadeCall.treeCall =
      actionsTree E height policy sender actions pending s := by
  induction actions generalizing pending s with
  | nil => rfl
  | cons action rest ih =>
    rw [actionsMade, actionsTree, List.map_append, treeCall_actionMade]
    rcases (operationAction E height policy sender (takeMsgValue pending action).1 action).run s
      with ⟨e | u, s'⟩
    · rfl
    · exact congrArg _ (ih _ s')

theorem treeCall_operationMade (X : BlockExecutor) (o : OverlayStore base) (op : UserOperation) :
    (operationMade E X o op height).map MadeCall.treeCall = operationTree E X o op height := by
  unfold operationMade operationTree
  rcases precheck E op with _ | msg
  · rcases (validateAndPrepare E X op height).run o with ⟨e | prepared, o'⟩
    · rfl
    · exact treeCall_actionsMade _ _ _ _
  · rfl

end

/-! ## Invariants hold where calls are made -/

namespace ActionFrame

variable {E : Platform} {I : ExecState base → Prop} {Good : Account → Prop}
  {Code : Bytes → Prop} {Note : Event → Prop} {Pay : AccountId → Prop}
  {Call : AccountId → String → Bytes → Prop}
  (F : ActionFrame E I Good Code Note)
  (hrecord : ∀ (s : ExecState base) target, I s → I (noteCall target s))
  (hcall : KeepsCall E I Call) (hvm : VmFits E Code Pay Call)
  (hpay : ∀ id, Pay id → Creatable E I Good id)

include F hrecord hcall hvm hpay

omit hrecord in
/-- One call, up to the calls it queues. -/
theorem openFrame (height : Nat) (policy : Option SubcallPolicy) (left : Nat)
    (caller : AccountId) {target : AccountId} {method args : Bytes}
    (h : System.isSystemContract target = true →
      ∀ m, fromUtf8 method = some m → Call target m args) (msgValue : U128) :
    Keeps I (openFrame E height policy left caller target method args msgValue) fun r =>
      ∀ p ∈ r.2, System.isSystemContract p.target = true →
        ∀ m, fromUtf8 p.method = some m → Call p.target m p.args := by
  unfold Solen.openFrame
  split
  · exact Keeps.stop
  refine Keeps.ite (fun hsys => ?_) fun hsys => ?_
  · exact Keeps.seq (dispatchSystemCall hcall _ (h hsys)) fun _ => Keeps.pure (by simp)
  refine Keeps.seq (F.requireAccount target).mapError.triv fun account => ?_
  have htarget : System.isSystemContract target = false := eq_false_of_ne_true hsys
  refine Keeps.ite (fun _ => ?_) fun _ => ?_
  · exact Keeps.seq (F.note (F.ofContract _ _ htarget)) fun _ => Keeps.pure (by simp)
  refine Keeps.bind (F.runContract hvm hpay _ _ htarget _ _ _ _) fun result hqueued => ?_
  exact Keeps.pure hqueued

theorem openCall (height : Nat) (policy : Option SubcallPolicy) (left : Nat)
    (caller : AccountId) {target : AccountId} {method args : Bytes}
    (h : System.isSystemContract target = true →
      ∀ m, fromUtf8 method = some m → Call target m args) (msgValue : U128) :
    Keeps I (openCall E height policy left caller target method args msgValue) fun r =>
      ∀ p ∈ r.2, System.isSystemContract p.target = true →
        ∀ m, fromUtf8 p.method = some m → Call p.target m p.args :=
  Keeps.seq (Keeps.modify fun s hs => hrecord s target hs) fun _ =>
    F.openFrame hcall hvm hpay height policy left caller h msgValue

omit F hrecord hcall hvm hpay in
theorem pendingMade {call : PendingCall → ExecM base U64}
    {made : PendingCall → ExecState base → List (MadeCall base)} {ps : List PendingCall}
    (hkeep : ∀ p ∈ ps, Keeps I (call p) fun _ => True)
    (hmade : ∀ p ∈ ps, ∀ s, I s → ∀ c ∈ made p s, I c.state) {s : ExecState base} (hs : I s) :
    ∀ c ∈ pendingMade call made ps s, I c.state := by
  induction ps generalizing s with
  | nil => intro c hc; cases hc
  | cons p ps ih =>
    intro c hc
    rcases List.mem_append.mp hc with hc | hc
    · exact hmade p List.mem_cons_self s hs c hc
    · rcases hrun : (call p).run s with ⟨e | gas, s'⟩
      · rw [hrun] at hc
        cases hc
      · rw [hrun] at hc
        exact ih (fun p hp => hkeep p (List.mem_cons_of_mem _ hp))
          (fun p hp => hmade p (List.mem_cons_of_mem _ hp))
          ((hkeep p List.mem_cons_self).after hs hrun) c hc

theorem callsMade (height : Nat) (policy : Option SubcallPolicy) (left : Nat)
    (caller : AccountId) {target : AccountId} {method args : Bytes}
    (h : System.isSystemContract target = true →
      ∀ m, fromUtf8 method = some m → Call target m args) (msgValue : U128)
    {s : ExecState base} (hs : I s) :
    ∀ c ∈ callsMade E height policy left caller target method args msgValue s, I c.state := by
  induction left generalizing caller target method args msgValue s with
  | zero => intro c hc; cases hc
  | succ left ih =>
    intro c hc
    rcases List.mem_cons.mp hc with rfl | hc
    · exact hrecord s target hs
    · have hopen := F.openCall hrecord hcall hvm hpay height policy left caller h msgValue
      rcases hrun : (Solen.openCall E height policy left caller target method args msgValue).run s
        with ⟨e | opened, s'⟩
      · rw [hrun] at hc
        cases hc
      · rw [hrun] at hc
        have hqueued := hopen.value hs hrun
        refine pendingMade (fun p hp => ?_) (fun p hp s hs => ?_) (hopen.after hs hrun) c hc
        · exact F.dispatchContractCall hrecord hcall hvm hpay _ _ _ _ (hqueued p hp) _
        · exact ih _ (hqueued p hp) _ hs

theorem actionMade (height : Nat) (policy : Option SubcallPolicy) {sender : AccountId}
    (msgValue : U128) {action : Action} {s : ExecState base} (hs : I s) :
    ∀ c ∈ actionMade E height policy sender msgValue s action, I c.state := by
  cases action with
  | call target method args =>
    unfold Solen.actionMade
    dsimp only
    split
    · intro c hc
      rw [List.mem_singleton.mp hc]
      exact hrecord s target hs
    · next hsys =>
        exact F.callsMade hrecord hcall hvm hpay _ _ _ _ (fun h => absurd h hsys) _
          (F.meter _ _ hs)
  | transfer dest amount => intro c hc; cases hc
  | setAuth authMethods => intro c hc; cases hc
  | deploy code salt => intro c hc; cases hc

theorem actionsMade (height : Nat) (policy : Option SubcallPolicy) {sender : AccountId}
    {actions : List Action} (hactions : ∀ a ∈ actions, ActionFits E I Good Call sender a)
    (pending : PendingTransfers) {s : ExecState base} (hs : I s) :
    ∀ c ∈ actionsMade E height policy sender actions pending s, I c.state := by
  induction actions generalizing pending s with
  | nil => intro c hc; cases hc
  | cons action rest ih =>
    intro c hc
    obtain ⟨hfit, hrest⟩ := List.forall_mem_cons.mp hactions
    rcases List.mem_append.mp hc with hc | hc
    · exact F.actionMade hrecord hcall hvm hpay _ _ _ hs c hc
    · have hkeep := F.operationAction hrecord hcall hvm hpay height policy
        (takeMsgValue pending action).1 hfit
      rcases hrun : (Solen.operationAction E height policy sender (takeMsgValue pending action).1
        action).run s with ⟨e | u, s'⟩
      · rw [hrun] at hc
        cases hc
      · rw [hrun] at hc
        exact ih hrest _ (hkeep.after hs hrun) c hc

end ActionFrame

/-- An invariant of operations holds in every state a call is made in. -/
theorem OperationFrame.made {E : Platform} {X : BlockExecutor} {I : ExecState base → Prop}
    {Good : Account → Prop} {Code : Bytes → Prop} {Note : Event → Prop} {Pay : AccountId → Prop}
    {Call : AccountId → String → Bytes → Prop} (F : OperationFrame E I Good Code Note)
    (hcall : KeepsCall E I Call) (hvm : VmFits E Code Pay Call)
    (hpay : ∀ id, Pay id → Creatable E I Good id) {op : UserOperation} {height : Nat}
    {o : OverlayStore base}
    (hactions : ∀ a ∈ op.actions, ActionFits E I Good Call op.sender a) (ho : I { store := o }) :
    ∀ c ∈ operationMade E X o op height, I c.state := by
  unfold operationMade
  cases precheck E op with
  | some msg => intro c hc; cases hc
  | none =>
    rcases hval : (Solen.validateAndPrepare E X op height).run o with ⟨e | prepared, o'⟩
    · intro c hc
      cases hc
    · have ho' : I { store := o' } := F.validateAndPrepare ho hval
      have hreserve : Keeps I (Solen.reserveFee E op : Prog (ExecState base) Empty U128)
          fun _ => True := F.reserveFee op
      exact F.actionsMade (fun s target hs => F.record _ _ hs) hcall hvm hpay _ _ hactions _
        (hreserve { store := o' } ho').1

/-! ## Invariants of the calls made so far -/

/-- The call has run and leaves `after`: it was opened by the executor, or it
is a system call that an action makes itself. -/
inductive MadeCall.Runs (E : Platform) (height : Nat) (c : MadeCall base) : Prop
  | opened {policy : Option SubcallPolicy} {left : Nat} {msgValue : U128}
      {r : U64 × List PendingCall} (htext : c.text = fromUtf8 c.method)
      (h : (openFrame E height policy left c.caller c.target c.method c.args msgValue).run
        c.state = (.ok r, c.after)) : c.Runs E height
  | system {m : String} (hsys : System.isSystemContract c.target = true) (htext : c.text = some m)
      (h : c.after = ((callSystem E c.caller c.target m c.args :
        Prog (ExecState base) Empty _).run c.state).2) : c.Runs E height

/-- A call that has run keeps a frame that allows to create any account, if
it does so as a system call. -/
theorem ActionFrame.runs {E : Platform} {I : ExecState base → Prop} {Good : Account → Prop}
    {Code : Bytes → Prop} {Note : Event → Prop} (F : ActionFrame E I Good Code Note)
    (hnew : ∀ id, Creatable E I Good id) {height : Nat} {c : MadeCall base}
    (h : c.Runs E height)
    (hsystem : ∀ m, c.text = some m → I ((Solen.callSystem E c.caller c.target m c.args :
      Prog (ExecState base) Empty _).run c.state).2) (hs : I c.state) : I c.after := by
  cases h with
  | system hsys htext hafter =>
    rw [hafter]
    exact hsystem _ htext
  | opened htext hrun =>
    unfold Solen.openFrame at hrun
    split at hrun
    · cases hrun
    by_cases hsys : System.isSystemContract c.target = true
    · rw [if_pos hsys] at hrun
      obtain ⟨gas, s₁, hcall, hpure⟩ := run_bind_eq_ok.mp hrun
      cases hpure
      unfold Solen.dispatchSystemCall at hcall
      split at hcall
      · cases hcall
      · next m hm =>
          obtain ⟨r, s₂, hcalled, hrest⟩ := run_bind_eq_ok.mp hcall
          have hcalled : _ = s₂ := congrArg Prod.snd hcalled
          split at hrest
          · cases hrest
          · have hrest : s₂ = c.after := congrArg Prod.snd hrest
            rw [← hrest, ← hcalled]
            exact hsystem m (htext.trans hm)
    · rw [if_neg hsys] at hrun
      have htarget : System.isSystemContract c.target = false := eq_false_of_ne_true hsys
      have hvm : VmFits E Code (fun _ => True) fun _ _ _ => True :=
        ⟨fun _ _ _ _ => trivial, fun _ _ _ _ _ _ _ => trivial⟩
      refine Keeps.after (P := fun _ => True) (Keeps.seq (F.requireAccount c.target).mapError.triv fun account =>
        Keeps.ite (fun _ => ?_) fun _ => ?_) hs hrun
      · exact Keeps.done (F.note (F.ofContract _ _ htarget))
      · exact Keeps.done (F.runContract hvm (fun id _ => hnew id) _ _ htarget _ _ _ _).triv

/-- An invariant of the calls made so far and the state: it is kept by the
notes and the meters, and each call that has run and is in `Fits` may be
added to the calls it speaks of. -/
structure MadeHistory (E : Platform) (height : Nat)
    (I : List (MadeCall base) → ExecState base → Prop) (Fits : MadeCall base → Prop) : Prop where
  note : ∀ {h : List (MadeCall base)} {s : ExecState base} (target : AccountId), I h s →
    I h (noteCall target s)
  meter : ∀ {h : List (MadeCall base)} {s : ExecState base} (gasUsed fuelBudget : U64), I h s →
    I h { s with gasUsed := gasUsed, fuelBudget := fuelBudget }
  call : ∀ {h : List (MadeCall base)} {c : MadeCall base}, Fits c → c.Runs E height →
    I h c.state → I (h ++ [c]) c.after

namespace MadeHistory

variable {E : Platform} {height : Nat} {I : List (MadeCall base) → ExecState base → Prop}
  {Fits : MadeCall base → Prop} {policy : Option SubcallPolicy} {h : List (MadeCall base)}
  {s s' : ExecState base}

theorem pending {call : PendingCall → ExecM base U64}
    {made : PendingCall → ExecState base → List (MadeCall base)}
    (hmade : ∀ p h s gas s', I h s → (∀ c ∈ made p s, Fits c) →
      (call p).run s = (.ok gas, s') → I (h ++ made p s) s')
    {ps : List PendingCall} {total gas : U64} (hs : I h s)
    (hfits : ∀ c ∈ pendingMade call made ps s, Fits c)
    (hrun : (runPending call ps total).run s = (.ok gas, s')) :
    I (h ++ pendingMade call made ps s) s' := by
  induction ps generalizing h s total with
  | nil =>
    cases hrun
    rwa [pendingMade, List.append_nil]
  | cons p ps ih =>
    obtain ⟨g, s₁, hcall, hrest⟩ := run_bind_eq_ok.mp hrun
    rw [pendingMade, hcall] at hfits ⊢
    rw [← List.append_assoc]
    refine ih (hmade p h s g s₁ hs (fun c hc => ?_) hcall) (fun c hc => ?_) hrest
    · exact hfits c (List.mem_append_left _ hc)
    · exact hfits c (List.mem_append_right _ hc)

variable (H : MadeHistory E height I Fits)

include H

/-- By induction on the frames that may still be opened. -/
theorem calls {left : Nat} {caller target : AccountId} {method args : Bytes} {msgValue : U128}
    {gas : U64} (hs : I h s)
    (hfits : ∀ c ∈ callsMade E height policy left caller target method args msgValue s, Fits c)
    (hrun : (dispatchContractCall E height policy left caller target method args msgValue).run s =
      (.ok gas, s')) :
    I (h ++ callsMade E height policy left caller target method args msgValue s) s' := by
  induction left generalizing h caller target method args msgValue s s' gas with
  | zero => cases hrun
  | succ left ih =>
    rw [dispatchContractCall_succ] at hrun
    obtain ⟨opened, s₁, hopen, hpending⟩ := run_bind_eq_ok.mp hrun
    have hframe : (openFrame E height policy left caller target method args msgValue).run
        (noteCall target s) = (.ok opened, s₁) := hopen
    have hallowed : (if left < maxCallDepth then policy.bind (·.refusal target method)
        else none) = none := by
      unfold openFrame at hframe
      split at hframe
      · cases hframe
      · assumption
    rw [callsMade, hopen] at hfits ⊢
    dsimp only at hfits ⊢
    obtain ⟨hfirst, hrest⟩ := List.forall_mem_cons.mp hfits
    have hcall := H.call hfirst (.opened (if_pos hallowed) hframe) (H.note target hs)
    rw [List.append_cons]
    refine pending (I := I) (fun p h s gas s' hs hfits hrun => ?_) hcall hrest hpending
    exact ih hs hfits hrun

theorem action {sender : AccountId} {msgValue : U128} {action : Action}
    (hother : (∀ target method args, action ≠ .call target method args) →
      Keeps (I h) (operationAction E height policy sender msgValue action) fun _ => True)
    (hs : I h s)
    (hfits : ∀ c ∈ actionMade E height policy sender msgValue s action, Fits c)
    (hrun : (operationAction E height policy sender msgValue action).run s = (.ok (), s')) :
    I (h ++ actionMade E height policy sender msgValue s action) s' := by
  cases action with
  | transfer dest amount =>
    change I (h ++ []) s'
    rw [List.append_nil]
    exact (hother nofun).after hs hrun
  | setAuth authMethods =>
    change I (h ++ []) s'
    rw [List.append_nil]
    exact (hother nofun).after hs hrun
  | deploy code salt =>
    change I (h ++ []) s'
    rw [List.append_nil]
    exact (hother nofun).after hs hrun
  | call target method args =>
    unfold operationAction at hrun
    unfold actionMade at hfits ⊢
    dsimp only at hrun hfits ⊢
    split at hrun
    · next hsys =>
        rw [if_pos hsys] at hfits ⊢
        obtain ⟨⟨⟩, s₁, hnote, hrun⟩ := run_bind_eq_ok.mp hrun
        obtain ⟨r, s₂, hcall, hrun⟩ := run_bind_eq_ok.mp hrun
        obtain ⟨⟨⟩, s₃, hgas, hrun⟩ := run_bind_eq_ok.mp hrun
        cases hnote
        cases hgas
        have hmade := H.call (hfits _ List.mem_cons_self) (.system hsys rfl rfl)
          (H.note target hs)
        cases hcall
        split at hrun
        · cases hrun
        · cases hrun
          exact H.meter _ _ hmade
    · next hsys =>
        rw [if_neg hsys] at hfits ⊢
        obtain ⟨gas, s₁, hcall, hrun⟩ := run_bind_eq_ok.mp hrun
        have hcall := run_mapError_eq_ok.mp hcall
        obtain ⟨⟨⟩, s₂, hmeter, hcall⟩ := run_bind_eq_ok.mp hcall
        cases hmeter
        cases hrun
        exact H.meter _ _ (H.calls (H.meter _ _ hs) hfits hcall)

theorem actions {sender : AccountId} {actions : List Action}
    (hother : ∀ h msgValue, ∀ action ∈ actions,
      (∀ target method args, action ≠ .call target method args) →
        Keeps (I h) (operationAction E height policy sender msgValue action) fun _ => True)
    {pending : PendingTransfers} (hs : I h s)
    (hfits : ∀ c ∈ actionsMade E height policy sender actions pending s, Fits c)
    (hrun : (operationActions E height policy sender actions pending).run s = (.ok (), s')) :
    I (h ++ actionsMade E height policy sender actions pending s) s' := by
  induction actions generalizing h pending s with
  | nil =>
    cases hrun
    rwa [actionsMade, List.append_nil]
  | cons action rest ih =>
    obtain ⟨⟨⟩, s₁, haction, hrest⟩ := run_bind_eq_ok.mp hrun
    rw [actionsMade, haction] at hfits ⊢
    rw [← List.append_assoc]
    refine ih (fun h v a ha => hother h v a (List.mem_cons_of_mem _ ha))
      (H.action (hother _ _ action List.mem_cons_self) hs (fun c hc => ?_) haction)
      (fun c hc => ?_) hrest
    · exact hfits c (List.mem_append_left _ hc)
    · exact hfits c (List.mem_append_right _ hc)

end MadeHistory

/-- Actions that call nothing. -/
theorem ActionFrame.otherAction {E : Platform} {I : ExecState base → Prop} {Good : Account → Prop}
    {Code : Bytes → Prop} {Note : Event → Prop} {Call : AccountId → String → Bytes → Prop}
    (F : ActionFrame E I Good Code Note) (height : Nat) (policy : Option SubcallPolicy)
    {sender : AccountId} (msgValue : U128) {action : Action}
    (hcall : ∀ target method args, action ≠ .call target method args)
    (h : ActionFits E I Good Call sender action) :
    Keeps I (Solen.operationAction E height policy sender msgValue action) fun _ => True := by
  cases action with
  | transfer dest amount => exact Keeps.seq (F.transferAction _ _ h).mapError fun _ => F.addGas _
  | setAuth authMethods => exact Keeps.seq (F.setAuthAction h).mapError fun _ => F.addGas _
  | deploy code salt => exact Keeps.seq (Keeps.mapError h) fun _ => F.addGas _
  | call target method args => exact absurd rfl (hcall target method args)

/-- The invariant holds, of all the calls it has made, after an operation
that succeeds. -/
theorem OperationFrame.history {E : Platform} {X : BlockExecutor} {height : Nat}
    {I : List (MadeCall base) → ExecState base → Prop}
    {Good : List (MadeCall base) → Account → Prop} {Code : Bytes → Prop} {Note : Event → Prop}
    {Call : AccountId → String → Bytes → Prop} {Fits : MadeCall base → Prop}
    (F : ∀ h, OperationFrame E (I h) (Good h) Code Note)
    (hcall : ∀ {h c}, Fits c → c.Runs E height → I h c.state → I (h ++ [c]) c.after)
    {o : OverlayStore base} {op : UserOperation}
    (hactions : (∃ a, loadAccount E op.sender o = .ok (some a)) →
      ∀ h, ∀ a ∈ op.actions, ActionFits E (I h) (Good h) Call op.sender a)
    (ho : I [] { store := o }) (hfits : ∀ c ∈ operationMade E X o op height, Fits c)
    (hok : (Solen.executeOperation E X o op height).receipt.success = true) :
    ∃ s : ExecState base, I (operationMade E X o op height) s ∧
      s.store = (Solen.executeOperation E X o op height).store := by
  have H : MadeHistory E height I Fits :=
    ⟨fun _ hs => (F _).record _ _ hs, fun _ _ hs => (F _).meter _ _ hs, hcall⟩
  unfold Solen.executeOperation at hok ⊢
  unfold operationMade at hfits ⊢
  cases hpre : precheck E op with
  | some msg =>
    rw [hpre] at hok
    cases hok
  | none =>
    rw [hpre] at hok hfits
    rcases hval : (Solen.validateAndPrepare E X op height).run o with ⟨e | prepared, o'⟩
    · rw [hval] at hok
      cases hok
    rw [hval] at hok hfits
    dsimp only at hok hfits ⊢
    have hstart : I [] (reservedState E op o') := by
      have hreserve : Keeps (I []) (Solen.reserveFee E op : Prog (ExecState base) Empty U128)
          fun _ => True := (F []).reserveFee op
      exact (hreserve _ ((F []).validateAndPrepare ho hval)).1
    obtain ⟨reserved, hrun⟩ : ∃ reserved, (reserveAndRun E op height
      prepared.subcallPolicy).run { store := o' } = _ := run_reserveAndRun o'
    unfold Solen.executePrepared at hok ⊢
    rw [hrun] at hok ⊢
    rcases hactions' : (Solen.operationActions E height prepared.subcallPolicy op.sender op.actions
      ∅).run (reservedState E op o') with ⟨msg | ⟨⟩, s⟩
    · rw [hactions'] at hok
      cases hok
    have hmade := H.actions (fun h v a ha hother => (F h).otherAction height _ v hother
      (hactions (loadAccount_of_validated hval) h a ha)) hstart hfits hactions'
    rw [List.nil_append] at hmade
    have hsettled := ((F _).settleFees (ε := Empty) X op height reserved s hmade).1
    exact ⟨_, (F _).commitSessionCharge (validateAndPrepare_spent op height hval) hsettled, rfl⟩

end Solen
