import Solen.CallStates
import Solen.ReadFrame
import Solen.SessionExpiry

/-!
# Block execution and the state root

The read frames of system calls, continued to actions, operations and
blocks. Two stores that agree on the keys that enter the state root execute
a block the same way if they agree on whether the session keys of its
operations have expired, and if the system calls that are made end alike
(`executeBlock_stateOnly`). The chain metadata, the chain's identifier and
the evidence against validators are outside the state root, and both may
depend on them.
-/

namespace Solen

open Machine Prog

variable {sender target : AccountId} {args : Bytes} {height : Nat} {policy : Option SubcallPolicy}
  {msgValue : U128}

variable {X : BlockExecutor} {E : Platform} {op : UserOperation}

variable {base base' : Store}

/-! ## Frames of overlays -/

/-- A read frame of overlays that survives a rollback. -/
structure OverlayFrame (V : Bytes → Prop) (R : OverlayStore base → OverlayStore base' → Prop) :
    Prop extends ReadFrame V R where
  restore : ∀ {o : OverlayStore base} {o' : OverlayStore base'} (t : OverlayStore base)
    (t' : OverlayStore base'), R o o' →
    R (t.restoreSavepoint o.savepoint) (t'.restoreSavepoint o'.savepoint)

/-- Two execution states with related stores and the same logs. -/
structure SameRun (R : OverlayStore base → OverlayStore base' → Prop) (s : ExecState base)
    (s' : ExecState base') : Prop where
  store : R s.store s'.store
  events : s.events = s'.events
  gasUsed : s.gasUsed = s'.gasUsed
  fuelBudget : s.fuelBudget = s'.fuelBudget
  calls : s.calls = s'.calls
  collisions : s.collisions = s'.collisions

theorem SameRun.start {R : OverlayStore base → OverlayStore base' → Prop}
    {o : OverlayStore base} {o' : OverlayStore base'} (h : R o o') :
    SameRun R { store := o } { store := o' } :=
  ⟨h, rfl, rfl, rfl, rfl, rfl⟩

namespace OverlayFrame

variable {E : Platform} {X : BlockExecutor} {V : Bytes → Prop}
  {R : OverlayStore base → OverlayStore base' → Prop} {ε : Type}
  (F : OverlayFrame V R)

include F

theorem exec : ReadFrame V (SameRun R) where
  state := F.state
  get hs hk := F.get hs.store hk
  scan hs hp := F.scan hs.store hp
  put k v hs := { hs with store := F.put k v hs.store }

/-! ## Logs -/

omit F in
theorem emit (e : Event) :
    Sim (SameRun R) (emit e : Prog (ExecState base) ε Unit) (emit e) :=
  Sim.modify fun _ _ hs => { hs with events := congrArg (· ++ [e]) hs.events }

omit F in
theorem addGas (gas : U64) :
    Sim (SameRun R) (addGas gas : Prog (ExecState base) ε Unit) (addGas gas) :=
  Sim.modify fun _ _ hs => { hs with gasUsed := congrArg (· + gas) hs.gasUsed }

omit F in
theorem recordCall (target : AccountId) :
    Sim (SameRun R) (recordCall target : Prog (ExecState base) ε Unit) (recordCall target) :=
  Sim.modify fun _ _ hs => { hs with calls := congrArg (· ++ [target]) hs.calls }

/-! ## Actions without calls -/

theorem transferReceiver (dest : AccountId) :
    Sim (SameRun R) (transferReceiver E dest) (transferReceiver E dest) := by
  refine Sim.bind (F.exec.getAccount dest) fun o => ?_
  cases o with
  | some a => exact Sim.pure a
  | none =>
    refine Sim.guard <| Sim.bind ?_ fun _ => F.exec.requireAccount dest
    exact Sim.done (F.exec.saveAccount _)

theorem transferAction (sender dest : AccountId) (amount : U128) :
    Sim (SameRun R) (transferAction E sender dest amount)
      (transferAction E sender dest amount) := by
  refine Sim.bind (F.exec.getAccount dest).mapError fun _ => Sim.bind (Sim.mapError ?_) fun _ =>
    Sim.done (emit _)
  refine Sim.bind (F.exec.requireAccount _) fun a => Sim.guard ?_
  refine Sim.bind (F.exec.saveAccount _) fun _ => ?_
  exact Sim.bind (F.transferReceiver dest) fun _ => F.exec.saveAccount _

theorem setAuthAction (sender : AccountId) (authMethods : List AuthMethod) :
    Sim (SameRun R) (setAuthAction E sender authMethods)
      (setAuthAction E sender authMethods) := by
  refine Sim.guard <| Sim.bind (Sim.each _ fun m => ?_) fun _ => ?_
  · unfold checkAuthMethod
    split
    · exact Sim.stopIf _ _
    · exact Sim.bind (F.exec.getAccount _).mapError fun _ => Sim.stopIf _ _
    · exact Sim.pure _
  refine Sim.bind (F.exec.requireAccount sender).mapError fun a => ?_
  refine Sim.bind (F.exec.saveAccount _) fun _ => ?_
  exact Sim.done (emit _)

theorem deployAction (sender : AccountId) (code : Bytes) (salt : Hash) :
    Sim (SameRun R) (deployAction E sender code salt) (deployAction E sender code salt) := by
  refine Sim.guard <| Sim.bind (Sim.mapError ?_) fun _ => ?_
  · exact Sim.done (F.exec.write _ _)
  refine Sim.bind (Sim.bind (F.exec.getAccount _).attempt fun _ => ?_) fun _ => ?_
  · split
    · refine Sim.bind (Sim.modify fun _ _ hs => ?_) fun _ => Sim.stopIf _ _
      exact { hs with collisions := congrArg (· ++ [_]) hs.collisions }
    · exact Sim.pure _
  refine Sim.bind (F.exec.getAccount _).attempt fun _ => ?_
  exact Sim.bind (F.exec.saveAccount _) fun _ => Sim.done (emit _)

/-! ## Calls -/

theorem nativeTransfer (contract : AccountId) (t : NativeTransfer) :
    Sim (SameRun R) (nativeTransfer E contract t) (nativeTransfer E contract t) := by
  refine Sim.bind (F.exec.requireAccount contract).mapError fun a => ?_
  refine Sim.guard <| Sim.bind (F.exec.saveAccount _) fun _ => ?_
  refine Sim.bind (Sim.bind (F.exec.requireAccount t.dest).attempt fun r => ?_) fun _ => emit _
  cases r with
  | ok a => exact F.exec.saveAccount _
  | error e => exact F.exec.saveAccount _

theorem loadContractStorage_eq {s : ExecState base} {s' : ExecState base'} (hs : SameRun R s s')
    (id : AccountId) : loadContractStorage id s = loadContractStorage id s' := by
  have hscan := F.exec.scan hs fun k (hk : contractStoragePrefix id <+: k) =>
    F.state (isNonStateKey_contractStorage hk)
  rw [loadContractStorage, loadContractStorage, hscan]

theorem runContract (height : Nat) (caller target : AccountId) (method args : Bytes)
    (msgValue : U128) (account : Account) :
    Sim (SameRun R) (runContract E height caller target method args msgValue account)
      (runContract E height caller target method args msgValue account) := by
  refine Sim.bind (F.exec.value (isNonStateKey_bytecodeKey _)) fun code => ?_
  cases code with
  | none => exact Sim.stop _
  | some bytecode =>
    refine Sim.bind (Sim.reads fun _ _ hs => F.loadContractStorage_eq hs target) fun _ => ?_
    refine Sim.bind (Sim.reads fun _ _ hs => hs.fuelBudget) fun _ => ?_
    refine Sim.guard ?_
    dsimp only
    split
    · exact Sim.stop _
    · exact Sim.stop _
    · next result _ =>
        refine Sim.bind (Sim.modify fun _ _ hs => ?_) fun _ => ?_
        · exact { hs with fuelBudget := congrArg (satSub · result.gasUsed) hs.fuelBudget }
        refine Sim.bind (Sim.mapError ?_) fun _ => ?_
        · exact Sim.bind (Sim.each _ fun e => F.exec.write _ _) fun _ => F.exec.write _ _
        refine Sim.bind (Sim.each _ fun t => F.nativeTransfer _ t) fun _ => ?_
        exact Sim.done (Sim.each _ fun _ => emit _)

/-- Made in related states, the call ends alike. -/
def EndsAlike (R : OverlayStore base → OverlayStore base' → Prop) (E : Platform)
    (c : MadeCall base) : Prop :=
  System.isSystemContract c.target = true → ∀ m, c.text = some m → ∀ s', SameRun R c.state s' →
    (executeSystemCall E c.state c.caller c.target m c.args).1 =
        (executeSystemCall E s' c.caller c.target m c.args).1 ∧
      SameRun R (executeSystemCall E c.state c.caller c.target m c.args).2
        (executeSystemCall E s' c.caller c.target m c.args).2

omit F in
theorem callSystem {method : String}
    {s : ExecState base} {s' : ExecState base'}
    (h : (executeSystemCall E s sender target method args).1 =
        (executeSystemCall E s' sender target method args).1 ∧
      SameRun R (executeSystemCall E s sender target method args).2
        (executeSystemCall E s' sender target method args).2) :
    SimAt (SameRun R) (callSystem E sender target method args : Prog (ExecState base) ε _)
      (callSystem E sender target method args) s s' :=
  ⟨congrArg Except.ok h.1, { h.2 with
    events := congrArg₂ (· ++ ·) h.2.events (congrArg SystemCallResult.events h.1) }⟩

/-- One call, up to the calls it queues. -/
theorem openCall {left : Nat}
    {caller : AccountId} {method : Bytes} {s : ExecState base}
    {s' : ExecState base'} (hs : SameRun R s s')
    (hends : ∀ c ∈ (callsMade E height policy (left + 1) caller target method args msgValue
      s).head?, EndsAlike R E c) :
    SimAt (SameRun R) (openCall E height policy left caller target method args msgValue)
      (openCall E height policy left caller target method args msgValue) s s' := by
  have hnoted : SameRun R (noteCall target s) (noteCall target s') :=
    { hs with calls := congrArg (· ++ [target]) hs.calls }
  have hends := hends _ rfl
  have hcall : SimAt (SameRun R) (openFrame E height policy left caller target method args msgValue)
      (openFrame E height policy left caller target method args msgValue)
      (noteCall target s) (noteCall target s') := by
    unfold openFrame
    split
    · exact SimAt.stop _ hnoted
    next hallowed =>
    by_cases hsys : System.isSystemContract target = true
    · simp only [hsys, if_true]
      refine SimAt.bind ?_ fun gas t t' _ ht => SimAt.pure _ ht
      unfold dispatchSystemCall
      split
      · exact SimAt.stop _ hnoted
      next m hm =>
      have htext : (if (if left < maxCallDepth then policy.bind (·.refusal target method)
          else none) = none then fromUtf8 method else none) = some m := by
        rw [if_pos hallowed, hm]
      refine SimAt.bind (callSystem (hends hsys m htext _ hnoted)) fun r t t' _ ht => ?_
      split
      · exact SimAt.stop _ ht
      · exact SimAt.pure _ ht
    · simp only [hsys, if_false, Bool.false_eq_true]
      refine Sim.related (Sim.bind (F.exec.requireAccount target).mapError fun account =>
        Sim.ite (fun _ => Sim.done (emit _)) fun _ => Sim.done (F.runContract _ _ _ _ _ _ _)) hnoted
  exact hcall

omit F in
theorem runPending {call : PendingCall → ExecM base U64} {call' : PendingCall → ExecM base' U64}
    {made : PendingCall → ExecState base → List (MadeCall base)}
    (h : ∀ p s s', SameRun R s s' → (∀ c ∈ made p s, EndsAlike R E c) →
      SimAt (SameRun R) (call p) (call' p) s s') {ps : List PendingCall} {total : U64}
    {s : ExecState base} {s' : ExecState base'} (hs : SameRun R s s')
    (hends : ∀ c ∈ pendingMade call made ps s, EndsAlike R E c) :
    SimAt (SameRun R) (runPending call ps total) (runPending call' ps total) s s' := by
  induction ps generalizing total s s' with
  | nil => exact SimAt.pure _ hs
  | cons p ps ih =>
    rw [pendingMade] at hends
    refine SimAt.bind (h p s s' hs fun c hc => hends c (List.mem_append_left _ hc))
      fun gas t t' hrun ht => ih ht fun c hc => hends c (List.mem_append_right _ ?_)
    rw [hrun]
    exact hc

/-- By induction on the frames that may still be opened. -/
theorem dispatchContractCall {left : Nat}
    {caller : AccountId} {method : Bytes} {s : ExecState base}
    {s' : ExecState base'} (hs : SameRun R s s')
    (hends : ∀ c ∈ callsMade E height policy left caller target method args msgValue s,
      EndsAlike R E c) :
    SimAt (SameRun R)
      (dispatchContractCall E height policy left caller target method args msgValue)
      (dispatchContractCall E height policy left caller target method args msgValue) s s' := by
  induction left generalizing caller target method args msgValue s s' with
  | zero => exact SimAt.stop _ hs
  | succ left ih =>
    rw [dispatchContractCall_succ, dispatchContractCall_succ]
    have hopen := F.openCall (E := E) hs fun c hc => hends c (List.mem_of_mem_head? hc)
    refine SimAt.bind hopen fun opened t t' hrun ht => ?_
    refine runPending (fun p t t' ht hends => ih ht hends) ht fun c hc => hends c ?_
    rw [callsMade, hrun]
    exact List.mem_cons_of_mem _ hc

end OverlayFrame

/-! ## Operations -/

namespace OverlayFrame

variable {E : Platform} {X : BlockExecutor} {V : Bytes → Prop}
  {R : OverlayStore base → OverlayStore base' → Prop} {ε : Type}
  (F : OverlayFrame V R)

include F

theorem operationAction {action : Action} {s : ExecState base} {s' : ExecState base'}
    (hs : SameRun R s s')
    (hends : ∀ c ∈ actionMade E height policy sender msgValue s action, EndsAlike R E c) :
    SimAt (SameRun R) (operationAction E height policy sender msgValue action)
      (operationAction E height policy sender msgValue action) s s' := by
  cases action with
  | transfer dest amount =>
    exact Sim.related (Sim.bind (F.transferAction _ _ _).mapError fun _ => addGas _) hs
  | setAuth authMethods =>
    exact Sim.related (Sim.bind (F.setAuthAction _ _).mapError fun _ => addGas _) hs
  | deploy code salt =>
    exact Sim.related (Sim.bind (F.deployAction _ _ _).mapError fun _ => addGas _) hs
  | call target method args =>
    unfold Solen.operationAction
    unfold actionMade at hends
    dsimp only at hends ⊢
    by_cases hsys : System.isSystemContract target = true
    · simp only [hsys, if_true] at hends ⊢
      refine SimAt.bind (Sim.related (recordCall target) hs) fun _ t t' hrun ht => ?_
      obtain rfl : noteCall target s = t := congrArg Prod.snd hrun
      have hcall := hends _ (List.mem_singleton.mpr rfl) hsys method rfl _ ht
      refine SimAt.bind (callSystem hcall) fun r t t' _ ht =>
        Sim.related (Sim.bind (addGas _) fun _ => ?_) ht
      split
      · exact Sim.stop _
      · exact Sim.pure _
    · simp only [hsys, if_false, Bool.false_eq_true] at hends ⊢
      have hmeter : SameRun R { s with fuelBudget := maxCallTreeFuel }
          { s' with fuelBudget := maxCallTreeFuel } := { hs with fuelBudget := rfl }
      have hcall := F.dispatchContractCall hmeter hends
      exact SimAt.bind (SimAt.mapError (show SimAt _ _ _ s s' from hcall))
        fun _ t t' _ ht => Sim.related (addGas _) ht

theorem operationActions
    {actions : List Action} {pending : PendingTransfers} {s : ExecState base}
    {s' : ExecState base'} (hs : SameRun R s s')
    (hends : ∀ c ∈ actionsMade E height policy sender actions pending s, EndsAlike R E c) :
    SimAt (SameRun R) (operationActions E height policy sender actions pending)
      (operationActions E height policy sender actions pending) s s' := by
  induction actions generalizing pending s s' with
  | nil => exact SimAt.pure _ hs
  | cons action rest ih =>
    rw [actionsMade] at hends
    have haction := F.operationAction hs fun c hc => hends c (List.mem_append_left _ hc)
    refine SimAt.bind haction fun _ t t' hrun ht => ih ht fun c hc =>
      hends c (List.mem_append_right _ ?_)
    rw [hrun]
    exact hc

/-! ### Validation -/

omit F in
theorem refuseFirst {α : Type} (f : α → Option String) (l : List α) :
    Sim R (refuseFirst f l) (refuseFirst f l) := by
  unfold Solen.refuseFirst
  split
  · exact Sim.stop _
  · exact Sim.pure _

theorem checkSession {op : UserOperation} {key : Hash} {expiresAt : U64} {limit budget : U128}
    {targets : List AccountId} {methods : List String} {restrict : Bool} {o : OverlayStore base}
    {o' : OverlayStore base'} (h : R o o')
    (hexpired : expiresAt.toNat < (currentHeight o).getD 0 ↔
      expiresAt.toNat < (currentHeight o').getD 0) :
    SimAt R (checkSession op key expiresAt limit budget targets methods restrict)
      (checkSession op key expiresAt limit budget targets methods restrict) o o' := by
  rw [SimAt, Solen.checkSession, Solen.checkSession, run_reads_bind, run_reads_bind]
  by_cases hlate : expiresAt.toNat < (currentHeight o).getD 0
  · rw [run_bind_error (run_stopIf_pos hlate), run_bind_error (run_stopIf_pos (hexpired.mp hlate))]
    exact ⟨rfl, h⟩
  rw [run_bind_ok (run_stopIf_neg hlate), run_bind_ok (run_stopIf_neg (mt hexpired.mpr hlate))]
  refine Sim.related (Sim.guard ?_) h
  refine Sim.bind (Sim.reads fun _ _ hs => ?_) fun _ => ?_
  · have hkey : isNonStateKey (sessionSpentKey op.sender key) = false := by
      rw [sessionSpentKey, List.append_assoc, List.append_assoc]
      exact isNonStateKey_append _ (by decide)
    rw [priorSpend, priorSpend, F.readConfigU128_eq hs hkey]
  refine Sim.guard ?_
  refine Sim.bind (Sim.ite (fun _ => Sim.pure _) fun _ => refuseFirst _ _) fun _ => ?_
  refine Sim.bind (refuseFirst _ _) fun _ => ?_
  exact Sim.done (Sim.ite (fun _ => Sim.pure _) fun _ => refuseFirst _ _)

theorem consumeNonce (id : AccountId) (nonce : U64) :
    Sim R (consumeNonce E id nonce) (consumeNonce E id nonce) := by
  refine Sim.bind (F.requireAccount id) fun a => Sim.guard ?_
  split
  · exact Sim.stop _
  · exact F.saveAccount _

/-- The height decides about a session key, and nothing else. -/
theorem validateAndPrepare (height : Nat) {o : OverlayStore base} {o' : OverlayStore base'}
    (h : R o o') (hexpired : sessionExpired E X op o = sessionExpired E X op o') :
    SimAt R (validateAndPrepare E X op height) (validateAndPrepare E X op height) o o' := by
  have hload := F.loadAccount_eq (E := E) h op.sender
  rw [SimAt, Solen.validateAndPrepare, Solen.validateAndPrepare, run_bind, run_bind, run_mapError,
    run_mapError, run_getAccount, run_getAccount, ← hload]
  unfold sessionExpired at hexpired
  rw [← hload] at hexpired
  rcases hacct : loadAccount E op.sender o with e | (_ | account)
  · exact ⟨rfl, h⟩
  · exact ⟨rfl, h⟩
  · dsimp only
    cases hsys : isSystemAuthorized op with
    | true => exact ⟨rfl, h⟩
    | false =>
      rw [hacct] at hexpired
      dsimp only at hexpired
      refine SimAt.bind (SimAt.guard h ?_) fun prepared t t' _ ht =>
        Sim.related (Sim.done (F.consumeNonce _ _).mapError) ht
      split
      · next hfind =>
          rw [hfind] at hexpired
          exact F.checkSession h (decide_eq_decide.mp (Option.some.inj hexpired))
      · exact SimAt.pure _ h

/-! ### Fees -/

theorem reserveFee (op : UserOperation) :
    Sim (SameRun R) (reserveFee E op : Prog (ExecState base) ε U128) (reserveFee E op) := by
  refine Sim.bind (F.exec.getAccount _).attempt fun r => ?_
  split
  · exact Sim.done (F.exec.saveAccount _)
  · exact Sim.pure _

theorem chargeFailure (op : UserOperation) (height : Nat) (gasUsed : U64) :
    Sim R (chargeFailure E X op height gasUsed) (chargeFailure E X op height gasUsed) := by
  refine Sim.bind (F.consumeNonce _ _).attempt fun _ => Sim.ite (fun _ => ?_) fun _ => Sim.pure _
  refine Sim.bind (F.requireAccount _).attempt fun r => ?_
  split
  · exact Sim.done (F.saveAccount _)
  · exact Sim.pure _

theorem effectiveFeeConfig_eq {s : ExecState base} {s' : ExecState base'} (hs : SameRun R s s') :
    effectiveFeeConfig X s = effectiveFeeConfig X s' := by
  rw [effectiveFeeConfig, effectiveFeeConfig, F.exec.getState hs (by decide)]

theorem creditTreasury (treasury : AccountId) (share : U128) :
    Sim (SameRun R) (creditTreasury E treasury share : Prog (ExecState base) ε U128)
      (creditTreasury E treasury share) := by
  refine Sim.ite (fun _ => ?_) fun _ => Sim.pure _
  refine Sim.bind (F.exec.getAccount _).attempt fun r => ?_
  split
  · exact Sim.done (F.exec.saveAccount _)
  · exact Sim.pure _

theorem settleFees (op : UserOperation) (height : Nat) (reserved : U128) :
    Sim (SameRun R) (settleFees E X op height reserved : Prog (ExecState base) ε _)
      (settleFees E X op height reserved) := by
  refine Sim.bind (Sim.reads fun _ _ hs => F.effectiveFeeConfig_eq hs) fun _ => ?_
  refine Sim.bind (Sim.reads fun _ _ hs => hs.gasUsed) fun _ => ?_
  refine Sim.ite (fun _ => ?_) fun _ => Sim.pure _
  refine Sim.bind (F.exec.getAccount _).attempt fun r => ?_
  split
  · refine Sim.bind (F.exec.saveAccount _) fun _ => Sim.bind (F.creditTreasury _ _) fun _ => ?_
    exact Sim.done (emit _)
  · exact Sim.pure _

/-! ### Whole operations -/

theorem failOperation (height : Nat) (msg : String) {o : OverlayStore base}
    {o' : OverlayStore base'} (h : R o o') {s : ExecState base} {s' : ExecState base'}
    (hs : SameRun R s s') :
    (failOperation E X op height o.savepoint msg s).receipt =
        (failOperation E X op height o'.savepoint msg s').receipt ∧
      R (failOperation E X op height o.savepoint msg s).store
        (failOperation E X op height o'.savepoint msg s').store := by
  have hcharge := F.chargeFailure (E := E) (X := X) op height s.gasUsed _ _
    (F.restore s.store s'.store h)
  unfold Solen.failOperation
  rw [← hs.gasUsed]
  exact ⟨rfl, hcharge.2.1⟩

theorem finishOperation (height : Nat) (prepared : PreparedOp)
    (reserved : U128) {s : ExecState base} {s' : ExecState base'} (hs : SameRun R s s') :
    (finishOperation E X op height prepared reserved s).receipt =
        (finishOperation E X op height prepared reserved s').receipt ∧
      R (finishOperation E X op height prepared reserved s).store
        (finishOperation E X op height prepared reserved s').store := by
  obtain ⟨-, hR, -⟩ := F.settleFees (E := E) (X := X) (ε := Empty) op height reserved s s' hs
  constructor
  · change receiptOf op s.gasUsed none _ = receiptOf op s'.gasUsed none _
    rw [hs.gasUsed, hR.events]
  · change R (commitSessionCharge _ _) (commitSessionCharge _ _)
    cases prepared.sessionCharge with
    | none => exact hR.store
    | some charge => exact F.put _ _ hR.store

theorem executePrepared (height : Nat) (prepared : PreparedOp)
    {o : OverlayStore base} {o' : OverlayStore base'} (h : R o o')
    (hends : ∀ c ∈ actionsMade E height prepared.subcallPolicy op.sender op.actions ∅
      (reservedState E op o), EndsAlike R E c) :
    (executePrepared E X op height prepared o).receipt =
        (executePrepared E X op height prepared o').receipt ∧
      R (executePrepared E X op height prepared o).store
        (executePrepared E X op height prepared o').store := by
  have hrun : SimAt (SameRun R) (reserveAndRun E op height prepared.subcallPolicy)
      (reserveAndRun E op height prepared.subcallPolicy) { store := o } { store := o' } := by
    obtain ⟨reserved, hreserve⟩ : ∃ reserved, (Solen.reserveFee E op : Prog _ String U128).run
      { store := o } = (.ok reserved, reservedState E op o) := run_reserveFee o
    refine SimAt.bind (Sim.related (F.reserveFee op) (SameRun.start h)) fun r t t' hres ht => ?_
    cases hreserve.symm.trans hres
    exact SimAt.bind (F.operationActions ht hends) fun _ t t' _ ht => SimAt.pure _ ht
  obtain ⟨hval, hs⟩ := hrun
  unfold Solen.executePrepared
  rcases hr : (reserveAndRun E op height prepared.subcallPolicy).run { store := o } with ⟨r, s⟩
  rcases hr' : (reserveAndRun E op height prepared.subcallPolicy).run { store := o' } with ⟨r', s'⟩
  rw [hr, hr'] at hval hs
  cases hval
  cases r with
  | error msg => exact F.failOperation height msg h hs
  | ok reserved => exact F.finishOperation height prepared reserved hs

theorem executeOperation (height : Nat) {o : OverlayStore base} {o' : OverlayStore base'}
    (h : R o o')
    (hexpired : precheck E op = none → sessionExpired E X op o = sessionExpired E X op o')
    (hends : ∀ c ∈ operationMade E X o op height, EndsAlike R E c) :
    (executeOperation E X o op height).receipt = (executeOperation E X o' op height).receipt ∧
      R (executeOperation E X o op height).store (executeOperation E X o' op height).store := by
  unfold Solen.executeOperation
  unfold operationMade at hends
  split
  · exact ⟨rfl, h⟩
  next hpre =>
  rw [hpre] at hends
  obtain ⟨hval, hR⟩ := F.validateAndPrepare height h (hexpired hpre)
  rcases hrun : (Solen.validateAndPrepare E X op height).run o with ⟨r, o₁⟩
  rcases hrun' : (Solen.validateAndPrepare E X op height).run o' with ⟨r', o₁'⟩
  rw [hrun, hrun'] at hval hR
  rw [hrun] at hends
  cases hval
  cases r with
  | error e => exact ⟨rfl, hR⟩
  | ok prepared => exact F.executePrepared height prepared hR hends

end OverlayFrame

/-! ## What is read outside the state root -/

/-- The keys outside the state root that an operation reads: the chain
metadata for the expiry of a session key, and what the system calls that it
makes read. -/
def OpReads (E : Platform) (X : BlockExecutor) (o : OverlayStore base) (op : UserOperation)
    (height : Nat) (k : Bytes) : Prop :=
  (precheck E op = none ∧ (sessionExpired E X op o).isSome = true ∧ k = chainMetaKey) ∨
    ∃ c ∈ operationMade E X o op height, System.isSystemContract c.target = true ∧
      ∃ m, c.text = some m ∧ SystemReads c.target m c.args k

namespace OverlayFrame

variable {E : Platform} {X : BlockExecutor} {V : Bytes → Prop}
  {R : OverlayStore base → OverlayStore base' → Prop} (F : OverlayFrame V R)

include F

theorem sessionExpired_eq {o : OverlayStore base} {o' : OverlayStore base'} (h : R o o')
    (hmeta : (sessionExpired E X op o).isSome = true → V chainMetaKey) :
    sessionExpired E X op o = sessionExpired E X op o' := by
  unfold sessionExpired at hmeta ⊢
  rw [← F.loadAccount_eq h]
  split
  · split
    · next hload _ _ _ _ _ _ _ _ hfind =>
        rw [hload] at hmeta
        dsimp only at hmeta
        rw [hfind] at hmeta
        rw [currentHeight, currentHeight, F.metaHeight_eq h (hmeta rfl)]
    · rfl
  · rfl

/-- A call ends alike where the keys it reads agree. -/
theorem endsAlike {c : MadeCall base}
    (hV : System.isSystemContract c.target = true → ∀ m, c.text = some m →
      ∀ k, SystemReads c.target m c.args k → V k) : EndsAlike R E c :=
  fun hsys m hm _ hs => F.exec.executeSystemCall hs _ _ _ _ (hV hsys m hm)

theorem executeOperation_of_reads (height : Nat) {o : OverlayStore base}
    {o' : OverlayStore base'} (h : R o o') (hV : ∀ k, OpReads E X o op height k → V k) :
    (Solen.executeOperation E X o op height).receipt =
        (Solen.executeOperation E X o' op height).receipt ∧
      R (Solen.executeOperation E X o op height).store
        (Solen.executeOperation E X o' op height).store :=
  F.executeOperation height h
    (fun hpre => F.sessionExpired_eq h fun hsome => hV _ (.inl ⟨hpre, hsome, rfl⟩))
    fun c hc => F.endsAlike fun hsys m hm k hk => hV k (.inr ⟨c, hc, hsys, m, hm, hk⟩)

end OverlayFrame

/-! ## Blocks -/

/-- If each step of a run takes related overlays to related ones, with the
same view of the receipt, so does the run. -/
theorem runSteps_same {γ : Type} (view : ExecutionReceipt → γ)
    {R : OverlayStore base → OverlayStore base' → Prop}
    (step : OverlayStore base → UserOperation → OpOutcome base)
    (step' : OverlayStore base' → UserOperation → OpOutcome base') {ops : List UserOperation}
    {o : OverlayStore base} {o' : OverlayStore base'} (h : R o o')
    (hstep : ∀ r ∈ runSteps step ops o, ∀ t', R r.before t' →
      view (step r.before r.op).receipt = view (step' t' r.op).receipt ∧
        R (step r.before r.op).store (step' t' r.op).store) :
    (runSteps step ops o).map (fun r => view r.outcome.receipt) =
        (runSteps step' ops o').map (fun r => view r.outcome.receipt) ∧
      R (finalStore o (runSteps step ops o)) (finalStore o' (runSteps step' ops o')) := by
  induction ops generalizing o o' with
  | nil => exact ⟨rfl, h⟩
  | cons op ops ih =>
    obtain ⟨hfirst, hrest⟩ := List.forall_mem_cons.mp hstep
    obtain ⟨hreceipt, hR⟩ := hfirst o' h
    obtain ⟨hreceipts, hfinal⟩ := ih hR hrest
    exact ⟨congrArg₂ List.cons hreceipt hreceipts, hfinal⟩

namespace ReadFrame

variable {σ σ' : Type} [StateStore σ] [StateStore σ'] {E : Platform} {V : Bytes → Prop}
  {R : σ → σ' → Prop} (F : ReadFrame V R)

include F

theorem epochRewards_eq {s : σ} {s' : σ'} (hs : R s s') (height : Nat) :
    epochRewards E height s = epochRewards E height s' := by
  have hstaking : loadStaking E s = loadStaking E s' := F.loadRecord_eq hs _ _ (by decide)
  unfold epochRewards
  rw [F.readConfigU128_eq hs (by decide), hstaking, F.loadAccount_eq hs]

theorem creditAccountRaw {s : σ} {s' : σ'} (hs : R s s') (id : AccountId) (amount : U128) :
    R (creditAccountRaw E id amount s) (creditAccountRaw E id amount s') := by
  unfold Solen.creditAccountRaw
  rw [← F.loadAccount_eq hs]
  split
  · exact F.put _ _ hs
  · exact hs

theorem takeFromPool {s : σ} {s' : σ'} (hs : R s s') (amount : U128) :
    R (takeFromPool E amount s) (takeFromPool E amount s') := by
  unfold Solen.takeFromPool
  rw [← F.loadAccount_eq hs]
  split
  · exact F.put _ _ hs
  · exact hs

theorem creditAll (credits : List RewardCredit) {s : σ} {s' : σ'} (hs : R s s') :
    R (credits.foldl (fun s c => Solen.creditAccountRaw E c.account c.amount s) s)
      (credits.foldl (fun s c => Solen.creditAccountRaw E c.account c.amount s) s') := by
  induction credits generalizing s s' with
  | nil => exact hs
  | cons c credits ih => exact ih (F.creditAccountRaw hs _ _)

theorem distributeEpochRewards {s : σ} {s' : σ'} (hs : R s s') (height : Nat) :
    (distributeEpochRewards E height s).1 = (distributeEpochRewards E height s').1 ∧
      R (distributeEpochRewards E height s).2 (distributeEpochRewards E height s').2 := by
  unfold Solen.distributeEpochRewards
  rw [← F.epochRewards_eq hs]
  split
  · exact ⟨rfl, hs⟩
  · exact ⟨rfl, F.creditAll _ (F.takeFromPool hs _)⟩

theorem mixRandomness {s : σ} {s' : σ'} (hs : R s s') (root : Hash) (height : Nat) :
    R (mixRandomness E root height s) (mixRandomness E root height s') := by
  unfold Solen.mixRandomness
  rw [F.loadRecord_eq hs _ _ (by decide)]
  exact F.put _ _ hs

end ReadFrame

/-- Two overlays with the same staged changes. -/
structure SameDelta (o : OverlayStore base) (o' : OverlayStore base') : Prop where
  writes : o.writes = o'.writes
  deletes : o.deletes = o'.deletes

theorem SameDelta.changes_eq {o : OverlayStore base} {o' : OverlayStore base'}
    (h : SameDelta o o') : o.intoChanges = o'.intoChanges := by
  rw [OverlayStore.intoChanges, OverlayStore.intoChanges, h.writes, h.deletes]

/-- Overlays with the same staged changes read the same wherever their bases
agree. -/
theorem sameDelta_frame
    (hstate : ∀ k : Bytes, isNonStateKey k = false → base[k]? = base'[k]?) :
    OverlayFrame (fun k => base[k]? = base'[k]?) (@SameDelta base base') where
  state hk := hstate _ hk
  get {o o' k} h hk := by
    change o.get k = o'.get k
    rw [OverlayStore.get, OverlayStore.get, h.writes, h.deletes, hk]
  scan {o o' p} h hp := by
    change o.scanPrefix p = o'.scanPrefix p
    rw [OverlayStore.scanPrefix, OverlayStore.scanPrefix, h.writes, h.deletes,
      Store.scanPrefix_congr hp]
  put k v h := ⟨congrArg (·.insert k v) h.writes, congrArg (·.erase k) h.deletes⟩
  restore t t' h := by
    rw [OverlayStore.savepoint, OverlayStore.savepoint, h.changes_eq]
    exact ⟨rfl, rfl⟩

/-- The staged changes of `o` over another store. -/
def OverlayStore.over (o : OverlayStore base) (base' : Store) : OverlayStore base' :=
  ⟨o.writes, o.deletes, o.disjoint⟩

def ExecState.over (s : ExecState base) (base' : Store) : ExecState base' where
  store := s.store.over base'
  events := s.events
  gasUsed := s.gasUsed
  fuelBudget := s.fuelBudget
  calls := s.calls
  collisions := s.collisions

theorem SameDelta.over_eq {o : OverlayStore base} {o' : OverlayStore base'}
    (h : SameDelta o o') : o.over base' = o' := by
  obtain ⟨writes, deletes, hdisjoint⟩ := o'
  obtain ⟨rfl, rfl⟩ := h
  rfl

theorem SameRun.over_eq {s : ExecState base} {s' : ExecState base'}
    (h : SameRun SameDelta s s') : s.over base' = s' := by
  obtain ⟨store, events, gasUsed, fuelBudget, calls, collisions⟩ := s'
  obtain ⟨hstore, rfl, rfl, rfl, rfl, rfl⟩ := h
  rw [ExecState.over, hstore.over_eq]

theorem SameRun.over (s : ExecState base) (base' : Store) :
    SameRun SameDelta s (s.over base') :=
  ⟨⟨rfl, rfl⟩, rfl, rfl, rfl, rfl, rfl⟩

/-- Made over another store, the call has the same result and stages the same
changes. -/
def MadeCall.SameOver (E : Platform) (base' : Store) (c : MadeCall base) : Prop :=
  System.isSystemContract c.target = true → ∀ m ∈ c.text,
    executeSystemCall E (c.state.over base') c.caller c.target m c.args =
      ((executeSystemCall E c.state c.caller c.target m c.args).1,
        (executeSystemCall E c.state c.caller c.target m c.args).2.over base')

theorem MadeCall.sameOver_iff {c : MadeCall base} :
    c.SameOver E base' ↔ OverlayFrame.EndsAlike (@SameDelta base base') E c := by
  constructor
  · intro h hsys m hm s' hs
    rw [← hs.over_eq, h hsys m hm]
    exact ⟨rfl, SameRun.over _ _⟩
  · intro h hsys m hm
    obtain ⟨hval, hR⟩ := h hsys m hm _ (SameRun.over c.state base')
    exact Prod.ext hval.symm hR.over_eq.symm

/-- The operation finds the same over another store, wherever it asks for what
is outside the state root: a session key has expired or has not, and each
system call it makes ends the same way. -/
def OpAgrees (E : Platform) (X : BlockExecutor) (base' : Store) (o : OverlayStore base)
    (op : UserOperation) (height : Nat) : Prop :=
  (precheck E op = none → sessionExpired E X op o = sessionExpired E X op (o.over base')) ∧
    ∀ c ∈ operationMade E X o op height, c.SameOver E base'

local instance : LawfulBEq Bytes := inferInstance

instance : DecidableEq (OverlayStore base) := fun o o' =>
  decidable_of_iff (o.writes = o'.writes ∧ o.deletes = o'.deletes) OverlayStore.ext_iff.symm

deriving instance DecidableEq for ExecState

instance (E : Platform) (base' : Store) (c : MadeCall base) : Decidable (c.SameOver E base') := by
  unfold MadeCall.SameOver
  infer_instance

instance (E : Platform) (X : BlockExecutor) (base' : Store) (o : OverlayStore base)
    (op : UserOperation) (height : Nat) : Decidable (OpAgrees E X base' o op height) := by
  unfold OpAgrees
  infer_instance

/-- The operations of a block that are executed. The parallel path skips some. -/
def executedRuns (E : Platform) (X : BlockExecutor) (s : Store) (ops : List UserOperation)
    (height : Nat) : List (OpRun s) :=
  (stageBlock E X s ops height).runs.filter fun r =>
    decide (ops.length < parallelThreshold) ||
      (prevalidate E X (OverlayStore.new s) height r.op).isSome

/-- The block has the same receipts on both stores, and the same changes to
the keys that enter the state root. -/
def SameExecution (E : Platform) (X : BlockExecutor) (s s' : Store) (ops : List UserOperation)
    (height : Nat) : Prop :=
  (executeBlockWithHeight E X s ops height).1.receipts =
      (executeBlockWithHeight E X s' ops height).1.receipts ∧
    ∀ k : Bytes, isNonStateKey k = false →
      (stageBlock E X s ops height).changes[k]? = (stageBlock E X s' ops height).changes[k]?

theorem prevalidate_eq {V : Bytes → Prop}
    {R : OverlayStore base → OverlayStore base' → Prop} (F : OverlayFrame V R)
    {o : OverlayStore base} {o' : OverlayStore base'} (h : R o o') (height : Nat)
    (op : UserOperation) : prevalidate E X o height op = prevalidate E X o' height op := by
  rw [prevalidate, prevalidate, F.loadAccount_eq h]

theorem blockStep_same {R : OverlayStore base → OverlayStore base' → Prop} {V : Bytes → Prop}
    (F : OverlayFrame V R) {start : OverlayStore base} {start' : OverlayStore base'}
    (hstart : R start start') (ops : List UserOperation) (height : Nat) {o : OverlayStore base}
    {o' : OverlayStore base'} (h : R o o')
    (hop : (decide (ops.length < parallelThreshold) ||
        (prevalidate E X start height op).isSome) = true →
      (executeOperation E X o op height).receipt = (executeOperation E X o' op height).receipt ∧
        R (executeOperation E X o op height).store (executeOperation E X o' op height).store) :
    (blockStep E X start ops height o op).receipt =
        (blockStep E X start' ops height o' op).receipt ∧
      R (blockStep E X start ops height o op).store
        (blockStep E X start' ops height o' op).store := by
  unfold blockStep
  split
  · unfold parallelStep
    rw [← prevalidate_eq F hstart]
    cases hpre : prevalidate E X start height op with
    | none => exact ⟨rfl, h⟩
    | some name =>
      obtain ⟨hreceipt, hR⟩ := hop (by rw [hpre]; simp)
      refine ⟨?_, hR⟩
      dsimp only
      rw [hreceipt]
  · next hlen => exact hop (by simp [Nat.not_le.mp hlen])

theorem stageBlock_same {s s' : Store} (ops : List UserOperation) (height : Nat)
    (hstate : ∀ k : Bytes, isNonStateKey k = false → s[k]? = s'[k]?)
    (hagrees : ∀ r ∈ executedRuns E X s ops height, OpAgrees E X s' r.before r.op height) :
    (stageBlock E X s ops height).runs.map (·.outcome.receipt) =
        (stageBlock E X s' ops height).runs.map (·.outcome.receipt) ∧
      (stageBlock E X s ops height).rewardReceipts =
        (stageBlock E X s' ops height).rewardReceipts ∧
      SameDelta (stageBlock E X s ops height).final (stageBlock E X s' ops height).final := by
  have F := sameDelta_frame hstate
  have hstart : SameDelta (OverlayStore.new s) (OverlayStore.new s') := ⟨rfl, rfl⟩
  obtain ⟨hreceipts, hops⟩ := runSteps_same id (R := SameDelta)
    (blockStep E X (OverlayStore.new s) ops height)
    (blockStep E X (OverlayStore.new s') ops height) hstart
    fun r hr t' ht => blockStep_same F hstart ops height ht fun hran => by
      obtain ⟨hsession, hcalls⟩ := hagrees r (List.mem_filter.mpr ⟨hr, hran⟩)
      rw [ht.over_eq] at hsession
      exact F.executeOperation height ht hsession fun c hc =>
        MadeCall.sameOver_iff.mp (hcalls c hc)
  have hrewards := F.distributeEpochRewards (E := E) hops height
  unfold stageBlock
  refine ⟨hreceipts, ?_⟩
  rw [Store.stateRoot_congr E.blake3 hstate]
  by_cases hepoch : 0 < height ∧ height % epochLength = 0
  · simp only [if_pos hepoch]
    refine ⟨hrewards.1, ?_⟩
    split
    · exact F.mixRandomness hrewards.2 _ _
    · exact hrewards.2
  · simp only [if_neg hepoch]
    refine ⟨trivial, ?_⟩
    split
    · exact F.mixRandomness hops _ _
    · exact hops

theorem OpAgrees.of_reads {s s' : Store} {o : OverlayStore s}
    (hstate : ∀ k : Bytes, isNonStateKey k = false → s[k]? = s'[k]?)
    (hreads : ∀ k, OpReads E X o op height k → s[k]? = s'[k]?) :
    OpAgrees E X s' o op height := by
  have F := sameDelta_frame hstate
  refine ⟨fun hpre => F.sessionExpired_eq ⟨rfl, rfl⟩ fun hsome => hreads _ (.inl ⟨hpre, hsome, rfl⟩),
    fun c hc => MadeCall.sameOver_iff.mpr (F.endsAlike fun hsys m hm k hk => ?_)⟩
  exact hreads k (.inr ⟨c, hc, hsys, m, hm, hk⟩)

/-- Executed over another store, the operation has the same receipt and stages
the same changes. -/
def SameOutcome (E : Platform) (X : BlockExecutor) (base' : Store) (o : OverlayStore base)
    (op : UserOperation) (height : Nat) : Prop :=
  (executeOperation E X o op height).receipt =
      (executeOperation E X (o.over base') op height).receipt ∧
    (executeOperation E X o op height).store.over base' =
      (executeOperation E X (o.over base') op height).store

theorem OverlayStore.over_inj {o t : OverlayStore base} (h : o.over base' = t.over base') :
    o = t := by
  obtain ⟨writes, deletes, hdisjoint⟩ := o
  cases h
  rfl

/-- An operation that ends the same way over both stores finds its session key
expired on both or on none. -/
theorem sessionExpired_of_sameOutcome {s s' : Store} {o : OverlayStore s}
    (hstate : ∀ k : Bytes, isNonStateKey k = false → s[k]? = s'[k]?)
    (hid : ∀ a, account? E o.entries op.sender = some a → a.id = op.sender)
    (hpre : precheck E op = none) (h : SameOutcome E X s' o op height) :
    sessionExpired E X op o = sessionExpired E X op (o.over s') := by
  obtain ⟨hreceipt, hstore⟩ := h
  have hload : loadAccount E op.sender o = loadAccount E op.sender (o.over s') :=
    (sameDelta_frame hstate).loadAccount_eq ⟨rfl, rfl⟩ op.sender
  have hid' : ∀ a, account? E (o.over s').entries op.sender = some a → a.id = op.sender := by
    intro a ha
    have hload' : loadAccount E op.sender (o.over s') = .ok (some a) := loadAccount_of_account? ha
    exact hid a (account?_of_loadAccount (hload.trans hload'))
  have hsome : (sessionExpired E X op o).isSome = (sessionExpired E X op (o.over s')).isSome := by
    unfold sessionExpired
    rw [← hload]
    split
    · split <;> rfl
    · rfl
  cases hleft : sessionExpired E X op o with
  | none =>
    rw [hleft] at hsome
    exact (Option.isNone_iff_eq_none.mp (by simpa using hsome.symm)).symm
  | some b =>
    rw [hleft] at hsome
    obtain ⟨b', hright⟩ := Option.isSome_iff_exists.mp hsome.symm
    rw [hright]
    cases b <;> cases b'
    · rfl
    · -- expired over the other store only
      obtain ⟨herr, hsame⟩ := executeOperation_of_expired height hpre hright
      rw [hsame] at hstore
      refine absurd (congrArg OverlayStore.entries (OverlayStore.over_inj hstore)) ?_
      exact executeOperation_of_unexpired height hpre hid hleft (hreceipt ▸ herr)
    · obtain ⟨herr, hsame⟩ := executeOperation_of_expired height hpre hleft
      rw [hsame] at hstore
      refine absurd (congrArg OverlayStore.entries hstore.symm) ?_
      exact executeOperation_of_unexpired height hpre hid' hright (hreceipt ▸ herr)
    · rfl

/-! ## The result -/

/-- Stores that agree on the keys that enter the state root execute a block
alike if its operations find the same outside of it: session keys have
expired on both or on none, and the system calls that are made end alike.
They do where the stores agree on the keys that are read there. Conversely,
an operation for which a session key has expired on one store only does not
end the same way. -/
theorem executeBlock_stateOnly (E : Platform) (X : BlockExecutor) (s s' : Store)
    (ops : List UserOperation) (height : Nat)
    (hstate : ∀ k : Bytes, isNonStateKey k = false → s[k]? = s'[k]?) :
    ((∀ r ∈ executedRuns E X s ops height, OpAgrees E X s' r.before r.op height) →
        SameExecution E X s s' ops height) ∧
      ((∀ r ∈ executedRuns E X s ops height, ∀ k, OpReads E X r.before r.op height k →
          s[k]? = s'[k]?) →
        ∀ r ∈ executedRuns E X s ops height, OpAgrees E X s' r.before r.op height) ∧
      ∀ r ∈ executedRuns E X s ops height, precheck E r.op = none →
        (∀ a, account? E r.before.entries r.op.sender = some a → a.id = r.op.sender) →
        sessionExpired E X r.op r.before ≠ sessionExpired E X r.op (r.before.over s') →
        ¬ SameOutcome E X s' r.before r.op height := by
  refine ⟨fun hagrees => ?_, fun hreads r hr => OpAgrees.of_reads hstate (hreads r hr),
    fun r _ hpre hid hne hsame => hne (sessionExpired_of_sameOutcome hstate hid hpre hsame)⟩
  obtain ⟨hreceipts, hrewards, hfinal⟩ := stageBlock_same ops height hstate hagrees
  refine ⟨?_, fun k _ => ?_⟩
  · change _ ++ _ = _ ++ _
    rw [hreceipts, hrewards]
  · rw [StagedBlock.changes, StagedBlock.changes, hfinal.changes_eq]

/-- A chain at some height, with `bob` as a validator and a session key of `bob`
for the account of `alice`, until height 200. -/
def chainAt (height : Nat) : Store :=
  (saveRecord concretePlatform.staking StakingContract.storageKey
    { validators := [⟨bob, 5#128, 0#128, 0#128, true, false, 0#64, 1000#64, 0#64, none, 0#64⟩] }
    (accountStore concretePlatform
      [{ keyAccount alice 1000000#128 with
          authMethods := [.session bob 200#64 0#128 0#128 [] [] false] },
        keyAccount bob 0#128])).insert chainMetaKey (toLeBytes 16 height)

/-- The session calls an account without code and delegates. -/
def sessionDelegate : UserOperation :=
  signWith bob 0#64
    { sender := alice
      nonce := 0#64
      actions := [.call bob "ping" [],
        .call System.stakingAddress "delegate" (bob.bytes ++ le128 7#128)]
      maxFee := 100000#128
      signature := [] }

/-- The heights differ, but they are of one epoch and before the expiry: the
session key is found valid and the delegation ends alike. -/
theorem executeBlock_stateOnly_epoch :
    (∀ k : Bytes, isNonStateKey k = false → (chainAt 120)[k]? = (chainAt 150)[k]?) ∧
      (chainAt 120)[chainMetaKey]? ≠ (chainAt 150)[chainMetaKey]? ∧
      (executedRuns concretePlatform {} (chainAt 120) [sessionDelegate] 121).map (fun r =>
        (sessionExpired concretePlatform {} r.op r.before,
          (operationMade concretePlatform {} r.before r.op 121).map (·.target))) =
        [(some false, [bob, System.stakingAddress])] ∧
      (executeBlockWithHeight concretePlatform {} (chainAt 120) [sessionDelegate] 121).1.receipts.map
        (·.success) = [true] ∧
      SameExecution concretePlatform {} (chainAt 120) (chainAt 150) [sessionDelegate] 121 := by
  have hstate : ∀ k : Bytes, isNonStateKey k = false → (chainAt 120)[k]? = (chainAt 150)[k]? := by
    intro k hk
    have hne : chainMetaKey ≠ k := by
      rintro rfl
      exact absurd hk (by decide)
    rw [chainAt, chainAt, Delta.getElem?_insert, Delta.getElem?_insert, if_neg hne, if_neg hne]
  exact ⟨hstate, by decide +kernel, by decide +kernel, by decide +kernel,
    (executeBlock_stateOnly concretePlatform {} (chainAt 120) (chainAt 150) [sessionDelegate] 121
      hstate).1 (by decide +kernel)⟩

/-- An account of `alice` that only a session key of `bob` controls, until
height 10. -/
def sessionAccount : Account :=
  { emptyAccount alice with
    authMethods := [.session bob 10#64 0#128 0#128 [] [] false] }

/-- An operation of that session that does nothing. -/
def sessionNoop : UserOperation :=
  signWith bob 0#64
    { sender := alice
      nonce := 0#64
      actions := []
      maxFee := 0#128
      signature := [] }

/-- A chain at height 20 with that account. -/
def lateChain : Store :=
  (singleAccount alice sessionAccount).insert chainMetaKey (toLeBytes 16 20)

/-- The two chains have the same state root, but the session has expired on
one of them only. -/
theorem not_sameExecution_lateChain :
    (∀ k : Bytes, isNonStateKey k = false →
      lateChain[k]? = (singleAccount alice sessionAccount)[k]?) ∧
    ¬ SameExecution concretePlatform {} lateChain (singleAccount alice sessionAccount)
      [sessionNoop] 1 := by
  refine ⟨fun k hk => ?_, fun h => absurd h.1 (by decide +kernel)⟩
  rw [lateChain, Delta.getElem?_insert, if_neg]
  rintro rfl
  exact absurd hk (by decide)

end Solen
