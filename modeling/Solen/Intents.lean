import Solen.BlockFrame
import Solen.CallStates
import Solen.Concrete

/-!
# Intents are never settled

`fulfill` debits the owner of an intent, and the proposer may inject it
without a signature. What protects the owner is a record under
`intent/{id}` that has to be in the store. No code writes one: whatever
a block runs, a store without such a record stays without one, and in
such a store every call to the intent contract is refused before it
touches an account.
-/

namespace Solen

open Machine Prog

/-! ## Stores without intents -/

section Free

variable {σ : Type} [StateStore σ]

def IntentFree (s : σ) : Prop := ∀ k, ascii "intent/" <+: k → StateStore.get s k = none

theorem IntentFree.of_entries {τ : Type} [StateStore τ] {s : σ} {t : τ} (h : IntentFree s)
    (heq : StateStore.entries t = StateStore.entries s) : IntentFree t := fun k hk => by
  rw [StateStore.get_eq, heq, ← StateStore.get_eq, h k hk]

/-- A key that does not begin with an `i` is no intent key. -/
theorem IntentFree.put {s : σ} {k : Bytes} (h : IntentFree s) (v : Bytes) {b : UInt8}
    (hk : k.head? = some b) (hb : b ≠ 105) : IntentFree (StateStore.put s k v) := by
  intro k' hk'
  rw [StateStore.get_put_of_ne _ _ fun heq => ?_, h k' hk']
  obtain ⟨t, rfl⟩ := hk'
  rw [heq, List.head?_append_of_ne_nil _ (by decide)] at hk
  have hi : (ascii "intent/").head? = some 105 := by decide
  rw [hi] at hk
  exact hb (Option.some.inj hk).symm

theorem prefix_intentKey (id : U64) : ascii "intent/" <+: intentKey id :=
  ⟨ascii (toString id.toNat), by rw [← ascii_append]; rfl⟩

theorem IntentFree.unauthorized {s : σ} (h : IntentFree s) (sender : AccountId) (id : U64) :
    intentAuthorized sender id s = false := by
  rw [intentAuthorized, h _ (prefix_intentKey id)]

variable {E : Platform}

theorem systemCall_intent (sender : AccountId) (method : String) (args : Bytes) :
    (systemCall E sender System.intentAddress method args : SysM σ _) =
      executeIntentCall E sender method args := by
  unfold systemCall
  rw [if_neg (by decide), if_neg (by decide), if_neg (by decide), if_neg (by decide),
    if_neg (by decide), if_pos rfl]

theorem IntentFree.fulfill_stops {s : σ} (h : IntentFree s) (sender : AccountId) (args : Bytes) :
    ∃ msg, (intentFulfill E sender args).run s = (.error (err msg), s) := by
  by_cases hshort : args.length < 60
  · exact ⟨_, by rw [intentFulfill, run_bind_error (run_stopIf_pos hshort)]⟩
  rw [intentFulfill, run_bind_ok (run_stopIf_neg hshort)]
  cases readAccountId args 8 with
  | none => exact ⟨_, rfl⟩
  | some solver =>
    exact ⟨_, (run_bind_ok (run_pure solver s)).trans ((run_bind_ok (run_reads _ s)).trans
      (run_bind_error (run_stopIf_pos (h.unauthorized sender _))))⟩

/-- Without an intent record the intent contract refuses every call and
leaves the store as it is. -/
theorem IntentFree.refused {s : σ} (h : IntentFree s) (sender : AccountId) (method : String)
    (args : Bytes) :
    ∃ msg, executeSystemCall E s sender System.intentAddress method args = (err msg, s) := by
  rw [executeSystemCall, runSystemCall, systemCall_intent]
  by_cases hm : method = "fulfill"
  · obtain ⟨msg, hrun⟩ := h.fulfill_stops (E := E) sender args
    rw [hm, executeIntentCall, hrun]
    exact ⟨msg, rfl⟩
  · have hunknown : (executeIntentCall E sender method args : SysM σ _) =
        pure (err s!"unknown intent method: {method}") := by
      unfold executeIntentCall
      split
      · exact absurd rfl hm
      · rfl
    rw [hunknown]
    exact ⟨_, rfl⟩

end Free

/-! ## Nothing writes an intent -/

section Frames

variable {base : Store} {E : Platform}

theorem IntentFree.putAccount {σ : Type} [StateStore σ] {s : σ} (h : IntentFree s) (a : Account) :
    IntentFree (putAccount E a s) :=
  h.put _ (b := 97) (by rw [accountKey, List.head?_append_of_ne_nil _ (by decide)]; decide)
    (by decide)

theorem intentCallFrame {σ : Type} [StateStore σ] (E : Platform) :
    CallFrame E (IntentFree : σ → Prop) (fun k => k.head? = some 95 ∨ k.head? = some 98)
      fun _ => True where
  put v hk hs := by
    rcases hk with hk | hk
    · exact hs.put v hk (by decide)
    · exact hs.put v hk (by decide)
  save _ hs := hs.putAccount _
  load _ _ := trivial
  balance _ _ := trivial

theorem intentFrame (E : Platform) :
    OperationFrame E (IntentFree : ExecState base → Prop) (fun _ => True) (fun _ => True)
      fun _ => True where
  storage id k v hs := hs.put v (b := 99)
    (by
      rw [contractStorageKey, contractStoragePrefix, List.append_assoc, List.append_assoc,
        List.head?_append_of_ne_nil _ (by decide)]
      decide)
    (by decide)
  bytecode _ hs := hs.put _ (b := 99)
    (by rw [bytecodeKey, List.head?_append_of_ne_nil _ (by decide)]; decide) (by decide)
  loadCode _ _ := trivial
  save _ hs := hs.putAccount _
  load _ _ := trivial
  balance _ _ := trivial
  meter _ _ hs := hs
  emit _ hs := hs
  ofContract _ _ _ := trivial
  ofSender _ _ _ _ := trivial
  record _ _ hs := hs
  advance _ := trivial
  charge owner sessionKey v hs := hs.put v (b := 115)
    (by
      rw [sessionSpentKey, List.append_assoc, List.append_assoc,
        List.head?_append_of_ne_nil _ (by decide)]
      decide)
    (by decide)
  rollback heq hs := hs.of_entries heq

theorem intentKeepsCall (E : Platform) :
    KeepsCall E (IntentFree : ExecState base → Prop) fun _ _ _ => True :=
  fun _ caller target method args _ hs =>
    (intentCallFrame E).executeSystemCall hs caller target method args (fun _ hk => hk.head?_key)
      (fun _ _ _ _ _ => trivial) fun _ _ _ _ _ => trivial

theorem intentCreatable (id : AccountId) (_ : True) :
    Creatable E (IntentFree : ExecState base → Prop) (fun _ => True) id :=
  fun _ _ _ => trivial

end Frames

/-! ## Blocks -/

section Blocks

variable {base : Store} {E : Platform} {X : BlockExecutor}

theorem IntentFree.executeOperation {o : OverlayStore base} (h : IntentFree o)
    (op : UserOperation) (height : Nat) : IntentFree (executeOperation E X o op height).store := by
  have hop : ∃ s : ExecState base, IntentFree s ∧
      s.store = (Solen.executeOperation E X o op height).store ∧ _ :=
    (intentFrame E).executeOperation (intentKeepsCall E) LogFrame.vmFits intentCreatable
      (fun _ a _ => (intentFrame E).fits op.sender a) h
  obtain ⟨s, hs, hstore, -⟩ := hop
  exact hstore ▸ hs

theorem IntentFree.made {o : OverlayStore base} (h : IntentFree o) (op : UserOperation)
    (height : Nat) : ∀ c ∈ operationMade E X o op height, IntentFree c.state :=
  (intentFrame E).made (intentKeepsCall E) LogFrame.vmFits intentCreatable
    (fun a _ => (intentFrame E).fits op.sender a) h

theorem intentBlockFrame (E : Platform) (X : BlockExecutor) :
    BlockFrame E X (IntentFree : Store → Prop) where
  operation op height h := by
    have ho : IntentFree _ := IntentFree.of_entries h (OverlayStore.entries_eq _)
    exact (ho.executeOperation op height).of_entries rfl
  account id v h := by
    refine h.put v (b := 97) ?_ (by decide)
    rw [accountKey, List.head?_append_of_ne_nil _ (by decide)]
    decide
  randomness v h := h.put v (b := 95) (by decide) (by decide)

/-! ## System-signed fulfilments -/

theorem IntentFree.reservedState {o : OverlayStore base} (h : IntentFree o) (op : UserOperation) :
    IntentFree (reservedState E op o) := by
  have hreserve : Keeps (IntentFree : ExecState base → Prop)
      (reserveFee E op : Prog (ExecState base) Empty U128) fun _ => True :=
    (intentFrame E).reserveFee op
  exact (hreserve { store := o } h).1

theorem run_callSystem {ε : Type} {s s' : ExecState base} {sender target : AccountId}
    {method : String} {args : Bytes} {r : SystemCallResult}
    (h : executeSystemCall E s sender target method args = (r, s')) :
    (callSystem E sender target method args : Prog _ ε _).run s =
      (.ok r, { s' with events := s'.events ++ r.events }) := by
  simp only [run, callSystem, h]

/-- An action that calls the intent contract stops the operation. -/
theorem IntentFree.action_stops {s : ExecState base} (h : IntentFree s) (height : Nat)
    (policy : Option SubcallPolicy) (sender : AccountId) (msgValue : U128) (method : String)
    (args : Bytes) :
    ∃ msg s', (operationAction E height policy sender msgValue
      (.call System.intentAddress method args)).run s = (.error msg, s') := by
  have hnoted : IntentFree (noteCall System.intentAddress s) := h
  obtain ⟨msg, hcall⟩ := hnoted.refused (E := E) sender method args
  unfold operationAction
  dsimp only
  rw [if_pos (by decide)]
  exact ⟨msg, _, (run_bind_ok (run_modify _ s)).trans ((run_bind_ok (run_callSystem hcall)).trans rfl)⟩

/-- What is left of an operation that calls the intent contract first: it
failed, and the failure was charged to the store it started from. -/
theorem IntentFree.executePrepared {o : OverlayStore base} (h : IntentFree o)
    {op : UserOperation} {method : String} {args : Bytes} {rest : List Action}
    (hop : op.actions = .call System.intentAddress method args :: rest) (height : Nat)
    (prepared : PreparedOp) :
    ∃ msg s, executePrepared E X op height prepared o =
      failOperation E X op height o.savepoint msg s := by
  have hreserved : IntentFree (Solen.reservedState E op o) := h.reservedState op
  obtain ⟨msg, s, hstop⟩ := hreserved.action_stops (E := E) height prepared.subcallPolicy op.sender
    (takeMsgValue ∅ (.call System.intentAddress method args)).1 method args
  have hactions : (operationActions E height prepared.subcallPolicy op.sender op.actions ∅).run
      (Solen.reservedState E op o) = (.error msg, s) := by
    rw [hop, operationActions, run_bind_error hstop]
  have hrun : ∃ reserved, (reserveAndRun E op height prepared.subcallPolicy).run { store := o } =
      _ := run_reserveAndRun o
  obtain ⟨reserved, hrun⟩ := hrun
  rw [hactions] at hrun
  exact ⟨msg, s, by rw [Solen.executePrepared, hrun]⟩

/-! ## What a failure costs -/

/-- The account of `sender` is filed under its own name. -/
def FiledRight {σ : Type} [StateStore σ] (E : Platform) (sender : AccountId) (s : σ) : Prop :=
  ∀ a, loadAccount E sender s = .ok (some a) → a.id = sender

theorem FiledRight.putAccount {σ : Type} [StateStore σ] {sender : AccountId} {a : Account}
    (ha : a.id = sender) (s : σ) : FiledRight E sender (putAccount E a s) := by
  intro a' hload
  rw [loadAccount_putAccount, if_pos ha] at hload
  cases hload
  exact ha

/-- The charge for a failure touches no account but the sender's. -/
theorem loadAccount_failOperation {o : OverlayStore base} {op : UserOperation}
    (hfiled : FiledRight E op.sender o) {id : AccountId} (hid : id ≠ op.sender) (height : Nat)
    (msg : String) (s : ExecState base) :
    loadAccount E id (failOperation E X op height o.savepoint msg s).store =
      loadAccount E id o := by
  let I : OverlayStore base → Prop := fun o' =>
    loadAccount E id o' = loadAccount E id o ∧ FiledRight E op.sender o'
  have hsave : ∀ {o' : OverlayStore base} {a : Account}, a.id = op.sender → I o' →
      I (putAccount E a o') := fun {o' a} ha ho' => by
    refine ⟨?_, FiledRight.putAccount ha o'⟩
    rw [loadAccount_putAccount, if_neg fun h => hid (h.symm.trans ha), ho'.1]
  have hcharge : Keeps I (chargeFailure E X op height s.gasUsed) fun _ => True :=
    chargeFailure_keeps (consumeNonce_keeps fun _ a ho' hload _ _ => hsave (ho'.2 a hload) ho')
      fun _ a ho hload _ _ ho' => hsave (ho.2 a hload) ho'
  have hback : ∀ id', loadAccount E id' (s.store.restoreSavepoint o.savepoint) =
      loadAccount E id' o := fun id' => by
    simp only [loadAccount, StateStore.get_eq, OverlayStore.entries_eq,
      OverlayStore.entries_restoreSavepoint]
  exact (hcharge (s.store.restoreSavepoint o.savepoint)
    ⟨hback id, fun a ha => hfiled a ((hback _).symm.trans ha)⟩).1.1

/-- What a fulfilment that the proposer signs leaves behind: nothing, or the
charge for a failure on the store it started from. -/
structure OnlyCharged (E : Platform) (X : BlockExecutor) (op : UserOperation) (height : Nat)
    (o o' : OverlayStore base) : Prop where
  effect : o' = o ∨ ∃ (back : OverlayStore base) (gasUsed : U64), back.entries = o.entries ∧
    o' = ((chargeFailure E X op height gasUsed).run back).2
  accounts : FiledRight E op.sender o → ∀ id, id ≠ op.sender →
    loadAccount E id o' = loadAccount E id o

theorem IntentFree.system_fulfill {o : OverlayStore base} (h : IntentFree o) {op : UserOperation}
    (hsys : isSystemAuthorized op = true) {method : String} {args : Bytes}
    (hop : op.actions = [.call System.intentAddress method args]) (height : Nat) :
    (Solen.executeOperation E X o op height).receipt.success = false ∧
      OnlyCharged E X op height o (Solen.executeOperation E X o op height).store := by
  rcases executeOperation_cases E X o op height with ⟨msg, hrefused⟩ | ⟨prepared, o', hval, hexec⟩
  · rw [hrefused]
    exact ⟨rfl, .inl rfl, fun _ _ _ => rfl⟩
  have hsame := validateAndPrepare_system (E := E) (X := X) height o hsys
  rw [hval] at hsame
  obtain rfl : o' = o := hsame
  obtain ⟨msg, s, hfail⟩ := h.executePrepared (E := E) (X := X) hop height prepared
  rw [hexec, hfail]
  refine ⟨rfl, .inr ⟨_, s.gasUsed, OverlayStore.entries_restoreSavepoint _ _, rfl⟩, ?_⟩
  exact fun hfiled id hid => loadAccount_failOperation hfiled hid height msg s

end Blocks

/-- From a store without intents a block leads to one without intents.
Whatever its operations do, every call they make to the intent contract,
at any depth, is refused and leaves the state as it was; and a fulfilment
signed by the proposer fails, without moving funds between accounts. -/
theorem intents_never_settle (E : Platform) (X : BlockExecutor) {s : Store} (hs : IntentFree s)
    (ops : List UserOperation) (height : Nat) :
    IntentFree (executeBlockWithHeight E X s ops height).2 ∧
      ∀ r ∈ (stageBlock E X s ops height).runs,
        (∀ c ∈ operationMade E X r.before r.op height, c.target = System.intentAddress →
          ∀ method, ∃ msg,
            executeSystemCall E c.state c.caller c.target method c.args = (err msg, c.state)) ∧
        (isSystemAuthorized r.op = true →
          ∀ args, r.op.actions = [.call System.intentAddress "fulfill" args] →
            r.outcome.receipt.success = false ∧
              OnlyCharged E X r.op height r.before r.outcome.store) := by
  refine ⟨(intentBlockFrame E X).block hs ops height, fun r hr => ?_⟩
  obtain ⟨hfree, hstepped⟩ := (intentBlockFrame E X).before hs ops height r hr
  have hbefore : IntentFree r.before := hfree.of_entries (OverlayStore.entries_eq _)
  refine ⟨fun c hc htarget method => ?_, fun hsys args hop => ?_⟩
  · rw [htarget]
    exact (hbefore.made r.op height c hc).refused c.caller method c.args
  · rcases hstepped.step with ⟨hstore, -, hfailed⟩ | ⟨hstore, -, hsuccess⟩
    · rw [hstore]
      exact ⟨hfailed, .inl rfl, fun _ _ _ => rfl⟩
    · rw [hstore, hsuccess]
      exact hbefore.system_fulfill hsys hop height

theorem intentFree_singleAccount (id : AccountId) (a : Account) :
    IntentFree (singleAccount id a) := by
  intro k hk
  obtain ⟨t, rfl⟩ := hk
  change (singleAccount id a)[_]? = none
  rw [singleAccount, Delta.getElem?_insert, if_neg, Std.ExtTreeMap.getElem?_empty]
  intro heq
  have hhead := congrArg List.head? heq
  rw [accountKey, List.head?_append_of_ne_nil _ (by decide),
    List.head?_append_of_ne_nil _ (by decide)] at hhead
  revert hhead
  decide

/-- A fulfilment of the intent with number 0, made up by the proposer. -/
def madeUpFulfill : UserOperation where
  sender := alice
  nonce := 0#64
  actions := [.call System.intentAddress "fulfill" (List.replicate 60 0)]
  maxFee := 0#128
  signature := [0xFF]

theorem intents_never_settle_madeUp :
    IntentFree (executeBlockWithHeight concretePlatform {}
      (singleAccount alice (keyAccount alice 5000#128)) [madeUpFulfill] 1).2 ∧
      ∀ r ∈ (stageBlock concretePlatform {} (singleAccount alice (keyAccount alice 5000#128))
        [madeUpFulfill] 1).runs, r.outcome.receipt.success = false := by
  obtain ⟨hblock, hruns⟩ := intents_never_settle concretePlatform {}
    (intentFree_singleAccount alice (keyAccount alice 5000#128)) [madeUpFulfill] 1
  refine ⟨hblock, fun r hr => ?_⟩
  have hop : r.op = madeUpFulfill := by rw [List.mem_singleton.mp hr]
  exact ((hruns r hr).2 (by rw [hop]; rfl) _ (by rw [hop]; rfl)).1

end Solen
