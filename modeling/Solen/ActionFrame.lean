import Solen.ReadFrame
import Solen.Operation

/-!
# What actions do to the store

The frames of system calls, continued to contract calls and to the
actions of an operation. An `ActionFrame` is an invariant of the execution
state that survives what contracts and actions do on their own: writes to
contract storage, stored code, saved accounts, events and the meters. What
they do on behalf of others is a matter of permissions: which system calls
are made (`KeepsCall`), what the virtual machine asks for (`VmFits`) and
what each action needs (`ActionFits`).
-/

namespace Solen

open Machine Prog

variable {sender target : AccountId} {Call : AccountId → String → Bytes → Prop} {args : Bytes}

variable {base : Store}

/-! ## One contract -/

/-- The storage keys of a contract. -/
def StorageOf (contract : AccountId) (k : Bytes) : Prop :=
  ∃ key, k = contractStorageKey contract key

/-- An invariant `I` of what one contract does on its own: it writes to its
storage, pays accounts and emits events. -/
structure ContractFrame (E : Platform) (contract : AccountId) (I : ExecState base → Prop)
    (Good : Account → Prop) : Prop extends CallFrame E I (StorageOf contract) Good where
  emit : ∀ {s : ExecState base} (topic data : Bytes), I s →
    I { s with events := s.events ++ [⟨contract, topic, data⟩] }

namespace ContractFrame

variable {E : Platform} {contract : AccountId} {I : ExecState base → Prop}
  {Good : Account → Prop} {ε : Type} (F : ContractFrame E contract I Good)

include F

theorem note (topic data : Bytes) :
    Keeps I (Solen.emit ⟨contract, topic, data⟩ : Prog (ExecState base) ε Unit) fun _ => True :=
  Keeps.modify fun _ hs => F.emit topic data hs

theorem nativeTransfer {t : NativeTransfer} (hnew : Creatable E I Good t.dest) :
    Keeps I (nativeTransfer E contract t) fun _ => True := by
  refine Keeps.bind (F.requireAccount contract).mapError fun a ha => ?_
  refine Keeps.seq Keeps.guard fun _ => Keeps.seq (F.saveAccount (F.balance _ ha)) fun _ => ?_
  refine Keeps.seq (Keeps.bind (attemptRequire_value (fun _ _ hs hload => F.load hs hload) hnew)
    fun r hr => ?_) fun _ => F.note _ _
  cases r with
  | ok a => exact F.saveAccount (F.balance _ (hr.1 a rfl))
  | error e => exact F.saveAccount (F.balance _ (hr.2 nofun))

theorem saveContractStorage (storage : Store) :
    Keeps I (saveContractStorage E contract storage) fun _ => True :=
  Keeps.seq (Keeps.each fun e _ => F.write ⟨e.1, rfl⟩) fun _ => F.write ⟨_, rfl⟩

end ContractFrame

/-! ## All actions -/

/-- The topics of the events that an operation leaves in its sender's name. -/
def senderTopics : List Bytes :=
  [ascii "transfer", ascii "set_auth", ascii "deploy", ascii "fee"]

/-- An invariant `I` that allows to save the accounts in `Good`, to store the
code in `Code` and to emit the events in `Note`. -/
structure ActionFrame (E : Platform) (I : ExecState base → Prop) (Good : Account → Prop)
    (Code : Bytes → Prop) (Note : Event → Prop) : Prop where
  storage : ∀ {s : ExecState base} (id : AccountId) (k v : Bytes), I s →
    I (StateStore.put s (contractStorageKey id k) v)
  bytecode : ∀ {s : ExecState base} {code : Bytes}, Code code → I s →
    I (StateStore.put s (bytecodeKey (E.blake3 code)) code)
  loadCode : ∀ {s : ExecState base} {codeHash : Hash} {code : Bytes}, I s →
    loadBytecode codeHash s = some code → Code code
  save : ∀ {s : ExecState base} {a : Account}, Good a → I s → I (putAccount E a s)
  load : ∀ {s : ExecState base} {id : AccountId} {a : Account}, I s →
    loadAccount E id s = .ok (some a) → Good a
  balance : ∀ {a : Account} (balance : U128), Good a → Good { a with balance := balance }
  meter : ∀ {s : ExecState base} (gasUsed fuelBudget : U64), I s →
    I { s with gasUsed := gasUsed, fuelBudget := fuelBudget }
  emit : ∀ {s : ExecState base} {e : Event}, Note e → I s → I { s with events := s.events ++ [e] }
  ofContract : ∀ {target : AccountId} (topic data : Bytes),
    System.isSystemContract target = false → Note ⟨target, topic, data⟩
  ofSender : ∀ (sender : AccountId) {topic : Bytes} (data : Bytes), topic ∈ senderTopics →
    Note ⟨sender, topic, data⟩

/-! ## Permissions -/

/-- The invariant survives the system calls in `Call`, with their events. -/
def KeepsCall (E : Platform) (I : ExecState base → Prop)
    (Call : AccountId → String → Bytes → Prop) : Prop :=
  ∀ (s : ExecState base) (caller target : AccountId) (method : String) (args : Bytes),
    Call target method args → I s →
      I { (executeSystemCall E s caller target method args).2 with
        events := (executeSystemCall E s caller target method args).2.events ++
          (executeSystemCall E s caller target method args).1.events }

/-- What the contracts with the code in `Code` ask for: native transfers to
the accounts in `Pay`, and queued system calls in `Call`. -/
structure VmFits (E : Platform) (Code : Bytes → Prop) (Pay : AccountId → Prop)
    (Call : AccountId → String → Bytes → Prop) : Prop where
  transfers : ∀ {codeHash code input ctx fuel r}, Code code →
    E.vmExecute codeHash code input ctx fuel = .ok r → ∀ t ∈ r.nativeTransfers, Pay t.dest
  queued : ∀ {codeHash code input ctx fuel r}, Code code →
    E.vmExecute codeHash code input ctx fuel = .ok r →
      ∀ p ∈ r.pendingCalls, System.isSystemContract p.target = true →
        ∀ m, fromUtf8 p.method = some m → Call p.target m p.args

/-- What an action of `sender` needs. -/
def ActionFits (E : Platform) (I : ExecState base → Prop) (Good : Account → Prop)
    (Call : AccountId → String → Bytes → Prop) (sender : AccountId) : Action → Prop
  | .transfer dest _ => System.isSystemContract dest = false →
      ∀ s, I s → (∀ a, loadAccount E dest s ≠ .ok (some a)) →
        Good { emptyAccount dest with authMethods := [.ed25519 dest] }
  | .call target method args => System.isSystemContract target = true → Call target method args
  | .setAuth authMethods => ∀ s a, I s → loadAccount E sender s = .ok (some a) →
      Good { a with authMethods := authMethods }
  | .deploy code salt => Keeps I (deployAction E sender code salt) fun _ => True

namespace ActionFrame

variable {E : Platform} {I : ExecState base → Prop} {Good : Account → Prop}
  {Code : Bytes → Prop} {Note : Event → Prop} {ε : Type}

section Moves

variable (F : ActionFrame E I Good Code Note)

include F

theorem saveAccount {a : Account} (h : Good a) :
    Keeps I (saveAccount E a : Prog (ExecState base) ε Unit) fun _ => True :=
  Keeps.modify fun _ hs => F.save h hs

theorem note {e : Event} (h : Note e) :
    Keeps I (Solen.emit e : Prog (ExecState base) ε Unit) fun _ => True :=
  Keeps.modify fun _ hs => F.emit h hs

theorem addGas (gas : U64) :
    Keeps I (addGas gas : Prog (ExecState base) ε Unit) fun _ => True :=
  Keeps.modify fun s hs => F.meter (s.gasUsed + gas) s.fuelBudget hs

theorem requireAccount (id : AccountId) : Keeps I (requireAccount E id) Good :=
  requireAccount_value fun _ _ hs hload => F.load hs hload

theorem attemptGet (id : AccountId) :
    Keeps I (attempt (getAccount E id) : Prog (ExecState base) ε _) fun r =>
      ∀ a, r = .ok (some a) → Good a :=
  attemptGet_value fun _ hs _ hload => F.load hs hload

/-! ## Contract calls -/

omit F in
theorem callSystem (hcall : KeepsCall E I Call)
    (sender : AccountId) {method : String}
    (h : Call target method args) :
    Keeps I (callSystem E sender target method args : Prog (ExecState base) ε _)
      fun _ => True :=
  fun s hs => ⟨hcall s sender target method args h hs, fun _ _ => trivial⟩

omit F in
theorem dispatchSystemCall (hcall : KeepsCall E I Call)
    (caller : AccountId) {method : Bytes}
    (h : ∀ m, fromUtf8 method = some m → Call target m args) :
    Keeps I (dispatchSystemCall E caller target method args) fun _ => True := by
  unfold Solen.dispatchSystemCall
  split
  · exact Keeps.stop
  · next m hm =>
      refine Keeps.seq (callSystem hcall _ (h m hm)) fun r => ?_
      split
      · exact Keeps.stop
      · exact Keeps.pure trivial

/-- What a contract that is none of the system's does on its own. -/
theorem contractFrame {contract : AccountId}
    (hcontract : System.isSystemContract contract = false) : ContractFrame E contract I Good where
  put v hk hs := by
    obtain ⟨key, rfl⟩ := hk
    exact F.storage contract key v hs
  save := F.save
  load := F.load
  balance := F.balance
  emit topic data hs := F.emit (F.ofContract topic data hcontract) hs

theorem runContract {Pay : AccountId → Prop}
    (hvm : VmFits E Code Pay Call) (hpay : ∀ id, Pay id → Creatable E I Good id) (height : Nat)
    (caller : AccountId) (htarget : System.isSystemContract target = false)
    (method args : Bytes) (msgValue : U128) (account : Account) :
    Keeps I (runContract E height caller target method args msgValue account) fun r =>
      ∀ p ∈ r.pendingCalls, System.isSystemContract p.target = true →
        ∀ m, fromUtf8 p.method = some m → Call p.target m p.args := by
  have hload : Keeps I (Prog.reads (loadBytecode account.codeHash) :
      ExecM base (Option Bytes)) fun code => ∀ c, code = some c → Code c :=
    Keeps.reads fun s hs c hc => F.loadCode hs hc
  refine Keeps.bind hload fun code hcode => ?_
  cases code with
  | none => exact Keeps.stop
  | some bytecode =>
    refine Keeps.seq Keeps.ask fun _ => Keeps.seq Keeps.ask fun _ => ?_
    refine Keeps.seq Keeps.guard fun _ => ?_
    dsimp only
    split
    · exact Keeps.stop
    · exact Keeps.stop
    · next result hresult =>
        have hbytecode := hcode bytecode rfl
        refine Keeps.seq (Keeps.modify fun s hs => F.meter _ _ hs) fun _ => ?_
        have hcontract := F.contractFrame htarget
        refine Keeps.seq (hcontract.saveContractStorage _).mapError fun _ => ?_
        refine Keeps.seq (Keeps.each fun t ht => ?_) fun _ => ?_
        · exact hcontract.nativeTransfer (hpay _ (hvm.transfers hbytecode hresult t ht))
        refine Keeps.seq (Keeps.each fun e _ => hcontract.note _ _) fun _ => ?_
        exact Keeps.pure (hvm.queued hbytecode hresult)

omit F in
theorem runPending {call : PendingCall → ExecM base U64} {ps : List PendingCall}
    (h : ∀ p ∈ ps, Keeps I (call p) fun _ => True) (total : U64) :
    Keeps I (runPending call ps total) fun _ => True := by
  induction ps generalizing total with
  | nil => exact Keeps.pure trivial
  | cons p ps ih =>
    refine Keeps.seq (h p List.mem_cons_self) fun _ => ?_
    exact ih (fun p hp => h p (List.mem_cons_of_mem _ hp)) _

end Moves

/-! ## Call trees -/

section Trees

variable {Pay : AccountId → Prop} {Call : AccountId → String → Bytes → Prop}
  (F : ActionFrame E I Good Code Note)
  (hrecord : ∀ (s : ExecState base) target, I s → I { s with calls := s.calls ++ [target] })
  (hcall : KeepsCall E I Call) (hvm : VmFits E Code Pay Call)
  (hpay : ∀ id, Pay id → Creatable E I Good id)

include F hrecord hcall hvm hpay

/-- By induction on the frames that may still be opened. -/
theorem dispatchContractCall (height : Nat) (policy : Option SubcallPolicy) (left : Nat)
    (caller : AccountId) {method : Bytes}
    (h : System.isSystemContract target = true →
      ∀ m, fromUtf8 method = some m → Call target m args) (msgValue : U128) :
    Keeps I (dispatchContractCall E height policy left caller target method args msgValue)
      fun _ => True := by
  induction left generalizing caller target method args msgValue with
  | zero => exact Keeps.stop
  | succ left ih =>
    refine Keeps.seq (Keeps.modify fun s hs => hrecord s target hs) fun _ => ?_
    split
    · exact Keeps.stop
    refine Keeps.ite (fun hsys => dispatchSystemCall hcall _ (h hsys)) fun hsys => ?_
    refine Keeps.seq (F.requireAccount target).mapError.triv fun account => ?_
    have htarget : System.isSystemContract target = false := eq_false_of_ne_true hsys
    refine Keeps.ite (fun _ => ?_) fun _ => ?_
    · exact Keeps.done (F.note (F.ofContract _ _ htarget))
    refine Keeps.bind (F.runContract hvm hpay _ _ htarget _ _ _ _) fun result hqueued => ?_
    exact runPending (fun p hp => ih _ (hqueued p hp) _) _

/-- A call to a contract that is none of the system's. -/
theorem callAction (height : Nat) (policy : Option SubcallPolicy) (sender : AccountId) (htarget : System.isSystemContract target = false) (method : String)
    (args : Bytes) (msgValue : U128) :
    Keeps I (callAction E height policy sender target method args msgValue) fun _ => True := by
  refine Keeps.seq (Keeps.modify fun s hs => F.meter s.gasUsed maxCallTreeFuel hs) fun _ => ?_
  refine F.dispatchContractCall hrecord hcall hvm hpay _ _ _ _ (fun hsys => ?_) _
  rw [htarget] at hsys
  cases hsys

end Trees

/-! ## Actions -/

section Actions

variable (F : ActionFrame E I Good Code Note)

include F

theorem transferReceiver {dest : AccountId}
    (hnew : System.isSystemContract dest = false → ∀ s, I s →
      (∀ a, loadAccount E dest s ≠ .ok (some a)) →
        Good { emptyAccount dest with authMethods := [.ed25519 dest] }) :
    Keeps I (transferReceiver E dest) Good := by
  have hget : Keeps I (getAccount E dest) fun o => (∀ a, o = some a → Good a) ∧
      (o = none → System.isSystemContract dest = false →
        Good { emptyAccount dest with authMethods := [.ed25519 dest] }) := by
    refine Keeps.tryReads fun s hs o ho => ⟨fun a ha => F.load hs (ha ▸ ho), fun hnone hsys => ?_⟩
    refine hnew hsys s hs fun a ha => ?_
    rw [ho, hnone] at ha
    cases ha
  refine Keeps.bind hget fun o ho => ?_
  cases o with
  | some a => exact Keeps.pure (ho.1 a rfl)
  | none =>
    by_cases hsys : System.isSystemContract dest = true
    · intro s hs
      rw [run_bind_error (run_stopIf_pos hsys)]
      exact ⟨hs, nofun⟩
    refine Keeps.seq Keeps.guard fun _ => Keeps.seq ?_ fun _ => F.requireAccount dest
    refine Keeps.seq ?_ fun _ => Keeps.pure trivial
    exact F.saveAccount (ho.2 rfl (eq_false_of_ne_true hsys))

theorem transferAction (sender : AccountId) {dest : AccountId} (amount : U128)
    (hnew : System.isSystemContract dest = false → ∀ s, I s →
      (∀ a, loadAccount E dest s ≠ .ok (some a)) →
        Good { emptyAccount dest with authMethods := [.ed25519 dest] }) :
    Keeps I (transferAction E sender dest amount) fun _ => True := by
  refine Keeps.seq (getAccount_keeps _).mapError fun _ => Keeps.seq ?_ fun _ => ?_
  · refine Keeps.mapError (Keeps.bind (F.requireAccount sender) fun a ha => ?_)
    refine Keeps.seq Keeps.guard fun _ => Keeps.seq (F.saveAccount (F.balance _ ha)) fun _ => ?_
    exact Keeps.bind (F.transferReceiver hnew) fun _ hb => F.saveAccount (F.balance _ hb)
  · exact Keeps.done (F.note (F.ofSender _ _ (by decide)))

omit F in
theorem checkAuthMethod (m : AuthMethod) : Keeps I (checkAuthMethod E m) fun _ => True := by
  unfold Solen.checkAuthMethod
  split
  · exact Keeps.guard
  · exact Keeps.seq (getAccount_keeps _).mapError fun _ => Keeps.guard
  · exact Keeps.pure trivial

theorem setAuthAction {authMethods : List AuthMethod}
    (hauth : ∀ s a, I s → loadAccount E sender s = .ok (some a) →
      Good { a with authMethods := authMethods }) :
    Keeps I (setAuthAction E sender authMethods) fun _ => True := by
  refine Keeps.seq Keeps.guard fun _ => ?_
  refine Keeps.seq (Keeps.each fun m _ => checkAuthMethod m) fun _ => ?_
  refine Keeps.bind (requireAccount_value hauth).mapError fun a ha => ?_
  refine Keeps.seq (F.saveAccount ha) fun _ => ?_
  exact Keeps.done (F.note (F.ofSender _ _ (by decide)))

theorem storeBytecode {code : Bytes} (hcode : Code code) :
    Keeps I (storeBytecode E code) fun h => h = E.blake3 code :=
  Keeps.seq (Keeps.modify fun _ hs => F.bytecode hcode hs) fun _ => Keeps.pure rfl

theorem createContract (sender : AccountId) {newId : AccountId} {codeHash : Hash}
    (hnew : ∀ authMethods,
      Good { emptyAccount newId with codeHash := codeHash, authMethods := authMethods }) :
    Keeps I (createContract E sender newId codeHash) fun _ => True := by
  refine Keeps.seq (getAccount_keeps _).attempt.triv fun _ => ?_
  refine Keeps.seq (F.saveAccount (hnew _)) fun _ => ?_
  exact Keeps.done (F.note (F.ofSender _ _ (by decide)))

theorem deployAction (hcollide : ∀ (s : ExecState base) id, I s →
      I { s with collisions := s.collisions ++ [id] })
    (sender : AccountId) {code : Bytes} {salt : Hash} (hcode : Code code)
    (hnew : ∀ authMethods, Good { emptyAccount (deployAddress E sender salt (E.blake3 code)) with
      codeHash := E.blake3 code, authMethods := authMethods }) :
    Keeps I (deployAction E sender code salt) fun _ => True := by
  refine Keeps.seq Keeps.guard fun _ => ?_
  refine Keeps.bind (F.storeBytecode hcode).mapError fun codeHash hhash => ?_
  subst hhash
  refine Keeps.seq ?_ fun _ => F.createContract _ hnew
  refine Keeps.seq (getAccount_keeps _).attempt.triv fun r => ?_
  split
  · exact Keeps.seq (Keeps.modify fun s hs => hcollide s _ hs) fun _ => Keeps.guard
  · exact Keeps.pure trivial

/-! ## Fees -/

theorem reserveFee (op : UserOperation) :
    Keeps I (reserveFee E op : Prog (ExecState base) ε U128) fun _ => True := by
  refine Keeps.bind (F.attemptGet _) fun r hr => ?_
  split
  · exact Keeps.done (F.saveAccount (F.balance _ (hr _ rfl)))
  · exact Keeps.pure trivial

theorem creditTreasury (treasury : AccountId) (share : U128) :
    Keeps I (creditTreasury E treasury share : Prog (ExecState base) ε U128) fun _ => True := by
  refine Keeps.ite (fun _ => ?_) fun _ => Keeps.pure trivial
  refine Keeps.bind (F.attemptGet _) fun r hr => ?_
  split
  · exact Keeps.done (F.saveAccount (F.balance _ (hr _ rfl)))
  · exact Keeps.pure trivial

theorem settleFees (X : BlockExecutor) (op : UserOperation) (height : Nat) (reserved : U128) :
    Keeps I (settleFees E X op height reserved : Prog (ExecState base) ε _) fun _ => True := by
  refine Keeps.seq Keeps.ask fun _ => Keeps.seq Keeps.ask fun _ => ?_
  refine Keeps.ite (fun _ => ?_) fun _ => Keeps.pure trivial
  refine Keeps.bind (F.attemptGet _) fun r hr => ?_
  split
  · refine Keeps.seq (F.saveAccount (F.balance _ (hr _ rfl))) fun _ => ?_
    refine Keeps.seq (F.creditTreasury _ _) fun _ => ?_
    exact Keeps.done (F.note (F.ofSender _ _ (by decide)))
  · exact Keeps.pure trivial

end Actions

/-! ## All actions -/

section Operation

variable {Pay : AccountId → Prop} {Call : AccountId → String → Bytes → Prop}
  (F : ActionFrame E I Good Code Note)
  (hrecord : ∀ (s : ExecState base) target, I s → I { s with calls := s.calls ++ [target] })
  (hcall : KeepsCall E I Call) (hvm : VmFits E Code Pay Call)
  (hpay : ∀ id, Pay id → Creatable E I Good id)

include F hrecord hcall hvm hpay

theorem operationAction (height : Nat) (policy : Option SubcallPolicy)
    (msgValue : U128) {action : Action} (h : ActionFits E I Good Call sender action) :
    Keeps I (operationAction E height policy sender msgValue action) fun _ => True := by
  have hgas : ∀ m : ExecM base U64, Keeps I m (fun _ => True) →
      Keeps I (mapError ExecutionError.message m >>= fun gas => Solen.addGas gas)
        fun _ => True := fun m hm => Keeps.seq hm.mapError fun _ => F.addGas _
  cases action with
  | transfer dest amount => exact hgas _ (F.transferAction _ _ h)
  | setAuth authMethods => exact hgas _ (F.setAuthAction h)
  | deploy code salt => exact hgas _ h
  | call target method args =>
    refine Keeps.ite (fun hsys => ?_) fun hsys => ?_
    · refine Keeps.seq (Keeps.modify fun s hs => hrecord s target hs) fun _ => ?_
      refine Keeps.seq (callSystem hcall _ (h hsys)) fun r => Keeps.seq (F.addGas _) fun _ => ?_
      split
      · exact Keeps.stop
      · exact Keeps.pure trivial
    · exact hgas _ (F.callAction hrecord hcall hvm hpay _ _ _ (eq_false_of_ne_true hsys) _ _ _)

theorem operationActions (height : Nat) (policy : Option SubcallPolicy)
    {actions : List Action} (h : ∀ a ∈ actions, ActionFits E I Good Call sender a)
    (pending : PendingTransfers) :
    Keeps I (operationActions E height policy sender actions pending) fun _ => True := by
  induction actions generalizing pending with
  | nil => exact Keeps.pure trivial
  | cons action rest ih =>
    refine Keeps.seq ?_ fun _ => ih (fun a ha => h a (List.mem_cons_of_mem _ ha)) _
    exact F.operationAction hrecord hcall hvm hpay _ _ _ (h action List.mem_cons_self)

end Operation

end ActionFrame

end Solen
