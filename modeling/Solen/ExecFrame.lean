import Solen.AccountFrame
import Solen.ActionFrame

/-!
# What actions do to accounts

The account frames of system calls, continued to contract calls and to
the actions of an operation. Deployments are left out: they overwrite an
account record at the address they derive.
-/

namespace Solen

open Machine Prog

variable {base : Store}

/-- An account frame that does not depend on the events, the gas and the
fuel. -/
structure LogFrame (E : Platform) (I : ExecState base → Prop) (Good : Account → Prop) : Prop
    extends AccountFrame E I Good where
  log : ∀ {s : ExecState base} (events : List Event) (gasUsed fuelBudget : U64), I s →
    I { s with events := events, gasUsed := gasUsed, fuelBudget := fuelBudget }

/-- A frame that also allows to record calls. -/
structure ExecFrame (E : Platform) (I : ExecState base → Prop) (Good : Account → Prop) : Prop
    extends LogFrame E I Good where
  call : ∀ {s : ExecState base} (target : AccountId), I s →
    I { s with calls := s.calls ++ [target] }

namespace LogFrame

variable {E : Platform} {I : ExecState base → Prop} {Good : Account → Prop} {ε : Type}
  (F : LogFrame E I Good)

include F

/-- The same frame, with no condition on code and events. -/
theorem actionFrame : ActionFrame E I Good (fun _ => True) fun _ => True where
  storage id k v hs := F.put v (notAccountKey_contractStorageKey id k) hs
  bytecode _ hs := F.put _ (notAccountKey_bytecodeKey _) hs
  loadCode _ _ := trivial
  save := F.save
  load := F.load
  balance b h := F.balance h b
  meter {s} gasUsed fuelBudget hs := F.log s.events gasUsed fuelBudget hs
  emit {s e} _ hs := F.log (s.events ++ [e]) s.gasUsed s.fuelBudget hs
  ofContract _ _ _ := trivial
  ofSender _ _ _ _ := trivial

omit F in
theorem vmFits : VmFits E (fun _ => True) (fun _ => True) fun _ _ _ => True where
  transfers _ _ _ _ := trivial
  queued _ _ _ _ _ _ _ := trivial

theorem keepsCall : KeepsCall E I fun _ _ _ => True :=
  fun _ caller target method args _ hs =>
    F.log _ _ _ (F.executeSystemCall hs caller target method args)

theorem creatable (id : AccountId) (_ : True) : Creatable E I Good id :=
  fun _ hs hnone => F.fresh hs hnone

theorem transferFits (dest : AccountId) (_ : System.isSystemContract dest = false)
    (s : ExecState base) (hs : I s) (hnone : ∀ a, loadAccount E dest s ≠ .ok (some a)) :
    Good { emptyAccount dest with authMethods := [.ed25519 dest] } :=
  F.edit Hash.zero [.ed25519 dest] 0#128 (F.fresh hs hnone)

theorem setAuthFits (sender : AccountId) (authMethods : List AuthMethod) (s : ExecState base)
    (a : Account) (hs : I s) (hload : loadAccount E sender s = .ok (some a)) :
    Good { a with authMethods := authMethods } :=
  F.edit a.codeHash authMethods a.balance (F.load hs hload)

theorem fits (sender : AccountId) {action : Action}
    (hdeploy : ∀ code salt, action = .deploy code salt →
      Keeps I (deployAction E sender code salt) fun _ => True) :
    ActionFits E I Good (fun _ _ _ => True) sender action := by
  cases action with
  | transfer dest amount => exact F.transferFits dest
  | call target method args => exact fun _ => trivial
  | setAuth authMethods => exact F.setAuthFits sender authMethods
  | deploy code salt => exact hdeploy code salt rfl

/-! ## Actions without calls -/

theorem emit (e : Event) : Keeps I (emit e : Prog (ExecState base) ε Unit) fun _ => True :=
  F.actionFrame.note trivial

theorem addGas (gas : U64) : Keeps I (addGas gas : Prog (ExecState base) ε Unit) fun _ => True :=
  F.actionFrame.addGas gas

theorem transferAction (sender dest : AccountId) (amount : U128) :
    Keeps I (transferAction E sender dest amount) fun _ => True :=
  F.actionFrame.transferAction sender amount (F.transferFits dest)

theorem setAuthAction (sender : AccountId) (authMethods : List AuthMethod) :
    Keeps I (setAuthAction E sender authMethods) fun _ => True :=
  F.actionFrame.setAuthAction (F.setAuthFits sender authMethods)

theorem storeBytecode (code : Bytes) : Keeps I (storeBytecode E code) fun _ => True :=
  (F.actionFrame.storeBytecode trivial).triv

theorem createContract (sender : AccountId) {newId : AccountId} (codeHash : Hash)
    (h : Good (emptyAccount newId)) :
    Keeps I (createContract E sender newId codeHash) fun _ => True :=
  F.actionFrame.createContract sender fun authMethods => F.edit codeHash authMethods 0#128 h

/-! ## Fees -/

theorem reserveFee (op : UserOperation) :
    Keeps I (reserveFee E op : Prog (ExecState base) ε U128) fun _ => True :=
  F.actionFrame.reserveFee op

theorem settleFees (X : BlockExecutor) (op : UserOperation) (height : Nat) (reserved : U128) :
    Keeps I (settleFees E X op height reserved : Prog (ExecState base) ε _) fun _ => True :=
  F.actionFrame.settleFees X op height reserved

/-! ## Single calls -/

theorem callSystem (sender target : AccountId) (method : String) (args : Bytes) :
    Keeps I (callSystem E sender target method args : Prog (ExecState base) ε _)
      fun _ => True :=
  ActionFrame.callSystem F.keepsCall sender trivial

theorem dispatchSystemCall (caller target : AccountId) (method args : Bytes) :
    Keeps I (dispatchSystemCall E caller target method args) fun _ => True :=
  ActionFrame.dispatchSystemCall F.keepsCall caller fun _ _ => trivial

theorem runContract (height : Nat) (caller : AccountId) {target : AccountId}
    (htarget : System.isSystemContract target = false) (method args : Bytes)
    (msgValue : U128) (account : Account) :
    Keeps I (runContract E height caller target method args msgValue account)
      fun _ => True :=
  (F.actionFrame.runContract vmFits F.creatable height caller htarget method args msgValue
    account).triv

end LogFrame

namespace ExecFrame

variable {E : Platform} {I : ExecState base → Prop} {Good : Account → Prop} {ε : Type}
  (F : ExecFrame E I Good)

include F

theorem dispatchContractCall (height : Nat) (policy : Option SubcallPolicy) (left : Nat)
    (caller target : AccountId) (method args : Bytes) (msgValue : U128) :
    Keeps I (dispatchContractCall E height policy left caller target method args msgValue)
      fun _ => True :=
  F.actionFrame.dispatchContractCall (fun _ target hs => F.call target hs) F.keepsCall
    LogFrame.vmFits F.creatable height policy left caller (fun _ _ _ => trivial) msgValue

/-- Every action but a deployment. -/
theorem operationAction (height : Nat) (policy : Option SubcallPolicy) (sender : AccountId)
    (msgValue : U128) (action : Action)
    (hdeploy : ∀ code salt, action = .deploy code salt →
      Keeps I (deployAction E sender code salt) fun _ => True) :
    Keeps I (operationAction E height policy sender msgValue action) fun _ => True :=
  F.actionFrame.operationAction (fun _ target hs => F.call target hs) F.keepsCall
    LogFrame.vmFits F.creatable height policy msgValue (F.fits sender hdeploy)

end ExecFrame

/-! ## The logs of a specification -/

/-- The lists of calls and collisions are not touched by account moves. -/
theorem listsFrame (E : Platform) (Q : List AccountId → List AccountId → Prop) :
    LogFrame E (fun s : ExecState base => Q s.calls s.collisions) fun _ => True where
  put _ _ hs := hs
  save _ hs := hs
  load _ _ := trivial
  fresh _ _ := trivial
  edit _ _ _ _ := trivial
  log _ _ _ hs := hs

theorem logFrame (E : Platform) {Q : List AccountId → List AccountId → Prop}
    (hcall : ∀ calls collisions target, Q calls collisions → Q (calls ++ [target]) collisions) :
    ExecFrame E (fun s : ExecState base => Q s.calls s.collisions) fun _ => True where
  toLogFrame := listsFrame E Q
  call target hs := hcall _ _ target hs

/-- What the actions keep of the two lists holds of the outcome's. -/
theorem executeOperation_lists {E : Platform} {X : BlockExecutor} {op : UserOperation}
    {height : Nat} {Q : List AccountId → List AccountId → Prop} (h₀ : Q [] [])
    (hactions : ∀ policy, Keeps (fun s : ExecState base => Q s.calls s.collisions)
      (operationActions E height policy op.sender op.actions ∅) fun _ => True)
    (o : OverlayStore base) :
    Q (executeOperation E X o op height).calls (executeOperation E X o op height).collisions := by
  unfold executeOperation
  split
  · exact h₀
  split
  · exact h₀
  next prepared o' _ =>
    have hkeep : Keeps (fun s : ExecState base => Q s.calls s.collisions)
        (reserveAndRun E op height prepared.subcallPolicy) fun _ => True :=
      Keeps.seq ((listsFrame E Q).reserveFee op) fun _ =>
        Keeps.done (hactions _)
    unfold executePrepared
    rcases hrun : (reserveAndRun E op height prepared.subcallPolicy).run { store := o' } with
      ⟨r, s⟩
    have hs := hkeep.after (s := { store := o' }) h₀ hrun
    cases r <;> exact hs

end Solen
