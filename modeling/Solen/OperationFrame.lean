import Solen.ActionFrame
import Solen.Atomicity

/-!
# What operations do to the store

An `OperationFrame` is an action frame that also survives what happens
around the actions: a nonce is consumed, calls and collisions are noted
and the budget of a session is charged. It then holds after every
operation whose actions keep to their permissions, together with the
events of its receipt (`OperationFrame.executeOperation`).
-/

namespace Solen

open Machine Prog

variable {base : Store}

structure OperationFrame (E : Platform) (I : ExecState base → Prop) (Good : Account → Prop)
    (Code : Bytes → Prop) (Note : Event → Prop) : Prop
    extends ActionFrame E I Good Code Note where
  record : ∀ {s : ExecState base} (calls collisions : List AccountId), I s →
    I { s with calls := calls, collisions := collisions }
  advance : ∀ {a : Account}, Good a → Good { a with nonce := a.nonce + 1#64 }
  charge : ∀ {s : ExecState base} (owner : AccountId) (sessionKey : Hash) (v : Bytes), I s →
    I (StateStore.put s (sessionSpentKey owner sessionKey) v)
  rollback : ∀ {o o' : OverlayStore base}, o'.entries = o.entries → I { store := o } →
    I { store := o' }

namespace OperationFrame

variable {E : Platform} {X : BlockExecutor} {I : ExecState base → Prop} {Good : Account → Prop}
  {Code : Bytes → Prop} {Note : Event → Prop} (F : OperationFrame E I Good Code Note)

include F

/-! ## Around the actions

Validation and the failure fee run on the store alone, that is, on an
execution state in which nothing has been noted yet. -/

theorem save_store {o : OverlayStore base} {a : Account} (ha : Good a)
    (ho : I { store := o }) : I { store := putAccount E a o } :=
  F.save (s := { store := o }) ha ho

theorem load_store {o : OverlayStore base} {id : AccountId} {a : Account}
    (ho : I { store := o }) (hload : loadAccount E id o = .ok (some a)) : Good a :=
  F.load (s := { store := o }) ho hload

theorem consumeNonce (id : AccountId) (nonce : U64) :
    Keeps (fun o : OverlayStore base => I { store := o }) (consumeNonce E id nonce)
      fun _ => True :=
  consumeNonce_keeps fun _ _ ho hload _ _ => F.save_store (F.advance (F.load_store ho hload)) ho

theorem chargeFailure (op : UserOperation) (height : Nat) (gasUsed : U64) :
    Keeps (fun o : OverlayStore base => I { store := o }) (chargeFailure E X op height gasUsed)
      fun _ => True :=
  chargeFailure_keeps (F.consumeNonce _ _)
    fun _ _ ho hload _ _ ho' => F.save_store (F.balance _ (F.load_store ho hload)) ho'

theorem commitSessionCharge {owner : AccountId} {prepared : PreparedOp}
    (hp : prepared.ChargesSpent owner) {s : ExecState base} (hs : I s) :
    I { s with store := commitSessionCharge prepared.sessionCharge s.store } := by
  unfold Solen.commitSessionCharge
  split
  · next key total hcharge =>
      obtain ⟨sessionKey, rfl⟩ := hp key total hcharge
      exact F.charge owner sessionKey (le128 total) hs
  · exact hs

theorem validateAndPrepare {op : UserOperation} {height : Nat} {o o' : OverlayStore base}
    {prepared : PreparedOp} (ho : I { store := o })
    (h : (validateAndPrepare E X op height).run o = (.ok prepared, o')) : I { store := o' } := by
  obtain rfl | ⟨a, hload, -, rfl⟩ := validateAndPrepare_cases h
  · exact ho
  · exact F.save_store (F.advance (F.load_store ho hload)) ho

/-! ## Operations -/

section Actions

variable {Pay : AccountId → Prop} {Call : AccountId → String → Bytes → Prop}
  (hcall : KeepsCall E I Call) (hvm : VmFits E Code Pay Call)
  (hpay : ∀ id, Pay id → Creatable E I Good id)

include hcall hvm hpay

theorem executePrepared {op : UserOperation} {height : Nat} {prepared : PreparedOp}
    {o : OverlayStore base} (hp : prepared.ChargesSpent op.sender)
    (hactions : ∀ a ∈ op.actions, ActionFits E I Good Call op.sender a) (ho : I { store := o }) :
    ∃ s : ExecState base, I s ∧
      s.store = (executePrepared E X op height prepared o).store ∧
      s.events = (executePrepared E X op height prepared o).receipt.events := by
  have hkeep : Keeps I (reserveAndRun E op height prepared.subcallPolicy) fun _ => True := by
    refine Keeps.seq (F.reserveFee op) fun _ => Keeps.seq ?_ fun _ => Keeps.pure trivial
    exact F.operationActions (fun s target hs => F.record _ _ hs) hcall hvm hpay _ _ hactions _
  unfold Solen.executePrepared
  rcases hrun : (reserveAndRun E op height prepared.subcallPolicy).run { store := o } with
    ⟨msg | reserved, s⟩
  · -- The rollback takes the store back to `o`.
    have hback : I { store := s.store.restoreSavepoint o.savepoint } :=
      F.rollback (OverlayStore.entries_restoreSavepoint o s.store) ho
    exact ⟨{ store := _ }, (F.chargeFailure op height s.gasUsed _ hback).1, rfl, rfl⟩
  · have hs := hkeep.after ho hrun
    have hsettled := (F.settleFees (ε := Empty) X op height reserved s hs).1
    exact ⟨_, F.commitSessionCharge hp hsettled, rfl, rfl⟩

/-- After an operation the frame holds of its store and its events, whether
it was refused, failed or succeeded. -/
theorem executeOperation {op : UserOperation} {height : Nat} {o : OverlayStore base}
    (hactions : (∃ a, loadAccount E op.sender o = .ok (some a)) →
      ∀ a ∈ op.actions, ActionFits E I Good Call op.sender a) (ho : I { store := o }) :
    ∃ s : ExecState base, I s ∧ s.store = (executeOperation E X o op height).store ∧
      s.events = (executeOperation E X o op height).receipt.events := by
  rcases executeOperation_cases E X o op height with ⟨msg, hrefused⟩ | ⟨prepared, o', hval, hexec⟩
  · rw [hrefused]
    exact ⟨_, ho, rfl, rfl⟩
  · rw [hexec]
    exact F.executePrepared hcall hvm hpay (validateAndPrepare_spent op height hval)
      (hactions (loadAccount_of_validated hval)) (F.validateAndPrepare ho hval)

end Actions

omit F in
/-- Every action fits a frame that asks nothing of accounts, code and calls. -/
theorem fits (F : OperationFrame E I (fun _ => True) (fun _ => True) Note) (sender : AccountId)
    (action : Action) : ActionFits E I (fun _ => True) (fun _ _ _ => True) sender action := by
  cases action with
  | transfer dest amount => exact fun _ _ _ _ => trivial
  | call target method args => exact fun _ => trivial
  | setAuth authMethods => exact fun _ _ _ _ => trivial
  | deploy code salt =>
    exact F.deployAction (fun _ _ hs => F.record _ _ hs) sender trivial fun _ => trivial

end OperationFrame

/-! ## Frames of the accounts -/

/-- A property `P` of the accounts in a store that allows to save those in
`Good`, whatever their nonce and balance. -/
structure AccountsFrame (E : Platform) (P : Store → Prop) (Good : Account → Prop) : Prop where
  put : ∀ {m : Store} {k : Bytes} (v : Bytes), NotAccountKey k → P m → P (m.insert k v)
  save : ∀ {m : Store} {a : Account}, Good a → P m →
    P (m.insert (accountKey a.id) (E.account.toVec a))
  load : ∀ {m : Store} {id : AccountId} {a : Account}, P m → account? E m id = some a → Good a
  edit : ∀ {a : Account} (nonce : U64) (balance : U128), Good a →
    Good { a with nonce := nonce, balance := balance }

namespace AccountsFrame

variable {E : Platform} {P : Store → Prop} {Good : Account → Prop} (F : AccountsFrame E P Good)

include F

theorem callFrame {σ : Type} [StateStore σ] :
    CallFrame E (fun s : σ => P (StateStore.entries s)) NotAccountKey Good where
  put v hk hs := by
    rw [StateStore.entries_put]
    exact F.put v hk hs
  save ha hs := by
    rw [entries_putAccount]
    exact F.save ha hs
  load hs hload := F.load hs (account?_of_loadAccount hload)
  balance b ha := F.edit _ b ha

theorem operationFrame :
    OperationFrame E (fun s : ExecState base => P (StateStore.entries s)) Good (fun _ => True)
      fun _ => True where
  storage id k v hs := F.callFrame.put v (notAccountKey_contractStorageKey id k) hs
  bytecode _ hs := F.callFrame.put _ (notAccountKey_bytecodeKey _) hs
  loadCode _ _ := trivial
  save := F.callFrame.save
  load := F.callFrame.load
  balance b ha := F.edit _ b ha
  meter _ _ hs := hs
  emit _ hs := hs
  ofContract _ _ _ := trivial
  ofSender _ _ _ _ := trivial
  record _ _ hs := hs
  advance ha := F.edit _ _ ha
  charge owner sessionKey v hs :=
    F.callFrame.put v (notAccountKey_sessionSpentKey owner sessionKey) hs
  rollback {o o'} h ho := by
    change P o'.entries
    rw [h]
    exact ho

theorem and {P' : Store → Prop} {Good' : Account → Prop} (F' : AccountsFrame E P' Good') :
    AccountsFrame E (fun m => P m ∧ P' m) fun a => Good a ∧ Good' a where
  put v hk h := ⟨F.put v hk h.1, F'.put v hk h.2⟩
  save ha h := ⟨F.save ha.1 h.1, F'.save ha.2 h.2⟩
  load h ha := ⟨F.load h.1 ha, F'.load h.2 ha⟩
  edit n b ha := ⟨F.edit n b ha.1, F'.edit n b ha.2⟩

end AccountsFrame

end Solen
