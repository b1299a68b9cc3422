import Solen.CallStates
import Solen.Session

/-!
# Accounts created by a credit

A transfer creates its receiver with the receiver's identifier as its key.
The other ways to credit an account that does not exist, releases of the
bridge, transfers of contracts and intents, create it without any
authentication method, so that nobody can ever spend what it received.
`Traced` follows every new account through an operation: those that one
of the calls created have no method, the others have their key. So the
new accounts are left to their keys if, and only if, no call that was
made created one of them (`created_spendable_iff`).
-/

namespace Solen

open Machine Prog
open StateStore (entries)

variable {a : Account} {id : AccountId} {X : BlockExecutor} {E : Platform}

/-! ## What is asked of an operation -/

/-- The addresses at which an operation deploys contracts. -/
def deployedAddresses (E : Platform) (op : UserOperation) : List AccountId :=
  op.actions.filterMap fun
    | .deploy code salt => some (deployAddress E op.sender salt (E.blake3 code))
    | _ => none

/-- Every operation with a signature of `key` passes the authentication of
the account, whatever the store and the height. -/
def OperatedBy (E : Platform) (X : BlockExecutor) (a : Account) (key : Hash) : Prop :=
  ∀ (base : Store) (o : OverlayStore base) (op : UserOperation) (height : Nat),
    op.signature.length = 64 →
    E.ed25519Verify key (op.signingMessage E X.chainId) op.signature = true →
      ∃ prepared, (checkSignature E X op height a).run o = (.ok prepared, o)

/-- The accounts that are new after an operation are operated by the key
they are named after, system contracts and deployed contracts apart. -/
def CreatedSpendable {base : Store} (E : Platform) (X : BlockExecutor) (o : OverlayStore base)
    (op : UserOperation) (height : Nat) : Prop :=
  ∀ id a, account? E o.entries id = none →
    account? E (executeOperation E X o op height).store.entries id = some a →
      System.isSystemContract id = false → id ∉ deployedAddresses E op → OperatedBy E X a id

/-- The accounts that nobody has to be able to operate after an operation:
those that have been there before, system contracts and deployed contracts,
and those whose key signs nothing. -/
def AccountSettled (E : Platform) (X : BlockExecutor) (m : Store) (op : UserOperation)
    (id : AccountId) : Prop :=
  (∃ a, account? E m id = some a) ∨ System.isSystemContract id = true ∨
    id ∈ deployedAddresses E op ∨
    ∀ op' : UserOperation, op'.signature.length = 64 →
      E.ed25519Verify id (op'.signingMessage E X.chainId) op'.signature = false

section Calls

variable {base : Store}

/-- The call creates the account by itself: as a system call, or by a native
transfer of the contract that it runs. -/
def MadeCall.Creates (E : Platform) (c : MadeCall base) (id : AccountId) : Prop :=
  account? E (entries c.state) id = none ∧
    ∃ a, account? E (entries c.after) id = some a

/-- The call asks the guardian contract to execute a recovery. -/
def MadeCall.Recovers (c : MadeCall base) : Prop :=
  c.target = System.guardianAddress ∧ c.text = some "execute_recovery"

def methodsOf (E : Platform) (s : ExecState base) (id : AccountId) : Option (List AuthMethod) :=
  (account? E (entries s) id).map (·.authMethods)

/-- A recovery leaves the accounts that are not settled as they are. -/
def RecoversSettled (E : Platform) (X : BlockExecutor) (m : Store) (op : UserOperation)
    (c : MadeCall base) : Prop :=
  c.Recovers → ∀ id, ¬ AccountSettled E X m op id →
    methodsOf E c.after id = methodsOf E c.state id

end Calls

/-! ## What a call does to accounts -/

section Runs

variable {base : Store} {E : Platform} {P : Store → Prop} {Good : Account → Prop} {height : Nat}
  {c : MadeCall base}

/-- A call keeps a property of the accounts that allows to create any, and
to recover any if it is a recovery. -/
theorem AccountsFrame.runs (F : AccountsFrame E P Good)
    (hnew : ∀ {m : Store} {id : AccountId}, P m → account? E m id = none →
      Good (emptyAccount id))
    (hauth : c.Recovers → ∀ a authMethods, Good a → Good { a with authMethods := authMethods })
    (h : c.Runs E height) (hs : P (entries c.state)) :
    P (entries c.after) := by
  have hcreatable : ∀ {σ : Type} [StateStore σ] (id : AccountId),
      Creatable E (fun s : σ => P (entries s)) Good id := by
    intro σ _ id s hs hnone
    refine hnew hs ?_
    cases hacct : account? E (entries s) id with
    | none => rfl
    | some a => exact absurd (loadAccount_of_account? hacct) (hnone a)
  refine F.operationFrame.toActionFrame.runs hcreatable h (fun m hm => ?_) hs
  exact F.callFrame.executeSystemCall hs c.caller c.target m c.args
    (fun _ hk => hk.notAccountKey) (fun id _ => hcreatable id)
    fun ht hmethod => hauth ⟨ht, by rw [hm, hmethod]⟩

theorem wellFormedFrame (E : Platform) : AccountsFrame E (WellFormed E) fun _ => True where
  put v hk h := h.insert_of_notAccountKey hk v
  save {_ a} _ h := h.insert_account a
  load _ _ := trivial
  edit _ _ _ := trivial

/-- The account has these methods, if it is there. -/
structure HasMethods (E : Platform) (id : AccountId) (methods : List AuthMethod) (m : Store) :
    Prop where
  wellFormed : WellFormed E m
  methods : ∀ a, account? E m id = some a → a.authMethods = methods

theorem hasMethodsFrame (E : Platform) (id : AccountId) (methods : List AuthMethod) :
    AccountsFrame E (HasMethods E id methods) fun a => a.id = id → a.authMethods = methods where
  put v hk h := ⟨h.wellFormed.insert_of_notAccountKey hk v, fun a ha => by
    rw [account?_insert_of_notAccountKey hk] at ha
    exact h.methods a ha⟩
  save {_ a} ha h := by
    refine ⟨h.wellFormed.insert_account a, fun b hb => ?_⟩
    rw [account?_insert_accountKey] at hb
    split at hb
    · next hid =>
        cases hb
        exact ha hid
    · exact h.methods b hb
  load h ha hid := by
    rw [h.wellFormed.id_eq ha] at hid
    exact h.methods _ (hid ▸ ha)
  edit _ _ ha := ha

/-- An account does not disappear. -/
theorem presentFrame (E : Platform) (id : AccountId) :
    AccountsFrame E (fun m => ∃ a, account? E m id = some a) fun _ => True where
  put v hk h := by rwa [account?_insert_of_notAccountKey hk]
  save {_ a} _ h := by
    rw [account?_insert_accountKey]
    split
    · exact ⟨a, rfl⟩
    · exact h
  load _ _ := trivial
  edit _ _ _ := trivial

/-- Nor does it come from saving others. -/
theorem absentFrame (E : Platform) (id : AccountId) :
    AccountsFrame E (fun m => WellFormed E m ∧ account? E m id = none) fun a => a.id ≠ id where
  put v hk h := by
    rw [account?_insert_of_notAccountKey hk]
    exact ⟨h.1.insert_of_notAccountKey hk v, h.2⟩
  save {_ a} ha h := by
    rw [account?_insert_accountKey, if_neg ha]
    exact ⟨h.1.insert_account a, h.2⟩
  load h ha hid := by
    rw [h.1.id_eq ha] at hid
    rw [hid, h.2] at ha
    cases ha
  edit _ _ ha := ha

theorem MadeCall.Runs.wellFormed (h : c.Runs E height)
    (hwf : WellFormed E (entries c.state)) :
    WellFormed E (entries c.after) :=
  (wellFormedFrame E).runs (fun _ _ => trivial) (fun _ _ _ _ => trivial) h hwf

/-- An account that is there stays, with its methods. -/
theorem MadeCall.Runs.keeps (h : c.Runs E height) (hrec : ¬ c.Recovers)
    (hwf : WellFormed E (entries c.state))
    (ha : account? E (entries c.state) id = some a) :
    ∃ b, account? E (entries c.after) id = some b ∧ b.authMethods = a.authMethods := by
  have F := (hasMethodsFrame E id a.authMethods).and (presentFrame E id)
  have hnew : ∀ {m : Store} {id' : AccountId},
      HasMethods E id a.authMethods m ∧ (∃ b, account? E m id = some b) →
        account? E m id' = none → id' = id → [] = a.authMethods := by
    rintro m id' ⟨-, b, hb⟩ hnone rfl
    rw [hnone] at hb
    cases hb
  have hstart : HasMethods E id a.authMethods (entries c.state) := by
    refine ⟨hwf, fun b hb => ?_⟩
    cases ha.symm.trans hb
    rfl
  obtain ⟨hmethods, b, hb⟩ := F.runs (fun hm hnone => ⟨hnew hm hnone, trivial⟩)
    (fun h => absurd h hrec) h ⟨hstart, a, ha⟩
  exact ⟨b, hb, hmethods.methods b hb⟩

/-- An account that the call creates has none. -/
theorem MadeCall.Runs.creates (h : c.Runs E height) (hrec : ¬ c.Recovers)
    (hwf : WellFormed E (entries c.state))
    (hnone : account? E (entries c.state) id = none) {b : Account}
    (hb : account? E (entries c.after) id = some b) : b.authMethods = [] := by
  refine ((hasMethodsFrame E id []).runs (fun _ _ _ => rfl) (fun h => absurd h hrec) h
    ⟨hwf, fun a ha => ?_⟩).methods b hb
  rw [hnone] at ha
  cases ha

end Runs

/-! ## The new accounts, followed through an operation -/

section Traced

variable {base : Store} {E : Platform} {X : BlockExecutor} {m₀ : Store} {op : UserOperation}
  {h : List (MadeCall base)}

/-- Some call of `h` has created the account. -/
def CreatedBy (E : Platform) (h : List (MadeCall base)) (id : AccountId) : Prop :=
  ∃ c ∈ h, c.Creates E id

/-- The methods of a new account, after the calls of `h`. -/
def NewMethods (E : Platform) (h : List (MadeCall base)) (a : Account) : Prop :=
  (CreatedBy E h a.id → a.authMethods = []) ∧
    (¬ CreatedBy E h a.id → a.authMethods = [.ed25519 a.id])

structure Traced (E : Platform) (X : BlockExecutor) (m₀ : Store) (op : UserOperation)
    (h : List (MadeCall base)) (m : Store) : Prop where
  wellFormed : WellFormed E m
  present : ∀ id, CreatedBy E h id → ∃ a, account? E m id = some a
  methods : ∀ id a, account? E m id = some a → ¬ AccountSettled E X m₀ op id → NewMethods E h a

theorem createdBy_append {c : MadeCall base} :
    CreatedBy E (h ++ [c]) id ↔ CreatedBy E h id ∨ c.Creates E id := by
  simp [CreatedBy, or_and_right, exists_or]

theorem Traced.start (hwf : WellFormed E m₀) :
    Traced E X m₀ op ([] : List (MadeCall base)) m₀ where
  wellFormed := hwf
  present := by rintro id ⟨c, hc, -⟩; cases hc
  methods id a ha hnew := absurd (.inl ⟨a, ha⟩) hnew

theorem tracedFrame (E : Platform) (X : BlockExecutor) (m₀ : Store) (op : UserOperation)
    (h : List (MadeCall base)) :
    AccountsFrame E (Traced E X m₀ op h)
      fun a => ¬ AccountSettled E X m₀ op a.id → NewMethods E h a where
  put v hk hm := by
    refine ⟨hm.wellFormed.insert_of_notAccountKey hk v, fun id hid => ?_, fun id a ha => ?_⟩
    · exact (presentFrame E id).put v hk (hm.present id hid)
    · rw [account?_insert_of_notAccountKey hk] at ha
      exact hm.methods id a ha
  save {_ a} ha hm := by
    refine ⟨hm.wellFormed.insert_account a, fun id hid => ?_, fun id b hb => ?_⟩
    · exact (presentFrame E id).save trivial (hm.present id hid)
    · rw [account?_insert_accountKey] at hb
      split at hb
      · next hid =>
          cases hb
          exact hid ▸ ha
      · exact hm.methods id b hb
  load hm ha hnew := by
    rw [hm.wellFormed.id_eq ha] at hnew
    exact hm.methods _ _ ha hnew
  edit _ _ ha := ha

/-- One call: what it creates has no method, all else keeps its own. -/
theorem Traced.call {height : Nat} {c : MadeCall base} (hrec : RecoversSettled E X m₀ op c)
    (hrun : c.Runs E height) (hm : Traced E X m₀ op h (entries c.state)) :
    Traced E X m₀ op (h ++ [c]) (entries c.after) := by
  have hwf := hrun.wellFormed hm.wellFormed
  refine ⟨hwf, fun id hid => ?_, fun id b hb hnew => ?_⟩
  · rcases createdBy_append.mp hid with hid | ⟨-, ha⟩
    · exact (presentFrame E id).runs (fun _ _ => trivial) (fun _ _ _ _ => trivial) hrun
        (hm.present id hid)
    · exact ha
  have hbid : b.id = id := hwf.id_eq hb
  cases ha : account? E (entries c.state) id with
  | none =>
    -- The account is new, and so it is the call that created it.
    have hcreated : CreatedBy E (h ++ [c]) b.id :=
      createdBy_append.mpr (.inr (hbid ▸ ⟨ha, b, hb⟩))
    refine ⟨fun _ => ?_, fun hnot => absurd hcreated hnot⟩
    by_cases hrecovers : c.Recovers
    · have hsame := hrec hrecovers id hnew
      rw [methodsOf, methodsOf, ha, hb] at hsame
      cases hsame
    · exact hrun.creates hrecovers hm.wellFormed ha hb
  | some a =>
    have hmethods : b.authMethods = a.authMethods := by
      by_cases hrecovers : c.Recovers
      · have hsame := hrec hrecovers id hnew
        rw [methodsOf, methodsOf, ha, hb] at hsame
        exact Option.some.inj hsame
      · obtain ⟨b', hb', hkept⟩ := hrun.keeps hrecovers hm.wellFormed ha
        cases hb.symm.trans hb'
        exact hkept
    have haid : a.id = id := hm.wellFormed.id_eq ha
    have hnot : ¬ c.Creates E id := by
      rintro ⟨hnone, -⟩
      rw [ha] at hnone
      cases hnone
    have hbefore := hm.methods id a ha hnew
    rw [NewMethods, haid] at hbefore
    rw [NewMethods, createdBy_append, hbid, hmethods]
    exact ⟨fun hid => hbefore.1 (hid.resolve_right hnot),
      fun hid => hbefore.2 fun hcreated => hid (.inl hcreated)⟩

/-- What the actions need, once the sender is known to exist. -/
theorem Traced.fits (hsender : ∃ a, account? E m₀ op.sender = some a) (h : List (MadeCall base))
    {action : Action} (hmem : action ∈ op.actions) :
    ActionFits E (fun s : ExecState base => Traced E X m₀ op h (entries s))
      (fun a => ¬ AccountSettled E X m₀ op a.id → NewMethods E h a) (fun _ _ _ => True) op.sender
        action := by
  cases action with
  | transfer dest amount =>
    intro _ s hs hnone _
    refine ⟨fun hcreated => ?_, fun _ => rfl⟩
    obtain ⟨a, ha⟩ := hs.present dest hcreated
    exact absurd (loadAccount_of_account? ha) (hnone a)
  | call target method args => exact fun _ => trivial
  | setAuth authMethods =>
    intro s a hs hload hnew
    have hid : a.id = op.sender := hs.wellFormed.id_eq (account?_of_loadAccount hload)
    exact absurd (.inl (hid ▸ hsender)) hnew
  | deploy code salt =>
    have F : OperationFrame E
        (fun s : ExecState base => Traced E X m₀ op h (entries s)) _ _ _ :=
      (tracedFrame E X m₀ op h).operationFrame
    refine F.deployAction (fun _ _ hs => F.record _ _ hs) op.sender trivial
      fun authMethods hnew => absurd (.inr (.inr (.inl ?_))) hnew
    exact List.mem_filterMap.mpr ⟨_, hmem, rfl⟩

end Traced

/-! ## The result -/

/-- The account's own key operates it. -/
theorem operatedBy_of_key {key : Hash}
    (h : a.authMethods = [.ed25519 key]) : OperatedBy E X a key := by
  intro base o op height hlen hver
  refine ⟨{}, ?_⟩
  have hauth : verifyAuth E (.ed25519 key) (op.signingMessage E X.chainId) op.signature
      (decide (X.pqAuthHeight ≤ height)) = some "ed25519" := by
    simp only [verifyAuth, hlen, hver, and_self, if_true]
  rw [checkSignature, h, run_bind_ok (run_stopIf_neg (by simp [hauth]))]
  rfl

/-- An account without authentication methods refuses every signature. -/
theorem not_operatedBy_of_nil {key : Hash}
    (h : a.authMethods = []) {op : UserOperation} (hlen : op.signature.length = 64)
    (hver : E.ed25519Verify key (op.signingMessage E X.chainId) op.signature = true) :
    ¬ OperatedBy E X a key := by
  intro hop
  obtain ⟨prepared, hok⟩ := hop ∅ (OverlayStore.new ∅) op 0 hlen hver
  rw [checkSignature, h, List.any_nil, run_bind_error (run_stopIf_pos rfl)] at hok
  cases hok

/-- An operation that fails creates nothing. -/
theorem account?_of_failed {base : Store}
    {o : OverlayStore base} {op : UserOperation} {height : Nat} (hwf : WellFormed E o.entries)
    (hfail : (executeOperation E X o op height).receipt.success = false)
    (hnone : account? E o.entries id = none) :
    account? E (executeOperation E X o op height).store.entries id = none := by
  have F : OperationFrame E (fun s : ExecState base =>
      WellFormed E (entries s) ∧ account? E (entries s) id = none) _ _ _ :=
    (absentFrame E id).operationFrame
  rcases executeOperation_cases E X o op height with ⟨msg, hrefused⟩ | ⟨prepared, o', hval, hexec⟩
  · rw [hrefused]
    exact hnone
  rw [hexec] at hfail ⊢
  have ho' := F.validateAndPrepare (o := o) ⟨hwf, hnone⟩ hval
  unfold executePrepared at hfail ⊢
  rcases hrun : (reserveAndRun E op height prepared.subcallPolicy).run { store := o' } with
    ⟨msg | reserved, s⟩
  · have hback := F.rollback (OverlayStore.entries_restoreSavepoint o' s.store) ho'
    exact (F.chargeFailure op height s.gasUsed _ hback).1.2
  · rw [hrun] at hfail
    cases hfail

/-- The new accounts are operated by the keys they are named after if, and
only if, no call that a successful operation makes creates an account that is
not settled. -/
theorem created_spendable_iff {base : Store} {E : Platform} {X : BlockExecutor}
    {o : OverlayStore base} {op : UserOperation} {height : Nat} (hwf : WellFormed E o.entries)
    (hrec : ∀ c ∈ operationMade E X o op height, RecoversSettled E X o.entries op c) :
    CreatedSpendable E X o op height ↔
      ((executeOperation E X o op height).receipt.success = true →
        ∀ c ∈ operationMade E X o op height, ∀ id, c.Creates E id →
          AccountSettled E X o.entries op id) := by
  have htraced : (executeOperation E X o op height).receipt.success = true →
      Traced E X o.entries op (operationMade E X o op height)
        (executeOperation E X o op height).store.entries := by
    intro hok
    obtain ⟨s, hs, hstore⟩ := OperationFrame.history
      (I := fun h (s : ExecState base) => Traced E X o.entries op h (entries s))
      (fun h => (tracedFrame E X o.entries op h).operationFrame)
      (fun hfits hrun hs => hs.call hfits hrun)
      (fun ⟨a, ha⟩ h action => Traced.fits ⟨a, account?_of_loadAccount ha⟩ h)
      (Traced.start hwf) hrec hok
    exact hstore ▸ hs
  constructor
  · intro hspend hok c hc id hcreates
    by_contra hnew
    obtain ⟨a, ha⟩ := (htraced hok).present id ⟨c, hc, hcreates⟩
    have hid : a.id = id := (htraced hok).wellFormed.id_eq ha
    have hnil := ((htraced hok).methods id a ha hnew).1 (hid ▸ ⟨c, hc, hcreates⟩)
    simp only [AccountSettled, not_or, not_exists, not_forall] at hnew
    obtain ⟨hold, hsys, hdeployed, op', hlen, hver⟩ := hnew
    exact not_operatedBy_of_nil hnil hlen (eq_true_of_ne_false hver)
      (hspend id a (Option.eq_none_iff_forall_ne_some.mpr hold) ha (eq_false_of_ne_true hsys) hdeployed)
  · intro hsettled id a hnew ha hsys hdeployed
    cases hok : (executeOperation E X o op height).receipt.success with
    | false =>
      rw [account?_of_failed hwf hok hnew] at ha
      cases ha
    | true =>
      by_cases hsigns : ∀ op' : UserOperation, op'.signature.length = 64 →
          E.ed25519Verify id (op'.signingMessage E X.chainId) op'.signature = false
      · intro base o op' height hlen hver
        rw [hsigns op' hlen] at hver
        cases hver
      have hnot : ¬ AccountSettled E X o.entries op id := by
        rintro (⟨b, hb⟩ | hsystem | hmem | hnone)
        · rw [hnew] at hb
          cases hb
        · rw [hsys] at hsystem
          cases hsystem
        · exact hdeployed hmem
        · exact hsigns hnone
      have hid : a.id = id := (htraced hok).wellFormed.id_eq ha
      have hkey := ((htraced hok).methods id a ha hnot).2 fun hcreated => by
        obtain ⟨c, hc, hcreates⟩ := hid ▸ hcreated
        exact hnot (hsettled hok c hc id hcreates)
      exact operatedBy_of_key (hid ▸ hkey)

/-! ## A payment to an account that the operation has created -/

/-- Alice pays bob, who is new, and has the teller pay him as well. -/
def tellerOp : UserOperation :=
  signWith alice 0#64
    { sender := alice
      nonce := 0#64
      actions := [.transfer bob 7#128, .call teller "pay" []]
      maxFee := 500000#128
      signature := [] }

/-- No record is an account in `after` that was none in `state`. -/
theorem MadeCall.not_creates {base : Store} {c : MadeCall base}
    (h : ∀ e ∈ (entries c.after).toList, (E.account.fromSlice e.2).isSome = true →
      ((entries c.state)[e.1]?.bind E.account.fromSlice).isSome = true)
    (id : AccountId) : ¬ c.Creates E id := by
  rintro ⟨hnone, a, ha⟩
  obtain ⟨data, hdata, hread⟩ := Option.bind_eq_some_iff.mp ha
  have hold := h _ (Std.ExtTreeMap.mem_toList_iff_getElem?_eq_some.mpr hdata) (by rw [hread]; rfl)
  change (account? E (entries c.state) id).isSome = true at hold
  rw [hnone] at hold
  cases hold

theorem created_spendable_iff_teller :
    let o := OverlayStore.new (contractStore (keyAccount alice 1000000#128))
    (executeOperation contractPlatform {} o tellerOp 1).receipt.success = true ∧
      (operationMade contractPlatform {} o tellerOp 1).map (·.target) = [teller, keeper] ∧
      balanceOf contractPlatform bob (executeOperation contractPlatform {} o tellerOp 1).store =
        12 ∧
      CreatedSpendable contractPlatform {} o tellerOp 1 := by
  intro o
  have hwf : WellFormed contractPlatform o.entries := by
    rw [OverlayStore.entries_new]
    exact wellFormed_contractStore _
  have hcalls : ∀ c ∈ operationMade contractPlatform {} o tellerOp 1,
      c.target ≠ System.guardianAddress ∧
        ∀ e ∈ (entries c.after).toList,
          (contractPlatform.account.fromSlice e.2).isSome = true →
            ((entries c.state)[e.1]?.bind
              contractPlatform.account.fromSlice).isSome = true := by
    decide +kernel
  refine ⟨by decide +kernel, by decide +kernel, by decide +kernel, ?_⟩
  refine (created_spendable_iff hwf fun c hc hrec => absurd hrec.1 (hcalls c hc).1).mpr ?_
  exact fun _ c hc id hcreates => absurd hcreates (MadeCall.not_creates (hcalls c hc).2 id)

/-! ## A release to a new account -/

def bridgeVault : Account := { emptyAccount System.bridgeAddress with balance := 5#128 }

/-- A vault of the bridge, and `alice` as its relayer. -/
def releaseStore : Store :=
  ((singleAccount alice (keyAccount alice 0#128)).insert (accountKey bridgeVault.id)
    (concretePlatform.account.toVec bridgeVault)).insert bridgeRelayerKey alice.bytes

/-- Five units for `bob`, for a transaction with a hash of zeros. -/
def releaseArgs : Bytes := bob.bytes ++ le128 5#128 ++ List.replicate 32 0

def releaseOp : UserOperation :=
  signWith alice freeExecutor.chainId
    { sender := alice
      nonce := 0#64
      actions := [.call System.bridgeAddress "bridge_from_base" releaseArgs]
      maxFee := 0#128
      signature := [] }

/-- The release to `bob` succeeds, and no signature of `bob` is accepted. -/
theorem not_created_spendable_release :
    (executeOperation concretePlatform freeExecutor (OverlayStore.new releaseStore) releaseOp
      1).receipt.success = true ∧
    ¬ CreatedSpendable concretePlatform freeExecutor (OverlayStore.new releaseStore) releaseOp
      1 := by
  refine ⟨by decide +kernel, fun hspend => ?_⟩
  have hbob : account? concretePlatform (executeOperation concretePlatform freeExecutor
      (OverlayStore.new releaseStore) releaseOp 1).store.entries bob =
        some { emptyAccount bob with balance := 5#128 } := by decide +kernel
  refine not_operatedBy_of_nil rfl (length_signWith bob freeExecutor.chainId releaseOp)
    (beq_self_eq_true _) (hspend bob _ (by decide +kernel) hbob (by decide) (by decide))

end Solen
