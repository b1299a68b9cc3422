import Solen.Concrete

/-!
# Failed operations are atomic

Validation writes nothing but the consumed nonce (`validateAndPrepare_eq_ok`),
and a failing action is undone by the savepoint taken right after it.
What is left of a failed operation is one account record: the sender's,
with the next nonce and less the failure fee.
-/

namespace Solen

open Machine Prog

variable {a : Account} {height : Nat} {op : UserOperation}

section Validation

variable {σ : Type} [StateStore σ] {E : Platform} {X : BlockExecutor}

/-! Validation only reads, so it keeps every invariant; the budget of a session
is charged under a key of its own. -/

def PreparedOp.ChargesSession (p : PreparedOp) : Prop :=
  ∀ key total, p.sessionCharge = some (key, total) → NotAccountKey key

/-- The charge is written under the key of a session of `owner`. -/
def PreparedOp.ChargesSpent (owner : AccountId) (p : PreparedOp) : Prop :=
  ∀ key total, p.sessionCharge = some (key, total) →
    ∃ sessionKey, key = sessionSpentKey owner sessionKey

variable {I : σ → Prop}

omit [StateStore σ] in
theorem refuseFirst_keeps {α : Type} (f : α → Option String) (l : List α) :
    Keeps I (refuseFirst f l : Prog σ ExecutionError Unit) fun _ => True := by
  unfold refuseFirst
  split
  · exact Keeps.stop
  · exact Keeps.pure trivial

theorem notAccountKey_sessionSpentKey (owner : AccountId) (key : Hash) :
    NotAccountKey (sessionSpentKey owner key) := by
  unfold sessionSpentKey
  simp only [List.append_assoc]
  exact notAccountKey_append (by decide) (by decide)

theorem PreparedOp.ChargesSpent.chargesSession {owner : AccountId} {p : PreparedOp}
    (h : p.ChargesSpent owner) : p.ChargesSession := by
  intro key total hcharge
  obtain ⟨sessionKey, rfl⟩ := h key total hcharge
  exact notAccountKey_sessionSpentKey _ _

theorem checkSession_keeps (op : UserOperation) (key : Hash) (expiresAt : U64)
    (limit budget : U128) (targets : List AccountId) (methods : List String) (restrict : Bool) :
    Keeps I (checkSession op key expiresAt limit budget targets methods restrict)
      (PreparedOp.ChargesSpent op.sender) := by
  unfold checkSession
  refine Keeps.seq Keeps.ask fun _ => ?_
  refine Keeps.seq Keeps.guard fun _ => ?_
  refine Keeps.seq Keeps.guard fun _ => ?_
  refine Keeps.seq Keeps.ask fun _ => ?_
  refine Keeps.seq Keeps.guard fun _ => ?_
  refine Keeps.seq (Keeps.ite (fun _ => Keeps.pure trivial) fun _ =>
    refuseFirst_keeps _ _) fun _ => ?_
  refine Keeps.seq (refuseFirst_keeps _ _) fun _ => ?_
  refine Keeps.seq (Keeps.ite (fun _ => Keeps.pure trivial) fun _ =>
    refuseFirst_keeps _ _) fun _ => ?_
  refine Keeps.pure fun k total h => ?_
  dsimp only at h
  split at h
  · cases h
    exact ⟨key, rfl⟩
  · cases h

theorem checkSignature_keeps (op : UserOperation) (height : Nat) (account : Account) :
    Keeps I (checkSignature E X op height account) (PreparedOp.ChargesSpent op.sender) := by
  unfold checkSignature
  refine Keeps.seq Keeps.guard fun _ => ?_
  split
  · exact checkSession_keeps _ _ _ _ _ _ _ _
  · exact Keeps.pure nofun

/-- A user-signed operation that passes has the sender's nonce, and its
validation does nothing but advance it. -/
theorem validateAndPrepare_eq_ok {s s' : σ}
    {prepared : PreparedOp} (huser : isSystemAuthorized op = false)
    (h : (validateAndPrepare E X op height).run s = (.ok prepared, s')) :
    ∃ a, loadAccount E op.sender s = .ok (some a) ∧ op.nonce = a.nonce ∧
      a.nonce.toNat + 1 < 2 ^ 64 ∧ s' = putAccount E { a with nonce := a.nonce + 1#64 } s := by
  rw [validateAndPrepare, run_bind_eq_ok] at h
  obtain ⟨o, s₁, hget, h⟩ := h
  obtain ⟨-, rfl⟩ := getAccount_eq_ok (run_mapError_eq_ok.mp hget)
  cases o with
  | none => cases h
  | some account =>
    simp only [huser, Bool.false_eq_true, if_false] at h
    rw [run_bind_eq_ok] at h
    obtain ⟨p, s₂, hsig, h⟩ := h
    have hs₂ := (checkSignature_keeps (E := E) (X := X) op height account).state_eq (s := s₁)
    rw [hsig] at hs₂
    subst hs₂
    rw [run_bind_eq_ok] at h
    obtain ⟨u, s₃, hnonce, h⟩ := h
    cases h
    exact consumeNonce_eq_ok (run_mapError_eq_ok.mp hnonce)

/-- Injected operations consume no nonce. -/
theorem validateAndPrepare_system (height : Nat) (s : σ)
    (hsys : isSystemAuthorized op = true) :
    ((validateAndPrepare E X op height).run s).2 = s := by
  refine Keeps.state_eq (P := fun _ => True) ?_
  unfold validateAndPrepare
  refine Keeps.seq Keeps.tryAsk.mapError fun o => ?_
  cases o with
  | none => exact Keeps.stop
  | some account =>
    simp only [hsys, if_true]
    exact Keeps.pure trivial

theorem loadAccount_of_validated {s s' : σ}
    {prepared : PreparedOp}
    (h : (validateAndPrepare E X op height).run s = (.ok prepared, s')) :
    ∃ a, loadAccount E op.sender s = .ok (some a) := by
  rw [validateAndPrepare, run_bind_eq_ok] at h
  obtain ⟨o, s₁, hget, h⟩ := h
  obtain ⟨hload, -⟩ := getAccount_eq_ok (run_mapError_eq_ok.mp hget)
  cases o with
  | none => cases h
  | some account => exact ⟨account, hload⟩

theorem validateAndPrepare_spent (op : UserOperation) (height : Nat) {s s' : σ}
    {prepared : PreparedOp}
    (h : (validateAndPrepare E X op height).run s = (.ok prepared, s')) :
    prepared.ChargesSpent op.sender := by
  rw [validateAndPrepare, run_bind_eq_ok] at h
  obtain ⟨o, s₁, -, h⟩ := h
  cases o with
  | none => cases h
  | some account =>
    dsimp only at h
    split at h
    · cases h
      intro key total hcharge
      cases hcharge
    · obtain ⟨p, s₂, hsig, h⟩ := run_bind_eq_ok.mp h
      obtain ⟨u, s₃, -, h⟩ := run_bind_eq_ok.mp h
      cases h
      exact (checkSignature_keeps (I := fun _ => True) op height account).value trivial hsig

theorem validateAndPrepare_charges (op : UserOperation) (height : Nat) {s s' : σ}
    {prepared : PreparedOp}
    (h : (validateAndPrepare E X op height).run s = (.ok prepared, s')) :
    prepared.ChargesSession :=
  (validateAndPrepare_spent op height h).chargesSession

/-- Validation changes nothing but a nonce. -/
theorem validateAndPrepare_cases {s s' : σ}
    {prepared : PreparedOp}
    (h : (validateAndPrepare E X op height).run s = (.ok prepared, s')) :
    s' = s ∨ ∃ a, loadAccount E op.sender s = .ok (some a) ∧ a.nonce.toNat + 1 < 2 ^ 64 ∧
      s' = putAccount E { a with nonce := a.nonce + 1#64 } s := by
  cases hsys : isSystemAuthorized op with
  | true => exact .inl (by rw [← validateAndPrepare_system (E := E) (X := X) height s hsys, h])
  | false =>
    obtain ⟨a, hload, -, hlast, hs'⟩ := validateAndPrepare_eq_ok hsys h
    exact .inr ⟨a, hload, hlast, hs'⟩

theorem validateAndPrepare_eq_error {s s' : σ}
    {e : ExecutionError} (h : (validateAndPrepare E X op height).run s = (.error e, s')) :
    s' = s := by
  cases hsys : isSystemAuthorized op with
  | true => rw [← validateAndPrepare_system (E := E) (X := X) height s hsys, h]
  | false =>
    rw [validateAndPrepare, run_bind_eq_error] at h
    rcases h with hget | ⟨o, s₁, hget, h⟩
    · obtain ⟨e', hget, -⟩ := run_mapError_eq_error.mp hget
      rw [run_getAccount, Prod.mk.injEq] at hget
      exact hget.2.symm
    · obtain ⟨-, rfl⟩ := getAccount_eq_ok (run_mapError_eq_ok.mp hget)
      cases o with
      | none => cases h; rfl
      | some account =>
        simp only [hsys, Bool.false_eq_true, if_false] at h
        have hsig :=
          (checkSignature_keeps (E := E) (X := X) op height account).state_eq (s := s₁)
        rw [run_bind_eq_error] at h
        rcases h with h | ⟨p, s₂, hp, h⟩
        · rw [h] at hsig
          exact hsig
        · rw [hp] at hsig
          subst hsig
          rw [run_bind_eq_error] at h
          rcases h with h | ⟨u, s₃, -, h⟩
          · obtain ⟨e', hnonce, -⟩ := run_mapError_eq_error.mp h
            exact consumeNonce_eq_error hnonce
          · cases h

end Validation

/-! ## The failure fee -/

/-- What a failed operation costs, as far as the sender can pay it. -/
def failureFee (X : BlockExecutor) (op : UserOperation) (height : Nat) (gasUsed : U64) : Nat :=
  let fee := gasUsed.toNat * X.feeConfig.baseFeePerGas.toNat
  if X.feeFixHeight ≤ height then min fee op.maxFee.toNat else fee

/-- The saturation of the fee never matters: no balance reaches it. -/
theorem toNat_satSub_cappedFee (X : BlockExecutor) (op : UserOperation) (height : Nat)
    (gasUsed : U64) (balance : U128) :
    satSub balance (cappedFee X op height X.feeConfig gasUsed) =
      BitVec.ofNat 128 (balance.toNat - min balance.toNat (failureFee X op height gasUsed)) := by
  have hb := balance.isLt
  have hfee : (X.feeConfig.calculateFee gasUsed).toNat =
      min (gasUsed.toNat * X.feeConfig.baseFeePerGas.toNat) (2 ^ 128 - 1) := by
    rw [FeeConfig.calculateFee, toNat_satMul, BitVec.toNat_setWidth,
      Nat.mod_eq_of_lt (Nat.lt_trans gasUsed.isLt (by decide)), Nat.mul_comm]
  apply BitVec.eq_of_toNat_eq
  rw [toNat_satSub, BitVec.toNat_ofNat, Nat.mod_eq_of_lt (by omega), cappedFee, failureFee]
  split
  · rw [toNat_umin, hfee]
    omega
  · rw [hfee]
    omega

section Operation

variable {base : Store} {E : Platform} {X : BlockExecutor}

/-- What survives the consumption of the nonce and a debit of the sender
survives the failure fee. -/
theorem chargeFailure_keeps {I : OverlayStore base → Prop}
    {gasUsed : U64} (hnonce : Keeps I (consumeNonce E op.sender op.nonce) fun _ => True)
    (hfee : ∀ o a, I o → loadAccount E op.sender o = .ok (some a) → ∀ b o', I o' →
      I (putAccount E { a with balance := b } o')) :
    Keeps I (chargeFailure E X op height gasUsed) fun _ => True := by
  refine Keeps.seq hnonce.attempt.triv fun _ => ?_
  refine Keeps.ite (fun _ => ?_) fun _ => Keeps.pure trivial
  refine Keeps.bind (attemptRequire_value (N := True) hfee fun _ _ _ => trivial) fun r hr => ?_
  cases r with
  | ok a => exact Keeps.done (Keeps.modify (hr.1 a rfl _))
  | error e => exact Keeps.pure trivial

/-- After a rollback the nonce is already consumed, and only the fee is taken. -/
theorem chargeFailure_entries (height : Nat) (gasUsed : U64)
    {o : OverlayStore base} (hid : a.id = op.sender)
    (ho : o.entries[accountKey op.sender]? = some (E.account.toVec a))
    (hnonce : op.nonce ≠ a.nonce) :
    ((chargeFailure E X op height gasUsed).run o).2.entries =
      o.entries.insert (accountKey op.sender) (E.account.toVec
        { a with balance := satSub a.balance (cappedFee X op height X.feeConfig gasUsed) }) := by
  have hload : loadAccount E op.sender o = .ok (some a) := loadAccount_of_getElem? ho
  have hrefused : (consumeNonce E op.sender op.nonce).run o =
      (.error (.invalidNonce a.nonce op.nonce), o) := by
    rw [consumeNonce, run_bind_ok (run_requireAccount_of_some hload),
      run_bind_error (run_stopIf_pos hnonce)]
  rw [chargeFailure, run_bind, run_attempt, hrefused]
  by_cases hfee : 0#128 < cappedFee X op height X.feeConfig gasUsed
  · simp only [hfee, if_true]
    rw [run_bind, run_attempt, run_requireAccount_of_some hload]
    change (putAccount E { a with balance := _ } o).entries = _
    rw [← OverlayStore.entries_eq, entries_putAccount, hid]
    rfl
  · simp only [hfee, if_false]
    have hzero : cappedFee X op height X.feeConfig gasUsed = 0#128 := by
      rw [BitVec.lt_def, BitVec.toNat_zero] at hfee
      exact BitVec.eq_of_toNat_eq (by rw [BitVec.toNat_zero]; omega)
    have hsame : satSub a.balance 0#128 = a.balance := by
      apply BitVec.eq_of_toNat_eq
      rw [toNat_satSub, BitVec.toNat_zero, Nat.sub_zero]
    rw [hzero, hsame]
    exact (Delta.insert_of_getElem? ho).symm

theorem executeOperation_of_validated {o o' : OverlayStore base} {prepared : PreparedOp} (hpre : precheck E op = none)
    (hval : (validateAndPrepare E X op height).run o = (.ok prepared, o')) :
    executeOperation E X o op height = executePrepared E X op height prepared o' := by
  simp only [executeOperation, hpre, hval]

/-- An operation is refused with nothing changed, or it runs as prepared. -/
theorem executeOperation_cases (E : Platform) (X : BlockExecutor) (o : OverlayStore base)
    (op : UserOperation) (height : Nat) :
    (∃ msg, executeOperation E X o op height =
      { receipt := receiptOf op 0#64 (some msg) [], store := o }) ∨
    ∃ prepared o', (validateAndPrepare E X op height).run o = (.ok prepared, o') ∧
      executeOperation E X o op height = executePrepared E X op height prepared o' := by
  unfold executeOperation
  cases precheck E op with
  | some msg => exact .inl ⟨msg, rfl⟩
  | none =>
    rcases hval : (validateAndPrepare E X op height).run o with ⟨e | prepared, o'⟩
    · obtain rfl := validateAndPrepare_eq_error hval
      exact .inl ⟨e.message, rfl⟩
    · exact .inr ⟨prepared, o', rfl, rfl⟩

/-- A prepared operation reports failure only through the rollback. -/
theorem executePrepared_failed {prepared : PreparedOp}
    {o : OverlayStore base}
    (h : (executePrepared E X op height prepared o).receipt.success = false) :
    ∃ msg s, executePrepared E X op height prepared o =
      failOperation E X op height o.savepoint msg s := by
  unfold executePrepared at h ⊢
  split
  · next msg s hrun => exact ⟨msg, s, rfl⟩
  · next reserved s hrun =>
      rw [hrun] at h
      cases h

/-! ## Atomicity -/

/-- If the operation is user-signed, passes validation and then fails, the
store differs from the one before in a single record: the sender's nonce
is one higher and its balance is lower by the failure fee, or gone if it
does not reach. -/
def FailsAtomically (E : Platform) (X : BlockExecutor) (o : OverlayStore base)
    (op : UserOperation) (height : Nat) : Prop :=
  ∀ prepared o', isSystemAuthorized op = false → precheck E op = none →
    (validateAndPrepare E X op height).run o = (.ok prepared, o') →
    (executeOperation E X o op height).receipt.success = false →
    ∃ a, account? E o.entries op.sender = some a ∧ a.nonce.toNat + 1 < 2 ^ 64 ∧
      (executeOperation E X o op height).store.entries =
        o.entries.insert (accountKey op.sender) (E.account.toVec
          { a with
            nonce := a.nonce + 1#64
            balance := BitVec.ofNat 128 (a.balance.toNat - min a.balance.toNat
              (failureFee X op height
                (executeOperation E X o op height).receipt.gasUsed)) })

/-- Failed operations are atomic as soon as the sender's record carries the
sender's identifier. -/
theorem failsAtomically_of_sender_id (E : Platform) (X : BlockExecutor) (o : OverlayStore base)
    (op : UserOperation) (height : Nat)
    (hid : ∀ a, account? E o.entries op.sender = some a → a.id = op.sender) :
    FailsAtomically E X o op height := by
  intro prepared o' huser hpre hval hfail
  rw [executeOperation_of_validated hpre hval] at hfail ⊢
  obtain ⟨a, hload, hnonce, hlast, ho'⟩ := validateAndPrepare_eq_ok huser hval
  have hacct : account? E o.entries op.sender = some a := account?_of_loadAccount hload
  have hsender : a.id = op.sender := hid a hacct
  refine ⟨a, hacct, hlast, ?_⟩
  obtain ⟨msg, s, hrun⟩ := executePrepared_failed hfail
  rw [hrun]
  -- the savepoint was taken after the nonce had been consumed
  have hentries : (s.store.restoreSavepoint o'.savepoint).entries =
      o.entries.insert (accountKey op.sender)
        (E.account.toVec { a with nonce := a.nonce + 1#64 }) := by
    rw [OverlayStore.entries_restoreSavepoint, ho', ← OverlayStore.entries_eq,
      entries_putAccount, hsender]
    rfl
  have hnext : op.nonce ≠ a.nonce + 1#64 := by
    rw [hnonce]
    intro heq
    have := congrArg BitVec.toNat heq
    rw [toNat_add_of_lt (by simpa using hlast)] at this
    simp at this
  have hcharged := chargeFailure_entries (E := E) (X := X) height s.gasUsed
    (a := { a with nonce := a.nonce + 1#64 }) hsender
    (by rw [hentries, Delta.getElem?_insert, if_pos rfl]) hnext
  rw [hentries, Delta.insert_insert, toNat_satSub_cappedFee] at hcharged
  exact hcharged

/-- A payment that is undone because the action after it fails. -/
def payAndRemoveAuth : UserOperation :=
  signWith alice 0#64
    { sender := alice
      nonce := 0#64
      actions := [.transfer bob 30#128, .setAuth []]
      maxFee := 30000#128
      signature := [] }

/-- Before the rollback `bob` has been paid; after it `alice` has lost the nonce
and the fee for the gas of the payment, and nothing else has changed. -/
theorem payAndRemoveAuth_failsAtomically :
    let o := OverlayStore.new (singleAccount alice (keyAccount alice 100000#128))
    let outcome := executeOperation concretePlatform {} o payAndRemoveAuth 1
    isSystemAuthorized payAndRemoveAuth = false ∧
      precheck concretePlatform payAndRemoveAuth = none ∧
      ((validateAndPrepare concretePlatform {} payAndRemoveAuth 1).run o).1 = .ok {} ∧
      (account? concretePlatform ((reserveAndRun concretePlatform payAndRemoveAuth 1 none).run
        { store := o }).2.store.entries bob).map (·.balance) = some 30#128 ∧
      outcome.receipt.success = false ∧ outcome.receipt.gasUsed = 25100#64 ∧
      account? concretePlatform outcome.store.entries alice =
        some { keyAccount alice 74900#128 with nonce := 1#64 } ∧
      account? concretePlatform outcome.store.entries bob = none ∧
      FailsAtomically concretePlatform {} o payAndRemoveAuth 1 := by
  refine ⟨rfl, rfl, by decide +kernel, by decide +kernel, by decide +kernel,
    by decide +kernel, by decide +kernel, by decide +kernel,
    failsAtomically_of_sender_id _ _ _ _ _ ?_⟩
  intro a ha
  have hacct : account? concretePlatform
      (OverlayStore.new (singleAccount alice (keyAccount alice 100000#128))).entries alice =
        some (keyAccount alice 100000#128) := by decide +kernel
  cases hacct.symm.trans ha
  rfl

/-- An operation that removes all authentication methods. -/
def removeAuth (sender : AccountId) : UserOperation :=
  signWith sender 0#64
    { sender := sender
      nonce := 0#64
      actions := [.setAuth []]
      maxFee := 0#128
      signature := [] }

/-- A record of `bob`, to be filed under the key of `alice`. -/
def misfiled : Account := { keyAccount alice 50#128 with id := bob }

/-- With a record of `bob` under the key of `alice` the nonce of `alice`
never moves: whenever it is consumed, the record goes to `bob`. -/
theorem not_failsAtomically_misfiled :
    ¬ FailsAtomically concretePlatform {}
      (OverlayStore.new (singleAccount alice misfiled)) (removeAuth alice) 1 := by
  intro h
  have hval : ((validateAndPrepare concretePlatform {} (removeAuth alice) 1).run
      (OverlayStore.new (singleAccount alice misfiled))).1 = .ok {} := by decide +kernel
  obtain ⟨a, ha, -, hstore⟩ := h _ _ rfl rfl (Prod.ext hval rfl) (by decide +kernel)
  have hacct : account? concretePlatform
      (OverlayStore.new (singleAccount alice misfiled)).entries alice = some misfiled := by
    decide +kernel
  have hkept : (executeOperation concretePlatform {}
      (OverlayStore.new (singleAccount alice misfiled))
      (removeAuth alice) 1).store.entries[accountKey alice]? =
        some (concretePlatform.account.toVec misfiled) := by decide +kernel
  rw [hstore, Delta.getElem?_insert] at hkept
  have hsame := Serde.toVec_inj (Option.some.inj ((if_pos rfl).symm.trans hkept))
  have hnonce : a.nonce + 1#64 = misfiled.nonce := congrArg Account.nonce hsame
  rw [Option.some.inj (ha.symm.trans hacct)] at hnonce
  exact absurd hnonce (by decide)

/-! ## Operations with the system marker

One call of `fulfill` or `slash` is accepted without a signature and without
consuming a nonce, but when it fails the sender is charged like any other. -/

/-- A failed operation leaves its sender's balance and nonce alone. -/
def SparesSender (E : Platform) (X : BlockExecutor) (o : OverlayStore base)
    (op : UserOperation) (height : Nat) : Prop :=
  (executeOperation E X o op height).receipt.success = false →
    (account? E (executeOperation E X o op height).store.entries op.sender).map
        (fun a => (a.balance, a.nonce)) =
      (account? E o.entries op.sender).map fun a => (a.balance, a.nonce)

/-- Where an injected call fails there is nothing to take: the operation does not
name the nonce its sender is at, and the fee or the balance is zero. -/
def NothingToCharge (E : Platform) (X : BlockExecutor) (o : OverlayStore base)
    (op : UserOperation) (height : Nat) : Prop :=
  ∀ a msg s, isSystemAuthorized op = true →
    account? E o.entries op.sender = some a → a.id = op.sender → precheck E op = none →
    (reserveAndRun E op height none).run { store := o } = (.error msg, s) →
    (op.nonce ≠ a.nonce ∨ a.nonce.toNat + 1 = 2 ^ 64) ∧
      (a.balance = 0#128 ∨ cappedFee X op height X.feeConfig s.gasUsed = 0#128)

/-- The nonce after an attempt to consume `nonce`. -/
def nextNonce (a : Account) (nonce : U64) : U64 :=
  if nonce = a.nonce ∧ a.nonce.toNat + 1 < 2 ^ 64 then a.nonce + 1#64 else a.nonce

theorem add_one_ne_self (n : U64) : n + 1#64 ≠ n := by
  intro h
  have := congrArg BitVec.toNat h
  have := n.isLt
  rw [BitVec.toNat_add, show (1#64).toNat = 1 from rfl] at *
  omega

theorem nextNonce_eq_self_iff (a : Account) (nonce : U64) :
    nextNonce a nonce = a.nonce ↔ nonce ≠ a.nonce ∨ a.nonce.toNat + 1 = 2 ^ 64 := by
  have hlt := a.nonce.isLt
  unfold nextNonce
  split
  · next h =>
      constructor
      · exact fun heq => absurd heq (add_one_ne_self a.nonce)
      · rintro (hne | hlast)
        · exact absurd h.1 hne
        · omega
  · next h =>
      refine iff_of_true rfl ?_
      by_cases hn : nonce = a.nonce
      · exact .inr (by have := not_and.mp h hn; omega)
      · exact .inl hn

theorem loadAccount_consumeNonce {σ : Type} [StateStore σ] {id : AccountId} (nonce : U64)
    {s : σ} (hload : loadAccount E id s = .ok (some a)) :
    loadAccount E id ((consumeNonce E id nonce).run s).2 =
      .ok (some (if a.id = id then { a with nonce := nextNonce a nonce } else a)) := by
  rcases hrun : (consumeNonce E id nonce).run s with ⟨r, s'⟩
  by_cases hn : nonce = a.nonce ∧ a.nonce.toNat + 1 < 2 ^ 64
  · rw [hn.1, run_consumeNonce hload hn.2] at hrun
    cases hrun
    rw [loadAccount_putAccount, nextNonce, if_pos hn]
    split
    · rfl
    · exact hload
  · have hsame : s' = s := by
      cases r with
      | error e => exact consumeNonce_eq_error hrun
      | ok u =>
        obtain ⟨a', hload', hnonce, hlast, -⟩ := consumeNonce_eq_ok hrun
        rw [hload] at hload'
        cases hload'
        exact absurd ⟨hnonce, hlast⟩ hn
    rw [hsame, nextNonce, if_neg hn, ite_self, hload]

theorem satSub_eq_self_iff (b fee : U128) : satSub b fee = b ↔ b = 0#128 ∨ fee = 0#128 := by
  have hzero : ∀ x : U128, x = 0#128 ↔ x.toNat = 0 := fun x =>
    ⟨fun h => by rw [h]; rfl, fun h => BitVec.eq_of_toNat_eq (by rw [h]; rfl)⟩
  rw [hzero, hzero, BitVec.toNat_eq, toNat_satSub]
  omega

/-- What the charge for a failure does to the sender's record. -/
theorem loadAccount_chargeFailure (height : Nat) (gasUsed : U64)
    {o : OverlayStore base} (hload : loadAccount E op.sender o = .ok (some a)) :
    loadAccount E op.sender ((chargeFailure E X op height gasUsed).run o).2 =
      .ok (some (if a.id = op.sender then
        { a with
          nonce := nextNonce a op.nonce
          balance := satSub a.balance (cappedFee X op height X.feeConfig gasUsed) }
        else a)) := by
  have hnonce := loadAccount_consumeNonce op.nonce hload
  rw [chargeFailure, run_bind, run_attempt]
  generalize ((consumeNonce E op.sender op.nonce).run o).2 = o₁ at hnonce
  dsimp only
  by_cases hfee : 0#128 < cappedFee X op height X.feeConfig gasUsed
  · simp only [hfee, if_true]
    rw [run_bind, run_attempt, run_requireAccount_of_some hnonce]
    change loadAccount E op.sender (putAccount E { (if a.id = op.sender then
      { a with nonce := nextNonce a op.nonce } else a) with balance := _ } o₁) = _
    rw [loadAccount_putAccount]
    by_cases hid : a.id = op.sender
    · simp only [hid, if_true]
    · simp only [hid, if_false]
      rw [hnonce, if_neg hid]
  · have hzero : cappedFee X op height X.feeConfig gasUsed = 0#128 := by
      rw [BitVec.lt_def, BitVec.toNat_zero] at hfee
      exact BitVec.eq_of_toNat_eq (by rw [BitVec.toNat_zero]; omega)
    have hsame : satSub a.balance 0#128 = a.balance := (satSub_eq_self_iff _ _).mpr (.inr rfl)
    simp only [hfee, if_false]
    rw [hzero, hsame]
    exact hnonce

theorem validateAndPrepare_of_system {σ : Type} [StateStore σ]
    (height : Nat) {s : σ} (hsys : isSystemAuthorized op = true)
    (hload : loadAccount E op.sender s = .ok (some a)) :
    (validateAndPrepare E X op height).run s = (.ok {}, s) := by
  have hget : (mapError ExecutionError.state (getAccount E op.sender)).run s =
      (.ok (some a), s) := by
    rw [run_mapError, run_getAccount, hload]
  rw [validateAndPrepare, run_bind_ok hget]
  simp only [hsys, if_true]
  rfl

theorem account?_failOperation (op : UserOperation) (height : Nat) (msg : String)
    (s : ExecState base) {o : OverlayStore base}
    (hload : loadAccount E op.sender o = .ok (some a)) :
    account? E (failOperation E X op height o.savepoint msg s).store.entries op.sender =
      some (if a.id = op.sender then
        { a with
          nonce := nextNonce a op.nonce
          balance := satSub a.balance (cappedFee X op height X.feeConfig s.gasUsed) }
        else a) := by
  have hback : loadAccount E op.sender (s.store.restoreSavepoint o.savepoint) =
      .ok (some a) := by
    rw [← hload, loadAccount, loadAccount, StateStore.get_eq, StateStore.get_eq,
      OverlayStore.entries_eq, OverlayStore.entries_eq, OverlayStore.entries_restoreSavepoint]
  exact account?_of_loadAccount (loadAccount_chargeFailure height s.gasUsed hback)

/-- An operation that is refused before its actions run changes nothing. -/
theorem store_of_not_validated {o o' : OverlayStore base}
    {e : ExecutionError} (hval : (validateAndPrepare E X op height).run o = (.error e, o')) :
    (executeOperation E X o op height).store = o := by
  unfold executeOperation
  split
  · rfl
  · rw [hval]
    exact validateAndPrepare_eq_error hval

/-- No method accepts the marker as a signature. -/
theorem validateAndPrepare_marker (height : Nat) (o : OverlayStore base)
    (hsig : op.signature = [0xFF]) (huser : isSystemAuthorized op = false) :
    ∃ e o', (validateAndPrepare E X op height).run o = (.error e, o') := by
  rcases hval : (validateAndPrepare E X op height).run o with ⟨e | prepared, o'⟩
  · exact ⟨e, o', rfl⟩
  rw [validateAndPrepare, run_bind_eq_ok] at hval
  obtain ⟨acct, o₁, -, hval⟩ := hval
  cases acct with
  | none => cases hval
  | some account =>
    simp only [huser, Bool.false_eq_true, if_false] at hval
    obtain ⟨p, o₂, hcheck, -⟩ := run_bind_eq_ok.mp hval
    rw [checkSignature, run_bind_eq_ok] at hcheck
    obtain ⟨u, o₃, hstop, -⟩ := hcheck
    rw [run_stopIf_pos (by simp [hsig, verifyAuth_singleton])] at hstop
    cases hstop

theorem sparesSender_iff_of_system {o : OverlayStore base} (height : Nat)
    (hsys : isSystemAuthorized op = true) :
    SparesSender E X o op height ↔ NothingToCharge E X o op height := by
  unfold SparesSender NothingToCharge
  by_cases hpre : precheck E op = none
  swap
  · obtain ⟨msg, hmsg⟩ := Option.ne_none_iff_exists'.mp hpre
    refine iff_of_true (fun _ => ?_) fun _ _ _ _ _ _ h => absurd h hpre
    simp only [executeOperation, hmsg]
  cases hacct : account? E o.entries op.sender with
  | none =>
    refine iff_of_true (fun _ => ?_) fun _ _ _ _ h => nomatch h
    rcases hval : (validateAndPrepare E X op height).run o with ⟨e | prepared, o'⟩
    · rw [store_of_not_validated hval, hacct]
    · obtain ⟨a, hload⟩ := loadAccount_of_validated hval
      exact nomatch hacct.symm.trans (account?_of_loadAccount hload)
  | some a =>
    have hload : loadAccount E op.sender o = .ok (some a) := loadAccount_of_account? hacct
    rw [executeOperation_of_validated hpre (validateAndPrepare_of_system height hsys hload)]
    rcases hrun : (reserveAndRun E op height none).run { store := o } with ⟨msg | reserved, s⟩
    · have hexec : executePrepared E X op height {} o =
          failOperation E X op height o.savepoint msg s := by
        rw [executePrepared, hrun]
      rw [hexec, account?_failOperation op height msg s hload]
      by_cases hid : a.id = op.sender
      · rw [if_pos hid]
        constructor
        · intro h a' _ _ _ ha' _ _ hs
          cases ha'
          cases hs
          obtain ⟨hbalance, hnonce⟩ := Prod.mk.inj (Option.some.inj (h rfl))
          exact ⟨(nextNonce_eq_self_iff a op.nonce).mp hnonce,
            (satSub_eq_self_iff _ _).mp hbalance⟩
        · intro h _
          obtain ⟨hnonce, hfee⟩ := h a msg s hsys rfl hid hpre rfl
          rw [Option.map_some, Option.map_some, (nextNonce_eq_self_iff a op.nonce).mpr hnonce,
            (satSub_eq_self_iff _ _).mpr hfee]
      · rw [if_neg hid]
        refine iff_of_true (fun _ => rfl) fun a' _ _ _ ha' hid' => ?_
        cases ha'
        exact absurd hid' hid
    · have hexec : (executePrepared E X op height {} o).receipt.success = true := by
        rw [executePrepared, hrun]
        rfl
      refine iff_of_true (fun h => ?_) fun _ _ _ _ _ _ _ h => nomatch h
      rw [hexec] at h
      cases h

/-- The sender is spared exactly where there is nothing to charge. -/
theorem sparesSender_iff (E : Platform) (X : BlockExecutor) (o : OverlayStore base)
    (op : UserOperation) (height : Nat) (hsig : op.signature = [0xFF]) :
    SparesSender E X o op height ↔ NothingToCharge E X o op height := by
  cases hsys : isSystemAuthorized op with
  | false =>
      obtain ⟨e, o', hval⟩ := validateAndPrepare_marker (E := E) (X := X) height o hsig hsys
      refine iff_of_true (fun _ => ?_) fun _ _ _ h => nomatch hsys.symm.trans h
      rw [store_of_not_validated hval]
  | true => exact sparesSender_iff_of_system height hsys

/-- An injected slash that names nobody: it always fails. -/
def emptySlash (sender : AccountId) (nonce : U64) : UserOperation where
  sender := sender
  nonce := nonce
  actions := [.call System.stakingAddress "slash" []]
  maxFee := 0#128
  signature := [0xFF]

/-- With another nonce than the sender's and nothing to take, the failure
costs nothing. -/
theorem sparesSender_iff_emptySlash :
    let o := OverlayStore.new (singleAccount alice (keyAccount alice 0#128))
    (emptySlash alice 1#64).signature = [0xFF] ∧
      (SparesSender concretePlatform {} o (emptySlash alice 1#64) 1 ↔
        NothingToCharge concretePlatform {} o (emptySlash alice 1#64) 1) ∧
      NothingToCharge concretePlatform {} o (emptySlash alice 1#64) 1 := by
  refine ⟨rfl, sparesSender_iff _ _ _ _ _ rfl, ?_⟩
  intro a msg s _ hacct _ _ _
  have halice : account? concretePlatform
      (OverlayStore.new (singleAccount alice (keyAccount alice 0#128))).entries alice =
        some (keyAccount alice 0#128) := by decide +kernel
  cases halice.symm.trans hacct
  exact ⟨.inl (by decide), .inl rfl⟩

/-- Whoever proposes a block can use up the nonce of `alice` with a slash that
fails. -/
theorem not_sparesSender_emptySlash :
    (emptySlash alice 0#64).signature = [0xFF] ∧
      ¬ SparesSender concretePlatform {}
        (OverlayStore.new (singleAccount alice (keyAccount alice 50#128)))
        (emptySlash alice 0#64) 1 := by
  exact ⟨rfl, fun h => absurd (h (by decide +kernel)) (by decide +kernel)⟩

end Operation

end Solen
