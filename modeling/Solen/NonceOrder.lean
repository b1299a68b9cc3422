import Solen.ConcreteNode
import Solen.Replay
import Solen.Parallel

/-!
# The nonces of a proposed block

A block takes the pending operations by fee, not by nonce. If the fees
of one sender do not rise with the nonce, its operations come in the
order of their nonces, and each finds the nonce it needs: an operation
moves the nonce of its sender by one as soon as it is authorised, and
no operation of another sender moves it at all, except by a deployment
to the sender's address. So the only way to a nonce error is an earlier
operation of the same sender that was refused before its nonce was
looked at.
-/

namespace Solen

open Machine Prog

variable {a : Account} {id : AccountId} {l : List UserOperation} {height k n : Nat} {nonce : U64}
  {op : UserOperation}

/-! ## The nonce of one account -/

/-- The account is there, and its nonce is `n`. -/
structure NonceIs (E : Platform) (id : AccountId) (n : Nat) (m : Store) : Prop where
  wellFormed : WellFormed E m
  nonce : ∃ a, account? E m id = some a ∧ a.nonce.toNat = n

/-- Saving `a` does not touch the account, or leaves it with nonce `n`. -/
def AtNonce (id : AccountId) (n : Nat) (a : Account) : Prop := a.id = id → a.nonce.toNat = n

section Frame

variable {E : Platform} {id : AccountId} {n : Nat}

theorem NonceIs.insert_account {m : Store} (h : NonceIs E id n m)
    (ha : AtNonce id n a) :
    NonceIs E id n (m.insert (accountKey a.id) (E.account.toVec a)) := by
  refine ⟨h.wellFormed.insert_account a, ?_⟩
  rw [account?_insert_accountKey]
  split
  · next hid => exact ⟨a, rfl, ha hid⟩
  · exact h.nonce

theorem NonceIs.atNonce {σ : Type} [StateStore σ] {s : σ} {id' : AccountId}
    (h : NonceIs E id n (StateStore.entries s)) (hload : loadAccount E id' s = .ok (some a)) :
    AtNonce id n a := by
  intro hid
  have hacct := account?_of_loadAccount hload
  have hid' := h.wellFormed.id_eq hacct
  obtain ⟨b, hb, hn⟩ := h.nonce
  rw [← hid, hid', hacct] at hb
  cases hb
  exact hn

variable (E id n)

theorem nonceIsFrame {σ : Type} [StateStore σ] :
    AccountFrame E (fun s : σ => NonceIs E id n (StateStore.entries s)) (AtNonce id n) where
  put v hk hs := by
    rw [StateStore.entries_put]
    refine ⟨hs.wellFormed.insert_of_notAccountKey hk v, ?_⟩
    rw [account?_insert_of_notAccountKey hk]
    exact hs.nonce
  save ha hs := by
    rw [entries_putAccount]
    exact hs.insert_account ha
  load hs hload := hs.atNonce hload
  fresh {s id'} hs hnone := by
    rintro rfl
    obtain ⟨a, ha, -⟩ := hs.nonce
    exact absurd (loadAccount_of_account? ha) (hnone a)
  edit _ _ _ ha := ha

theorem nonceIsExecFrame {base : Store} :
    ExecFrame E (fun s : ExecState base => NonceIs E id n (StateStore.entries s))
      (AtNonce id n) where
  toAccountFrame := nonceIsFrame E id n
  log _ _ _ hs := hs
  call _ hs := hs

variable {E id n}

/-- A nonce that does not fit is not consumed. -/
theorem consumeNonce_nonceIs {σ : Type} [StateStore σ] {sender : AccountId}
    (h : sender = id → nonce.toNat ≠ n) :
    Keeps (fun s : σ => NonceIs E id n (StateStore.entries s)) (consumeNonce E sender nonce)
      fun _ => True := by
  refine consumeNonce_keeps fun s a hs hload hnonce _ => ?_
  refine (nonceIsFrame E id n).save (fun hid => ?_) hs
  have hsender := hs.wellFormed.id_eq (account?_of_loadAccount hload)
  refine absurd ?_ (h (hsender.symm.trans hid))
  rw [hnonce]
  exact hs.atNonce hload hid

end Frame

/-! ## Operations -/

/-- The error of an operation whose nonce is not its sender's. -/
def ExecutionError.IsInvalidNonce (e : ExecutionError) : Prop :=
  ∃ expected got, e = .state (.invalidNonce expected got)

/-- Everything that is checked before the nonce is in order. -/
structure Authorized {σ : Type} [StateStore σ] (E : Platform) (X : BlockExecutor) (height : Nat)
    (s : σ) (op : UserOperation) : Prop where
  precheck : precheck E op = none
  signature : ∃ a prepared, loadAccount E op.sender s = .ok (some a) ∧
    ((checkSignature E X op height a).run s).1 = .ok prepared

section Operation

variable {base : Store} {E : Platform} {X : BlockExecutor} {id : AccountId} {n : Nat}

/-- No check of a signature reports a wrong nonce. -/
theorem checkSignature_stops {σ : Type} [StateStore σ] (op : UserOperation) (height : Nat)
    (a : Account) :
    Stops (checkSignature E X op height a : Prog σ ExecutionError PreparedOp)
      fun e => ¬ e.IsInvalidNonce := by
  have hrefused : ∀ msg, ¬ (refused msg).IsInvalidNonce := by
    rintro msg ⟨_, _, h⟩
    cases h
  unfold checkSignature
  refine Stops.bind (Stops.stopIf (by rintro ⟨_, _, h⟩; cases h)) fun _ => ?_
  split
  · refine Stops.bind Stops.reads fun _ => ?_
    refine Stops.bind (Stops.stopIf (hrefused _)) fun _ => ?_
    refine Stops.bind (Stops.stopIf (hrefused _)) fun _ => ?_
    refine Stops.bind Stops.reads fun _ => ?_
    refine Stops.bind (Stops.stopIf (hrefused _)) fun _ => ?_
    refine Stops.bind ?_ fun _ => Stops.bind (refuseFirst_stops fun _ => hrefused _) fun _ =>
      Stops.bind ?_ fun _ => Stops.pure
    · split
      · exact Stops.pure
      · exact refuseFirst_stops fun _ => hrefused _
    · split
      · exact Stops.pure
      · exact refuseFirst_stops fun _ => hrefused _
  · exact Stops.pure

/-- The marker of injected operations is nobody's signature. -/
theorem checkSignature_marker {σ : Type} [StateStore σ] {s s' : σ} {prepared : PreparedOp}
    (h : (checkSignature E X op height a).run s = (.ok prepared, s')) :
    op.signature ≠ [0xFF] := by
  intro hsig
  rw [checkSignature, run_bind_eq_ok] at h
  obtain ⟨u, s₁, hstop, -⟩ := h
  rw [run_stopIf_pos (by simp [hsig, verifyAuth_singleton])] at hstop
  cases hstop

theorem consumeNonce_invalidNonce {σ : Type} [StateStore σ] {sender : AccountId}
    {s s' : σ} {expected got : U64} (hload : loadAccount E sender s = .ok (some a))
    (h : (consumeNonce E sender nonce).run s = (.error (.invalidNonce expected got), s')) :
    nonce ≠ a.nonce := by
  rintro rfl
  rw [consumeNonce, run_bind_ok (run_requireAccount_of_some hload),
    run_bind_ok (run_stopIf_neg (not_not.mpr rfl))] at h
  split at h
  · cases h
  · cases h

/-- A nonce error means what it says, and only an operation signed by its
sender gets one. -/
theorem validateAndPrepare_invalidNonce {σ : Type} [StateStore σ] {s s' : σ} {e : ExecutionError}
    (h : (validateAndPrepare E X op height).run s = (.error e, s')) (he : e.IsInvalidNonce) :
    op.signature ≠ [0xFF] ∧
      ∃ a, loadAccount E op.sender s = .ok (some a) ∧ op.nonce ≠ a.nonce := by
  obtain ⟨expected, got, rfl⟩ := he
  rw [validateAndPrepare, run_bind_eq_error] at h
  rcases h with hget | ⟨o, s₁, hget, h⟩
  · obtain ⟨e', hget, heq⟩ := run_mapError_eq_error.mp hget
    rw [run_getAccount, loadAccount] at hget
    cases heq
    revert hget
    repeat' split
    all_goals
      intro hget
      cases congrArg Prod.fst hget
  obtain ⟨hload, rfl⟩ := getAccount_eq_ok (run_mapError_eq_ok.mp hget)
  cases o with
  | none => cases h
  | some a =>
    dsimp only at h
    split at h
    · cases h
    rw [run_bind_eq_error] at h
    rcases h with hsig | ⟨prepared, s₂, hsig, h⟩
    · refine absurd ⟨expected, got, rfl⟩ (checkSignature_stops (E := E) (X := X) op height a
        s₁ _ ?_)
      rw [hsig]
    · have hs₂ := (checkSignature_keeps (E := E) (X := X) op height a).state_eq (s := s₁)
      rw [hsig] at hs₂
      subst hs₂
      refine ⟨checkSignature_marker hsig, a, hload, ?_⟩
      rw [run_bind_eq_error] at h
      rcases h with hnonce | ⟨u, s₃, -, h⟩
      · obtain ⟨e', hnonce, heq⟩ := run_mapError_eq_error.mp hnonce
        cases heq
        exact consumeNonce_invalidNonce hload hnonce
      · cases h

/-- An authorised operation with the nonce of its sender is accepted. -/
theorem Authorized.validateAndPrepare {σ : Type} [StateStore σ] {s : σ} (h : Authorized E X height s op)
    (huser : isSystemAuthorized op = false) (hload : loadAccount E op.sender s = .ok (some a))
    (hnonce : op.nonce = a.nonce) (hlast : a.nonce.toNat + 1 < 2 ^ 64) :
    ∃ prepared, (validateAndPrepare E X op height).run s =
      (.ok prepared, putAccount E { a with nonce := a.nonce + 1#64 } s) := by
  obtain ⟨a', prepared, hload', hsig⟩ := h.signature
  rw [hload] at hload'
  cases hload'
  have hget : (mapError ExecutionError.state (getAccount E op.sender)).run s =
      (.ok (some a), s) := by
    rw [run_mapError, run_getAccount, hload]
  have hcheck : (checkSignature E X op height a).run s = (.ok prepared, s) :=
    Prod.ext hsig ((checkSignature_keeps (E := E) (X := X) op height a).state_eq (s := s))
  have hconsume : (mapError ExecutionError.state (consumeNonce E op.sender op.nonce)).run s =
      (.ok (), putAccount E { a with nonce := a.nonce + 1#64 } s) := by
    rw [run_mapError, hnonce, run_consumeNonce hload hlast]
  refine ⟨prepared, ?_⟩
  rw [Solen.validateAndPrepare]
  refine (run_bind_ok hget).trans ?_
  simp only [huser, Bool.false_eq_true, if_false]
  exact (run_bind_ok hcheck).trans (run_bind_ok hconsume)

theorem executePrepared_nonceIs {prepared : PreparedOp}
    {o : OverlayStore base} (hp : prepared.ChargesSession) (ho : NonceIs E id n o.entries)
    (hnonce : op.sender = id → op.nonce.toNat ≠ n)
    (hcol : id ∉ (executePrepared E X op height prepared o).collisions) :
    NonceIs E id n (executePrepared E X op height prepared o).store.entries := by
  refine executePrepared_of_free (T := (· = id)) (nonceIsExecFrame E id n)
    (fun id' hne hid => absurd hid hne)
    ((nonceIsFrame E id n).chargeFailure (consumeNonce_nonceIs hnonce) height) hp ho ?_
  rintro _ hid rfl
  exact hcol hid

/-- What others do leaves a nonce alone. -/
theorem executeOperation_nonceIs {o : OverlayStore base}
    (hne : op.sender ≠ id) (ho : NonceIs E id n o.entries)
    (hcol : id ∉ (executeOperation E X o op height).collisions) :
    NonceIs E id n (executeOperation E X o op height).store.entries := by
  rcases executeOperation_cases E X o op height with ⟨msg, hrefused⟩ | ⟨prepared, o', hval, hexec⟩
  · rw [hrefused]
    exact ho
  rw [hexec] at hcol ⊢
  refine executePrepared_nonceIs (validateAndPrepare_charges op height hval) ?_
    (fun h => absurd h hne) hcol
  obtain rfl | ⟨a, hload, -, rfl⟩ := validateAndPrepare_cases hval
  · exact ho
  · have hid := ho.wellFormed.id_eq (account?_of_loadAccount (s := o) hload)
    exact (nonceIsFrame E id n (σ := OverlayStore base)).save
      (fun h => absurd (hid.symm.trans h) hne) ho

/-- An authorised operation of the sender itself moves the nonce by one,
whether its actions succeed or not. -/
theorem Authorized.executeOperation {o : OverlayStore base}
    (h : Authorized E X height o op) (huser : isSystemAuthorized op = false)
    (hsender : op.sender = id) (hnonce : op.nonce.toNat = n) (hlast : n + 1 < 2 ^ 64)
    (ho : NonceIs E id n o.entries)
    (hcol : id ∉ (executeOperation E X o op height).collisions) :
    NonceIs E id (n + 1) (executeOperation E X o op height).store.entries := by
  obtain ⟨a, ha, hn⟩ := ho.nonce
  have hid := ho.wellFormed.id_eq ha
  have hload : loadAccount E op.sender o = .ok (some a) := by
    rw [hsender]
    exact loadAccount_of_account? (s := o) ha
  have heq : op.nonce = a.nonce := BitVec.eq_of_toNat_eq (hnonce.trans hn.symm)
  obtain ⟨prepared, hval⟩ := h.validateAndPrepare huser hload heq (by omega)
  rw [executeOperation_of_validated h.precheck hval] at hcol ⊢
  refine executePrepared_nonceIs (validateAndPrepare_charges op height hval) ?_ ?_ hcol
  · refine ⟨WellFormed.putAccount (s := o) ho.wellFormed _,
      { a with nonce := a.nonce + 1#64 }, ?_, ?_⟩
    · exact (account?_putAccount (E := E) { a with nonce := a.nonce + 1#64 } o id).trans
        (if_pos hid)
    · change (a.nonce + 1#64).toNat = n + 1
      rw [BitVec.toNat_add, show (1#64).toNat = 1 from rfl, hn, Nat.mod_eq_of_lt hlast]
  · intro _
    omega

end Operation

/-! ## Blocks -/

section Block

variable {base : Store} (E : Platform) (X : BlockExecutor) (start : OverlayStore base)
  (ops : List UserOperation) (height : Nat)

/-- The parallel path turns the operation away before it is executed. -/
def Skipped (op : UserOperation) : Prop :=
  parallelThreshold ≤ ops.length ∧ prevalidate E X start height op = none

namespace OpRun

/-- The operation got as far as its nonce. -/
def ReachesNonce (r : OpRun base) : Prop :=
  ¬ Skipped E X start ops height r.op ∧ Authorized E X height r.before r.op

/-- The operation failed because its nonce is not its sender's. -/
def NonceError (r : OpRun base) : Prop :=
  ¬ Skipped E X start ops height r.op ∧ precheck E r.op = none ∧
    ∃ e o', (validateAndPrepare E X r.op height).run r.before = (.error e, o') ∧
      e.IsInvalidNonce

/-- Why the nonce of `r` may not be the one its sender has come to: before
it, `r'` did not use up its own nonce, or deployed over the account. -/
def Spoils (r' r : OpRun base) : Prop :=
  (r'.op.sender = r.op.sender ∧ r'.op.nonce < r.op.nonce ∧
      ¬ r'.ReachesNonce E X start ops height) ∨
    r.op.sender ∈ r'.outcome.collisions

end OpRun

variable {E X start ops height}

theorem blockStep_of_not_skipped {o : OverlayStore base}
    (h : ¬ Skipped E X start ops height op) :
    (blockStep E X start ops height o op).store = (executeOperation E X o op height).store ∧
      (blockStep E X start ops height o op).collisions =
        (executeOperation E X o op height).collisions ∧
      (blockStep E X start ops height o op).receipt.error =
        (executeOperation E X o op height).receipt.error := by
  unfold blockStep
  split
  · next hlen =>
      unfold parallelStep
      cases hpre : prevalidate E X start height op with
      | none => exact absurd ⟨hlen, hpre⟩ h
      | some name => exact ⟨rfl, rfl, rfl⟩
  · exact ⟨rfl, rfl, rfl⟩

theorem blockStep_nonceIs {o : OverlayStore base} (hne : op.sender ≠ id) (ho : NonceIs E id n o.entries)
    (hcol : id ∉ (blockStep E X start ops height o op).collisions) :
    NonceIs E id n (blockStep E X start ops height o op).store.entries := by
  rcases blockStep_cases (E := E) (X := X) start o ops height op with hskip | ⟨hexec, hlog⟩
  · rw [hskip]
    exact ho
  · rw [hlog] at hcol
    rw [hexec]
    exact executeOperation_nonceIs hne ho hcol

/-- By induction on the operations, with the nonce that the sender has come
to: it moves exactly with the operations of the sender, until one of
them does not reach its nonce. -/
theorem runSteps_nonceError
    {o : OverlayStore base} (ho : NonceIs E id n o.entries)
    (hsigned : ∀ op ∈ l, op.signature ≠ [0xFF])
    (hnonces : (l.filter (·.sender = id)).map (·.nonce.toNat) = List.range' n k)
    {r : OpRun base} (hr : r ∈ runSteps (blockStep E X start ops height) l o)
    (hsender : r.op.sender = id) (herr : r.NonceError E X start ops height) :
    ∃ r', [r', r].Sublist (runSteps (blockStep E X start ops height) l o) ∧
      r'.Spoils E X start ops height r := by
  induction l generalizing n k o with
  | nil => cases hr
  | cons op l ih =>
    obtain ⟨hop, hl⟩ := List.forall_mem_cons.mp hsigned
    have huser : isSystemAuthorized op = false := by simp [isSystemAuthorized, hop]
    rcases List.mem_cons.mp hr with rfl | hrest
    · exfalso
      -- The first operation of the sender has its nonce.
      rw [List.filter_cons_of_pos (by simpa using hsender), List.map_cons] at hnonces
      obtain ⟨a, ha, hn⟩ := ho.nonce
      obtain ⟨-, -, e, o', hval, he⟩ := herr
      obtain ⟨-, b, hload, hne⟩ := validateAndPrepare_invalidNonce hval he
      have hb := account?_of_loadAccount hload
      change op.sender = id at hsender
      change account? E o.entries op.sender = some b at hb
      rw [hsender, ha] at hb
      cases hb
      cases k with
      | zero => cases hnonces
      | succ k =>
        rw [List.range'_succ] at hnonces
        refine hne (BitVec.eq_of_toNat_eq ?_)
        exact (List.cons.inj hnonces).1.trans hn.symm
    · have hfirst : [⟨op, o, blockStep E X start ops height o op⟩, r].Sublist
          (runSteps (blockStep E X start ops height) (op :: l) o) :=
        List.Sublist.cons_cons _ (List.singleton_sublist.mpr hrest)
      by_cases hcol : id ∈ (blockStep E X start ops height o op).collisions
      · exact ⟨_, hfirst, .inr (hsender.symm ▸ hcol)⟩
      by_cases hown : op.sender = id
      · rw [List.filter_cons_of_pos (by simpa using hown), List.map_cons] at hnonces
        cases k with
        | zero => cases hnonces
        | succ k =>
          rw [List.range'_succ] at hnonces
          obtain ⟨hnonce, htail⟩ := List.cons.inj hnonces
          have hlater : n + 1 ≤ r.op.nonce.toNat := by
            obtain ⟨l₁, l₂, hsplit, -⟩ := mem_runSteps hrest
            have hmem : r.op.nonce.toNat ∈ (l.filter (·.sender = id)).map (·.nonce.toNat) := by
              refine List.mem_map_of_mem (List.mem_filter.mpr ⟨?_, by simpa using hsender⟩)
              simp [hsplit]
            rw [htail, List.mem_range'_1] at hmem
            exact hmem.1
          by_cases hreach : OpRun.ReachesNonce E X start ops height
              ⟨op, o, blockStep E X start ops height o op⟩
          · have hlast : n + 1 < 2 ^ 64 := hlater.trans_lt r.op.nonce.isLt
            obtain ⟨hstore, hlog, -⟩ := blockStep_of_not_skipped (o := o) hreach.1
            rw [hlog] at hcol
            have hnext := hreach.2.executeOperation huser hown hnonce hlast ho hcol
            obtain ⟨r', hsub, hspoils⟩ := ih (hstore ▸ hnext) hl htail hrest
            exact ⟨r', hsub.cons _, hspoils⟩
          · refine ⟨_, hfirst, .inl ⟨hown.trans hsender.symm, ?_, hreach⟩⟩
            rw [BitVec.lt_def]
            change op.nonce.toNat < r.op.nonce.toNat
            omega
      · rw [List.filter_cons_of_neg (by simpa using hown)] at hnonces
        obtain ⟨r', hsub, hspoils⟩ :=
          ih (blockStep_nonceIs hown ho hcol) hl hnonces hrest
        exact ⟨r', hsub.cons _, hspoils⟩

/-- Injected operations after the others neither get a nonce error nor
disturb anything. -/
theorem runSteps_nonceError_injected {all injected : List UserOperation} {o : OverlayStore base} (hall : all = l ++ injected)
    (hinjected : ∀ op ∈ injected, op.signature = [0xFF]) (ho : NonceIs E id n o.entries)
    (hsigned : ∀ op ∈ l, op.signature ≠ [0xFF])
    (hnonces : (l.filter (·.sender = id)).map (·.nonce.toNat) = List.range' n k)
    {r : OpRun base} (hr : r ∈ runSteps (blockStep E X start ops height) all o)
    (hsender : r.op.sender = id) (herr : r.NonceError E X start ops height) :
    ∃ r', [r', r].Sublist (runSteps (blockStep E X start ops height) all o) ∧
      r'.Spoils E X start ops height r := by
  subst hall
  rw [runSteps_append] at hr ⊢
  rcases List.mem_append.mp hr with hr | hr
  · obtain ⟨r', hsub, hspoils⟩ := runSteps_nonceError ho hsigned hnonces hr hsender herr
    exact ⟨r', hsub.trans (List.sublist_append_left _ _), hspoils⟩
  · obtain ⟨l₁, l₂, hsplit, -⟩ := mem_runSteps hr
    obtain ⟨-, -, e, o', hval, he⟩ := herr
    refine absurd (hinjected r.op ?_) (validateAndPrepare_invalidNonce hval he).1
    simp [hsplit]

end Block

/-! ## The order of a sender's operations -/

/-- The fees a sender offers do not rise with the nonce. -/
def FeesFall (id : AccountId) (es : List UserOperation) : Prop :=
  ∀ a ∈ es, ∀ b ∈ es, a.sender = id → b.sender = id → a.nonce ≤ b.nonce → b.maxFee ≤ a.maxFee

/-- The operations of the sender have the nonces from `n` on, each once. -/
def ConsecutiveFrom (id : AccountId) (n : Nat) (es : List UserOperation) : Prop :=
  ∃ k, ((es.filter (·.sender = id)).map (·.nonce.toNat)).Perm (List.range' n k)

theorem FeesFall.pairwise {es : FeeOrder} (h : FeesFall id es)
    (hstrict : es.Strict) :
    ((es.filter (·.sender = id)).map (·.nonce.toNat)).Pairwise (· < ·) := by
  rw [List.pairwise_map]
  refine List.Pairwise.imp_of_mem ?_ (hstrict.sublist List.filter_sublist)
  intro a b ha hb hlt
  simp only [List.mem_filter, decide_eq_true_eq] at ha hb
  rcases UserOperation.feeCmp_lt_of_sender (ha.2.trans hb.2.symm) hlt with hfee | ⟨-, hnonce⟩
  · by_contra hle
    have := h b hb.1 a ha.1 hb.2 ha.2 (BitVec.le_def.mpr (by omega))
    rw [BitVec.le_def] at this
    omega
  · exact hnonce

theorem FeesFall.nonces_eq {es : FeeOrder} (h : FeesFall id es)
    (hstrict : es.Strict)
    (hperm : ((es.filter (·.sender = id)).map (·.nonce.toNat)).Perm (List.range' n k)) :
    (es.filter (·.sender = id)).map (·.nonce.toNat) = List.range' n k := by
  refine hperm.eq_of_pairwise (fun a b _ _ hab hba => ?_) (h.pairwise hstrict)
    (List.pairwise_lt_range' 1)
  omega

/-! ## Proposed blocks -/

namespace Engine

variable (E : ConsensusPlatform) (C : EngineConfig) (A : Ambient)

/-- The store a proposed block is executed on. -/
def proposalStore (e : Engine) : Store := (e.restoreStoreToFinalizedTip E A).store

/-- The operations of the block that `produceBlock` builds, as they ran. -/
def proposedRuns (e : Engine) : List (OpRun (e.proposalStore E A)) :=
  (stageBlock E.toPlatform C.executor (e.proposalStore E A) (e.produceBlock E C A).1.operations
    ((e.restoreStoreToFinalizedTip E A).height + 1)).runs

/-- An operation of a proposed block that fails because of its nonce. -/
def FailsWithNonce (e : Engine) (r : OpRun (e.proposalStore E A)) : Prop :=
  r.NonceError E.toPlatform C.executor (OverlayStore.new _) (e.produceBlock E C A).1.operations
    ((e.restoreStoreToFinalizedTip E A).height + 1)

variable {E C A}

theorem restoreStoreToFinalizedTip_mempool (e : Engine) :
    (e.restoreStoreToFinalizedTip E A).mempool = e.mempool := by
  unfold restoreStoreToFinalizedTip
  dsimp only
  repeat' split
  all_goals rfl

theorem mem_settleIntents {proposer : AccountId} {pool : IntentPool} (h : op ∈ (settleIntents proposer height pool).1) :
    op.signature = [0xFF] := by
  revert op
  suffices hall : ∀ op ∈ (settleIntents proposer height pool).1, op.signature = [0xFF] from
    fun {op} h => hall op h
  unfold settleIntents
  refine List.foldlRecOn (motive := fun acc : List UserOperation × IntentPool =>
    ∀ op ∈ acc.1, op.signature = [0xFF]) _ _ (by simp) ?_
  intro acc hacc intent _
  dsimp only
  split
  · intro op hop
    rcases List.mem_append.mp hop with hold | hnew
    · exact hacc op hold
    · rw [List.mem_singleton.mp hnew]
      rfl
  · exact hacc

/-- A proposed block holds what is fresh of the pool, as far as it fits,
and after it only injected operations. -/
theorem produceBlock_operations (e : Engine) :
    ∃ injected, (e.produceBlock E C A).1.operations =
        ((e.mempool.drain C.maxOpsPerBlock).1.filter fun op =>
          !staleNonce E (e.proposalStore E A) op) ++ injected ∧
      ∀ op ∈ injected, op.signature = [0xFF] := by
  refine ⟨(e.restoreStoreToFinalizedTip E A).pendingSlashing.map (slashOperation C) ++
    (settleIntents C.validatorId (e.restoreStoreToFinalizedTip E A).height
      (e.restoreStoreToFinalizedTip E A).intentPool).1, ?_, ?_⟩
  · rw [← restoreStoreToFinalizedTip_mempool (E := E) (A := A) e, ← List.append_assoc]
    rfl
  · intro op hop
    rcases List.mem_append.mp hop with hslash | hsettle
    · obtain ⟨evidence, -, rfl⟩ := List.mem_map.mp hslash
      rfl
    · exact mem_settleIntents hsettle

/-- No pending operation with the account's nonce or a larger one is stale. -/
theorem not_staleNonce {s : Store}
    (hacct : account? E.toPlatform s id = some a) (hsender : op.sender = id)
    (hnonce : a.nonce.toNat ≤ op.nonce.toNat) : staleNonce E s op = false := by
  have hload : loadAccount E.toPlatform op.sender s = .ok (some a) :=
    hsender.symm ▸ loadAccount_of_account? (s := s) hacct
  simp only [staleNonce, hload, decide_eq_false_iff_not, BitVec.lt_def]
  omega

/-- The pool fits into one block and holds operations of the sender with
the nonces from the account's on. If their fees do not rise with the
nonce, an operation of the sender fails in the proposed block with a
nonce error only after an operation of the sender with a smaller nonce
was refused before its nonce was looked at, or the sender's account was
deployed over. -/
theorem nonce_error_is_spoiled {e : Engine} {calls : List Mempool.Call} {id : AccountId}
    {a : Account} (hpool : e.mempool = (Mempool.new 50000).run calls)
    (hfits : e.mempool.entries.length ≤ C.maxOpsPerBlock)
    (hwf : WellFormed E.toPlatform (e.proposalStore E A))
    (hacct : account? E.toPlatform (e.proposalStore E A) id = some a)
    (hnonces : ConsecutiveFrom id a.nonce.toNat e.mempool.entries)
    (hfees : FeesFall id e.mempool.entries) {r : OpRun (e.proposalStore E A)}
    (hr : r ∈ e.proposedRuns E C A) (hsender : r.op.sender = id)
    (herr : e.FailsWithNonce E C A r) :
    ∃ r', [r', r].Sublist (e.proposedRuns E C A) ∧
      r'.Spoils E.toPlatform C.executor (OverlayStore.new _) (e.produceBlock E C A).1.operations
        ((e.restoreStoreToFinalizedTip E A).height + 1) r := by
  have hordered : e.mempool.Ordered := hpool ▸ (Mempool.Ordered.new 50000).run calls
  obtain ⟨k, hperm⟩ := hnonces
  have hsorted := hfees.nonces_eq hordered.strict hperm
  have hdrain : (e.mempool.drain C.maxOpsPerBlock).1 = e.mempool.entries := by
    rw [Mempool.drain, Mempool.drainLoop_fst, Nat.min_eq_right hfits, List.take_length]
  obtain ⟨injected, hops, hinjected⟩ := produceBlock_operations (E := E) (C := C) (A := A) e
  rw [hdrain] at hops
  -- What the filter takes out of the pool is not the sender's.
  have hown : ((e.mempool.entries.filter fun op =>
      !staleNonce E (e.proposalStore E A) op).filter (·.sender = id)).map (·.nonce.toNat) =
        List.range' a.nonce.toNat k := by
    rw [← hsorted, List.filter_filter]
    refine congrArg _ (List.filter_congr fun op hop => ?_)
    by_cases hid : op.sender = id
    · have hmem : op.nonce.toNat ∈ List.range' a.nonce.toNat k := by
        rw [← hsorted]
        exact List.mem_map_of_mem (List.mem_filter.mpr ⟨hop, by simpa using hid⟩)
      rw [not_staleNonce hacct hid (List.mem_range'_1.mp hmem).1]
      simp
    · simp [hid]
  have hstart : NonceIs E.toPlatform id a.nonce.toNat
      (OverlayStore.new (e.proposalStore E A)).entries := by
    rw [OverlayStore.entries_new]
    exact ⟨hwf, a, hacct, rfl⟩
  refine runSteps_nonceError_injected hops hinjected hstart (fun op hop => ?_) hown hr hsender
    herr
  exact hordered.signed op (List.mem_of_mem_filter hop)

/-! Two pending operations of one sender. -/

/-- An operation that does nothing, not yet signed. -/
def idleOperation (nonce : U64) (maxFee : U128) : UserOperation :=
  { sender := alice, nonce := nonce, actions := [], maxFee := maxFee, signature := [] }

/-- A node at genesis to which two operations were submitted. -/
def withTwoPending (op op' : UserOperation) : Engine :=
  atGenesis (singleAccount alice (keyAccount alice 50#128))
    ((Mempool.new 50000).run [.submit op, .submit op'])

/-- In a small block an operation fails with its nonce where validation says so. -/
theorem failsWithNonce_of_validation {e : Engine}
    {r : OpRun (e.proposalStore E A)} {have_ want : U64}
    (hsmall : (e.produceBlock E C A).1.operations.length < parallelThreshold)
    (hpre : precheck E.toPlatform r.op = none)
    (herr : ((validateAndPrepare E.toPlatform C.executor r.op
      ((e.restoreStoreToFinalizedTip E A).height + 1)).run r.before).1 =
        .error (.state (.invalidNonce have_ want))) :
    e.FailsWithNonce E C A r :=
  ⟨fun hskip => absurd hskip.1 (Nat.not_le.mpr hsmall), hpre, _, _, Prod.ext herr rfl,
    _, _, rfl⟩

/-- The operation with the larger nonce offers the larger fee, so it comes
first and fails: consecutive nonces alone are not enough. -/
theorem consecutive_nonces_fail :
    ¬ ∀ (E : ConsensusPlatform) (C : EngineConfig) (A : Ambient) (e : Engine)
      (calls : List Mempool.Call) (id : AccountId) (a : Account),
      e.mempool = (Mempool.new 50000).run calls →
      e.mempool.entries.length ≤ C.maxOpsPerBlock →
      WellFormed E.toPlatform (e.proposalStore E A) →
      account? E.toPlatform (e.proposalStore E A) id = some a →
      ConsecutiveFrom id a.nonce.toNat e.mempool.entries →
      ∀ r ∈ e.proposedRuns E C A, r.op.sender = id → ¬ e.FailsWithNonce E C A r := by
  intro h
  let op := signWith alice 0#64 (idleOperation 0#64 1#128)
  let op' := signWith alice 0#64 (idleOperation 1#64 2#128)
  let e := withTwoPending op op'
  have hentries : e.mempool.entries = [op', op] := by decide +kernel
  obtain ⟨r, r', hruns⟩ := List.length_eq_two.mp
    (show (e.proposedRuns concreteConsensus {} {}).length = 2 by decide +kernel)
  have hop : (e.proposedRuns concreteConsensus {} {}).map (·.op) = [op', op] := by
    decide +kernel
  have herr : ((e.proposedRuns concreteConsensus {} {}).map fun r =>
      ((validateAndPrepare concretePlatform ({} : EngineConfig).executor r.op
        ((e.restoreStoreToFinalizedTip concreteConsensus {}).height + 1)).run
          r.before).1).head? = some (.error (.state (.invalidNonce 0#64 1#64))) := by
    decide +kernel
  rw [hruns] at hop herr
  have hop : r.op = op' := (List.cons.inj hop).1
  refine h concreteConsensus {} {} e [.submit op, .submit op'] alice (keyAccount alice 50#128)
    rfl ?_ (wellFormed_singleAccount rfl) (by decide +kernel) ⟨2, ?_⟩ r ?_ ?_
    (failsWithNonce_of_validation (by decide +kernel) ?_ (Option.some.inj herr))
  · rw [hentries]
    decide
  · rw [hentries]
    decide
  · rw [hruns]
    exact List.mem_cons_self
  · rw [hop]
    rfl
  · rw [hop]
    rfl

/-- The first operation is not signed; so the second one fails, although it
is in order. -/
theorem nonce_error_is_spoiled_unsigned :
    let op := idleOperation 0#64 2#128
    let op' := signWith alice 0#64 (idleOperation 1#64 1#128)
    ∃ r r', (withTwoPending op op').proposedRuns concreteConsensus {} {} = [r, r'] ∧
      (withTwoPending op op').FailsWithNonce concreteConsensus {} {} r' ∧
      ∃ r₀, [r₀, r'].Sublist [r, r'] ∧
        r₀.Spoils concretePlatform ({} : EngineConfig).executor (OverlayStore.new _)
          ((withTwoPending op op').produceBlock concreteConsensus {} {}).1.operations
          (((withTwoPending op op').restoreStoreToFinalizedTip concreteConsensus {}).height + 1)
          r' := by
  intro op op'
  have hentries : (withTwoPending op op').mempool.entries = [op, op'] := by decide +kernel
  obtain ⟨r, r', hruns⟩ := List.length_eq_two.mp
    (show ((withTwoPending op op').proposedRuns concreteConsensus {} {}).length = 2 by
      decide +kernel)
  have hop : ((withTwoPending op op').proposedRuns concreteConsensus {} {}).map (·.op) =
      [op, op'] := by decide +kernel
  have herr : (((withTwoPending op op').proposedRuns concreteConsensus {} {}).map fun r =>
      ((validateAndPrepare concretePlatform ({} : EngineConfig).executor r.op
        (((withTwoPending op op').restoreStoreToFinalizedTip concreteConsensus {}).height +
          1)).run r.before).1).getLast? = some (.error (.state (.invalidNonce 0#64 1#64))) := by
    decide +kernel
  rw [hruns] at hop herr
  have hop' : r'.op = op' := (List.cons.inj (List.cons.inj hop).2).1
  have herr : (withTwoPending op op').FailsWithNonce concreteConsensus {} {} r' :=
    failsWithNonce_of_validation (by decide +kernel) (by rw [hop']; rfl) (Option.some.inj herr)
  refine ⟨r, r', hruns, herr, ?_⟩
  rw [← hruns]
  have hwf : WellFormed concretePlatform
      ((withTwoPending op op').proposalStore concreteConsensus {}) :=
    wellFormed_singleAccount (a := keyAccount alice 50#128) rfl
  refine nonce_error_is_spoiled (C := {}) rfl ?_ hwf
    (show account? concretePlatform ((withTwoPending op op').proposalStore concreteConsensus {})
      alice = some (keyAccount alice 50#128) by decide +kernel) ⟨2, ?_⟩ ?_ ?_ ?_ herr
  · rw [hentries]
    decide
  · rw [hentries]
    decide
  · rw [hentries]
    unfold FeesFall
    decide
  · rw [hruns]
    simp
  · rw [hop']
    rfl

end Engine

end Solen
