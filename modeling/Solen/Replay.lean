import Solen.ExecFrame
import Solen.Atomicity
import Solen.Block

/-!
# Replay protection

The nonce of an account never decreases, as long as no deployment hits
an existing account, and an operation that has an effect leaves its
sender with a nonce above its own. So no two operations with the same
sender and nonce can both have an effect, however far apart they are in
a run of blocks.
-/

namespace Solen

open Machine Prog
open StateStore (entries)

variable {a : Account} {ops : List UserOperation} {height : Nat} {m m' : Store}
  {op : UserOperation}

/-! ## Nonces -/

/-- Every account of `m₀` is still there in `m`, with a nonce that is not
smaller. -/
structure NoncesKept (E : Platform) (m₀ m : Store) : Prop where
  wellFormed : WellFormed E m
  nonce : ∀ id a₀, account? E m₀ id = some a₀ →
    ∃ a, account? E m id = some a ∧ a₀.nonce ≤ a.nonce

/-- Saving `a` does not lower the nonce its account has in `m₀`. -/
def NotBehind (E : Platform) (m₀ : Store) (a : Account) : Prop :=
  ∀ a₀, account? E m₀ a.id = some a₀ → a₀.nonce ≤ a.nonce

section Frame

variable {E : Platform} {m₀ m₁ m : Store}

theorem NoncesKept.refl (h : WellFormed E m) : NoncesKept E m m :=
  ⟨h, fun _ a ha => ⟨a, ha, BitVec.le_refl _⟩⟩

theorem NoncesKept.trans (h₁ : NoncesKept E m₀ m₁) (h₂ : NoncesKept E m₁ m) :
    NoncesKept E m₀ m := by
  refine ⟨h₂.wellFormed, fun id a₀ ha₀ => ?_⟩
  obtain ⟨a₁, ha₁, hle₁⟩ := h₁.nonce id a₀ ha₀
  obtain ⟨a, ha, hle⟩ := h₂.nonce id a₁ ha₁
  exact ⟨a, ha, BitVec.le_trans hle₁ hle⟩

theorem NoncesKept.insert_account (h : NoncesKept E m₀ m)
    (ha : NotBehind E m₀ a) :
    NoncesKept E m₀ (m.insert (accountKey a.id) (E.account.toVec a)) := by
  refine ⟨h.wellFormed.insert_account a, fun id a₀ ha₀ => ?_⟩
  rw [account?_insert_accountKey]
  split
  · next hid =>
      subst hid
      exact ⟨a, rfl, ha a₀ ha₀⟩
  · exact h.nonce id a₀ ha₀

theorem NoncesKept.insert_of_notAccountKey (h : NoncesKept E m₀ m) {k : Bytes}
    (hk : NotAccountKey k) (v : Bytes) : NoncesKept E m₀ (m.insert k v) := by
  refine ⟨h.wellFormed.insert_of_notAccountKey hk v, fun id a₀ ha₀ => ?_⟩
  rw [account?_insert_of_notAccountKey hk]
  exact h.nonce id a₀ ha₀

theorem NoncesKept.notBehind {σ : Type} [StateStore σ] {s : σ} {id : AccountId}
    (h : NoncesKept E m₀ (entries s)) (hload : loadAccount E id s = .ok (some a)) :
    a.id = id ∧ NotBehind E m₀ a := by
  have hacct := account?_of_loadAccount hload
  have hid := h.wellFormed.id_eq hacct
  refine ⟨hid, fun a₀ ha₀ => ?_⟩
  rw [hid] at ha₀
  obtain ⟨a', ha', hle⟩ := h.nonce id a₀ ha₀
  rw [hacct] at ha'
  cases ha'
  exact hle

theorem NotBehind.advance (h : NotBehind E m₀ a)
    (hlast : a.nonce.toNat + 1 < 2 ^ 64) :
    NotBehind E m₀ { a with nonce := a.nonce + 1#64 } := by
  intro a₀ ha₀
  have hle := h a₀ ha₀
  rw [BitVec.le_def] at hle ⊢
  change a₀.nonce.toNat ≤ (a.nonce + 1#64).toNat
  rw [BitVec.toNat_add, show (1#64).toNat = 1 from rfl, Nat.mod_eq_of_lt hlast]
  omega

variable (E m₀)

theorem nonceFrame {σ : Type} [StateStore σ] :
    AccountFrame E (fun s : σ => NoncesKept E m₀ (entries s)) (NotBehind E m₀) where
  put v hk hs := by
    rw [StateStore.entries_put]
    exact hs.insert_of_notAccountKey hk v
  save ha hs := by
    rw [entries_putAccount]
    exact hs.insert_account ha
  load hs hload := (hs.notBehind hload).2
  fresh {s id} hs hnone := by
    intro a₀ ha₀
    obtain ⟨a, ha, -⟩ := hs.nonce id a₀ ha₀
    refine absurd ?_ (hnone a)
    rw [hs.wellFormed.loadAccount_eq, ha]
  edit _ _ _ ha := ha

theorem nonceExecFrame {base : Store} :
    ExecFrame E (fun s : ExecState base => NoncesKept E m₀ (entries s))
      (NotBehind E m₀) where
  toAccountFrame := nonceFrame E m₀
  log _ _ _ hs := hs
  call _ hs := hs

end Frame

/-- A nonce that is consumed goes up. -/
theorem consumeNonce_nonces {σ : Type} [StateStore σ] {E : Platform} {m₀ : Store}
    (id : AccountId) (nonce : U64) :
    Keeps (fun s : σ => NoncesKept E m₀ (entries s)) (consumeNonce E id nonce)
      fun _ => True :=
  consumeNonce_keeps fun _ _ hs hload _ hlast =>
    (nonceFrame E m₀).save ((hs.notBehind hload).2.advance hlast) hs

/-! ## Actions and operations -/

section Operation

variable {base : Store} {E : Platform} {X : BlockExecutor} {m₀ : Store}

/-- Once an address has been found taken, the log says so. -/
theorem collisionFrame (E : Platform) (T : AccountId → Prop) :
    ExecFrame E (fun s : ExecState base => ∃ id ∈ s.collisions, T id) fun _ => True :=
  logFrame E (Q := fun _ d => ∃ id ∈ d, T id) fun _ _ _ h => h

theorem checkDeployAddress_collisions (T : AccountId → Prop) (newId : AccountId) :
    Keeps (fun s : ExecState base => ∃ id ∈ s.collisions, T id) (checkDeployAddress E newId)
      fun _ => True := by
  refine Keeps.seq (getAccount_keeps _).attempt.triv fun r => ?_
  split
  · refine Keeps.seq (Keeps.modify fun s hs => ?_) fun _ => Keeps.guard
    obtain ⟨id, hid, ht⟩ := hs
    exact ⟨id, List.mem_append_left _ hid, ht⟩
  · exact Keeps.pure trivial

theorem deployAction_collisions (T : AccountId → Prop) (sender : AccountId) (code : Bytes)
    (salt : Hash) :
    Keeps (fun s : ExecState base => ∃ id ∈ s.collisions, T id)
      (deployAction E sender code salt) fun _ => True := by
  refine Keeps.seq Keeps.guard fun _ => ?_
  refine Keeps.seq ((collisionFrame E T).storeBytecode code).mapError fun codeHash => ?_
  refine Keeps.seq (checkDeployAddress_collisions T _) fun _ => ?_
  exact (collisionFrame E T).createContract _ _ trivial

theorem operationActions_collisions (T : AccountId → Prop) (height : Nat)
    (policy : Option SubcallPolicy) (sender : AccountId) (actions : List Action)
    (pending : PendingTransfers) :
    Keeps (fun s : ExecState base => ∃ id ∈ s.collisions, T id)
      (operationActions E height policy sender actions pending) fun _ => True := by
  induction actions generalizing pending with
  | nil => exact Keeps.pure trivial
  | cons action rest ih =>
    refine Keeps.seq ?_ fun _ => ih _
    exact (collisionFrame E T).operationAction _ _ _ _ _ fun _ _ _ =>
      deployAction_collisions T _ _ _

/-- An address that is not taken leaves the state alone; one that is taken
leaves a trace. -/
theorem checkDeployAddress_cases (newId : AccountId) (s : ExecState base) :
    newId ∈ ((checkDeployAddress E newId).run s).2.collisions ∨
      ((∀ a, loadAccount E newId s ≠ .ok (some a)) ∧
        (checkDeployAddress E newId).run s = (.ok (), s)) := by
  rw [checkDeployAddress, run_bind, run_attempt, run_getAccount]
  rcases hload : loadAccount E newId s with e | (_ | existing)
  · exact .inr ⟨nofun, rfl⟩
  · exact .inr ⟨nofun, rfl⟩
  · refine .inl ?_
    have hkeep : Keeps (fun s : ExecState base => newId ∈ s.collisions)
        (stopIf (existing.codeHash ≠ Hash.zero) (refused "contract address already exists"))
        fun _ => True := Keeps.guard
    exact (hkeep { s with collisions := s.collisions ++ [newId] } (by simp)).1

/-! A deployment that finds its address free creates a new account, so a
frame survives it. Only some addresses may matter to the frame: the log
must be free of those in `T`, and a new account at any other address
has to be one the frame accepts. -/

section Free

variable {I : ExecState base → Prop} {Good : Account → Prop} {T : AccountId → Prop}

theorem ExecFrame.deployAction_of_free (F : ExecFrame E I Good)
    (hlog : ∀ (s : ExecState base) id, I s → I { s with collisions := s.collisions ++ [id] })
    (hother : ∀ id, ¬ T id → Good (emptyAccount id))
    (sender : AccountId) (code : Bytes) (salt : Hash) {s : ExecState base} (hs : I s)
    (hcol : ∀ id ∈ ((deployAction E sender code salt).run s).2.collisions, ¬ T id) :
    I ((deployAction E sender code salt).run s).2 := by
  by_cases hT : T (deployAddress E sender salt (E.blake3 code))
  swap
  · refine (F.actionFrame.deployAction hlog sender trivial (fun authMethods => ?_) s hs).1
    exact F.edit _ authMethods 0#128 (hother _ hT)
  rw [deployAction] at hcol ⊢
  by_cases hsize : maxCodeSize < code.length
  · rw [run_bind_error (run_stopIf_pos hsize)]
    exact hs
  rw [run_bind_ok (run_stopIf_neg hsize)] at hcol ⊢
  obtain ⟨s₁, hstore⟩ : ∃ s₁, (onState (storeBytecode E code)).run s =
      (.ok (E.blake3 code), s₁) := ⟨_, rfl⟩
  have hs₁ := (F.storeBytecode code).mapError.after hs hstore
  rw [run_bind_ok hstore] at hcol ⊢
  dsimp only at hcol ⊢
  rcases checkDeployAddress_cases (E := E) (deployAddress E sender salt (E.blake3 code)) s₁ with
    htaken | ⟨hfree, hcheck⟩
  · exfalso
    rw [run_bind] at hcol
    rcases hrun : (checkDeployAddress E
      (deployAddress E sender salt (E.blake3 code))).run s₁ with ⟨r, s₂⟩
    rw [hrun] at hcol htaken
    cases r with
    | error e => exact hcol _ htaken hT
    | ok u =>
      obtain ⟨id, hid, ht⟩ :=
        ((collisionFrame E T).createContract sender _ trivial s₂ ⟨_, htaken, hT⟩).1
      exact hcol id hid ht
  · rw [run_bind_ok hcheck]
    exact (F.createContract sender _ (F.fresh hs₁ hfree) s₁ hs₁).1

theorem ExecFrame.operationAction_of_free (F : ExecFrame E I Good)
    (hlog : ∀ (s : ExecState base) id, I s → I { s with collisions := s.collisions ++ [id] })
    (hother : ∀ id, ¬ T id → Good (emptyAccount id))
    (height : Nat) (policy : Option SubcallPolicy) (sender : AccountId) (msgValue : U128)
    (action : Action) {s : ExecState base} (hs : I s)
    (hcol : ∀ id ∈ ((Solen.operationAction E height policy sender msgValue action).run
      s).2.collisions, ¬ T id) :
    I ((Solen.operationAction E height policy sender msgValue action).run s).2 := by
  cases action with
  | transfer dest amount =>
    exact (F.operationAction _ _ _ _ (.transfer dest amount) (fun _ _ h => nomatch h) s hs).1
  | call target method args =>
    exact (F.operationAction _ _ _ _ (.call target method args) (fun _ _ h => nomatch h) s hs).1
  | setAuth authMethods =>
    exact (F.operationAction _ _ _ _ (.setAuth authMethods) (fun _ _ h => nomatch h) s hs).1
  | deploy code salt =>
    change ∀ id ∈ ((mapError ExecutionError.message (deployAction E sender code salt) >>=
      fun gas => addGas gas).run s).2.collisions, ¬ T id at hcol
    change I ((mapError ExecutionError.message
      (deployAction E sender code salt) >>= fun gas => addGas gas).run s).2
    have hdeploy := F.deployAction_of_free hlog hother sender code salt hs
    rw [run_bind, run_mapError] at hcol ⊢
    rcases hrun : (deployAction E sender code salt).run s with ⟨r, s'⟩
    rw [hrun] at hcol hdeploy
    cases r with
    | ok gas => exact (F.addGas (ε := String) gas s' (hdeploy hcol)).1
    | error e => exact hdeploy hcol

/-- By induction on the actions: what an action leaves in the log stays, so
a clean log at the end means every deployment found its address free. -/
theorem ExecFrame.operationActions_of_free (F : ExecFrame E I Good)
    (hlog : ∀ (s : ExecState base) id, I s → I { s with collisions := s.collisions ++ [id] })
    (hother : ∀ id, ¬ T id → Good (emptyAccount id))
    (height : Nat) (policy : Option SubcallPolicy) (sender : AccountId) (actions : List Action)
    (pending : PendingTransfers) {s : ExecState base} (hs : I s)
    (hcol : ∀ id ∈ ((Solen.operationActions E height policy sender actions pending).run
      s).2.collisions, ¬ T id) :
    I ((Solen.operationActions E height policy sender actions pending).run s).2 := by
  induction actions generalizing pending s with
  | nil => exact hs
  | cons action rest ih =>
    rw [Solen.operationActions, run_bind] at hcol ⊢
    have haction := F.operationAction_of_free hlog hother height policy sender
      (takeMsgValue pending action).1 action hs
    rcases hrun : (Solen.operationAction E height policy sender
      (takeMsgValue pending action).1 action).run s with ⟨r, s₁⟩
    rw [hrun] at hcol haction
    cases r with
    | error e => exact haction hcol
    | ok u =>
      refine ih _ (haction fun id hid ht => ?_) hcol
      obtain ⟨id', hid', ht'⟩ := (operationActions_collisions T height policy sender rest
        _ s₁ ⟨id, hid, ht⟩).1
      exact hcol id' hid' ht'

end Free

/-- A property of the entries that is a frame and survives the failure fee
survives an operation that was accepted. -/
theorem executePrepared_of_free {P : Store → Prop} {Good : Account → Prop}
    {T : AccountId → Prop}
    (F : ExecFrame E (fun s : ExecState base => P (entries s)) Good)
    (hother : ∀ id, ¬ T id → Good (emptyAccount id)) {prepared : PreparedOp} {o : OverlayStore base}
    (hcharge : ∀ gasUsed, Keeps (fun o : OverlayStore base => P (entries o))
      (chargeFailure E X op height gasUsed) fun _ => True)
    (hp : prepared.ChargesSession) (ho : P o.entries)
    (hcol : ∀ id ∈ (executePrepared E X op height prepared o).collisions, ¬ T id) :
    P (executePrepared E X op height prepared o).store.entries := by
  unfold executePrepared at hcol ⊢
  rcases hrun : (reserveAndRun E op height prepared.subcallPolicy).run { store := o } with
    ⟨r, s⟩
  rw [hrun] at hcol
  cases r with
  | error msg =>
    -- The rollback takes the store back to `o`.
    refine (hcharge s.gasUsed _ ?_).1
    change P (s.store.restoreSavepoint o.savepoint).entries
    rw [OverlayStore.entries_restoreSavepoint]
    exact ho
  | ok reserved =>
    rw [reserveAndRun] at hrun
    obtain ⟨r₁, s₁, hreserve, hrun⟩ := run_bind_eq_ok.mp hrun
    obtain ⟨u, s₂, hactions, hrun⟩ := run_bind_eq_ok.mp hrun
    cases hrun
    have hs₁ := (F.reserveFee op).after ho hreserve
    have hs₂ := F.operationActions_of_free (fun _ _ h => h) hother height
      prepared.subcallPolicy op.sender op.actions ∅ hs₁
    rw [hactions] at hs₂
    have hsettled := (F.settleFees (ε := Empty) X op height reserved s (hs₂ hcol)).1
    change P (commitSessionCharge prepared.sessionCharge _).entries
    unfold commitSessionCharge
    split
    · next key total hcharge => exact F.put _ (hp key total hcharge) hsettled
    · exact hsettled

/-! Fees and whole operations. -/

/-- What survives the consumption of the nonce survives the failure fee. -/
theorem AccountFrame.chargeFailure {I : OverlayStore base → Prop} {Good : Account → Prop}
    (F : AccountFrame E I Good)
    (hnonce : Keeps I (consumeNonce E op.sender op.nonce) fun _ => True) (height : Nat)
    (gasUsed : U64) :
    Keeps I (chargeFailure E X op height gasUsed) fun _ => True :=
  chargeFailure_keeps hnonce
    fun _ _ ho hload b _ ho' => F.save (F.balance (F.load ho hload) b) ho'

theorem executePrepared_nonces {prepared : PreparedOp}
    {o : OverlayStore base} (hp : prepared.ChargesSession) (ho : NoncesKept E m₀ o.entries)
    (hcol : (executePrepared E X op height prepared o).collisions = []) :
    NoncesKept E m₀ (executePrepared E X op height prepared o).store.entries :=
  executePrepared_of_free (T := fun _ => True) (nonceExecFrame E m₀) (fun _ h => absurd trivial h)
    ((nonceFrame E m₀).chargeFailure (consumeNonce_nonces _ _) height) hp ho (by simp [hcol])

/-- What an operation does to nonces: an operation that is refused changes
nothing, and one that is not, starts from the sender's nonce and leaves a
larger one. -/
theorem executeOperation_nonces {o : OverlayStore base}
    (ho : NoncesKept E m₀ o.entries)
    (hcol : (executeOperation E X o op height).collisions = []) :
    NoncesKept E m₀ (executeOperation E X o op height).store.entries := by
  rcases executeOperation_cases E X o op height with ⟨msg, hrefused⟩ | ⟨prepared, o', hval, hexec⟩
  · rw [hrefused]
    exact ho
  rw [hexec] at hcol ⊢
  refine executePrepared_nonces (validateAndPrepare_charges op height hval) ?_ hcol
  obtain rfl | ⟨a, hload, hlast, rfl⟩ := validateAndPrepare_cases hval
  · exact ho
  · have hadv := (NoncesKept.notBehind (s := o) ho hload).2.advance hlast
    exact (nonceFrame E m₀ (σ := OverlayStore base)).save hadv ho

/-- The nonce of the operation is the sender's before it, and below the
sender's after it. -/
def SpendsNonce (E : Platform) (op : UserOperation) (before after : Store) : Prop :=
  ∃ a a', account? E before op.sender = some a ∧ account? E after op.sender = some a' ∧
    a.nonce = op.nonce ∧ op.nonce < a'.nonce

theorem executeOperation_spendsNonce
    {o : OverlayStore base} (hwf : WellFormed E o.entries)
    (huser : isSystemAuthorized op = false)
    (hcol : (executeOperation E X o op height).collisions = [])
    (hne : (executeOperation E X o op height).store.entries ≠ o.entries) :
    SpendsNonce E op o.entries (executeOperation E X o op height).store.entries := by
  rcases executeOperation_cases E X o op height with ⟨msg, hrefused⟩ | ⟨prepared, o', hval, hexec⟩
  · rw [hrefused] at hne
    exact absurd rfl hne
  rw [hexec] at hcol ⊢
  obtain ⟨a, hload, hnonce, hlast, rfl⟩ := validateAndPrepare_eq_ok huser hval
  have hacct := account?_of_loadAccount hload
  have hid := hwf.id_eq hacct
  -- From here on nonces are compared with the store right after validation.
  have hstart := NoncesKept.refl (WellFormed.putAccount (s := o) hwf
    { a with nonce := a.nonce + 1#64 })
  have hkept := executePrepared_nonces (validateAndPrepare_charges op height hval) hstart hcol
  have hadvanced := account?_putAccount (E := E) { a with nonce := a.nonce + 1#64 } o op.sender
  rw [if_pos hid] at hadvanced
  obtain ⟨a', ha', hle⟩ := hkept.nonce op.sender _ hadvanced
  refine ⟨a, a', hacct, ha', hnonce.symm, ?_⟩
  rw [BitVec.le_def] at hle
  rw [hnonce, BitVec.lt_def]
  change (a.nonce + 1#64).toNat ≤ _ at hle
  rw [BitVec.toNat_add, show (1#64).toNat = 1 from rfl, Nat.mod_eq_of_lt hlast] at hle
  omega

end Operation

/-! ## Blocks -/

section Block

variable {base : Store} {E : Platform} {X : BlockExecutor} {m₀ : Store}

/-- The parallel path skips an operation or executes it like the other one. -/
theorem blockStep_cases (start o : OverlayStore base) (ops : List UserOperation) (height : Nat)
    (op : UserOperation) :
    (blockStep E X start ops height o op).store = o ∨
      ((blockStep E X start ops height o op).store = (executeOperation E X o op height).store ∧
        (blockStep E X start ops height o op).collisions =
          (executeOperation E X o op height).collisions) := by
  unfold blockStep
  split
  · unfold parallelStep
    split
    · exact .inl rfl
    · exact .inr ⟨rfl, rfl⟩
  · exact .inr ⟨rfl, rfl⟩

/-- An operation of a run of blocks, with the stores before and after it. -/
structure Ran where
  op : UserOperation
  before : Store
  after : Store

def OpRun.ran (r : OpRun base) : Ran := ⟨r.op, r.before.entries, r.outcome.store.entries⟩

/-- What each operation of a run does: nonces do not go down, and a
user-signed operation that changes anything spends its nonce. -/
structure Ran.Sound (E : Platform) (r : Ran) : Prop where
  kept : NoncesKept E r.before r.after
  spends : isSystemAuthorized r.op = false → r.after ≠ r.before →
    SpendsNonce E r.op r.before r.after

theorem blockStep_sound {start o : OverlayStore base} (hwf : WellFormed E o.entries)
    (hcol : (blockStep E X start ops height o op).collisions = []) :
    Ran.Sound E (OpRun.ran ⟨op, o, blockStep E X start ops height o op⟩) := by
  rcases blockStep_cases (E := E) (X := X) start o ops height op with hskip | ⟨hexec, hlog⟩
  · constructor
    · change NoncesKept E o.entries (blockStep E X start ops height o op).store.entries
      rw [hskip]
      exact NoncesKept.refl hwf
    · intro _ hne
      refine absurd ?_ hne
      change (blockStep E X start ops height o op).store.entries = o.entries
      rw [hskip]
  · rw [hlog] at hcol
    constructor
    · change NoncesKept E o.entries (blockStep E X start ops height o op).store.entries
      rw [hexec]
      exact executeOperation_nonces (NoncesKept.refl hwf) hcol
    · intro huser hne
      change (blockStep E X start ops height o op).store.entries ≠ o.entries at hne
      change SpendsNonce E op o.entries (blockStep E X start ops height o op).store.entries
      rw [hexec] at hne ⊢
      exact executeOperation_spendsNonce hwf huser hcol hne

/-- The operations `l` ran one after the other between the stores `m` and
`m'`, and nothing that happened between them lowered a nonce. -/
def Linked (E : Platform) : Store → List Ran → Store → Prop
  | m, [], m' => NoncesKept E m m'
  | m, r :: l, m' => NoncesKept E m r.before ∧ r.Sound E ∧ Linked E r.after l m'

theorem Linked.kept {l : List Ran} (h : Linked E m l m') : NoncesKept E m m' := by
  induction l generalizing m with
  | nil => exact h
  | cons r l ih =>
    obtain ⟨hbefore, hr, hrest⟩ := h
    exact (hbefore.trans hr.kept).trans (ih hrest)

theorem Linked.append {m₁ : Store} {l l' : List Ran} (h : Linked E m l m₁)
    (h' : Linked E m₁ l' m') : Linked E m (l ++ l') m' := by
  induction l generalizing m with
  | nil =>
    cases l' with
    | nil => exact NoncesKept.trans h h'
    | cons r l' => exact ⟨NoncesKept.trans h h'.1, h'.2⟩
  | cons r l ih => exact ⟨h.1, h.2.1, ih h.2.2⟩

theorem Linked.before {l : List Ran} (h : Linked E m l m') {r : Ran}
    (hr : r ∈ l) : NoncesKept E m r.before ∧ r.Sound E := by
  induction l generalizing m with
  | nil => cases hr
  | cons r' l ih =>
    rcases List.mem_cons.mp hr with rfl | hmem
    · exact ⟨h.1, h.2.1⟩
    · obtain ⟨hkept, hsound⟩ := ih h.2.2 hmem
      exact ⟨(h.1.trans h.2.1.kept).trans hkept, hsound⟩

theorem runSteps_linked {start o : OverlayStore base} {all : List UserOperation} (hwf : WellFormed E o.entries)
    (hcol : ∀ r ∈ runSteps (blockStep E X start all height) ops o,
      r.outcome.collisions = []) :
    Linked E o.entries ((runSteps (blockStep E X start all height) ops o).map OpRun.ran)
      (finalStore o (runSteps (blockStep E X start all height) ops o)).entries := by
  induction ops generalizing o with
  | nil => exact NoncesKept.refl hwf
  | cons op ops ih =>
    have hsound := blockStep_sound hwf (hcol _ List.mem_cons_self)
    refine ⟨NoncesKept.refl hwf, hsound, ih hsound.kept.wellFormed fun r hr => ?_⟩
    exact hcol r (List.mem_cons_of_mem _ hr)

/-! Rewards and randomness, after the operations. -/

theorem NoncesKept.resave {σ : Type} [StateStore σ] {s : σ} {id : AccountId}
    (hs : NoncesKept E m₀ (entries s)) (hload : loadAccount E id s = .ok (some a))
    (b : U128) :
    NoncesKept E m₀ (entries
      (StateStore.put s (accountKey id) (E.account.toVec { a with balance := b }))) := by
  obtain ⟨hid, hgood⟩ := hs.notBehind hload
  rw [← hid]
  exact (nonceFrame E m₀).save (a := { a with balance := b }) hgood hs

theorem creditAccountRaw_nonces {σ : Type} [StateStore σ] {s : σ} (id : AccountId) (b : U128)
    (hs : NoncesKept E m₀ (entries s)) :
    NoncesKept E m₀ (entries (creditAccountRaw E id b s)) := by
  unfold creditAccountRaw
  split
  · next a hload => exact hs.resave hload _
  · exact hs

theorem takeFromPool_nonces {σ : Type} [StateStore σ] {s : σ} (amount : U128)
    (hs : NoncesKept E m₀ (entries s)) :
    NoncesKept E m₀ (entries (takeFromPool E amount s)) := by
  unfold takeFromPool
  split
  · next a hload => exact hs.resave hload _
  · exact hs

theorem distributeEpochRewards_nonces {σ : Type} [StateStore σ] {s : σ} (height : Nat)
    (hs : NoncesKept E m₀ (entries s)) :
    NoncesKept E m₀ (entries (distributeEpochRewards E height s).2) := by
  unfold distributeEpochRewards
  split
  · exact hs
  · next reward credits _ =>
      dsimp only
      have hpool := takeFromPool_nonces reward hs
      exact List.foldlRecOn (motive := fun s' : σ => NoncesKept E m₀ (entries s'))
        credits _ hpool fun s' hs' c _ => creditAccountRaw_nonces _ _ hs'

theorem mixRandomness_nonces {σ : Type} [StateStore σ] {s : σ} (root : Hash) (height : Nat)
    (hs : NoncesKept E m₀ (entries s)) :
    NoncesKept E m₀ (entries (mixRandomness E root height s)) :=
  (nonceFrame E m₀).put _ (by decide) hs

/-- What a block does after its operations. -/
def finishBlock (E : Platform) (X : BlockExecutor) (s : Store) (height : Nat)
    (o : OverlayStore s) : OverlayStore s :=
  let rewarded :=
    if 0 < height ∧ height % epochLength = 0 then (distributeEpochRewards E height o).2 else o
  if X.epochRandomnessHeight ≤ height then
    mixRandomness E (s.stateRoot E.blake3) height rewarded
  else rewarded

theorem stageBlock_final (s : Store) (ops : List UserOperation) (height : Nat) :
    (stageBlock E X s ops height).final = finishBlock E X s height
      (finalStore (OverlayStore.new s) (stageBlock E X s ops height).runs) := by
  unfold stageBlock finishBlock
  dsimp only
  by_cases hepoch : 0 < height ∧ height % epochLength = 0
  · simp only [hepoch, and_self, if_true]
  · simp only [hepoch, if_false]

theorem finishBlock_nonces (height : Nat) {s : Store} {o : OverlayStore s}
    (ho : NoncesKept E m₀ o.entries) :
    NoncesKept E m₀ (finishBlock E X s height o).entries := by
  have hrewarded : NoncesKept E m₀ (if 0 < height ∧ height % epochLength = 0 then
      (distributeEpochRewards E height o).2 else o).entries := by
    split
    · exact distributeEpochRewards_nonces (s := o) height ho
    · exact ho
  unfold finishBlock
  dsimp only
  split
  · rw [← OverlayStore.entries_eq] at hrewarded
    exact mixRandomness_nonces _ _ hrewarded
  · exact hrewarded

theorem stageBlock_linked {s : Store}
    (hwf : WellFormed E s)
    (hcol : ∀ r ∈ (stageBlock E X s ops height).runs, r.outcome.collisions = []) :
    Linked E s ((stageBlock E X s ops height).runs.map OpRun.ran)
      (stageBlock E X s ops height).final.entries := by
  have hstart : (OverlayStore.new s).entries = s := OverlayStore.entries_new s
  have hops := runSteps_linked (o := OverlayStore.new s) (hstart.symm ▸ hwf) hcol
  rw [hstart] at hops
  have hfinish := finishBlock_nonces (X := X) height (NoncesKept.refl hops.kept.wellFormed)
  have happ := hops.append (show Linked E _ [] _ from hfinish)
  rw [List.append_nil] at happ
  rw [stageBlock_final]
  exact happ

/-! ## Runs of blocks -/

/-- Blocks executed one after the other, with whatever the node writes
between them outside the accounts. No deployment derives the address of
an existing account. -/
inductive ChainRun (E : Platform) (X : BlockExecutor) : Store → List Ran → Store → Prop
  | start (s : Store) : ChainRun E X s [] s
  | block {s s' : Store} {l : List Ran} (h : ChainRun E X s l s') (ops : List UserOperation)
      (height : Nat)
      (deploys : ∀ r ∈ (stageBlock E X s' ops height).runs, r.outcome.collisions = []) :
      ChainRun E X s (l ++ (stageBlock E X s' ops height).runs.map OpRun.ran)
        (executeBlockWithHeight E X s' ops height).2
  | between {s s' : Store} {l : List Ran} (h : ChainRun E X s l s') (s'' : Store)
      (accounts : ∀ id, s''[accountKey id]? = s'[accountKey id]?) : ChainRun E X s l s''

theorem NoncesKept.of_accounts (hwf : WellFormed E m)
    (h : ∀ id, m'[accountKey id]? = m[accountKey id]?) : NoncesKept E m m' := by
  refine ⟨fun id data hdata => hwf id data (h id ▸ hdata), fun id a ha => ?_⟩
  refine ⟨a, ?_, BitVec.le_refl _⟩
  rw [account?, h id]
  exact ha

theorem ChainRun.linked {s s' : Store} {l : List Ran} (hwf : WellFormed E s)
    (h : ChainRun E X s l s') : Linked E s l s' := by
  induction h with
  | start => exact NoncesKept.refl hwf
  | block h ops height deploys hlinked =>
    exact hlinked.append (stageBlock_linked hlinked.kept.wellFormed deploys)
  | between h s'' accounts hlinked =>
    have hsame := NoncesKept.of_accounts hlinked.kept.wellFormed accounts
    have happ := hlinked.append (show Linked E _ [] _ from hsame)
    rwa [List.append_nil] at happ

/-- Both operations are signed by their sender, name the same sender and
nonce, and have an effect. -/
def Replays (r r' : Ran) : Prop :=
  isSystemAuthorized r.op = false ∧ isSystemAuthorized r'.op = false ∧
    r'.op.sender = r.op.sender ∧ r'.op.nonce = r.op.nonce ∧
    r.after ≠ r.before ∧ r'.after ≠ r'.before

/-- After an operation its sender's nonce is past it, for good. -/
theorem not_replays {r r' : Ran} (hr : r.Sound E) (hr' : r'.Sound E)
    (hbetween : NoncesKept E r.after r'.before) : ¬ Replays r r' := by
  rintro ⟨huser, huser', hsender, hnonce, hne, hne'⟩
  obtain ⟨-, a, -, ha, -, hlt⟩ := hr.spends huser hne
  obtain ⟨b, -, hb, -, heq, -⟩ := hr'.spends huser' hne'
  obtain ⟨a', ha', hle⟩ := hbetween.nonce _ a ha
  rw [← hsender, hb] at ha'
  cases ha'
  rw [heq, hnonce, BitVec.le_def] at hle
  rw [BitVec.lt_def] at hlt
  omega

theorem Linked.pairwise {l : List Ran} (h : Linked E m l m') :
    l.Pairwise fun r r' => ¬ Replays r r' := by
  induction l generalizing m with
  | nil => exact List.Pairwise.nil
  | cons r l ih =>
    refine List.Pairwise.cons (fun r' hr' => ?_) (ih h.2.2)
    obtain ⟨hkept, hsound⟩ := h.2.2.before hr'
    exact not_replays h.2.1 hsound hkept

/-- An operation without deployments cannot collide. -/
theorem executeOperation_collisions (o : OverlayStore base) (height : Nat)
    (h : ∀ code salt, .deploy code salt ∉ op.actions) :
    (executeOperation E X o op height).collisions = [] := by
  have F : ExecFrame E (fun s : ExecState base => s.collisions = []) fun _ => True :=
    logFrame E (Q := fun _ d => d = []) fun _ _ _ hd => hd
  refine executeOperation_lists (Q := fun _ d => d = []) rfl (fun policy => ?_) o
  revert h
  generalize op.actions = actions
  generalize (∅ : PendingTransfers) = pending
  intro h
  induction actions generalizing pending with
  | nil => exact Keeps.pure trivial
  | cons action rest ih =>
    refine Keeps.seq (F.operationAction _ _ _ _ _ fun code salt heq => ?_) fun _ => ?_
    · exact absurd (heq ▸ List.mem_cons_self) (h code salt)
    · exact ih _ fun code salt hrest => h code salt (List.mem_cons_of_mem _ hrest)

/-- Over a run of blocks nonces do not go down, within an operation or from
the first store to the last, and no two operations with the same sender
and nonce both have an effect. -/
theorem replay_protection {s s' : Store} {l : List Ran} (hwf : WellFormed E s)
    (h : ChainRun E X s l s') :
    NoncesKept E s s' ∧ (∀ r ∈ l, NoncesKept E r.before r.after) ∧
      l.Pairwise fun r r' => ¬ Replays r r' := by
  have hlinked := h.linked hwf
  exact ⟨hlinked.kept, fun r hr => (hlinked.before hr).2.kept, hlinked.pairwise⟩

/-- The same operation in two blocks: it has an effect once at most. -/
theorem replay_protection_removeAuth :
    ∃ l s', ChainRun concretePlatform {} (singleAccount alice (keyAccount alice 50#128)) l s' ∧
      l.map Ran.op = [removeAuth alice, removeAuth alice] ∧
      l.Pairwise fun r r' => ¬ Replays r r' := by
  have hwf : WellFormed concretePlatform (singleAccount alice (keyAccount alice 50#128)) :=
    wellFormed_singleAccount rfl
  have hdeploys : ∀ (s : Store) (height : Nat),
      ∀ r ∈ (stageBlock concretePlatform {} s [removeAuth alice] height).runs,
        r.outcome.collisions = [] := by
    intro s height r hr
    rw [List.mem_singleton.mp hr]
    change (executeOperation concretePlatform {} (OverlayStore.new s) (removeAuth alice)
      height).collisions = []
    refine executeOperation_collisions _ _ fun code salt hmem => ?_
    cases List.mem_singleton.mp hmem
  have hrun := ((ChainRun.start (singleAccount alice (keyAccount alice 50#128))).block
    [removeAuth alice] 1 (hdeploys _ _)).block [removeAuth alice] 2 (hdeploys _ _)
  exact ⟨_, _, hrun, rfl, (replay_protection hwf hrun).2.2⟩

end Block

end Solen
