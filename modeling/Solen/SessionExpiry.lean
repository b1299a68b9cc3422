import Solen.Session

/-!
# Expired session keys

The executor compares the expiry of a session key with the height in the
chain metadata of the store. An operation whose key has expired is refused
with a text that no other refusal has, and leaves the store as it was
(`executeOperation_of_expired`). One whose key has not expired ends
differently: it is refused with another text, succeeds, or fails after its
nonce has been consumed (`executeOperation_of_unexpired`).
-/

namespace Solen

open Machine Prog

variable {E : Platform} {X : BlockExecutor} {op : UserOperation}

/-- Whether the session key that signs an operation has expired, if one does. -/
def sessionExpired {σ : Type} [StateStore σ] (E : Platform) (X : BlockExecutor)
    (op : UserOperation) (s : σ) : Option Bool :=
  match loadAccount E op.sender s with
  | .ok (some a) =>
      match a.authMethods.find?
        (matchesSession E (op.signingMessage E X.chainId) op.signature) with
      | some (.session _ expiresAt _ _ _ _ _) =>
          some (decide (expiresAt.toNat < (currentHeight s).getD 0))
      | _ => none
  | _ => none

/-! ## Texts -/

theorem append_cancel {a b c : String} (h : a ++ b = a ++ c) : b = c := by
  have hchars := congrArg String.toList h
  rw [String.toList_append, String.toList_append] at hchars
  exact String.toList_inj.mp (List.append_cancel_left hchars)

/-- Texts that differ in their first `n` characters. -/
theorem append_ne {a b c : String} (n : Nat)
    (h : n ≤ a.toList.length ∧ a.toList.take n ≠ c.toList.take n) : a ++ b ≠ c := by
  intro heq
  have hchars := congrArg (fun s => s.toList.take n) heq
  rw [String.toList_append, List.take_append_of_le_length h.1] at hchars
  exact h.2 hchars

def expiredError : ExecutionError := refused "session key expired"

/-- The text of another error is another text. -/
theorem message_ne {e : StateError} (h : e ≠ .accountNotFound "session key expired") :
    (ExecutionError.state e).message ≠ expiredError.message := by
  intro heq
  have hmsg : e.message = "account not found: " ++ "session key expired" := append_cancel heq
  cases e with
  | accountNotFound what => exact h (congrArg _ (append_cancel (b := what) hmsg))
  | insufficientBalance got need =>
    refine absurd hmsg ?_
    unfold StateError.message
    simp only [String.append_assoc]
    exact append_ne 1 (by decide +kernel)
  | invalidNonce expected got =>
    refine absurd hmsg ?_
    unfold StateError.message
    simp only [String.append_assoc]
    exact append_ne 1 (by decide +kernel)
  | serialization msg => exact absurd hmsg (append_ne 1 (by decide +kernel))

theorem refused_ne {msg : String} (h : msg ≠ "session key expired") :
    (refused msg).message ≠ expiredError.message :=
  message_ne fun heq => h (StateError.accountNotFound.inj heq)

theorem sessionForbids_ne {action : Action} {msg : String} (h : sessionForbids action = some msg) :
    msg ≠ "session key expired" := by
  unfold sessionForbids at h
  (repeat' split at h) <;> cases h <;> decide +kernel

theorem outsideTargets_ne {allowed : List AccountId} {action : Action} {msg : String}
    (h : outsideTargets allowed action = some msg) : msg ≠ "session key expired" := by
  unfold outsideTargets at h
  (repeat' split at h) <;> cases h <;> decide +kernel

theorem outsideMethods_ne {allowed : List String} {action : Action} {msg : String}
    (h : outsideMethods allowed action = some msg) : msg ≠ "session key expired" := by
  unfold outsideMethods at h
  (repeat' split at h) <;> cases h
  exact append_ne 13 (by decide +kernel)

/-! ## Validation -/

section

variable {σ : Type}

theorem refuseFirst_stops {α : Type} {Q : ExecutionError → Prop} {f : α → Option String}
    {l : List α} (h : ∀ {a msg}, f a = some msg → Q (refused msg)) :
    Stops (refuseFirst f l : Prog σ ExecutionError Unit) Q := by
  unfold refuseFirst
  split
  · next msg hfind =>
      obtain ⟨_, _, _, _, hmsg, _⟩ := List.findSome?_eq_some_iff.mp hfind
      exact Stops.stop (h hmsg)
  · exact Stops.pure

variable [StateStore σ]

/-- A session key that has not expired is refused for other reasons. -/
theorem checkSession_unexpired {key : Hash} {expiresAt : U64}
    {limit budget : U128} {targets : List AccountId} {methods : List String} {restrict : Bool}
    {s : σ} (hlive : ¬ expiresAt.toNat < (currentHeight s).getD 0) {e : ExecutionError}
    (h : ((checkSession op key expiresAt limit budget targets methods restrict).run s).1 =
      .error e) : e.message ≠ expiredError.message := by
  rw [checkSession, run_reads_bind, run_bind_ok (run_stopIf_neg hlive)] at h
  refine Stops.bind (Q := fun e => e.message ≠ expiredError.message)
    (Stops.stopIf (refused_ne ?_)) (fun _ => Stops.bind Stops.reads fun _ =>
    Stops.bind (Stops.stopIf (refused_ne ?_)) fun _ => Stops.bind ?_ fun _ =>
      Stops.bind (refuseFirst_stops fun h => refused_ne (sessionForbids_ne h)) fun _ => Stops.bind ?_ fun _ =>
        Stops.pure) s e h
  · simp only [String.append_assoc]
    exact append_ne 9 (by decide +kernel)
  · simp only [String.append_assoc]
    exact append_ne 9 (by decide +kernel)
  · split
    · exact Stops.pure
    · exact refuseFirst_stops fun h => refused_ne (outsideTargets_ne h)
  · split
    · exact Stops.pure
    · exact refuseFirst_stops fun h => refused_ne (outsideMethods_ne h)

theorem consumeNonce_message {id : AccountId} {nonce : U64} {a : Account} {s : σ}
    (hload : loadAccount E id s = .ok (some a)) {e : StateError}
    (h : ((consumeNonce E id nonce).run s).1 = .error e) :
    (ExecutionError.state e).message ≠ expiredError.message := by
  rw [consumeNonce, run_bind_ok (run_requireAccount_of_some hload)] at h
  have hnonce := message_ne (e := .invalidNonce a.nonce nonce) (fun h => by cases h)
  have hlast := message_ne (e := .serialization "nonce overflow") (fun h => by cases h)
  refine Stops.bind (Q := fun e => (ExecutionError.state e).message ≠ expiredError.message)
    (Stops.stopIf hnonce) (fun _ => ?_) s e h
  split
  · exact Stops.stop hlast
  · exact Stops.modify

/-- An operation that a session key signs is checked against the session before
its nonce is consumed. -/
theorem run_validateAndPrepare_session {s : σ} {b : Bool} (height : Nat)
    (h : sessionExpired E X op s = some b) :
    ∃ a key expiresAt limit budget targets methods restrict,
      loadAccount E op.sender s = .ok (some a) ∧
      decide (expiresAt.toNat < (currentHeight s).getD 0) = b ∧
      isSystemAuthorized op = false ∧
      (validateAndPrepare E X op height).run s =
        (checkSession op key expiresAt limit budget targets methods restrict >>= fun prepared => do
          mapError .state (consumeNonce E op.sender op.nonce)
          pure prepared).run s := by
  unfold sessionExpired at h
  split at h
  swap
  · cases h
  next a hload =>
  split at h
  swap
  · cases h
  next key expiresAt limit budget targets methods restrict hfind =>
  have hsys := isSystemAuthorized_of_session hfind
  refine ⟨a, key, expiresAt, limit, budget, targets, methods, restrict, hload, Option.some.inj h,
    hsys, ?_⟩
  have hget : (mapError ExecutionError.state (getAccount E op.sender)).run s =
      (.ok (some a), s) := by
    rw [run_mapError, run_getAccount, hload]
  have hsigned : ¬ (a.authMethods.any fun m => (verifyAuth E m (op.signingMessage E X.chainId)
      op.signature (decide (X.pqAuthHeight ≤ height))).isSome) = false := by
    rw [Bool.not_eq_false, List.any_eq_true]
    refine ⟨_, List.mem_of_find?_eq_some hfind, ?_⟩
    have hmatch := List.find?_some hfind
    simp only [matchesSession, Bool.and_eq_true, decide_eq_true_eq] at hmatch
    simp only [verifyAuth, hmatch, and_self, if_true, Option.isSome_some]
  have hcheck : (checkSignature E X op height a).run s =
      (checkSession op key expiresAt limit budget targets methods restrict).run s := by
    rw [checkSignature, run_bind_ok (run_stopIf_neg hsigned), hfind]
  rw [validateAndPrepare, run_bind_ok hget]
  simp only [hsys, Bool.false_eq_true, if_false]
  rw [run_bind, run_bind, hcheck]

theorem validateAndPrepare_of_expired {s : σ} (height : Nat)
    (h : sessionExpired E X op s = some true) :
    (validateAndPrepare E X op height).run s = (.error expiredError, s) := by
  obtain ⟨a, key, expiresAt, limit, budget, targets, methods, restrict, -, hlate, -, hrun⟩ :=
    run_validateAndPrepare_session height h
  rw [hrun, run_bind_error]
  rw [checkSession, run_reads_bind, run_bind_error (run_stopIf_pos (of_decide_eq_true hlate))]
  rfl

theorem validateAndPrepare_of_unexpired {s : σ} (height : Nat)
    (h : sessionExpired E X op s = some false) {e : ExecutionError}
    (herr : ((validateAndPrepare E X op height).run s).1 = .error e) :
    e.message ≠ expiredError.message := by
  obtain ⟨a, key, expiresAt, limit, budget, targets, methods, restrict, hload, hlive, -, hrun⟩ :=
    run_validateAndPrepare_session height h
  rw [hrun, run_bind] at herr
  rcases hcheck : (checkSession op key expiresAt limit budget targets methods restrict).run s with
    ⟨e' | prepared, s'⟩
  · rw [hcheck] at herr
    cases herr
    exact checkSession_unexpired (of_decide_eq_false hlive) (congrArg Prod.fst hcheck)
  · have hsame : s' = s := (checkSession_accepted op key expiresAt limit budget targets methods
      restrict s).after rfl hcheck
    rw [hcheck, hsame] at herr
    dsimp only at herr
    rw [run_bind, run_mapError] at herr
    rcases hnonce : (consumeNonce E op.sender op.nonce).run s with ⟨e' | u, s₁⟩
    · rw [hnonce] at herr
      cases herr
      exact consumeNonce_message hload (congrArg Prod.fst hnonce)
    · rw [hnonce] at herr
      cases herr

end

/-! ## Outcomes -/

section

variable {base : Store} {o : OverlayStore base}

theorem executeOperation_of_expired (height : Nat) (hpre : precheck E op = none)
    (h : sessionExpired E X op o = some true) :
    (executeOperation E X o op height).receipt.error = some expiredError.message ∧
      (executeOperation E X o op height).store = o := by
  unfold executeOperation
  rw [hpre, validateAndPrepare_of_expired height h]
  exact ⟨rfl, rfl⟩

theorem executeOperation_of_unexpired (height : Nat) (hpre : precheck E op = none)
    (hid : ∀ a, account? E o.entries op.sender = some a → a.id = op.sender)
    (h : sessionExpired E X op o = some false)
    (herr : (executeOperation E X o op height).receipt.error = some expiredError.message) :
    (executeOperation E X o op height).store.entries ≠ o.entries := by
  obtain ⟨-, -, -, -, -, -, -, -, -, -, huser, -⟩ := run_validateAndPrepare_session height h
  rcases hval : (validateAndPrepare E X op height).run o with ⟨e | prepared, o'⟩
  · unfold executeOperation at herr
    rw [hpre, hval] at herr
    exact absurd (Option.some.inj herr)
      (validateAndPrepare_of_unexpired height h (congrArg Prod.fst hval))
  have hfail : (executeOperation E X o op height).receipt.success = false := by
    rw [executeOperation_of_validated hpre hval] at herr ⊢
    unfold executePrepared at herr ⊢
    split at herr
    · rfl
    · cases herr
  obtain ⟨a, hacct, hlast, hentries⟩ := failsAtomically_of_sender_id E X o op height hid prepared
    o' huser hpre hval hfail
  intro hsame
  rw [hsame] at hentries
  -- the record that was read and the one that was written differ in their nonce
  rw [hentries, account?, Delta.getElem?_insert, if_pos rfl] at hacct
  have hnonce := congrArg Account.nonce
    (Option.some.inj ((E.account.fromSlice_toVec _).symm.trans hacct))
  exact add_one_ne_self a.nonce hnonce

end

end Solen
