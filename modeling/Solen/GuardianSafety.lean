import Solen.ReadFrame
import Solen.Concrete

/-!
# Guardian recovery over runs of calls

A run of the recovery contract is a sequence of calls, each kept only if
it succeeds, between which the rest of the chain may do anything that
leaves the recovery requests alone. Heights are not assumed to grow.
The run keeps a history, newest entry first. Requests are named by
their position in the record: positions never move, while identifiers
come from a counter that wraps.

An executed request was confirmed by enough distinct guardians of the
list captured when it was initiated, was neither cancelled nor executed
before, and its timelock has run out. The end of the timelock is a
saturating sum, so a request initiated in the last 151200 heights of
the 64-bit range waits for a shorter time.
-/

namespace Solen

open Machine Prog

variable {target : AccountId} {args : Bytes} {guardians : List AccountId} {r : SystemCallResult}
  {height start : U64}

/-! ## Transitions of the record -/

namespace GuardianContract

variable {c c' : GuardianContract} {id : U64} {r : RecoveryRequest}

/-- The position a call with this identifier works on. -/
def position (c : GuardianContract) (id : U64) : Option Nat :=
  c.recoveryRequests.findIdx? (isPending id)

theorem findPending_eq_ok (h : c.findPending id = .ok r) :
    c.recoveryRequests.find? (isPending id) = some r ∧ r.status = .pending := by
  unfold findPending at h
  cases hfind : c.recoveryRequests.find? (isPending id) with
  | none => rw [hfind] at h; cases h
  | some r' =>
    rw [hfind] at h
    cases h
    have hp := List.find?_some hfind
    simp only [isPending, Bool.and_eq_true, beq_iff_eq] at hp
    exact ⟨rfl, hp.2⟩

/-- `c'` is `c` with the pending request `r` at position `i` replaced by `r'`. -/
structure Replaces (c c' : GuardianContract) (i : Nat) (r r' : RecoveryRequest) : Prop where
  get : c.recoveryRequests[i]? = some r
  pending : r.status = .pending
  requests : c'.recoveryRequests = c.recoveryRequests.set i r'

theorem updatePending_replaces (h : c.findPending id = .ok r)
    (f : RecoveryRequest → RecoveryRequest) :
    ∃ i, c.position id = some i ∧ Replaces c (c.updatePending id f) i r (f r) := by
  obtain ⟨hfind, hpending⟩ := findPending_eq_ok h
  obtain ⟨i, hidx, hget, hset⟩ := List.updateFirst_eq_set hfind
  exact ⟨i, hidx, hget, hpending, hset f⟩

/-- The request an initiation appends. -/
def newRequest (id : U64) (target initiator : AccountId) (newAuth : List AuthMethod)
    (guardians : List AccountId) (height : U64) : RecoveryRequest where
  id := id
  targetAccount := target
  newAuthMethods := newAuth
  initiatedAt := height
  executeAfter := satAdd height recoveryTimelockBlocks
  confirmations := [initiator]
  guardianIds := guardians
  threshold := thresholdFor guardians
  status := .pending

theorem initiateRecovery_eq_ok {initiator : AccountId} {newAuth : List AuthMethod}
    (h : c.initiateRecovery target initiator newAuth guardians height = .ok (c', id)) :
    initiator ∈ guardians ∧
      (∀ r ∈ c.recoveryRequests, r.targetAccount = target → r.status ≠ .pending) ∧
      c'.recoveryRequests = c.recoveryRequests ++
        [newRequest id target initiator newAuth guardians height] := by
  unfold initiateRecovery at h
  split at h
  · cases h
  · split at h
    · cases h
    · next hmem =>
        split at h
        · cases h
        · next hnone =>
            split at h
            · cases h
            · cases h
              refine ⟨not_not.mp hmem, fun r hr htarget hstatus => hnone ?_, rfl⟩
              exact List.any_eq_true.mpr ⟨r, hr, by simp [htarget, hstatus]⟩

theorem confirmRecovery_eq_ok {confirmer : AccountId}
    (h : c.confirmRecovery id confirmer = .ok c') :
    ∃ i r, c.position id = some i ∧ confirmer ∈ r.guardianIds ∧ confirmer ∉ r.confirmations ∧
      Replaces c c' i r { r with confirmations := r.confirmations ++ [confirmer] } := by
  unfold confirmRecovery at h
  cases hfind : c.findPending id with
  | error e => rw [hfind] at h; cases h
  | ok r =>
    rw [hfind] at h
    simp only [bind, Except.bind] at h
    split at h
    · cases h
    · next hmem =>
        split at h
        · cases h
        · next hnew =>
            cases h
            obtain ⟨i, hpos, hrep⟩ := updatePending_replaces hfind
              fun r => { r with confirmations := r.confirmations ++ [confirmer] }
            exact ⟨i, r, hpos, not_not.mp hmem, hnew, hrep⟩

theorem cancelRecovery_eq_ok {sender : AccountId} (h : c.cancelRecovery id sender = .ok c') :
    ∃ i r, c.position id = some i ∧ Replaces c c' i r { r with status := .cancelled } := by
  unfold cancelRecovery at h
  cases hfind : c.findPending id with
  | error e => rw [hfind] at h; cases h
  | ok r =>
    rw [hfind] at h
    simp only [bind, Except.bind] at h
    split at h
    · cases h
    · cases h
      obtain ⟨i, hpos, hrep⟩ := updatePending_replaces hfind
        fun r => { r with status := .cancelled }
      exact ⟨i, r, hpos, hrep⟩

theorem canExecute_eq_ok :
    c.canExecute id height = .ok r ↔ c.findPending id = .ok r ∧ r.executeAfter ≤ height ∧
      r.threshold ≤ r.confirmations.length := by
  unfold canExecute
  cases hfind : c.findPending id with
  | error e =>
    constructor
    · intro h
      cases h
    · rintro ⟨h, -, -⟩
      cases h
  | ok r' =>
    simp only [bind, Except.bind]
    constructor
    · intro h
      split at h
      · cases h
      · next hheight =>
          split at h
          · cases h
          · next hcount =>
              cases h
              exact ⟨rfl, BitVec.not_lt.mp hheight, Nat.le_of_not_lt hcount⟩
    · rintro ⟨h, hheight, hcount⟩
      cases h
      rw [if_neg (BitVec.not_lt.mpr hheight), if_neg (Nat.not_lt.mpr hcount)]

theorem markExecuted_eq_ok {r' : RecoveryRequest} (hfind : c.findPending id = .ok r)
    (h : c.markExecuted id = .ok (c', r')) :
    r' = { r with status := .executed } ∧
      ∃ i, c.position id = some i ∧ Replaces c c' i r { r with status := .executed } := by
  unfold markExecuted at h
  rw [hfind] at h
  cases h
  exact ⟨rfl, updatePending_replaces hfind fun r => { r with status := .executed }⟩

end GuardianContract

/-! ## What a call can do -/

/-- An entry of the history. -/
inductive RecoveryEvent where
  | initiated (request : Nat) (target initiator : AccountId) (guardians : List AccountId)
      (height : U64)
  | confirmed (request : Nat) (guardian : AccountId)
  | cancelled (request : Nat)
  | executed (request : Nat) (target : AccountId) (height : U64)
deriving DecidableEq

/-- The request an entry is about. -/
def RecoveryEvent.request : RecoveryEvent → Nat
  | initiated i _ _ _ _ => i
  | confirmed i _ => i
  | cancelled i => i
  | executed i _ _ => i

open GuardianContract in
/-- The changes of the record, each with the entry it adds to the history. -/
inductive RecoveryMove (c : GuardianContract) (height : U64) :
    GuardianContract → RecoveryEvent → Prop
  | initiate {c' : GuardianContract} {id : U64} {target initiator : AccountId}
      {newAuth : List AuthMethod} {guardians : List AccountId}
      (h : c.initiateRecovery target initiator newAuth guardians height = .ok (c', id)) :
      RecoveryMove c height c'
        (.initiated c.recoveryRequests.length target initiator guardians height)
  | confirm {c' : GuardianContract} {i : Nat} {r : RecoveryRequest} {confirmer : AccountId}
      (guardian : confirmer ∈ r.guardianIds) (fresh : confirmer ∉ r.confirmations)
      (h : Replaces c c' i r { r with confirmations := r.confirmations ++ [confirmer] }) :
      RecoveryMove c height c' (.confirmed i confirmer)
  | cancel {c' : GuardianContract} {i : Nat} {r : RecoveryRequest}
      (h : Replaces c c' i r { r with status := .cancelled }) :
      RecoveryMove c height c' (.cancelled i)
  | execute {c' : GuardianContract} {i : Nat} {r : RecoveryRequest}
      (timelock : r.executeAfter ≤ height) (enough : r.threshold ≤ r.confirmations.length)
      (h : Replaces c c' i r { r with status := .executed }) :
      RecoveryMove c height c' (.executed i r.targetAccount height)

section

variable {σ : Type} [StateStore σ] {E : Platform} {s s' : σ} {sender : AccountId}
  {args : Bytes}

/-- The position the first argument of a call points to. -/
def requestPosition (E : Platform) (s : σ) (args : Bytes) : Option Nat :=
  (readU64 args 0).bind (loadGuardian E s).position

/-- The entry that a successful call adds to the history. -/
def recoveryEvent (E : Platform) (s : σ) (sender : AccountId) (method : String) (args : Bytes) :
    Option RecoveryEvent :=
  let requests := (loadGuardian E s).recoveryRequests
  match method with
  | "initiate_recovery" =>
      (readAccountId args 0).bind fun target =>
        match loadAccount E target s with
        | .ok (some acct) =>
            some (.initiated requests.length target sender (guardiansOf acct) (readMetaHeight s))
        | _ => none
  | "confirm_recovery" => (requestPosition E s args).map (.confirmed · sender)
  | "cancel_recovery" => (requestPosition E s args).map .cancelled
  | "execute_recovery" =>
      (requestPosition E s args).bind fun i =>
        requests[i]?.map fun r => .executed i r.targetAccount (readMetaHeight s)
  | _ => none

/-- A call that moves from `s` to `s'` and leaves an entry. -/
def CallMoves (E : Platform) (s s' : σ) (sender : AccountId) (method : String) (args : Bytes) :
    Prop :=
  ∃ e, recoveryEvent E s sender method args = some e ∧
    RecoveryMove (loadGuardian E s) (readMetaHeight s) (loadGuardian E s') e

theorem loadGuardian_saveGuardian (c : GuardianContract) (s : σ) :
    loadGuardian E (saveRecord E.guardian GuardianContract.storageKey c s) = c :=
  loadRecord_saveRecord _ _ _ _ _

theorem guardianInitiate_eq_ok {o : CallOutcome GuardianContract}
    (h : (guardianInitiate E sender args).run s = (.ok o, s')) (hok : o.result = .ok ()) :
    ∃ target acct newAuth id, readAccountId args 0 = some target ∧
      loadAccount E target s = .ok (some acct) ∧
      (loadGuardian E s).initiateRecovery target sender newAuth (guardiansOf acct)
        (readMetaHeight s) = .ok (o.record, id) := by
  rw [guardianInitiate, run_reads_bind, run_reads_bind] at h
  obtain ⟨target, s₁, hread, h⟩ := run_bind_eq_ok.mp h
  obtain ⟨htarget, rfl⟩ := orErr_eq_ok hread
  split at h
  · cases h
  · next newAuth _ =>
      rw [run_bind_ok (run_attempt _ s₁), run_getAccount] at h
      split at h
      · next acct hload =>
          obtain ⟨⟨⟩, s₂, hguard, h⟩ := run_bind_eq_ok.mp h
          obtain ⟨-, rfl⟩ := run_stopIf_eq_ok hguard
          split at h
          · next hinit =>
              cases h
              exact ⟨target, acct, newAuth, _, htarget, hload, hinit⟩
          · cases h
            cases hok
      · cases h

/-- The calls that take the identifier of a request and save what a
transition of the record leaves. -/
theorem saved_eq_ok {o : CallOutcome GuardianContract}
    (h : (finishGuardian E o).run s = (.ok r, s')) (hok : r.error = none) :
    o.result = .ok () ∧ loadGuardian E s' = o.record := by
  cases h
  exact ⟨CallOutcome.result_of_toResult hok, loadGuardian_saveGuardian _ _⟩

theorem initiate_moves
    (h : (executeGuardianCall E sender "initiate_recovery" args).run s = (.ok r, s'))
    (hok : r.error = none) : CallMoves E s s' sender "initiate_recovery" args := by
  obtain ⟨o, s₁, hinit, hsave⟩ := run_bind_eq_ok.mp h
  obtain ⟨hres, hrec⟩ := saved_eq_ok hsave hok
  obtain ⟨target, acct, newAuth, id, htarget, hload, hc⟩ := guardianInitiate_eq_ok hinit hres
  refine ⟨_, ?_, .initiate (hrec ▸ hc)⟩
  simp only [recoveryEvent, htarget, Option.bind_some, hload]

theorem confirm_moves
    (h : (executeGuardianCall E sender "confirm_recovery" args).run s = (.ok r, s'))
    (hok : r.error = none) : CallMoves E s s' sender "confirm_recovery" args := by
  obtain ⟨o, s₁, hconf, hsave⟩ := run_bind_eq_ok.mp h
  obtain ⟨hres, hrec⟩ := saved_eq_ok hsave hok
  rw [guardianConfirm, run_reads_bind] at hconf
  obtain ⟨id, s₂, hread, hconf⟩ := run_bind_eq_ok.mp hconf
  obtain ⟨hid, rfl⟩ := orErr_eq_ok hread
  split at hconf
  · next c' hc =>
      cases hconf
      change loadGuardian E s' = c' at hrec
      obtain ⟨i, req, hpos, hguardian, hfresh, hrep⟩ := GuardianContract.confirmRecovery_eq_ok hc
      refine ⟨_, ?_, .confirm hguardian hfresh (hrec ▸ hrep)⟩
      simp only [recoveryEvent, requestPosition, hid, Option.bind_some, hpos, Option.map_some]
  · cases hconf
    cases hres

theorem cancel_moves
    (h : (executeGuardianCall E sender "cancel_recovery" args).run s = (.ok r, s'))
    (hok : r.error = none) : CallMoves E s s' sender "cancel_recovery" args := by
  obtain ⟨o, s₁, hcancel, hsave⟩ := run_bind_eq_ok.mp h
  obtain ⟨hres, hrec⟩ := saved_eq_ok hsave hok
  rw [guardianCancel, run_reads_bind] at hcancel
  obtain ⟨id, s₂, hread, hcancel⟩ := run_bind_eq_ok.mp hcancel
  obtain ⟨hid, rfl⟩ := orErr_eq_ok hread
  split at hcancel
  · next c' hc =>
      cases hcancel
      change loadGuardian E s' = c' at hrec
      obtain ⟨i, req, hpos, hrep⟩ := GuardianContract.cancelRecovery_eq_ok hc
      refine ⟨_, ?_, .cancel (hrec ▸ hrep)⟩
      simp only [recoveryEvent, requestPosition, hid, Option.bind_some, hpos, Option.map_some]
  · cases hcancel
    cases hres

omit [StateStore σ] in
theorem ofExcept_eq_ok {ε α : Type} {x : Except ε α} {a : α}
    (h : (ofExcept x : Prog σ ε α).run s = (.ok a, s')) : x = .ok a ∧ s' = s := by
  cases x with
  | error e => cases h
  | ok b => cases h; exact ⟨rfl, rfl⟩

theorem loadGuardian_sameElsewhere (h : SameElsewhere s s') :
    loadGuardian E s' = loadGuardian E s :=
  h.loadRecord E.guardian (by decide) {}

theorem replaceAuth_sameElsewhere {s₀ : σ} (target : AccountId) (newAuth : List AuthMethod) :
    Keeps (SameElsewhere s₀) (replaceAuth E target newAuth) fun _ => True := by
  refine Keeps.seq (getAccount_keeps target).attempt.triv fun r => ?_
  split
  · exact saveAccount_sameElsewhere _
  · exact Keeps.stop

theorem execute_moves
    (h : (executeGuardianCall E sender "execute_recovery" args).run s = (.ok r, s')) :
    CallMoves E s s' sender "execute_recovery" args := by
  change (guardianExecute E args).run s = _ at h
  rw [guardianExecute, run_reads_bind, run_reads_bind] at h
  obtain ⟨id, s₁, hread, h₁⟩ := run_bind_eq_ok.mp h
  obtain ⟨hid, rfl⟩ := orErr_eq_ok hread
  obtain ⟨req, s₂, hcheck, h₂⟩ := run_bind_eq_ok.mp h₁
  obtain ⟨hcan, rfl⟩ := ofExcept_eq_ok (run_mapError_eq_ok.mp hcheck)
  obtain ⟨⟨c', req'⟩, s₃, hfinish, h₃⟩ := run_bind_eq_ok.mp h₂
  obtain ⟨hmark, rfl⟩ := ofExcept_eq_ok (run_mapError_eq_ok.mp hfinish)
  obtain ⟨hfind, htimelock, henough⟩ := GuardianContract.canExecute_eq_ok.mp hcan
  obtain ⟨-, i, hpos, hrep⟩ := GuardianContract.markExecuted_eq_ok hfind hmark
  obtain ⟨⟨⟩, s₄, hsave, h₄⟩ := run_bind_eq_ok.mp h₃
  cases hsave
  obtain ⟨⟨⟩, s₅, hreplace, h₅⟩ := run_bind_eq_ok.mp h₄
  cases h₅
  have hsame : SameElsewhere _ s' :=
    (replaceAuth_sameElsewhere _ _).after (fun _ _ => rfl) hreplace
  have hrec : loadGuardian E s' = c' :=
    (loadGuardian_sameElsewhere hsame).trans (loadGuardian_saveGuardian _ _)
  refine ⟨_, ?_, .execute htimelock henough (hrec ▸ hrep)⟩
  simp only [recoveryEvent, requestPosition, hid, Option.bind_some, hpos, hrep.get,
    Option.map_some]

/-- A successful call is one of the four moves. -/
theorem executeSystemCall_moves {method : String}
    (h : executeSystemCall E s sender System.guardianAddress method args = (r, s'))
    (hok : r.error = none) : CallMoves E s s' sender method args := by
  have hrun : (executeGuardianCall E sender method args).run s = (.ok r, s') :=
    run_of_executeSystemCall h hok
  by_cases hinit : method = "initiate_recovery"
  · subst hinit
    exact initiate_moves hrun hok
  by_cases hconf : method = "confirm_recovery"
  · subst hconf
    exact confirm_moves hrun hok
  by_cases hcancel : method = "cancel_recovery"
  · subst hcancel
    exact cancel_moves hrun hok
  by_cases hexec : method = "execute_recovery"
  · subst hexec
    exact execute_moves hrun
  · unfold executeGuardianCall at hrun
    split at hrun
    · exact absurd rfl hinit
    · exact absurd rfl hconf
    · exact absurd rfl hcancel
    · exact absurd rfl hexec
    · rw [run_reads_bind] at hrun
      cases hrun
      cases hok

end

/-! ## The history accounts for the record -/

/-- The only initiation of request `i`. -/
def InitiatedOnce (history : List RecoveryEvent) (i : Nat) (target initiator : AccountId)
    (guardians : List AccountId) (start : U64) : Prop :=
  ∀ t a g h, .initiated i t a g h ∈ history ↔
    t = target ∧ a = initiator ∧ g = guardians ∧ h = start

/-- `confirmers` are distinct guardians who confirmed request `i`; the
initiator confirms by initiating. -/
structure ConfirmedBy (history : List RecoveryEvent) (i : Nat) (initiator : AccountId)
    (guardians confirmers : List AccountId) : Prop where
  distinct : confirmers.Nodup
  guardian : ∀ a ∈ confirmers, a ∈ guardians
  confirmed : ∀ a ∈ confirmers, a = initiator ∨ .confirmed i a ∈ history

/-- Request `i` was neither cancelled nor executed. -/
structure Open (history : List RecoveryEvent) (i : Nat) : Prop where
  notCancelled : .cancelled i ∉ history
  notExecuted : ∀ t h, .executed i t h ∉ history

/-- What the history says about the request at position `i`. -/
structure Recorded (history : List RecoveryEvent) (i : Nat) (initiator : AccountId)
    (r : RecoveryRequest) : Prop where
  initiated : InitiatedOnce history i r.targetAccount initiator r.guardianIds r.initiatedAt
  confirmed : ConfirmedBy history i initiator r.guardianIds r.confirmations
  threshold : r.threshold = GuardianContract.thresholdFor r.guardianIds
  timelock : r.executeAfter = satAdd r.initiatedAt recoveryTimelockBlocks
  pending : r.status = .pending → Open history i

/-- What has happened before request `i` of `target` is executed at `height`,
where `due` says when a request initiated at a height may be executed. -/
structure Justified (due : U64 → Nat) (earlier : List RecoveryEvent) (i : Nat)
    (target : AccountId) (height : U64) (initiator : AccountId)
    (guardians confirmers : List AccountId) (start : U64) : Prop where
  initiated : InitiatedOnce earlier i target initiator guardians start
  confirmed : ConfirmedBy earlier i initiator guardians confirmers
  enough : GuardianContract.thresholdFor guardians ≤ confirmers.length
  elapsed : due start ≤ height.toNat
  pending : Open earlier i

/-- Every execution in the history is justified by what came before it. -/
def ExecutionsJustified (due : U64 → Nat) (history : List RecoveryEvent) : Prop :=
  ∀ i target height earlier, (.executed i target height :: earlier) <:+ history →
    ∃ initiator guardians confirmers start,
      Justified due earlier i target height initiator guardians confirmers start

/-- The height after which a request may be executed, as the contract has it. -/
def dueSaturating (start : U64) : Nat := min (start.toNat + 151200) (2 ^ 64 - 1)

theorem toNat_satAdd_timelock (start : U64) :
    (satAdd start recoveryTimelockBlocks).toNat = dueSaturating start :=
  toNat_satAdd start recoveryTimelockBlocks

/-- At most one request per account is pending. -/
def SinglePending (c : GuardianContract) : Prop :=
  ∀ (i j : Nat) (r r' : RecoveryRequest), c.recoveryRequests[i]? = some r →
    c.recoveryRequests[j]? = some r' → r.status = .pending → r'.status = .pending →
    r.targetAccount = r'.targetAccount → i = j

structure Consistent (c : GuardianContract) (history : List RecoveryEvent) : Prop where
  recorded : ∀ i r, c.recoveryRequests[i]? = some r → ∃ initiator, Recorded history i initiator r
  known : ∀ e ∈ history, e.request < c.recoveryRequests.length
  single : SinglePending c
  executions : ExecutionsJustified dueSaturating history

section

variable {c c' : GuardianContract} {history : List RecoveryEvent} {e : RecoveryEvent} {i : Nat}
  {r r' : RecoveryRequest} {initiator : AccountId}

/-- An entry about another request changes nothing. -/
theorem Recorded.other (h : Recorded history i initiator r) (hne : e.request ≠ i) :
    Recorded (e :: history) i initiator r where
  initiated t a g k := by
    rw [List.mem_cons, or_iff_right, h.initiated]
    rintro rfl
    exact hne rfl
  confirmed :=
    ⟨h.confirmed.distinct, h.confirmed.guardian, fun a ha =>
      (h.confirmed.confirmed a ha).imp_right (List.mem_cons_of_mem _)⟩
  threshold := h.threshold
  timelock := h.timelock
  pending hp := by
    refine ⟨fun hmem => ?_, fun t k hmem => ?_⟩
    · rcases List.mem_cons.mp hmem with rfl | hmem
      · exact hne rfl
      · exact (h.pending hp).notCancelled hmem
    · rcases List.mem_cons.mp hmem with rfl | hmem
      · exact hne rfl
      · exact (h.pending hp).notExecuted t k hmem

theorem ExecutionsJustified.cons {due : U64 → Nat} (h : ExecutionsJustified due history)
    (he : ∀ i target height, e = .executed i target height →
      ∃ initiator guardians confirmers start,
        Justified due history i target height initiator guardians confirmers start) :
    ExecutionsJustified due (e :: history) := by
  intro i target height earlier hsuffix
  rcases List.suffix_cons_iff.mp hsuffix with heq | hsuffix
  · obtain ⟨rfl, rfl⟩ := List.cons.inj heq
    exact he i target height rfl
  · exact h i target height earlier hsuffix

theorem Consistent.initiate {id : U64} {newAuth : List AuthMethod} (hc : Consistent c history)
    (h : c.initiateRecovery target initiator newAuth guardians height = .ok (c', id)) :
    Consistent c' (.initiated c.recoveryRequests.length target initiator guardians height ::
      history) := by
  obtain ⟨hmem, hnone, hreq⟩ := GuardianContract.initiateRecovery_eq_ok h
  have hget : ∀ j r, c'.recoveryRequests[j]? = some r →
      c.recoveryRequests[j]? = some r ∨ j = c.recoveryRequests.length ∧
        r = GuardianContract.newRequest id target initiator newAuth guardians height := by
    intro j r hj
    rw [hreq] at hj
    rcases Nat.lt_trichotomy j c.recoveryRequests.length with hlt | rfl | hgt
    · rw [List.getElem?_append_left hlt] at hj
      exact .inl hj
    · rw [List.getElem?_concat_length] at hj
      exact .inr ⟨rfl, (Option.some.inj hj).symm⟩
    · rw [List.getElem?_eq_none (by simp; omega)] at hj
      cases hj
  -- no entry speaks of the new position yet
  have hfresh : ∀ e ∈ history, e.request ≠ c.recoveryRequests.length :=
    fun e he => (hc.known e he).ne
  refine ⟨fun j r hj => ?_, fun e he => ?_, ?_, hc.executions.cons nofun⟩
  · rcases hget j r hj with hj | ⟨rfl, rfl⟩
    · obtain ⟨a, ha⟩ := hc.recorded j r hj
      refine ⟨a, ha.other ?_⟩
      exact (List.getElem?_eq_some_iff.mp hj).1.ne'
    · refine ⟨initiator, ⟨fun t a g k => ?_, ⟨List.nodup_singleton _, ?_, ?_⟩, rfl,
        by simp only [GuardianContract.newRequest], fun _ => ⟨?_, ?_⟩⟩⟩
      · rw [List.mem_cons, or_iff_left fun hm => hfresh _ hm rfl]
        simp [GuardianContract.newRequest]
      · simpa [GuardianContract.newRequest] using hmem
      · simp [GuardianContract.newRequest]
      · simpa using fun hm => hfresh _ hm rfl
      · simpa using fun t k hm => hfresh _ hm rfl
  · have hlen : c'.recoveryRequests.length = c.recoveryRequests.length + 1 := by simp [hreq]
    rcases List.mem_cons.mp he with rfl | he
    · rw [hlen]
      exact Nat.lt_succ_self _
    · rw [hlen]
      exact Nat.lt_succ_of_lt (hc.known e he)
  · intro j k r r' hj hk hp hp' htarget
    rcases hget j r hj with hj | ⟨rfl, rfl⟩ <;> rcases hget k r' hk with hk | ⟨rfl, rfl⟩
    · exact hc.single j k r r' hj hk hp hp' htarget
    · exact absurd hp (hnone r (List.mem_of_getElem? hj) htarget)
    · exact absurd hp' (hnone r' (List.mem_of_getElem? hk) htarget.symm)
    · rfl

/-- A pending request changes and an entry says so. -/
theorem Consistent.replace (hc : Consistent c history)
    (h : GuardianContract.Replaces c c' i r r') (he : e.request = i)
    (htarget : r'.targetAccount = r.targetAccount)
    (hrec : ∀ a, Recorded history i a r → Recorded (e :: history) i a r')
    (hexec : ∀ k target height, e = .executed k target height →
      ∃ initiator guardians confirmers start,
        Justified dueSaturating history k target height initiator guardians confirmers start) :
    Consistent c' (e :: history) := by
  have hi : i < c.recoveryRequests.length := (List.getElem?_eq_some_iff.mp h.get).1
  have hget : ∀ j q, c'.recoveryRequests[j]? = some q →
      j = i ∧ q = r' ∨ j ≠ i ∧ c.recoveryRequests[j]? = some q := by
    intro j q hj
    rw [h.requests] at hj
    by_cases hij : j = i
    · subst hij
      rw [List.getElem?_set_self hi] at hj
      exact .inl ⟨rfl, (Option.some.inj hj).symm⟩
    · rw [List.getElem?_set_ne (Ne.symm hij)] at hj
      exact .inr ⟨hij, hj⟩
  -- as far as targets go, the pending requests are those of before
  have hbefore : ∀ (j : Nat) (q : RecoveryRequest), c'.recoveryRequests[j]? = some q →
      q.status = .pending → ∃ q' : RecoveryRequest, c.recoveryRequests[j]? = some q' ∧ q'.status = .pending ∧
        q'.targetAccount = q.targetAccount := by
    intro j q hj hq
    rcases hget j q hj with ⟨rfl, rfl⟩ | ⟨-, hj⟩
    · exact ⟨r, h.get, h.pending, htarget.symm⟩
    · exact ⟨q, hj, hq, rfl⟩
  refine ⟨fun j q hj => ?_, fun e' he' => ?_, ?_, hc.executions.cons hexec⟩
  · rcases hget j q hj with ⟨rfl, rfl⟩ | ⟨hne, hj⟩
    · obtain ⟨a, ha⟩ := hc.recorded j r h.get
      exact ⟨a, hrec a ha⟩
    · obtain ⟨a, ha⟩ := hc.recorded j q hj
      exact ⟨a, ha.other (he ▸ hne.symm)⟩
  · rw [h.requests, List.length_set]
    rcases List.mem_cons.mp he' with rfl | he'
    · exact he ▸ hi
    · exact hc.known e' he'
  · intro j k q q' hj hk hp hp' heq
    obtain ⟨p, hpj, hpp, hpt⟩ := hbefore j q hj hp
    obtain ⟨p', hpk, hpp', hpt'⟩ := hbefore k q' hk hp'
    exact hc.single j k p p' hpj hpk hpp hpp' (hpt.trans (heq.trans hpt'.symm))

/-- An entry that is not an initiation leaves the initiations as they are. -/
theorem InitiatedOnce.cons
    (h : InitiatedOnce history i target initiator guardians start)
    (he : ∀ j t a g k, e ≠ .initiated j t a g k) :
    InitiatedOnce (e :: history) i target initiator guardians start := by
  intro t a g k
  rw [List.mem_cons, or_iff_right fun heq => he _ _ _ _ _ heq.symm]
  exact h t a g k

theorem ConfirmedBy.mono {history' : List RecoveryEvent} {confirmers : List AccountId}
    (h : ConfirmedBy history i initiator guardians confirmers) (hsub : history ⊆ history') :
    ConfirmedBy history' i initiator guardians confirmers :=
  ⟨h.distinct, h.guardian, fun a ha => (h.confirmed a ha).imp_right fun hm => hsub hm⟩

/-- Every move keeps the history in step with the record. -/
theorem Consistent.move (hc : Consistent c history)
    (h : RecoveryMove c height c' e) : Consistent c' (e :: history) := by
  cases h with
  | initiate h => exact hc.initiate h
  | @confirm i r confirmer hguardian hfresh hrep =>
    refine hc.replace hrep rfl rfl (fun a ha => ?_) nofun
    refine ⟨ha.initiated.cons nofun, ⟨?_, ?_, ?_⟩, ha.threshold, ha.timelock, fun hp => ?_⟩
    · exact List.nodup_append.mpr ⟨ha.confirmed.distinct, List.nodup_singleton _, by
        rintro x hx y hy rfl
        exact hfresh (List.mem_singleton.mp hy ▸ hx)⟩
    · intro x hx
      rcases List.mem_append.mp hx with hx | hx
      · exact ha.confirmed.guardian x hx
      · exact List.mem_singleton.mp hx ▸ hguardian
    · intro x hx
      rcases List.mem_append.mp hx with hx | hx
      · exact (ha.confirmed.confirmed x hx).imp_right (List.mem_cons_of_mem _)
      · exact .inr (List.mem_singleton.mp hx ▸ List.mem_cons_self)
    · have hopen := ha.pending hp
      exact ⟨by simpa using hopen.notCancelled, by simpa using hopen.notExecuted⟩
  | cancel hrep =>
    refine hc.replace hrep rfl rfl (fun a ha => ?_) nofun
    exact ⟨ha.initiated.cons nofun, ha.confirmed.mono (List.subset_cons_self _ _),
      ha.threshold, ha.timelock, nofun⟩
  | @execute i r htimelock henough hrep =>
    refine hc.replace hrep rfl rfl (fun a ha => ?_) fun k target k' heq => ?_
    · exact ⟨ha.initiated.cons nofun, ha.confirmed.mono (List.subset_cons_self _ _),
        ha.threshold, ha.timelock, nofun⟩
    · cases heq
      obtain ⟨a, ha⟩ := hc.recorded i r hrep.get
      refine ⟨a, r.guardianIds, r.confirmations, r.initiatedAt, ha.initiated, ha.confirmed,
        ha.threshold ▸ henough, ?_, ha.pending hrep.pending⟩
      rw [← toNat_satAdd_timelock, ← ha.timelock]
      exact htimelock

end

/-! ## Runs -/

section

variable {σ : Type} [StateStore σ]

/-- A store, and the history of the calls that succeeded, newest first. -/
structure GuardianRun (σ : Type) where
  store : σ
  history : List RecoveryEvent

/-- A call through the executor, which undoes a call that fails. -/
def GuardianRun.call (E : Platform) (s : GuardianRun σ) (sender : AccountId) (method : String)
    (args : Bytes) : GuardianRun σ :=
  let r := executeSystemCall E s.store sender System.guardianAddress method args
  if r.1.error = none then
    ⟨r.2, (recoveryEvent E s.store sender method args).toList ++ s.history⟩
  else s

/-- The steps of a run: a call by anyone, or anything else that leaves the
record alone. -/
inductive GuardianStep (E : Platform) : GuardianRun σ → GuardianRun σ → Prop
  | call {s : GuardianRun σ} (sender : AccountId) (method : String) (args : Bytes) :
      GuardianStep E s (s.call E sender method args)
  | between {s : GuardianRun σ} (store : σ)
      (record : loadGuardian E store = loadGuardian E s.store) :
      GuardianStep E s ⟨store, s.history⟩

theorem Consistent.step {E : Platform} {s s' : GuardianRun σ}
    (hs : Consistent (loadGuardian E s.store) s.history) (h : GuardianStep E s s') :
    Consistent (loadGuardian E s'.store) s'.history := by
  cases h with
  | call sender method args =>
    unfold GuardianRun.call
    rcases hcall : executeSystemCall E s.store sender System.guardianAddress method args with
      ⟨r, store⟩
    dsimp only
    split
    · next hok =>
        obtain ⟨e, he, hmove⟩ := executeSystemCall_moves hcall hok
        simp only [he, Option.toList_some, List.singleton_append]
        exact hs.move hmove
    · exact hs
  | between store record =>
    rw [record]
    exact hs

theorem consistent_empty : Consistent {} [] where
  recorded := by simp
  known := by simp
  single := by simp [SinglePending]
  executions := by simp [ExecutionsJustified]

end

/-! ## A recovery by a single guardian -/

/-- Reads the replacement of an account's keys as one fixed key. -/
def recoveryPlatform : Platform :=
  { concretePlatform with authMethodsFromJson := fun _ => .ok [.ed25519 bob] }

/-- An account with one guardian, at height `height`. -/
def guardedStore (height : U64) : Store :=
  StateStore.put (putAccount recoveryPlatform
    { emptyAccount alice with authMethods := [.guardian bob] } (∅ : Store)) chainMetaKey
    (le64 height)

/-- The guardian initiates at `start` and executes at `height`. -/
def recoveryRun (start height : U64) : GuardianRun Store :=
  let initiated := GuardianRun.call recoveryPlatform ⟨guardedStore start, []⟩ bob
    "initiate_recovery" alice.bytes
  GuardianRun.call recoveryPlatform
    { initiated with store := StateStore.put initiated.store chainMetaKey (le64 height) } bob
    "execute_recovery" (le64 0#64)

theorem run_recoveryRun (start height : U64) :
    Relation.ReflTransGen (GuardianStep recoveryPlatform) ⟨guardedStore start, []⟩
      (recoveryRun start height) :=
  .tail (.tail (.single (.call _ _ _)) (.between _ (loadRecord_put_of_ne _ _ _ _ (by decide))))
    (.call _ _ _)

/-! ## Safety -/

/-- In every run from a store without recovery requests, every execution of a
recovery was confirmed by a threshold of distinct guardians of the list
captured at its initiation, waited for the timelock (cut off at the last
height), was neither cancelled nor executed before, and no account ever has
two pending requests. -/
theorem recovery_safe {σ : Type} [StateStore σ] {E : Platform} {s₀ s : GuardianRun σ}
    (h₀ : loadGuardian E s₀.store = {} ∧ s₀.history = [])
    (h : Relation.ReflTransGen (GuardianStep E) s₀ s) :
    ExecutionsJustified dueSaturating s.history ∧ SinglePending (loadGuardian E s.store) := by
  have hcons : Consistent (loadGuardian E s.store) s.history := by
    induction h with
    | refl =>
        rw [h₀.1, h₀.2]
        exact consistent_empty
    | tail _ hstep ih => exact ih.step hstep
  exact ⟨hcons.executions, hcons.single⟩

/-- A guardian who initiates at height 0 can execute at height 151200. -/
theorem recovery_safe_guarded :
    ∃ s : GuardianRun Store,
      s.history = [.executed 0 alice 151200#64, .initiated 0 alice bob [bob] 0#64] ∧
      ExecutionsJustified dueSaturating s.history ∧
      SinglePending (loadGuardian recoveryPlatform s.store) := by
  refine ⟨recoveryRun 0#64 151200#64, by decide +kernel, ?_⟩
  exact recovery_safe ⟨by decide +kernel, rfl⟩ (run_recoveryRun 0#64 151200#64)

/-- At the last height a request can be executed in the block that initiated
it. -/
theorem not_elapsed_lastHeight :
    ∃ s, Relation.ReflTransGen (GuardianStep recoveryPlatform)
        ⟨guardedStore (BitVec.allOnes 64), []⟩ s ∧
      loadGuardian recoveryPlatform (guardedStore (BitVec.allOnes 64)) = {} ∧
      s.history = [.executed 0 alice (BitVec.allOnes 64),
        .initiated 0 alice bob [bob] (BitVec.allOnes 64)] ∧
      ¬ ExecutionsJustified (fun start => start.toNat + 151200) s.history := by
  have hhist : (recoveryRun (BitVec.allOnes 64) (BitVec.allOnes 64)).history =
      [.executed 0 alice (BitVec.allOnes 64),
        .initiated 0 alice bob [bob] (BitVec.allOnes 64)] := by decide +kernel
  refine ⟨_, run_recoveryRun _ _, by decide +kernel, hhist, fun h => ?_⟩
  obtain ⟨initiator, guardians, confirmers, start, hjust⟩ :=
    h 0 alice (BitVec.allOnes 64) [.initiated 0 alice bob [bob] (BitVec.allOnes 64)]
      (hhist ▸ List.suffix_refl _)
  obtain ⟨-, -, -, rfl⟩ := (hjust.initiated _ _ _ _).mp (List.mem_singleton_self _)
  exact absurd hjust.elapsed (by decide)

end Solen
