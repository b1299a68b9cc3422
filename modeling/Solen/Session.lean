import Solen.BalanceFloor
import Solen.Amounts
import Solen.Atomicity

/-!
# The budget of a session key

A session key may carry a total budget. The executor counts what each
accepted operation spends and refuses an operation that would take the
count above the budget. The count is read off the actions by
`actionSpend`; what the actions really take from the owner is
`actionDebit`. The budget bounds the second only where the first does,
and this file proves that it is then kept over any sequence of
operations (`fallen_le_budget`), whatever happens in between.
-/

namespace Solen

open Machine Prog

variable {a : Account} {args : Bytes} {sessionKey : Hash} {targets : List AccountId}
  {methods : List String} {height : Nat} {prepared : PreparedOp} {base m : Store}
  {amount budgetTotal : U128} {op : UserOperation}

/-! ## Acceptance of a session key -/

section

variable {σ : Type} [StateStore σ] {E : Platform} {X : BlockExecutor}

omit [StateStore σ] in
theorem refuseFirst_value {α : Type} {I : σ → Prop} (f : α → Option String) (l : List α) :
    Keeps I (refuseFirst f l : Prog σ ExecutionError Unit) fun _ => ∀ a ∈ l, f a = none := by
  unfold refuseFirst
  split
  · exact Keeps.stop
  · next h => exact Keeps.pure (List.findSome?_eq_none_iff.mp h)

/-- What an accepted session key has passed, and the charge that follows. -/
structure SessionAccepted (op : UserOperation) (sessionKey : Hash) (budgetTotal prior : U128)
    (prepared : PreparedOp) : Prop where
  allowed : ∀ a ∈ op.actions, sessionForbids a = none
  within : 0#128 < budgetTotal → satAdd prior (operationSpend op) ≤ budgetTotal
  charge : prepared.sessionCharge =
    if 0#128 < budgetTotal ∧ 0#128 < operationSpend op then
      some (sessionSpentKey op.sender sessionKey, satAdd prior (operationSpend op))
    else none

theorem checkSession_accepted (op : UserOperation) (sessionKey : Hash) (expiresAt : U64)
    (spendingLimit budgetTotal : U128) (allowedTargets : List AccountId)
    (allowedMethods : List String) (restrictSubcalls : Bool) (s : σ) :
    Keeps (· = s) (checkSession op sessionKey expiresAt spendingLimit budgetTotal allowedTargets
      allowedMethods restrictSubcalls)
      (SessionAccepted op sessionKey budgetTotal
        (priorSpend (sessionSpentKey op.sender sessionKey) s)) := by
  refine Keeps.seq Keeps.ask fun height => Keeps.seq Keeps.guard fun _ => ?_
  refine Keeps.seq Keeps.guard fun _ => ?_
  refine Keeps.bind (Keeps.reads (P := fun p =>
    p = priorSpend (sessionSpentKey op.sender sessionKey) s) fun t ht => by rw [ht]) fun prior hp => ?_
  subst hp
  refine Keeps.bind Keeps.stopIf fun _ hbudget => ?_
  refine Keeps.seq (Keeps.ite (fun _ => Keeps.pure trivial) fun _ =>
    refuseFirst_keeps _ _) fun _ => ?_
  refine Keeps.bind (refuseFirst_value _ _) fun _ hallowed => ?_
  refine Keeps.seq (Keeps.ite (fun _ => Keeps.pure trivial) fun _ =>
    refuseFirst_keeps _ _) fun _ => ?_
  refine Keeps.pure ⟨hallowed, fun hpos => ?_, rfl⟩
  exact BitVec.not_lt.mp fun hlt => hbudget ⟨hpos, hlt⟩

/-- The operation is signed by a session key of its sender with the budget
`budgetTotal`. -/
def SignedBySession (E : Platform) (X : BlockExecutor) (s : σ) (op : UserOperation)
    (sessionKey : Hash) (budgetTotal : U128) : Prop :=
  ∃ a expiresAt spendingLimit allowedTargets allowedMethods restrictSubcalls,
    loadAccount E op.sender s = .ok (some a) ∧
      a.authMethods.find? (matchesSession E (op.signingMessage E X.chainId) op.signature) =
        some (.session sessionKey expiresAt spendingLimit budgetTotal allowedTargets allowedMethods
          restrictSubcalls)

/-- An operation that a session method matches is none of the chain's own. -/
theorem isSystemAuthorized_of_session {methods : List AuthMethod}
    {msg : Bytes} {m : AuthMethod} (hfind : methods.find? (matchesSession E msg op.signature) = some m) :
    isSystemAuthorized op = false := by
  have hlen : op.signature.length = 64 := by
    have hm := List.find?_some hfind
    unfold matchesSession at hm
    split at hm
    · simp only [Bool.and_eq_true, decide_eq_true_eq] at hm
      exact hm.1
    · cases hm
  have hne : op.signature ≠ [0xFF] := by
    intro h
    rw [h] at hlen
    cases hlen
  simp [isSystemAuthorized, hne]

/-- An accepted operation has passed the checks of the first session method
that matches it. -/
theorem validateAndPrepare_checkSession {s s' : σ} {expiresAt : U64}
    {limit : U128} {restrict : Bool}
    (hload : loadAccount E op.sender s = .ok (some a))
    (hfind : a.authMethods.find? (matchesSession E (op.signingMessage E X.chainId) op.signature) =
      some (.session sessionKey expiresAt limit budgetTotal targets methods restrict))
    (hval : (validateAndPrepare E X op height).run s = (.ok prepared, s')) :
    ∃ s₁, (checkSession op sessionKey expiresAt limit budgetTotal targets methods restrict).run s =
      (.ok prepared, s₁) := by
  have huser := isSystemAuthorized_of_session hfind
  rw [validateAndPrepare, run_bind_eq_ok] at hval
  obtain ⟨o, s₁, hget, hval⟩ := hval
  obtain ⟨hload', rfl⟩ := getAccount_eq_ok (run_mapError_eq_ok.mp hget)
  cases hload.symm.trans hload'
  simp only [huser, Bool.false_eq_true, if_false] at hval
  obtain ⟨p, s₂, hsig, hval⟩ := run_bind_eq_ok.mp hval
  obtain ⟨u, s₃, -, hval⟩ := run_bind_eq_ok.mp hval
  cases hval
  rw [checkSignature, run_bind_eq_ok] at hsig
  obtain ⟨v, s₄, hguard, hsig⟩ := hsig
  have hs₄ := (Keeps.stopIf (I := (· = s₁))).after rfl hguard
  subst hs₄
  rw [hfind] at hsig
  exact ⟨s₂, hsig⟩

theorem validateAndPrepare_session {s s' : σ}
    (h : SignedBySession E X s op sessionKey budgetTotal)
    (hval : (validateAndPrepare E X op height).run s = (.ok prepared, s')) :
    SessionAccepted op sessionKey budgetTotal
      (priorSpend (sessionSpentKey op.sender sessionKey) s) prepared := by
  obtain ⟨a, expiresAt, limit, targets, methods, restrict, hload, hfind⟩ := h
  obtain ⟨s₁, hcheck⟩ := validateAndPrepare_checkSession hload hfind hval
  exact (checkSession_accepted op sessionKey expiresAt limit budgetTotal targets methods restrict
    s).value rfl hcheck

end

/-! ## Fees -/

section

variable {base : Store} {E : Platform} {X : BlockExecutor} {W : Watched} {n : Nat}

theorem reserveFee_floor (hsender : op.sender = W.owner) {ε : Type} :
    Ends (Floor E W n) (reserveFee E op : Prog (ExecState base) ε U128)
      fun reserved => Floor E W (n - reserved.toNat) := by
  refine Ends.bind (attemptGet_ends _) fun r => ?_
  split
  · next a =>
      refine Ends.bind (Q := fun _ => Floor E W (n - (umin op.maxFee a.balance).toNat))
        (Ends.modify fun s hs => ?_) fun _ => Ends.pure fun _ hs => hs
      obtain ⟨hid, hallows⟩ := hs.1.load hs.2
      have hdebit := hallows.debit hid (umin op.maxFee a.balance)
      rw [Watched.share, if_pos hsender] at hdebit
      exact hs.1.save hdebit fun _ => Nat.sub_le _ _
  · exact Ends.pure fun _ hs => hs.1.mono (Nat.sub_le _ _)

theorem creditTreasury_floor (treasury : AccountId) (share : U128) {ε : Type} :
    Keeps (Floor E W n) (creditTreasury E treasury share : Prog (ExecState base) ε U128)
      fun _ => True := by
  refine Keeps.ite (fun _ => ?_) fun _ => Keeps.pure trivial
  refine Keeps.bind (Floor.attemptGet _) fun r hr => ?_
  split
  · next a =>
      exact Keeps.done (Floor.saveAccount ((hr.1 a rfl).2.credit share))
  · exact Keeps.pure trivial

/-- The settlement returns the reserve and takes the fee. -/
theorem settleFees_floor (hsender : op.sender = W.owner) (height : Nat)
    (reserved : U128) {ε : Type} :
    Ends (Floor E W n) (settleFees E X op height reserved : Prog (ExecState base) ε _)
      fun fees => Floor E W (min (n + reserved.toNat) (2 ^ 128 - 1) - fees.1.toNat) := by
  refine Ends.bind Keeps.ask.ends fun c => Ends.bind Keeps.ask.ends fun gas => ?_
  dsimp only
  refine Ends.ite (fun _ => ?_) fun hzero => Ends.pure fun s hs => hs.mono ?_
  · refine Ends.bind (attemptGet_ends _) fun r => ?_
    split
    · next a =>
        generalize (if X.feeFixHeight ≤ height then
          umin (cappedFee X op height c gas) (satAdd a.balance reserved)
          else cappedFee X op height c gas) = fee
        refine Ends.bind (Q := fun _ =>
          Floor E W (min (n + reserved.toNat) (2 ^ 128 - 1) -
            (umin fee (satAdd a.balance reserved)).toNat))
          (Ends.modify fun s hs => ?_) fun _ => ?_
        · obtain ⟨hid, hallows⟩ := hs.1.load hs.2
          have howner : a.id = W.owner := hid.trans hsender
          refine hs.1.save (fun _ => ⟨?_, (hallows howner).2⟩) fun hne => absurd howner hne
          rw [toNat_satSub, toNat_umin, toNat_satAdd]
          have := (hallows howner).1
          omega
        · refine Ends.bind (creditTreasury_floor _ _).ends fun credit => ?_
          exact Ends.bind (Floor.emit _).ends fun _ => Ends.pure fun _ hs => hs
    · next hnone =>
        intro s _ _ hs
        obtain ⟨a, ha, -⟩ := hs.1.funded
        refine absurd ?_ (hnone a)
        rw [← hs.2, hsender]
        exact loadAccount_of_account? ha
  · have h0 : reserved.toNat = 0 := by
      rw [not_or, BitVec.lt_def] at hzero
      simpa using hzero.1
    rw [h0]
    omega

/-- After a rollback only the fee is taken. -/
theorem chargeFailure_floor (op : UserOperation) (height : Nat) (gasUsed : U64) :
    Ends (Floor E W n) (chargeFailure E X op height gasUsed : Prog (OverlayStore base) Empty _)
      fun fee => Floor E W (n - fee.toNat) := by
  have hnonce : Keeps (Floor E W n) (consumeNonce E op.sender op.nonce :
      Prog (OverlayStore base) _ _) fun _ => True :=
    consumeNonce_keeps fun _ _ hs hload _ _ =>
      hs.save (fun hid => (hs.load hload).2 hid) fun _ => le_rfl
  refine Ends.bind hnonce.attempt.triv.ends fun _ => ?_
  dsimp only
  refine Ends.ite (fun _ => ?_) fun _ => Ends.pure fun _ hs => hs
  refine Ends.bind (attemptRequire_ends _) fun r => ?_
  cases r with
  | ok a =>
    refine Ends.bind (Q := fun _ =>
      Floor E W (n - (umin a.balance (cappedFee X op height X.feeConfig gasUsed)).toNat))
      (Ends.modify fun s hs => ?_) fun _ => Ends.pure fun _ hs => hs
    obtain ⟨hid, hallows⟩ := hs.1.load (hs.2.1 a rfl)
    refine hs.1.save (fun howner => ⟨?_, (hallows howner).2⟩) fun _ => Nat.sub_le _ _
    rw [toNat_satSub, toNat_umin]
    have := (hallows howner).1
    omega
  | error e => exact Ends.pure fun _ hs => hs.1

/-! ## One operation -/

theorem Floor.le_balanceOf {σ : Type} [StateStore σ] {s : σ} (h : Floor E W n s) :
    n ≤ balanceOf E W.owner s := by
  obtain ⟨a, ha, hle, -⟩ := h.funded
  rw [balanceOf, ha]
  exact hle

/-- The operation takes from the owner at most the fee it reports and, if it
succeeds, the debits of its actions. -/
theorem executePrepared_floor (hsender : op.sender = W.owner)
    (hvault : isVault W.owner = false) (hallowed : ∀ a ∈ op.actions, sessionForbids a = none)
    (height : Nat) (prepared : PreparedOp) {o : OverlayStore base} (ho : Floor E W n o) :
    ((executePrepared E X op height prepared o).receipt.success = false ∧
      Floor E W (n - (executePrepared E X op height prepared o).feePaid.toNat)
        (executePrepared E X op height prepared o).store) ∨
    ∃ o' : OverlayStore base,
      Floor E W (n - operationDebit op - (executePrepared E X op height prepared o).feePaid.toNat)
        o' ∧
      (executePrepared E X op height prepared o).store =
        commitSessionCharge prepared.sessionCharge o' := by
  have hmax : n < 2 ^ 128 := by
    obtain ⟨a, -, hle, -⟩ := ho.funded
    exact Nat.lt_of_le_of_lt hle a.balance.isLt
  rw [executePrepared]
  rcases hrun : (reserveAndRun E op height prepared.subcallPolicy).run { store := o } with
    ⟨msg | reserved, s⟩
  · left
    have hback : Floor E W n (s.store.restoreSavepoint o.savepoint) :=
      ho.of_entries (OverlayStore.entries_restoreSavepoint o s.store)
    refine ⟨rfl, ?_⟩
    simp only [failOperation]
    rcases hcharge : (chargeFailure E X op height s.gasUsed).run
      (s.store.restoreSavepoint o.savepoint) with ⟨e | fee, o'⟩
    · exact e.elim
    · exact chargeFailure_floor op height s.gasUsed _ _ _ hback hcharge
  · right
    have hstart : Floor E W n ({ store := o } : ExecState base) := ho.of_entries rfl
    rw [reserveAndRun, run_bind_eq_ok] at hrun
    obtain ⟨r, s₁, hres, hrun⟩ := hrun
    obtain ⟨u, s₂, hactions, hrun⟩ := run_bind_eq_ok.mp hrun
    cases hrun
    have hs₁ := reserveFee_floor hsender _ _ _ hstart hres
    have hs₂ : Floor E W (n - reserved.toNat - operationDebit op) s := by
      have hlow := (Floor.operationActions hvault height prepared.subcallPolicy op.actions hallowed ∅
        s₁ hs₁).1
      rw [hsender] at hactions
      rwa [hactions] at hlow
    simp only [finishOperation]
    rcases hsettle : (settleFees E X op height reserved : Prog _ Empty _).run s with
      ⟨e | fees, s₃⟩
    · exact e.elim
    · refine ⟨s₃.store, ?_, rfl⟩
      have hs₃ := settleFees_floor hsender height reserved _ _ _ hs₂ hsettle
      refine Floor.of_entries (s := s₃) (hs₃.mono ?_) rfl
      dsimp only
      omega

end

/-! ## Sequences of operations -/

section

variable {E : Platform} {X : BlockExecutor}

/-- By how much an operation lowers the balance of its sender, apart from the
fee. -/
def fall {base : Store} (E : Platform) (X : BlockExecutor) (o : OverlayStore base)
    (op : UserOperation) (height : Nat) : Nat :=
  balanceOf E op.sender o -
    (balanceOf E op.sender (executeOperation E X o op height).store +
      (executeOperation E X o op height).feePaid.toNat)

/-- A sequence of operations that one session key of `owner` signs, each of
which meets `Cond`, and the sum of what they take from the owner. Between
them the store may change in any way that leaves the entry of the session
alone. -/
inductive SessionRun (E : Platform) (X : BlockExecutor) (owner : AccountId) (sessionKey : Hash)
    (budgetTotal : U128) (Cond : Store → UserOperation → Prop) : Nat → Store → Prop
  | start (m : Store) : SessionRun E X owner sessionKey budgetTotal Cond 0 m
  | operation {fallen : Nat} {m base : Store}
      (h : SessionRun E X owner sessionKey budgetTotal Cond fallen m) (o : OverlayStore base)
      (op : UserOperation) (height : Nat) (ho : o.entries = m) (hsender : op.sender = owner)
      (hsigned : SignedBySession E X o op sessionKey budgetTotal) (hcond : Cond m op) :
      SessionRun E X owner sessionKey budgetTotal Cond (fallen + fall E X o op height)
        (executeOperation E X o op height).store.entries
  | between {fallen : Nat} {m : Store}
      (h : SessionRun E X owner sessionKey budgetTotal Cond fallen m) (m' : Store)
      (hledger : m'[sessionSpentKey owner sessionKey]? = m[sessionSpentKey owner sessionKey]?) :
      SessionRun E X owner sessionKey budgetTotal Cond fallen m'

/-- What the session check counts covers what the operation takes: its owner
is a plain account, and the debits of its actions add up to at most the
spend that is counted. -/
structure Covered (E : Platform) (m : Store) (op : UserOperation) : Prop where
  wellFormed : WellFormed E m
  noCode : ∀ a, account? E m op.sender = some a → a.codeHash = Hash.zero
  notVault : isVault op.sender = false
  amounts : (∀ a ∈ op.actions, sessionForbids a = none) →
    operationDebit op ≤ (operationSpend op).toNat

/-- The spend that is recorded for a session, read from the entries. -/
def recordedSpend (owner : AccountId) (sessionKey : Hash) (m : Store) : Nat :=
  (priorSpend (sessionSpentKey owner sessionKey) m).toNat

theorem recordedSpend_congr {owner : AccountId} {m' : Store}
    (h : m'[sessionSpentKey owner sessionKey]? = m[sessionSpentKey owner sessionKey]?) :
    recordedSpend owner sessionKey m' = recordedSpend owner sessionKey m := by
  rw [recordedSpend, recordedSpend, priorSpend, priorSpend, readConfigU128, readConfigU128,
    StateStore.get_eq, StateStore.get_eq, Store.entries_eq, Store.entries_eq, h]

theorem priorSpend_overlay {o : OverlayStore base} (ho : o.entries = m)
    (key : Bytes) : priorSpend key o = priorSpend key m := by
  rw [priorSpend, priorSpend, readConfigU128, readConfigU128, StateStore.get_eq,
    StateStore.get_eq, Store.entries_eq, ← ho]
  rfl

/-- The balance is watched from right after the nonce was consumed. -/
theorem floor_of_validated {o o' : OverlayStore base} (sessionKey : Hash)
    (huser : isSystemAuthorized op = false) (hcov : Covered E o.entries op)
    (hval : (validateAndPrepare E X op height).run o = (.ok prepared, o')) :
    Floor E ⟨op.sender, sessionKey, o.entries[sessionSpentKey op.sender sessionKey]?⟩
      (balanceOf E op.sender o) o' := by
  obtain ⟨a, hload, -, -, rfl⟩ := validateAndPrepare_eq_ok huser hval
  have hacct : account? E o.entries op.sender = some a := account?_of_loadAccount hload
  have hid : a.id = op.sender := hcov.wellFormed.id_eq hacct
  have hstart : Floor E ⟨op.sender, sessionKey, o.entries[sessionSpentKey op.sender sessionKey]?⟩
      (balanceOf E op.sender o) o := by
    refine ⟨hcov.wellFormed, ⟨a, hacct, ?_, hcov.noCode a hacct⟩, rfl⟩
    rw [balanceOf, OverlayStore.entries_eq, hacct]
    exact le_rfl
  exact hstart.save (fun howner => (hstart.load hload).2 howner) fun hne => absurd hid hne

/-- An operation that is refused takes nothing. -/
theorem fall_of_store_eq {o : OverlayStore base}
    (h : (executeOperation E X o op height).store = o) : fall E X o op height = 0 := by
  rw [fall, h]
  omega

/-- The ledger entry is not a balance. -/
theorem balanceOf_commitSessionCharge {o : OverlayStore base} {charge : Option (Bytes × U128)} {c : Prop} [Decidable c] {total : U128}
    (h : charge = if c then some (sessionSpentKey op.sender sessionKey, total) else none) :
    balanceOf E op.sender (commitSessionCharge charge o) = balanceOf E op.sender o := by
  rw [h]
  split
  · rw [commitSessionCharge, balanceOf, OverlayStore.entries_eq, OverlayStore.entries_put,
      account?_insert_of_notAccountKey (notAccountKey_sessionSpentKey _ _)]
    rfl
  · rfl

theorem recordedSpend_put (owner : AccountId) (sessionKey : Hash)
    (o : OverlayStore base) (total : U128) :
    recordedSpend owner sessionKey (o.put (sessionSpentKey owner sessionKey) (le128 total)).entries =
      total.toNat := by
  have hlen : (le128 total).length = 16 := length_toLeBytes _ _
  have hval : fromLeBytes (le128 total) = total.toNat := fromLeBytes_toLeBytes (by
    have := total.isLt
    omega)
  rw [recordedSpend, priorSpend, readConfigU128, StateStore.get_eq, Store.entries_eq,
    OverlayStore.entries_put, Delta.getElem?_insert, if_pos rfl]
  dsimp only
  rw [if_pos hlen.ge, List.take_of_length_le hlen.le, hval, BitVec.ofNat_toNat,
    BitVec.setWidth_eq]
  rfl

/-- One operation: what it takes is added to the record, which stays within
the budget. -/
theorem fall_le_recorded {o : OverlayStore base} (hpos : 0#128 < budgetTotal)
    (hmax : budgetTotal.toNat < 2 ^ 128 - 1) (height : Nat)
    (hsigned : SignedBySession E X o op sessionKey budgetTotal)
    (hcov : Covered E o.entries op) :
    (fall E X o op height = 0 ∧
      (executeOperation E X o op height).store.entries[sessionSpentKey op.sender sessionKey]? =
        o.entries[sessionSpentKey op.sender sessionKey]?) ∨
    (recordedSpend op.sender sessionKey o.entries + fall E X o op height ≤
        recordedSpend op.sender sessionKey (executeOperation E X o op height).store.entries ∧
      recordedSpend op.sender sessionKey (executeOperation E X o op height).store.entries ≤
        budgetTotal.toNat) := by
  rcases hpre : precheck E op with _ | msg
  · rcases hval : (validateAndPrepare E X op height).run o with ⟨e | prepared, o'⟩
    · have hstore := store_of_not_validated hval
      exact .inl ⟨fall_of_store_eq hstore, by rw [hstore]⟩
    have hacc := validateAndPrepare_session hsigned hval
    have huser : isSystemAuthorized op = false := by
      obtain ⟨a, _, _, _, _, _, -, hfind⟩ := hsigned
      exact isSystemAuthorized_of_session hfind
    have hfloor := floor_of_validated sessionKey huser hcov hval
    have hexec := executeOperation_of_validated hpre hval
    rcases executePrepared_floor (X := X) rfl hcov.notVault hacc.allowed height prepared hfloor with
      ⟨-, hfail⟩ | ⟨o'', hdone, hstore⟩
    · left
      have hleft : balanceOf E op.sender o -
          (executePrepared E X op height prepared o').feePaid.toNat ≤
            balanceOf E op.sender (executePrepared E X op height prepared o').store :=
        hfail.le_balanceOf
      rw [fall, hexec]
      exact ⟨by omega, hfail.ledger⟩
    · have hfall : fall E X o op height ≤ (operationSpend op).toNat := by
        have hdebit := hcov.amounts hacc.allowed
        have hleft : balanceOf E op.sender o - operationDebit op -
            (executePrepared E X op height prepared o').feePaid.toNat ≤
              balanceOf E op.sender o'' := hdone.le_balanceOf
        rw [fall, hexec, hstore, balanceOf_commitSessionCharge hacc.charge]
        omega
      rw [hexec, hstore, hacc.charge]
      by_cases hspend : 0#128 < operationSpend op
      · right
        rw [if_pos ⟨hpos, hspend⟩, commitSessionCharge, recordedSpend_put]
        have hwithin := BitVec.le_def.mp (hacc.within hpos)
        rw [toNat_satAdd, priorSpend_overlay rfl] at hwithin
        rw [toNat_satAdd, priorSpend_overlay rfl]
        change recordedSpend op.sender sessionKey o.entries + _ ≤
          min (recordedSpend op.sender sessionKey o.entries + _) _ ∧
            min (recordedSpend op.sender sessionKey o.entries + _) _ ≤ _
        change min (recordedSpend op.sender sessionKey o.entries + _) _ ≤ _ at hwithin
        omega
      · left
        rw [if_neg fun h => hspend h.2]
        refine ⟨?_, hdone.ledger⟩
        have hzero : (operationSpend op).toNat = 0 := by
          rw [BitVec.lt_def] at hspend
          simpa using hspend
        omega
  · have hstore : (executeOperation E X o op height).store = o := by
      rw [executeOperation, hpre]
    exact .inl ⟨fall_of_store_eq hstore, by rw [hstore]⟩

theorem fallen_le_recorded {owner : AccountId}
    (hpos : 0#128 < budgetTotal) (hmax : budgetTotal.toNat < 2 ^ 128 - 1) {fallen : Nat} (h : SessionRun E X owner sessionKey budgetTotal (Covered E) fallen m) :
    fallen ≤ recordedSpend owner sessionKey m ∧ fallen ≤ budgetTotal.toNat := by
  induction h with
  | start m => exact ⟨Nat.zero_le _, Nat.zero_le _⟩
  | between h m' hledger ih =>
    rw [recordedSpend_congr hledger]
    exact ih
  | operation h o op height ho hsender hsigned hcond ih =>
    subst ho hsender
    rcases fall_le_recorded hpos hmax height hsigned hcond with ⟨hzero, hsame⟩ | ⟨hadd, hle⟩
    · rw [hzero, recordedSpend_congr hsame]
      exact ih
    · exact ⟨by omega, by omega⟩

/-- A session key with a budget takes no more than that from its owner, as
long as the count covers each of its operations. -/
theorem fallen_le_budget {owner : AccountId} {sessionKey : Hash} {budgetTotal : U128}
    (hpos : 0#128 < budgetTotal) (hmax : budgetTotal.toNat < 2 ^ 128 - 1) {fallen : Nat}
    {m : Store} (h : SessionRun E X owner sessionKey budgetTotal (Covered E) fallen m) :
    fallen ≤ budgetTotal.toNat :=
  (fallen_le_recorded hpos hmax h).2

end

/-! ## A session of `bob` -/

/-- An account of `alice` with a session key of `bob` that may spend 100. -/
def budgetAccount : Account :=
  { emptyAccount alice with
    authMethods := [.session bob 10#64 0#128 100#128 [] [] false]
    balance := 60000#128 }

def budgetStore : Store := singleAccount alice budgetAccount

/-- An operation of that session with one action. -/
def budgetOp (action : Action) : UserOperation :=
  signWith bob 0#64
    { sender := alice
      nonce := 0#64
      actions := [action]
      maxFee := 0#128
      signature := [] }

/-- Fees are not charged. -/
def freeExecutor : BlockExecutor := { feeConfig := { baseFeePerGas := 0#128 } }

theorem find?_budgetOp (action : Action) :
    budgetAccount.authMethods.find? (matchesSession concretePlatform
      ((budgetOp action).signingMessage concretePlatform 0#64) (budgetOp action).signature) =
        some (.session bob 10#64 0#128 100#128 [] [] false) := by
  have hver : concretePlatform.ed25519Verify bob
      ((budgetOp action).signingMessage concretePlatform 0#64) (budgetOp action).signature = true :=
    beq_self_eq_true _
  have hlen : (budgetOp action).signature.length = 64 := length_signWith _ _ _
  exact List.find?_cons_of_pos (by simp [matchesSession, hlen, hver])

theorem signedBySession_budgetOp (action : Action) :
    SignedBySession concretePlatform freeExecutor (OverlayStore.new budgetStore) (budgetOp action) bob
      100#128 :=
  ⟨budgetAccount, 10#64, 0#128, [], [], false, loadAccount_singleAccount alice budgetAccount,
    find?_budgetOp action⟩

theorem account?_budgetStore : account? concretePlatform budgetStore alice = some budgetAccount := by
  rw [budgetStore, account?, getElem?_singleAccount, Option.bind_some,
    concretePlatform.account.fromSlice_toVec]

/-- A transfer of 60 is counted as 60. -/
theorem fallen_le_budget_transfer :
    SessionRun concretePlatform freeExecutor alice bob 100#128 (Covered concretePlatform)
        (0 + fall concretePlatform freeExecutor (OverlayStore.new budgetStore)
          (budgetOp (.transfer bob 60#128)) 1)
        (executeOperation concretePlatform freeExecutor (OverlayStore.new budgetStore)
          (budgetOp (.transfer bob 60#128)) 1).store.entries ∧
      0 + fall concretePlatform freeExecutor (OverlayStore.new budgetStore)
        (budgetOp (.transfer bob 60#128)) 1 ≤ (100#128).toNat := by
  have hcov : Covered concretePlatform budgetStore (budgetOp (.transfer bob 60#128)) := by
    refine ⟨wellFormed_singleAccount rfl, fun a ha => ?_, by decide, fun _ => by decide⟩
    cases account?_budgetStore.symm.trans ha
    rfl
  have hrun := SessionRun.operation (SessionRun.start budgetStore) (OverlayStore.new budgetStore)
    (budgetOp (.transfer bob 60#128)) 1 (OverlayStore.entries_new budgetStore) rfl
    (signedBySession_budgetOp _) hcov
  exact ⟨hrun, fallen_le_budget (by decide) (by decide) hrun⟩

/-! ## A payment that is not counted -/

/-- 50000 for a recipient of zeros on the other chain, in 36 bytes. -/
def bridgeArgs : Bytes := List.replicate 20 0 ++ le128 50000#128

def bridgePayment : UserOperation :=
  budgetOp (.call System.bridgeAddress "bridge_to_base" bridgeArgs)

/-- The session takes 50000 from an account that allowed it 100. -/
theorem fall_bridgePayment :
    fall concretePlatform freeExecutor (OverlayStore.new budgetStore) bridgePayment 1 = 50000 := by
  decide +kernel

theorem not_withinBudget_bridgePayment :
    ¬ ∀ fallen m, SessionRun concretePlatform freeExecutor alice bob 100#128 (fun _ _ => True)
      fallen m → fallen ≤ (100#128).toNat := by
  intro h
  have hle := h _ _ (.operation (.start budgetStore) (OverlayStore.new budgetStore) bridgePayment 1
    (OverlayStore.entries_new budgetStore) rfl (signedBySession_budgetOp _) trivial)
  rw [fall_bridgePayment] at hle
  exact absurd hle (by decide)

end Solen
