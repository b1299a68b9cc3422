import Solen.SystemCalls

/-!
# Rules for system calls

Facts about calls that do not depend on the contract. A call that stops
early has failed, so a successful call ran to its end. Debits and
credits write account records only, so the contract records and the
chain metadata read the same afterwards.
-/

namespace Solen

open Machine Prog

/-! ## Failed calls -/

/-- A call that stops early has failed. -/
def Failed (r : SystemCallResult) : Prop := r.error ≠ none

theorem failed_err (msg : String) : Failed (err msg) := nofun

section

variable {σ : Type}

theorem orErr_eq_ok {α : Type} {o : Option α} {msg : String} {a : α} {s s' : σ}
    (h : (orErr o msg : SysM σ α).run s = (.ok a, s')) : o = some a ∧ s' = s := by
  cases o with
  | none => cases h
  | some b => cases h; exact ⟨rfl, rfl⟩

theorem run_orErr_some {α : Type} {o : Option α} {a : α} (msg : String) (s : σ) (h : o = some a) :
    (orErr o msg : SysM σ α).run s = (.ok a, s) := by
  subst h
  rfl

theorem gives_orErr_bind {α β : Type} {o : Option α} {msg : String} {g : α → SysM σ β} {s : σ}
    {Post : Except SystemCallResult β → σ → Prop} :
    Gives (orErr o msg >>= g) s Post ↔
      (o = none → Post (.error (err msg)) s) ∧ ∀ a, o = some a → Gives (g a) s Post := by
  cases o <;> simp [orErr]

theorem gives_attemptGet_bind {ε α : Type} [StateStore σ] {E : Platform} {id : AccountId} {s : σ}
    {f : Except StateError (Option Account) → Prog σ ε α} {Post : Except ε α → σ → Prop} :
    Gives (attempt (getAccount E id) >>= f) s Post ↔ Gives (f (loadAccount E id s)) s Post :=
  Iff.rfl

/-- A successful call ran to its end. -/
theorem run_of_runSystemCall {m : SysM σ SystemCallResult} {s s' : σ} {r : SystemCallResult}
    (hm : Stops m Failed) (h : runSystemCall m s = (r, s')) (hok : r.error = none) :
    m.run s = (.ok r, s') := by
  unfold runSystemCall at h
  rcases hrun : m.run s with ⟨res, s₁⟩
  rw [hrun] at h
  cases res with
  | ok r' => cases h; rfl
  | error e =>
    cases h
    refine absurd hok (hm s r ?_)
    rw [hrun]

theorem CallOutcome.result_of_toResult {C : Type} {o : CallOutcome C}
    (h : o.toResult.error = none) : o.result = .ok () := by
  unfold CallOutcome.toResult at h
  split at h
  · assumption
  · cases h

theorem CallOutcome.events_toResult {C : Type} (o : CallOutcome C) :
    o.toResult.events = o.events := by
  unfold CallOutcome.toResult
  split <;> rfl

end

section

variable {σ : Type} [StateStore σ] {E : Platform} {s₀ s : σ}

theorem creditExisting_stops {Q : SystemCallResult → Prop} (id : AccountId) (amount : U128) :
    Stops (creditExisting E id amount : SysM σ Unit) Q := by
  refine Stops.bind Stops.attempt fun r => ?_
  cases r with
  | ok acct => exact Stops.modify
  | error e => exact Stops.pure

/-! ## Account writes leave the records alone -/

/-- `s` differs from `s₀` in account records only. -/
def SameElsewhere (s₀ s : σ) : Prop :=
  ∀ k, NotAccountKey k → StateStore.get s k = StateStore.get s₀ k

theorem SameElsewhere.loadRecord {α : Type} (h : SameElsewhere s₀ s) (codec : Serde α)
    {key : Bytes} (hk : NotAccountKey key) (d : α) :
    loadRecord codec key d s = loadRecord codec key d s₀ := by
  simp only [Solen.loadRecord, h key hk]

theorem SameElsewhere.readCurrentEpoch (h : SameElsewhere s₀ s) :
    readCurrentEpoch s = readCurrentEpoch s₀ := by
  simp only [Solen.readCurrentEpoch, metaHeight, h chainMetaKey (by decide)]

theorem saveAccount_sameElsewhere {ε : Type} (a : Account) :
    Keeps (SameElsewhere s₀) (saveAccount E a : Prog σ ε Unit) fun _ => True := by
  refine Keeps.modify fun s hs k hk => ?_
  rw [putAccount, StateStore.get_put_of_ne _ _ (hk.ne a.id).symm]
  exact hs k hk

theorem debitWithReserve_sameElsewhere (sender : AccountId) (amount : U128) (msg : String) :
    Keeps (SameElsewhere s₀) (debitWithReserve E sender amount msg) fun _ => True := by
  refine Keeps.seq (requireAccount_keeps sender).mapError fun acct => ?_
  exact Keeps.seq Keeps.guard fun _ => saveAccount_sameElsewhere _

theorem debitCovered_sameElsewhere (id : AccountId) (amount : U128)
    (low missing : SystemCallResult) :
    Keeps (SameElsewhere s₀) (debitCovered E id amount low missing) fun _ => True := by
  refine Keeps.seq (getAccount_keeps id).attempt.triv fun r => ?_
  split
  · exact Keeps.seq Keeps.guard fun _ => saveAccount_sameElsewhere _
  · exact Keeps.stop

theorem creditExisting_sameElsewhere {ε : Type} (id : AccountId) (amount : U128) :
    Keeps (SameElsewhere s₀) (creditExisting E id amount : Prog σ ε Unit) fun _ => True := by
  refine Keeps.seq (requireAccount_keeps id).attempt.triv fun r => ?_
  cases r with
  | ok acct => exact saveAccount_sameElsewhere _
  | error e => exact Keeps.pure trivial

theorem creditOrCreate_sameElsewhere {ε : Type} (id : AccountId) (amount : U128) :
    Keeps (SameElsewhere s₀) (creditOrCreate E id amount : Prog σ ε Unit) fun _ => True := by
  refine Keeps.seq ?_ fun a => saveAccount_sameElsewhere _
  refine Keeps.seq (getAccount_keeps id).attempt.triv fun r => ?_
  split
  · exact Keeps.pure trivial
  · exact Keeps.pure trivial

theorem debitCovered_eq_ok {id : AccountId} {amount : U128} {low missing : SystemCallResult}
    {s' : σ} (h : (debitCovered E id amount low missing).run s = (.ok (), s')) :
    ∃ acct, loadAccount E id s = .ok (some acct) ∧ amount ≤ acct.balance := by
  rw [debitCovered, run_bind_ok (run_attempt _ s), run_getAccount] at h
  cases hload : loadAccount E id s with
  | error e => rw [hload] at h; cases h
  | ok o =>
    cases o with
    | none => rw [hload] at h; cases h
    | some acct =>
      rw [hload] at h
      by_cases hlow : acct.balance < amount
      · rw [run_bind_error (run_stopIf_pos hlow)] at h
        cases h
      · exact ⟨acct, rfl, BitVec.not_lt.mp hlow⟩

end

end Solen
