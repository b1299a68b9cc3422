import Mathlib.Logic.Basic

/-!
# Programs with early exit over a mutable state

`Prog σ ε α` is imperative code that reads and writes a state `σ` and
either ends with a value or stops early with `ε`. Stopping is not a
rollback: the writes made before the stop stay in the state, exactly as
a `return Err(..)` leaves a mutably borrowed store as it is. Undoing
them is the caller's business.

Two ways of reasoning are provided. The `run_*` equations execute a
program on a given state. The rules of `Keeps` are for facts that hold
throughout: a state invariant that every step preserves, together with
a fact about the value a program ends with. Because the invariant does
not mention the current state, a proof with `Keeps` follows the
program's text and never unfolds it. `Sim` compares two runs of one
program on two states, in the same style. `Gives` is for straight-line
code with many writes.
-/

def Prog (σ ε α : Type) : Type := σ → Except ε α × σ

namespace Prog

variable {σ ε ε' α β : Type}

def run (m : Prog σ ε α) (s : σ) : Except ε α × σ := m s

/-- Ends with a value computed from the state, which is left as it is. -/
def reads (f : σ → α) : Prog σ ε α := fun s => (.ok (f s), s)

/-- Like `reads`, for a computation that may fail. -/
def tryReads (f : σ → Except ε α) : Prog σ ε α := fun s => (f s, s)

def modify (f : σ → σ) : Prog σ ε Unit := fun s => (.ok (), f s)

def stop (e : ε) : Prog σ ε α := fun s => (.error e, s)

protected def bind (m : Prog σ ε α) (f : α → Prog σ ε β) : Prog σ ε β := fun s =>
  match m s with
  | (.ok a, s') => f a s'
  | (.error e, s') => (.error e, s')

instance : Monad (Prog σ ε) where
  pure a := fun s => (.ok a, s)
  bind := Prog.bind

instance : LawfulMonad (Prog σ ε) := LawfulMonad.mk' _
  (fun m => funext fun s => by
    change Prog.bind m _ s = m s
    unfold Prog.bind
    rcases m s with ⟨a | e, s'⟩ <;> rfl)
  (fun a f => rfl)
  (fun m f g => funext fun s => by
    change Prog.bind (Prog.bind m f) g s = Prog.bind m (fun a => Prog.bind (f a) g) s
    unfold Prog.bind
    rcases m s with ⟨a | e, s'⟩ <;> rfl)

def stopIf (c : Prop) [Decidable c] (e : ε) : Prog σ ε Unit :=
  if c then stop e else pure ()

/-- Runs `m` and turns an early exit into a value. -/
def attempt (m : Prog σ ε α) : Prog σ ε' (Except ε α) := fun s =>
  ((.ok (m s).1), (m s).2)

def ofExcept : Except ε α → Prog σ ε α
  | .ok a => pure a
  | .error e => stop e

def mapError (f : ε → ε') (m : Prog σ ε α) : Prog σ ε' α := fun s =>
  match m s with
  | (.ok a, s') => (.ok a, s')
  | (.error e, s') => (.error (f e), s')

/-- Runs `f` on each element in order. -/
def each (f : α → Prog σ ε Unit) : List α → Prog σ ε Unit
  | [] => pure ()
  | a :: l => do
      f a
      each f l

/-! ## Running -/

section Running

variable {m : Prog σ ε α} {f : α → Prog σ ε β} {g : ε → ε'} {c : Prop} [Decidable c]
  {s s' : σ} {a : α} {b : β} {e : ε} {e' : ε'}

@[simp] theorem run_pure (a : α) (s : σ) : (pure a : Prog σ ε α).run s = (.ok a, s) := rfl

@[simp] theorem run_reads (f : σ → α) (s : σ) :
    (reads f : Prog σ ε α).run s = (.ok (f s), s) := rfl

@[simp] theorem run_modify (f : σ → σ) (s : σ) :
    (modify f : Prog σ ε Unit).run s = (.ok (), f s) := rfl

theorem run_bind (m : Prog σ ε α) (f : α → Prog σ ε β) (s : σ) :
    (m >>= f).run s = match m.run s with
      | (.ok a, s') => (f a).run s'
      | (.error e, s') => (.error e, s') := rfl

theorem run_bind_ok
    (h : m.run s = (.ok a, s')) : (m >>= f).run s = (f a).run s' := by
  rw [run_bind, h]

theorem run_reads_bind (g : σ → α) (f : α → Prog σ ε β) (s : σ) :
    (reads g >>= f).run s = (f (g s)).run s := rfl

theorem run_bind_error
    (h : m.run s = (.error e, s')) : (m >>= f).run s = (.error e, s') := by
  rw [run_bind, h]

/-- A sequence ends only if both parts do. -/
theorem run_bind_eq_ok :
    (m >>= f).run s = (.ok b, s') ↔
      ∃ a s₁, m.run s = (.ok a, s₁) ∧ (f a).run s₁ = (.ok b, s') := by
  rw [run_bind]
  rcases m.run s with ⟨r, s₁⟩
  cases r with
  | ok a =>
    constructor
    · intro h
      exact ⟨a, s₁, rfl, h⟩
    · rintro ⟨a', s₂, heq, h⟩
      cases heq
      exact h
  | error e =>
    constructor
    · intro h
      cases h
    · rintro ⟨a', s₂, heq, -⟩
      cases heq

/-- A sequence stops where one of its parts does. -/
theorem run_bind_eq_error :
    (m >>= f).run s = (.error e, s') ↔
      m.run s = (.error e, s') ∨
        ∃ a s₁, m.run s = (.ok a, s₁) ∧ (f a).run s₁ = (.error e, s') := by
  rw [run_bind]
  rcases m.run s with ⟨r, s₁⟩
  cases r with
  | ok a =>
    constructor
    · intro h
      exact .inr ⟨a, s₁, rfl, h⟩
    · rintro (h | ⟨a', s₂, heq, h⟩)
      · cases h
      · cases heq
        exact h
  | error e' =>
    constructor
    · intro h
      cases h
      exact .inl rfl
    · rintro (h | ⟨a', s₂, heq, -⟩)
      · cases h
        rfl
      · cases heq

@[simp] theorem run_attempt (m : Prog σ ε α) (s : σ) :
    (attempt m : Prog σ ε' (Except ε α)).run s = (.ok (m.run s).1, (m.run s).2) := rfl

theorem run_stopIf_pos (h : c) :
    (stopIf c e : Prog σ ε Unit).run s = (.error e, s) := by
  rw [stopIf, if_pos h]
  rfl

theorem run_stopIf_neg (h : ¬ c) :
    (stopIf c e : Prog σ ε Unit).run s = (.ok (), s) := by
  simp [stopIf, h]

theorem run_stopIf_eq_ok {u : Unit}
    (h : (stopIf c e : Prog σ ε Unit).run s = (.ok u, s')) : ¬ c ∧ s' = s := by
  by_cases hc : c
  · rw [run_stopIf_pos hc] at h
    cases h
  · rw [run_stopIf_neg hc] at h
    cases h
    exact ⟨hc, rfl⟩

theorem run_mapError (f : ε → ε') (m : Prog σ ε α) (s : σ) :
    (mapError f m).run s = match m.run s with
      | (.ok a, s') => (.ok a, s')
      | (.error e, s') => (.error (f e), s') := rfl

theorem run_mapError_eq_ok :
    (mapError g m).run s = (.ok a, s') ↔ m.run s = (.ok a, s') := by
  rw [run_mapError]
  rcases m.run s with ⟨r, s₁⟩
  cases r <;> simp

theorem run_mapError_eq_error :
    (mapError g m).run s = (.error e', s') ↔ ∃ e, m.run s = (.error e, s') ∧ g e = e' := by
  rw [run_mapError]
  rcases m.run s with ⟨r, s₁⟩
  cases r with
  | ok a => simp
  | error e =>
    constructor
    · intro h
      cases h
      exact ⟨e, rfl, rfl⟩
    · rintro ⟨e₁, h, rfl⟩
      cases h
      rfl

end Running

/-! ## State invariants -/

/-- `m` preserves the invariant `I`, whether it ends or stops, and when
it ends its value satisfies `P`. -/
def Keeps (I : σ → Prop) (m : Prog σ ε α) (P : α → Prop) : Prop :=
  ∀ s, I s → I (m.run s).2 ∧ ∀ a, (m.run s).1 = .ok a → P a

namespace Keeps

variable {I : σ → Prop} {m m' : Prog σ ε α} {f : α → Prog σ ε β} {P Q : α → Prop} {R : β → Prop}
  {c : Prop} [Decidable c] {s s' : σ} {a : α} {e : ε}

theorem pure (h : P a) : Keeps I (pure a : Prog σ ε α) P := by
  intro s hs
  refine ⟨hs, fun b hb => ?_⟩
  cases hb
  exact h

theorem stop : Keeps I (stop e : Prog σ ε α) P := by
  intro s hs
  refine ⟨hs, fun b hb => ?_⟩
  cases hb

theorem reads {f : σ → α} (h : ∀ s, I s → P (f s)) : Keeps I (reads f : Prog σ ε α) P := by
  intro s hs
  refine ⟨hs, fun b hb => ?_⟩
  cases hb
  exact h s hs

theorem tryReads {f : σ → Except ε α} (h : ∀ s, I s → ∀ a, f s = .ok a → P a) :
    Keeps I (tryReads f : Prog σ ε α) P :=
  fun s hs => ⟨hs, fun a ha => h s hs a ha⟩

theorem modify {f : σ → σ} (h : ∀ s, I s → I (f s)) :
    Keeps I (modify f : Prog σ ε Unit) (fun _ => True) :=
  fun s hs => ⟨h s hs, fun _ _ => trivial⟩

theorem bind (hm : Keeps I m P)
    (hf : ∀ a, P a → Keeps I (f a) R) : Keeps I (m >>= f) R := by
  intro s hs
  obtain ⟨hI, hP⟩ := hm s hs
  rw [run_bind]
  rcases hrun : m.run s with ⟨r, s'⟩
  rw [hrun] at hI hP
  cases r with
  | ok a => exact hf a (hP a rfl) s' hI
  | error e => exact ⟨hI, fun b hb => by cases hb⟩

theorem mono (hm : Keeps I m P) (h : ∀ a, P a → Q a) : Keeps I m Q :=
  fun s hs => ⟨(hm s hs).1, fun a ha => h a ((hm s hs).2 a ha)⟩

theorem triv (hm : Keeps I m P) : Keeps I m (fun _ => True) := hm.mono fun _ _ => trivial

theorem stopIf :
    Keeps I (stopIf c e : Prog σ ε Unit) (fun _ => ¬ c) := by
  unfold Prog.stopIf
  split
  · exact Keeps.stop
  · next h => exact Keeps.pure h

theorem attempt (hm : Keeps I m P) :
    Keeps I (attempt m : Prog σ ε' (Except ε α)) (fun r => ∀ a, r = .ok a → P a) := by
  intro s hs
  refine ⟨(hm s hs).1, fun r hr => ?_⟩
  cases hr
  exact (hm s hs).2

theorem mapError {f : ε → ε'} (hm : Keeps I m P) : Keeps I (mapError f m) P := by
  intro s hs
  obtain ⟨hI, hP⟩ := hm s hs
  rw [run_mapError]
  rcases hrun : m.run s with ⟨r, s'⟩
  rw [hrun] at hI hP
  cases r with
  | ok a =>
    refine ⟨hI, fun b hb => ?_⟩
    cases hb
    exact hP a rfl
  | error e => exact ⟨hI, fun b hb => by cases hb⟩

/-- A program that writes nothing keeps everything. -/
theorem of_still (h : ∀ s₀, Keeps (· = s₀) m P) : Keeps I m fun _ => True := by
  intro s hs
  have hsame : (m.run s).2 = s := (h s s rfl).1
  exact ⟨hsame.symm ▸ hs, fun _ _ => trivial⟩

theorem after {r : Except ε α} (h : Keeps I m P) (hs : I s)
    (hrun : m.run s = (r, s')) : I s' := by
  have := (h s hs).1
  rwa [hrun] at this

theorem value (h : Keeps I m P) (hs : I s)
    (hrun : m.run s = (.ok a, s')) : P a := by
  refine (h s hs).2 a ?_
  rw [hrun]

/-- A program that keeps "the state is `s`" ends in `s`. -/
theorem state_eq (h : Keeps (· = s) m P) : (m.run s).2 = s := (h s rfl).1

/-! Sequences whose first part's value does not matter. -/

theorem seq (hm : Keeps I m fun _ => True)
    (hf : ∀ a, Keeps I (f a) R) : Keeps I (m >>= f) R :=
  hm.bind fun a _ => hf a

theorem done {g : α → β} (hm : Keeps I m fun _ => True) :
    Keeps I (m >>= fun a => Pure.pure (g a)) fun _ => True :=
  hm.seq fun _ => pure trivial

theorem ask {f : σ → α} : Keeps I (Prog.reads f : Prog σ ε α) fun _ => True :=
  Keeps.reads fun _ _ => trivial

theorem tryAsk {f : σ → Except ε α} : Keeps I (Prog.tryReads f : Prog σ ε α) fun _ => True :=
  Keeps.tryReads fun _ _ _ _ => trivial

theorem guard :
    Keeps I (Prog.stopIf c e : Prog σ ε Unit) fun _ => True :=
  Keeps.stopIf.triv

theorem ite (h : c → Keeps I m P)
    (h' : ¬ c → Keeps I m' P) : Keeps I (if c then m else m') P := by
  split
  · next hc => exact h hc
  · next hc => exact h' hc

theorem each {f : α → Prog σ ε Unit} {l : List α}
    (h : ∀ a ∈ l, Keeps I (f a) (fun _ => True)) : Keeps I (each f l) (fun _ => True) := by
  induction l with
  | nil => exact Keeps.pure trivial
  | cons a l ih =>
    refine Keeps.bind (h a List.mem_cons_self) fun _ _ => ?_
    exact ih fun b hb => h b (List.mem_cons_of_mem _ hb)

end Keeps

/-! ## Early exits -/

/-- When `m` stops early, it is with a result that satisfies `Q`. -/
def Stops (m : Prog σ ε α) (Q : ε → Prop) : Prop :=
  ∀ s e, (m.run s).1 = .error e → Q e

namespace Stops

variable {m : Prog σ ε α} {Q : ε → Prop} {a : α} {e : ε}

/-- A program that never stops on its own. -/
theorem never (h : ∀ s, ∃ a, (m.run s).1 = .ok a) : Stops m Q := by
  intro s e he
  obtain ⟨a, ha⟩ := h s
  rw [ha] at he
  cases he

theorem pure : Stops (pure a : Prog σ ε α) Q := never fun _ => ⟨a, rfl⟩

theorem reads {f : σ → α} : Stops (reads f : Prog σ ε α) Q := never fun s => ⟨f s, rfl⟩

theorem modify {f : σ → σ} : Stops (modify f : Prog σ ε Unit) Q := never fun _ => ⟨(), rfl⟩

theorem attempt {m : Prog σ ε' α} : Stops (attempt m : Prog σ ε (Except ε' α)) Q :=
  never fun s => ⟨(m.run s).1, rfl⟩

theorem stop (h : Q e) : Stops (stop e : Prog σ ε α) Q := by
  intro s e' he
  cases he
  exact h

theorem stopIf {c : Prop} [Decidable c] (h : Q e) :
    Stops (stopIf c e : Prog σ ε Unit) Q := by
  unfold Prog.stopIf
  split
  · exact Stops.stop h
  · exact Stops.pure

theorem bind {f : α → Prog σ ε β} (hm : Stops m Q) (hf : ∀ a, Stops (f a) Q) :
    Stops (m >>= f) Q := by
  intro s e he
  rw [run_bind] at he
  rcases hrun : m.run s with ⟨r, s'⟩
  rw [hrun] at he
  cases r with
  | ok a => exact hf a s' e he
  | error e' =>
    cases he
    refine hm s e ?_
    rw [hrun]

end Stops

/-! ## Partial correctness -/

/-- If `m` starts in a state with `P` and ends, then `Q` holds of the value
and the final state. Nothing is said about early exits. -/
def Ends (P : σ → Prop) (m : Prog σ ε α) (Q : α → σ → Prop) : Prop :=
  ∀ s a s', P s → m.run s = (.ok a, s') → Q a s'

namespace Ends

variable {P P' : σ → Prop} {m m' : Prog σ ε α} {Q Q' : α → σ → Prop} {c : Prop} [Decidable c]
  {a : α} {e : ε}

theorem pure (h : ∀ s, P s → Q a s) : Ends P (pure a : Prog σ ε α) Q := by
  rintro s b s' hs hrun
  cases hrun
  exact h s hs

theorem stop : Ends P (stop e : Prog σ ε α) Q := by
  rintro s b s' - hrun
  cases hrun

theorem reads {f : σ → α} (h : ∀ s, P s → Q (f s) s) : Ends P (reads f : Prog σ ε α) Q := by
  rintro s b s' hs hrun
  cases hrun
  exact h s hs

theorem modify {f : σ → σ} {Q : Unit → σ → Prop} (h : ∀ s, P s → Q () (f s)) :
    Ends P (modify f : Prog σ ε Unit) Q := by
  rintro s b s' hs hrun
  cases hrun
  exact h s hs

theorem stopIf {Q : Unit → σ → Prop}
    (h : ∀ s, P s → ¬ c → Q () s) : Ends P (stopIf c e : Prog σ ε Unit) Q := by
  unfold Prog.stopIf
  split
  · exact Ends.stop
  · next hc => exact Ends.pure fun s hs => h s hs hc

theorem bind {f : α → Prog σ ε β} {R : β → σ → Prop} (hm : Ends P m Q)
    (hf : ∀ a, Ends (Q a) (f a) R) : Ends P (m >>= f) R := by
  intro s b s' hs hrun
  obtain ⟨a, s₁, hrun₁, hrun₂⟩ := run_bind_eq_ok.mp hrun
  exact hf a s₁ b s' (hm s a s₁ hs hrun₁) hrun₂

theorem mono (hm : Ends P m Q) (h : ∀ a s, Q a s → Q' a s) : Ends P m Q' :=
  fun s a s' hs hrun => h a s' (hm s a s' hs hrun)

theorem pre (hm : Ends P m Q) (h : ∀ s, P' s → P s) : Ends P' m Q :=
  fun s a s' hs hrun => hm s a s' (h s hs) hrun

/-- Facts that do not depend on the state stay. -/
theorem frame (hm : Ends P m Q) (φ : Prop) :
    Ends (fun s => P s ∧ φ) m fun a s => Q a s ∧ φ :=
  fun s a s' hs hrun => ⟨hm s a s' hs.1 hrun, hs.2⟩

theorem or (hm : Ends P m Q) (hm' : Ends P' m Q) : Ends (fun s => P s ∨ P' s) m Q := by
  rintro s a s' (hs | hs) hrun
  · exact hm s a s' hs hrun
  · exact hm' s a s' hs hrun

theorem ite (h : c → Ends P m Q)
    (h' : ¬ c → Ends P m' Q) : Ends P (if c then m else m') Q := by
  split
  · next hc => exact h hc
  · next hc => exact h' hc

theorem mapError {f : ε → ε'} (hm : Ends P m Q) : Ends P (mapError f m) Q :=
  fun s a s' hs hrun => hm s a s' hs (run_mapError_eq_ok.mp hrun)

theorem each {f : α → Prog σ ε Unit} {l : List α} (h : ∀ a ∈ l, Ends P (f a) fun _ => P) :
    Ends P (each f l) fun _ => P := by
  induction l with
  | nil => exact Ends.pure fun _ hs => hs
  | cons a l ih =>
    refine Ends.bind (h a List.mem_cons_self) fun _ => ?_
    exact ih fun b hb => h b (List.mem_cons_of_mem _ hb)

end Ends

theorem Keeps.ends {I : σ → Prop} {m : Prog σ ε α} {P : α → Prop} (h : Keeps I m P) :
    Ends I m fun _ => I :=
  fun _ _ _ hs hrun => h.after hs hrun

/-! ## Outcomes from a given state -/

/-- What `m` comes to from the state `s`: `Post` holds of the result and of
the final state. One equation per primitive reduces it to a fact about data. -/
def Gives (m : Prog σ ε α) (s : σ) (Post : Except ε α → σ → Prop) : Prop :=
  Post (m.run s).1 (m.run s).2

section Gives

variable {Post : Except ε α → σ → Prop} {m : Prog σ ε α} {n : Prog σ ε β} {f : β → Prog σ ε α}
  {s s' : σ} {e : ε}

theorem Gives.of_run {r : Except ε α} (h : Gives m s Post) (hrun : m.run s = (r, s')) :
    Post r s' := by
  unfold Gives at h
  rwa [hrun] at h

theorem Gives.mono {Post' : Except ε α → σ → Prop} (h : Gives m s Post)
    (hpost : ∀ r s', Post r s' → Post' r s') : Gives m s Post' :=
  hpost _ _ h

theorem gives_bind :
    Gives (n >>= f) s Post ↔ Gives n s fun r s' =>
      match r with
      | .ok b => Gives (f b) s' Post
      | .error e => Post (.error e) s' := by
  unfold Gives
  rw [run_bind]
  rcases n.run s with ⟨r, s'⟩
  cases r <;> rfl

theorem Stops.gives {Q : ε → Prop} (h : Stops m Q) (s : σ) :
    Gives m s fun r _ => ∀ e, r = .error e → Q e := h s

/-- A sequence, through what its first part comes to. -/
theorem Gives.bind {Mid : Except ε β → σ → Prop}
    (hm : Gives n s Mid) (hok : ∀ b s', Mid (.ok b) s' → Gives (f b) s' Post)
    (herror : ∀ e s', Mid (.error e) s' → Post (.error e) s') : Gives (n >>= f) s Post := by
  refine gives_bind.mpr (hm.mono fun r s' hr => ?_)
  cases r with
  | ok b => exact hok b s' hr
  | error e => exact herror e s' hr

@[simp] theorem gives_pure_bind {a : β} :
    Gives (pure a >>= f) s Post ↔ Gives (f a) s Post := Iff.rfl

@[simp] theorem gives_stop_bind :
    Gives (stop e >>= f) s Post ↔ Post (.error e) s := Iff.rfl

@[simp] theorem gives_reads_bind {g : σ → β} :
    Gives (reads g >>= f) s Post ↔ Gives (f (g s)) s Post := Iff.rfl

@[simp] theorem gives_stopIf_bind {c : Prop} [Decidable c] {f : Unit → Prog σ ε α} :
    Gives (stopIf c e >>= f) s Post ↔
      (c → Post (.error e) s) ∧ (¬ c → Gives (f ()) s Post) := by
  unfold stopIf
  split
  · next h => simp [h]
  · next h => simp [h]

end Gives

/-! ## Graded invariants -/

/-- A run from a state with `I n` ends, either way, in one with `I (n - d)`;
the value of a proper end satisfies `P`. -/
def Lowers (I : Nat → σ → Prop) (n d : Nat) (m : Prog σ ε α) (P : α → Prop) : Prop :=
  ∀ s, I n s → I (n - d) (m.run s).2 ∧ ∀ a, (m.run s).1 = .ok a → P a

namespace Lowers

variable {I : Nat → σ → Prop} {n d d' : Nat} {m m' : Prog σ ε α} {f : α → Prog σ ε β} {P : α → Prop}
  {R : β → Prop}
  (hI : ∀ n n' s, n' ≤ n → I n s → I n' s)

include hI

theorem bind (hm : Lowers I n d m P)
    (hf : ∀ a, P a → Lowers I (n - d) d' (f a) R) : Lowers I n (d + d') (m >>= f) R := by
  intro s hs
  obtain ⟨hstate, hval⟩ := hm s hs
  rw [← Nat.sub_sub, run_bind]
  rcases hrun : m.run s with ⟨r, s'⟩
  rw [hrun] at hstate hval
  cases r with
  | ok a => exact hf a (hval a rfl) s' hstate
  | error e => exact ⟨hI _ _ _ (Nat.sub_le _ _) hstate, nofun⟩

omit hI in
theorem ite {c : Prop} [Decidable c] (h : c → Lowers I n d m P)
    (h' : ¬ c → Lowers I n d m' P) : Lowers I n d (if c then m else m') P := by
  split
  · next hc => exact h hc
  · next hc => exact h' hc

omit hI in
theorem mapError {f : ε → ε'} (hm : Lowers I n d m P) : Lowers I n d (mapError f m) P := by
  intro s hs
  obtain ⟨hstate, hval⟩ := hm s hs
  rw [run_mapError]
  rcases hrun : m.run s with ⟨r, s'⟩
  rw [hrun] at hstate hval
  cases r with
  | ok a => exact ⟨hstate, fun b hb => hval b (by cases hb; rfl)⟩
  | error e => exact ⟨hstate, fun b hb => by cases hb⟩

theorem of_keeps (h : Keeps (I n) m P) (d : Nat) : Lowers I n d m P :=
  fun s hs => ⟨hI _ _ _ (Nat.sub_le _ _) (h s hs).1, (h s hs).2⟩

/-- A first part that keeps the grade. -/
theorem after (hm : Keeps (I n) m P)
    (hf : ∀ a, P a → Lowers I n d (f a) R) : Lowers I n d (m >>= f) R := by
  have h := bind hI (of_keeps hI hm 0) hf
  rwa [Nat.zero_add] at h

/-- A second part that keeps the grade. -/
theorem before (hm : Lowers I n d m P)
    (hf : ∀ a, P a → Keeps (I (n - d)) (f a) R) : Lowers I n d (m >>= f) R :=
  bind hI hm fun a ha => of_keeps hI (hf a ha) 0

end Lowers

/-! ## Two runs -/

/-- From related states `m` and `m'` end with the same value or stop for the
same reason, one of `Q`, in related states. -/
def SimTo {σ' : Type} (Q : ε → Prop) (R : σ → σ' → Prop) (m : Prog σ ε α) (m' : Prog σ' ε α) :
    Prop :=
  ∀ s s', R s s' → (m.run s).1 = (m'.run s').1 ∧ R (m.run s).2 (m'.run s').2 ∧
    ∀ e, (m.run s).1 = .error e → Q e

/-- For whatever reason they stop. -/
abbrev Sim {σ' : Type} (R : σ → σ' → Prop) (m : Prog σ ε α) (m' : Prog σ' ε α) : Prop :=
  SimTo (fun _ => True) R m m'

instance : Fact True := ⟨trivial⟩

namespace Sim

variable {σ' : Type} {Q : ε → Prop} {R : σ → σ' → Prop} {m n : Prog σ ε α} {m' n' : Prog σ' ε α}
  {f : α → Prog σ ε β} {f' : α → Prog σ' ε β} {c : Prop} [Decidable c] {e : ε}

theorem pure (a : α) : SimTo Q R (pure a : Prog σ ε α) (pure a : Prog σ' ε α) :=
  fun _ _ hs => ⟨rfl, hs, nofun⟩

theorem stop (e : ε) [h : Fact (Q e)] :
    SimTo Q R (stop e : Prog σ ε α) (stop e : Prog σ' ε α) := by
  refine fun _ _ hs => ⟨rfl, hs, fun e' he => ?_⟩
  cases he
  exact h.out

theorem reads {f : σ → α} {f' : σ' → α} (h : ∀ s s', R s s' → f s = f' s') :
    SimTo Q R (reads f : Prog σ ε α) (reads f' : Prog σ' ε α) :=
  fun s s' hs => ⟨congrArg Except.ok (h s s' hs), hs, nofun⟩

theorem tryReads {f : σ → Except ε α} {f' : σ' → Except ε α}
    (h : ∀ s s', R s s' → f s = f' s') : Sim R (tryReads f) (tryReads f') :=
  fun s s' hs => ⟨h s s' hs, hs, fun _ _ => trivial⟩

theorem modify {f : σ → σ} {f' : σ' → σ'} (h : ∀ s s', R s s' → R (f s) (f' s')) :
    SimTo Q R (modify f : Prog σ ε Unit) (modify f') :=
  fun s s' hs => ⟨rfl, h s s' hs, nofun⟩

/-- What follows may use what is known of the value. -/
theorem bind_of {P : α → Prop} (hm : SimTo Q R m m')
    (hP : ∀ s s', R s s' → ∀ a, (m.run s).1 = .ok a → P a)
    (hf : ∀ a, P a → SimTo Q R (f a) (f' a)) : SimTo Q R (m >>= f) (m' >>= f') := by
  intro s s' hs
  obtain ⟨hval, hR, hQ⟩ := hm s s' hs
  have hPs := hP s s' hs
  rw [run_bind, run_bind]
  rcases hrun : m.run s with ⟨r, s₁⟩
  rcases hrun' : m'.run s' with ⟨r', s₁'⟩
  rw [hrun, hrun'] at hval hR
  rw [hrun] at hPs hQ
  cases hval
  cases r with
  | ok a => exact hf a (hPs a rfl) s₁ s₁' hR
  | error e =>
    refine ⟨rfl, hR, fun e' he => ?_⟩
    cases he
    exact hQ e rfl

theorem bind (hm : SimTo Q R m m')
    (hf : ∀ a, SimTo Q R (f a) (f' a)) : SimTo Q R (m >>= f) (m' >>= f') :=
  bind_of hm (fun _ _ _ _ _ => trivial) fun a _ => hf a

theorem stopIf (c : Prop) [Decidable c] (e : ε) [Fact (Q e)] :
    SimTo Q R (stopIf c e : Prog σ ε Unit) (stopIf c e) := by
  unfold Prog.stopIf
  split
  · exact Sim.stop e
  · exact Sim.pure ()

theorem guard [Fact (Q e)] {f : Unit → Prog σ ε β}
    {f' : Unit → Prog σ' ε β} (h : SimTo Q R (f ()) (f' ())) :
    SimTo Q R (Prog.stopIf c e >>= f) (Prog.stopIf c e >>= f') :=
  bind (stopIf c e) fun _ => h

theorem done (hm : SimTo Q R m m') {g : α → β} :
    SimTo Q R (m >>= fun a => Pure.pure (g a)) (m' >>= fun a => Pure.pure (g a)) :=
  bind hm fun _ => pure _

theorem attempt {Q : ε' → Prop} (hm : Sim R m m') :
    SimTo Q R (attempt m : Prog σ ε' (Except ε α)) (attempt m') :=
  fun s s' hs => ⟨congrArg Except.ok (hm s s' hs).1, (hm s s' hs).2.1, nofun⟩

theorem mapError {Q : ε' → Prop} {f : ε → ε'} [h : ∀ e, Fact (Q (f e))]
    (hm : Sim R m m') : SimTo Q R (mapError f m) (mapError f m') := by
  intro s s' hs
  obtain ⟨hval, hR, -⟩ := hm s s' hs
  rw [run_mapError, run_mapError]
  rcases hrun : m.run s with ⟨r, s₁⟩
  rcases hrun' : m'.run s' with ⟨r', s₁'⟩
  rw [hrun, hrun'] at hval hR
  cases hval
  cases r with
  | ok a => exact ⟨rfl, hR, nofun⟩
  | error e =>
    refine ⟨rfl, hR, fun e' he => ?_⟩
    cases he
    exact (h e).out

theorem ofExcept (r : Except ε α) : Sim R (ofExcept r : Prog σ ε α) (ofExcept r) := by
  cases r with
  | ok a => exact Sim.pure a
  | error e => exact Sim.stop e

theorem ite (h : c → SimTo Q R m m') (h' : ¬ c → SimTo Q R n n') :
    SimTo Q R (if c then m else n) (if c then m' else n') := by
  split
  · next hc => exact h hc
  · next hc => exact h' hc

theorem each {f : α → Prog σ ε Unit} {f' : α → Prog σ' ε Unit} (l : List α)
    (h : ∀ a, SimTo Q R (f a) (f' a)) : SimTo Q R (each f l) (each f' l) := by
  induction l with
  | nil => exact Sim.pure ()
  | cons a l ih => exact Sim.bind (h a) fun _ => ih

end Sim

/-! ## Two runs from given states -/

/-- From these two states `m` and `m'` end alike, in related states. -/
def SimAt {σ' : Type} (R : σ → σ' → Prop) (m : Prog σ ε α) (m' : Prog σ' ε α) (s : σ) (s' : σ') :
    Prop :=
  (m.run s).1 = (m'.run s').1 ∧ R (m.run s).2 (m'.run s').2

section

variable {σ' : Type} {R : σ → σ' → Prop} {m : Prog σ ε α} {m' : Prog σ' ε α} {s : σ} {s' : σ'}

theorem Sim.related (h : Sim R m m') (hs : R s s') : SimAt R m m' s s' :=
  ⟨(h s s' hs).1, (h s s' hs).2.1⟩

namespace SimAt

theorem pure (a : α) (hs : R s s') :
    SimAt R (Pure.pure a : Prog σ ε α) (Pure.pure a : Prog σ' ε α) s s' :=
  ⟨rfl, hs⟩

theorem stop (e : ε) (hs : R s s') :
    SimAt R (Prog.stop e : Prog σ ε α) (Prog.stop e : Prog σ' ε α) s s' :=
  ⟨rfl, hs⟩

/-- What follows may use how the first run ended. -/
theorem bind {f : α → Prog σ ε β} {f' : α → Prog σ' ε β} (hm : SimAt R m m' s s')
    (hf : ∀ a t t', m.run s = (.ok a, t) → R t t' → SimAt R (f a) (f' a) t t') :
    SimAt R (m >>= f) (m' >>= f') s s' := by
  obtain ⟨hval, hR⟩ := hm
  rw [SimAt, run_bind, run_bind]
  rcases hrun : m.run s with ⟨r, t⟩
  rcases hrun' : m'.run s' with ⟨r', t'⟩
  rw [hrun, hrun'] at hval hR
  cases hval
  cases r with
  | ok a => exact hf a t t' hrun hR
  | error e => exact ⟨rfl, hR⟩

theorem guard {c : Prop} [Decidable c] {e : ε} {f : Unit → Prog σ ε β}
    {f' : Unit → Prog σ' ε β} (hs : R s s') (h : SimAt R (f ()) (f' ()) s s') :
    SimAt R (stopIf c e >>= f) (stopIf c e >>= f') s s' := by
  unfold stopIf
  split
  · exact ⟨rfl, hs⟩
  · exact h

theorem mapError {f : ε → ε'} (hm : SimAt R m m' s s') :
    SimAt R (mapError f m) (mapError f m') s s' := by
  obtain ⟨hval, hR⟩ := hm
  rw [SimAt, run_mapError, run_mapError]
  rcases hrun : m.run s with ⟨r, t⟩
  rcases hrun' : m'.run s' with ⟨r', t'⟩
  rw [hrun, hrun'] at hval hR
  cases hval
  cases r with
  | ok a => exact ⟨rfl, hR⟩
  | error e => exact ⟨rfl, hR⟩

end SimAt

end

/-- A run compared with itself keeps the invariant. -/
theorem SimTo.keeps {Q : ε → Prop} {I : σ → Prop} {m : Prog σ ε α}
    (h : SimTo Q (fun s s' : σ => s = s' ∧ I s) m m) : Keeps I m fun _ => True :=
  fun s hs => ⟨(h s s ⟨rfl, hs⟩).2.1.2, fun _ _ => trivial⟩

theorem SimTo.stops {Q : ε → Prop} {m : Prog σ ε α}
    (h : SimTo Q (fun s s' : σ => s = s' ∧ True) m m) : Stops m Q :=
  fun s e he => (h s s ⟨rfl, trivial⟩).2.2 e he

end Prog
