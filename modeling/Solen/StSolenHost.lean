import Solen.Runtime
import Solen.Prog

/-!
# Contracts as programs over the host functions

A contract that is written with the SDK is a tree: it ends with a value,
leaves early, or asks the host for something and goes on with the answer.
The tree is run in two ways. `Code.metered` is what happens: instructions
and requests cost fuel, a call whose instructions run out of it traps, and
a request that can not be paid is refused in silence. A read that is
refused answers that the key is absent, a write or an event is dropped.
`Code.plain` is what the contract was written for, a host that never
refuses for want of fuel.

The two agree on everything but the events as long as no request is refused
(`Code.metered_agrees`), so that a contract is understood by its plain run
and the runs in which the fuel gives out are set apart.
-/

namespace Solen.StSolen

open Machine Prog

/-! ## Frames -/

/-- A call in progress. `overflowed` is there for specifications. -/
structure Frame where
  ctx : HostContext
  storage : Store
  events : List HostEvent := []
  nativeTransfers : List NativeTransfer := []
  pendingCalls : List PendingCall := []
  overflowed : Bool := false

/-- The ways to leave a method early. -/
inductive Exit where
  | returned (data : Bytes)
  | trapped (msg : String)
deriving DecidableEq

/-- What a contract learns of the call it is in. -/
structure Senses where
  caller : AccountId
  blockHeight : Nat
  msgValue : U128
  selfBalance : U128

namespace Frame

def senses (s : Frame) : Senses :=
  ⟨s.ctx.caller, s.ctx.blockHeight, s.ctx.msgValue, s.ctx.selfBalance⟩

def written (key value : Bytes) (s : Frame) : Frame :=
  { s with storage := s.storage.insert key value }

/-- Notes whether `a + b` fits. -/
def noted (a b : U128) (s : Frame) : Frame :=
  { s with overflowed := s.overflowed || decide (2 ^ 128 ≤ a.toNat + b.toNat) }

def emitted (topic : String) (data : Bytes) (s : Frame) : Frame :=
  { s with events := s.events ++ [⟨ascii topic, data⟩] }

/-- A transfer is refused for nothing and beyond fifty. -/
def CanSend (s : Frame) (amount : U128) : Prop :=
  amount ≠ 0#128 ∧ s.nativeTransfers.length < Vm.maxNativeTransfers

instance (s : Frame) (amount : U128) : Decidable (s.CanSend amount) :=
  inferInstanceAs (Decidable (_ ∧ _))

def sending (dest : AccountId) (amount : U128) (s : Frame) : Frame :=
  { s with nativeTransfers := s.nativeTransfers ++ [⟨dest, amount⟩] }

/-- A call is refused beyond sixteen. The limits on its method and arguments
are above what the contracts here ask for. -/
def CanQueue (s : Frame) : Prop := s.pendingCalls.length < Vm.maxPendingCalls

instance (s : Frame) : Decidable s.CanQueue := inferInstanceAs (Decidable (_ < _))

def queued (call : PendingCall) (s : Frame) : Frame :=
  { s with pendingCalls := s.pendingCalls ++ [call] }

/-- Frames that only their events set apart. -/
structure Alike (s s' : Frame) : Prop where
  ctx : s.ctx = s'.ctx
  storage : s.storage = s'.storage
  nativeTransfers : s.nativeTransfers = s'.nativeTransfers
  pendingCalls : s.pendingCalls = s'.pendingCalls
  overflowed : s.overflowed = s'.overflowed

end Frame

/-! ## Programs -/

inductive Code (α : Type) where
  | done (a : α)
  | leave (e : Exit)
  | read (key : Bytes) (next : Option Bytes → Code α)
  | write (key value : Bytes) (next : Code α)
  | emit (topic : String) (data : Bytes) (next : Code α)
  | sense (next : Senses → Code α)
  | send (dest : AccountId) (amount : U128) (next : Bool → Code α)
  | queue (call : PendingCall) (next : Bool → Code α)
  /-- Not a request: a note about the sum `a + b`. -/
  | note (a b : U128) (next : Code α)

namespace Code

variable {α β γ : Type}

protected def bind (f : α → Code β) : Code α → Code β
  | done a => f a
  | leave e => leave e
  | read key next => read key fun v => (next v).bind f
  | write key value next => write key value (next.bind f)
  | emit topic data next => emit topic data (next.bind f)
  | sense next => sense fun v => (next v).bind f
  | send dest amount next => send dest amount fun v => (next v).bind f
  | queue call next => queue call fun v => (next v).bind f
  | note a b next => note a b (next.bind f)

instance : Monad Code where
  pure := done
  bind m f := m.bind f

theorem bind_done (m : Code α) : m.bind done = m := by
  induction m with
  | done | leave => rfl
  | read _ _ ih | sense _ ih | send _ _ _ ih | queue _ _ ih => simp only [Code.bind, ih]
  | write _ _ _ ih | emit _ _ _ ih | note _ _ _ ih => rw [Code.bind, ih]

theorem bind_bind (m : Code α) (f : α → Code β) (g : β → Code γ) :
    (m.bind f).bind g = m.bind fun a => (f a).bind g := by
  induction m with
  | done | leave => rfl
  | read _ _ ih | sense _ ih | send _ _ _ ih | queue _ _ ih => simp only [Code.bind, ih]
  | write _ _ _ ih | emit _ _ _ ih | note _ _ _ ih => simp only [Code.bind, ih]

instance : LawfulMonad Code := LawfulMonad.mk'
  Code bind_done (fun _ _ => rfl) bind_bind

/-! ## Without regard to fuel -/

/-- Runs a program on a host that can always be paid. -/
def plain : Code α → Prog Frame Exit α
  | done a => pure a
  | leave e => stop e
  | read key next => fun s => (next s.storage[key]?).plain s
  | write key value next => fun s => next.plain (s.written key value)
  | emit topic data next => fun s => next.plain (s.emitted topic data)
  | sense next => fun s => (next s.senses).plain s
  | send dest amount next => fun s =>
      if s.CanSend amount then (next true).plain (s.sending dest amount)
      else (next false).plain s
  | queue call next => fun s =>
      if s.CanQueue then (next true).plain (s.queued call) else (next false).plain s
  | note a b next => fun s => next.plain (s.noted a b)

theorem run_plain_send (dest : AccountId) (amount : U128) (next : Bool → Code α) (s : Frame) :
    (send dest amount next).plain.run s =
      if s.CanSend amount then (next true).plain.run (s.sending dest amount)
      else (next false).plain.run s := rfl

theorem run_plain_queue (call : PendingCall) (next : Bool → Code α) (s : Frame) :
    (queue call next).plain.run s =
      if s.CanQueue then (next true).plain.run (s.queued call)
      else (next false).plain.run s := rfl

theorem plain_bind (m : Code α) (f : α → Code β) :
    (m >>= f).plain = m.plain >>= fun a => (f a).plain := by
  change (m.bind f).plain = _
  induction m with
  | done | leave => rfl
  | read _ _ ih | sense _ ih =>
    funext s
    simp only [Code.bind, plain, ih]
    rfl
  | write _ _ _ ih | emit _ _ _ ih | note _ _ _ ih =>
    funext s
    simp only [Code.bind, plain, ih]
    rfl
  | send _ _ _ ih | queue _ _ ih =>
    funext s
    simp only [Code.bind, plain, ih, Bind.bind, Prog.bind]
    split <;> rfl

end Code

/-! ## With fuel -/

/-- The fuel of a call. What the instructions before each request cost is up
to the compiled code. -/
structure Tank where
  fuel : Nat
  work : Nat → Nat
  requests : Nat := 0
  /-- A request other than an event was refused for want of fuel. -/
  refused : Bool := false

/-- The instructions up to a request, and the request: `out` when the
instructions can not be paid, otherwise `next` with whether the request was. -/
def Tank.ask {ρ : Type} (t : Tank) (cost : Nat) (out : ρ) (next : Bool → Tank → ρ) : ρ :=
  let left := t.fuel - t.work t.requests
  if t.fuel < t.work t.requests then out
  else if left < cost then
    next false { t with fuel := left, requests := t.requests + 1, refused := true }
  else next true { t with fuel := left - cost, requests := t.requests + 1 }

/-- The three ways a request can end. -/
theorem Tank.ask_cases {ρ : Type} (t : Tank) {cost : Nat} {out : ρ} {next : Bool → Tank → ρ}
    (P : ρ → Prop) (hout : P out)
    (hrefused : ∀ fuel, P (next false ⟨fuel, t.work, t.requests + 1, true⟩))
    (hpaid : ∀ fuel, P (next true ⟨fuel, t.work, t.requests + 1, t.refused⟩)) :
    P (t.ask cost out next) := by
  unfold Tank.ask
  dsimp only
  split
  · exact hout
  · split
    · exact hrefused _
    · exact hpaid _

def outOfFuel : Exit := .trapped "all fuel consumed by WebAssembly"

namespace Code

variable {α : Type}

abbrev Final (α : Type) := Except Exit α × Frame × Tank

/-- Runs a program on the host as it is. A transfer of nothing is refused
before it is paid. -/
def metered : Code α → Frame → Tank → Final α
  | done a, s, t => (.ok a, s, t)
  | leave e, s, t => (.error e, s, t)
  | read key next, s, t =>
      t.ask (Vm.storageReadFuel key.length).toNat (.error outOfFuel, s, t) fun paid t =>
        (next (if paid then s.storage[key]? else none)).metered s t
  | write key value next, s, t =>
      t.ask (Vm.storageWriteFuel key.length value.length).toNat (.error outOfFuel, s, t)
        fun paid t => next.metered (if paid then s.written key value else s) t
  | emit topic data next, s, t =>
      t.ask (Vm.storageWriteFuel (ascii topic).length data.length).toNat (.error outOfFuel, s, t)
        fun paid t' =>
          next.metered (if paid then s.emitted topic data else s) { t' with refused := t.refused }
  | sense next, s, t =>
      t.ask 0 (.error outOfFuel, s, t) fun _ t => (next s.senses).metered s t
  | send dest amount next, s, t =>
      t.ask (if amount = 0#128 then 0 else Vm.transferFuel.toNat) (.error outOfFuel, s, t) fun paid t =>
        if paid ∧ s.CanSend amount then (next true).metered (s.sending dest amount) t
        else (next false).metered s t
  | queue call next, s, t =>
      t.ask (Vm.queueFuel call.method.length call.args.length).toNat (.error outOfFuel, s, t)
        fun paid t =>
          if paid ∧ s.CanQueue then (next true).metered (s.queued call) t
          else (next false).metered s t
  | note a b next, s, t => next.metered (s.noted a b) t

/-- What was refused stays refused. -/
theorem refused_metered (c : Code α) (s : Frame) (t : Tank) (ht : t.refused = true) :
    (c.metered s t).2.2.refused = true := by
  induction c generalizing s t with
  | done | leave => exact ht
  | note _ _ _ ih => exact ih _ _ ht
  | read _ _ ih | sense _ ih =>
    exact t.ask_cases (fun r : Final α => r.2.2.refused = true) ht (fun _ => ih _ _ _ rfl)
      fun _ => ih _ _ _ ht
  | write _ _ _ ih =>
    exact t.ask_cases (fun r : Final α => r.2.2.refused = true) ht (fun _ => ih _ _ rfl)
      fun _ => ih _ _ ht
  | emit _ _ _ ih =>
    exact t.ask_cases (fun r : Final α => r.2.2.refused = true) ht (fun _ => ih _ _ ht)
      fun _ => ih _ _ ht
  | send _ _ _ ih | queue _ _ ih =>
    refine t.ask_cases (fun r : Final α => r.2.2.refused = true) ht (fun _ => ?_) fun _ => ?_
    · rw [if_neg (by simp)]
      exact ih _ _ _ rfl
    · split
      · exact ih _ _ _ ht
      · exact ih _ _ _ ht

/-- The two runs end alike, or the instructions could not be paid. -/
def Agrees (r : Final α) (r' : Except Exit α × Frame) : Prop :=
  r.2.2.refused = false → r.1 = .error outOfFuel ∨ r.1 = r'.1 ∧ r.2.1.Alike r'.2

/-- A request on both sides, when a refusal is excluded. -/
theorem Agrees.ask {t : Tank} {s : Frame} {cost : Nat} {c : Code α} {u : Frame}
    {next : Bool → Tank → Final α} {r : Except Exit α × Frame}
    (hrefused : ∀ t', next false t' = c.metered u t')
    (hpaid : ∀ t', Agrees (next true t') r) :
    Agrees (t.ask cost (.error outOfFuel, s, t) next) r := by
  refine t.ask_cases (Agrees · r) (fun _ => .inl rfl) (fun _ hr => ?_) fun _ => hpaid _
  rw [hrefused, refused_metered _ _ _ rfl] at hr
  cases hr

/-- As long as nothing is refused, fuel makes no difference except for the
events. -/
theorem metered_agrees (c : Code α) (s s' : Frame) (t : Tank) (hs : s.Alike s') :
    Agrees (c.metered s t) (c.plain.run s') := by
  have hsenses : s.senses = s'.senses := by
    rw [Frame.senses, hs.ctx, Frame.senses]
  induction c generalizing s s' t with
  | done | leave => exact fun _ => .inr ⟨rfl, hs⟩
  | note a b next ih =>
    refine ih _ _ t ⟨hs.ctx, hs.storage, hs.nativeTransfers, hs.pendingCalls, ?_⟩ hsenses
    rw [Frame.noted, Frame.noted, hs.overflowed]
  | read key next ih =>
    refine .ask (fun t' => rfl) fun t' => ?_
    rw [if_pos rfl, hs.storage]
    exact ih _ s s' t' hs hsenses
  | write key value next ih =>
    refine .ask (fun t' => rfl) fun t' => ih _ _ t' ⟨hs.ctx, ?_, hs.nativeTransfers,
      hs.pendingCalls, hs.overflowed⟩ hsenses
    rw [if_pos rfl, Frame.written, Frame.written, hs.storage]
  | emit topic data next ih =>
    have halike : ∀ s₁ : Frame, s₁ = s ∨ s₁ = s.emitted topic data →
        s₁.Alike (s'.emitted topic data) := by
      rintro _ (rfl | rfl)
      · exact ⟨hs.ctx, hs.storage, hs.nativeTransfers, hs.pendingCalls, hs.overflowed⟩
      · exact ⟨hs.ctx, hs.storage, hs.nativeTransfers, hs.pendingCalls, hs.overflowed⟩
    refine t.ask_cases (Agrees · _) (fun _ => .inl rfl) (fun _ => ?_) fun _ => ?_
    · exact ih _ _ _ (halike _ (.inl rfl)) hsenses
    · exact ih _ _ _ (halike _ (.inr rfl)) hsenses
  | sense next ih =>
    refine .ask (fun t' => rfl) fun t' => ?_
    rw [hsenses]
    exact ih _ s s' t' hs hsenses
  | send dest amount next ih =>
    refine .ask (c := next false) (u := s) (fun t' => if_neg (by simp)) fun t' => ?_
    have hcan : s.CanSend amount ↔ s'.CanSend amount := by
      rw [Frame.CanSend, hs.nativeTransfers, Frame.CanSend]
    by_cases hsend : s'.CanSend amount
    · rw [if_pos ⟨rfl, hcan.mpr hsend⟩, run_plain_send, if_pos hsend]
      refine ih _ _ _ t' ⟨hs.ctx, hs.storage, ?_, hs.pendingCalls, hs.overflowed⟩ hsenses
      rw [Frame.sending, Frame.sending, hs.nativeTransfers]
    · rw [if_neg fun h => hsend (hcan.mp h.2), run_plain_send, if_neg hsend]
      exact ih _ s s' t' hs hsenses
  | queue call next ih =>
    refine .ask (c := next false) (u := s) (fun t' => if_neg (by simp)) fun t' => ?_
    have hcan : s.CanQueue ↔ s'.CanQueue := by
      rw [Frame.CanQueue, hs.pendingCalls, Frame.CanQueue]
    by_cases hqueue : s'.CanQueue
    · rw [if_pos ⟨rfl, hcan.mpr hqueue⟩, run_plain_queue, if_pos hqueue]
      refine ih _ _ _ t' ⟨hs.ctx, hs.storage, hs.nativeTransfers, ?_, hs.overflowed⟩ hsenses
      rw [Frame.queued, Frame.queued, hs.pendingCalls]
    · rw [if_neg fun h => hqueue (hcan.mp h.2), run_plain_queue, if_neg hqueue]
      exact ih _ s s' t' hs hsenses

end Code

/-! ## Outcomes of the plain run -/

/-- What the plain run of `m` comes to from the frame `s`. -/
def Gives {α : Type} (m : Code α) (s : Frame) (Post : Except Exit α → Frame → Prop) : Prop :=
  Prog.Gives m.plain s Post

section Gives

variable {α β : Type} {m m' : Code α} {s : Frame} {Post : Except Exit α → Frame → Prop}

theorem Gives.of_run {r : Except Exit α} {s' : Frame} (h : Gives m s Post)
    (hrun : m.plain.run s = (r, s')) : Post r s' :=
  Prog.Gives.of_run h hrun

theorem Gives.mono {Post' : Except Exit α → Frame → Prop} (h : Gives m s Post)
    (hpost : ∀ r s', Post r s' → Post' r s') : Gives m s Post' :=
  hpost _ _ h

theorem Gives.bind {f : β → Code α} {m : Code β} {Mid : Except Exit β → Frame → Prop}
    (hm : Gives m s Mid) (hok : ∀ b s', Mid (.ok b) s' → Gives (f b) s' Post)
    (herror : ∀ e s', Mid (.error e) s' → Post (.error e) s') : Gives (m >>= f) s Post := by
  unfold Gives
  rw [Code.plain_bind]
  exact Prog.Gives.bind hm hok herror

/-- A sequence whose first part always ends with `b`. -/
theorem gives_bind_ok {f : β → Code α} {m : Code β} {b : β} {Q : Frame → Prop}
    (hm : Gives m s fun r s' => r = .ok b ∧ Q s')
    (h : ∀ s', Q s' → Gives (f b) s' Post) : Gives (m >>= f) s Post := by
  refine hm.bind (fun b' s' hr => ?_) (fun e s' hr => nomatch hr.1)
  obtain ⟨hb, hQ⟩ := hr
  cases hb
  exact h s' hQ

@[simp] theorem gives_pure {a : α} : Gives (pure a) s Post ↔ Post (.ok a) s := Iff.rfl

@[simp] theorem gives_ite {c : Prop} [Decidable c] :
    Gives (if c then m else m') s Post ↔ (c → Gives m s Post) ∧ (¬ c → Gives m' s Post) := by
  split
  · next h => simp [h]
  · next h => simp [h]

@[simp] theorem gives_pure_bind {a : β} {f : β → Code α} :
    Gives (pure a >>= f) s Post ↔ Gives (f a) s Post := Iff.rfl

@[simp] theorem gives_ite_bind {c : Prop} [Decidable c] {m m' : Code β} {f : β → Code α} :
    Gives ((if c then m else m') >>= f) s Post ↔
      (c → Gives (m >>= f) s Post) ∧ (¬ c → Gives (m' >>= f) s Post) := by
  split
  · next h => simp [h]
  · next h => simp [h]

end Gives

end Solen.StSolen
