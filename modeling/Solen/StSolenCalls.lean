import Solen.StSolenMethods

/-!
# Runs of the stSOLEN contract

Steps of a run, and the runs that the witnesses and counterexamples
need: scripts of a few calls that are played by evaluation (`play`). Each
call has its own fuel, so that a script can also say where it gives out.
-/

namespace Solen.StSolen

open Machine

/-! ## Inputs -/

/-- The input of a method's call. -/
def inputOf (name : String) (args : Bytes) : Bytes := ascii name ++ 0 :: args

theorem splitInput_inputOf {name : String} (hname : (ascii name).all (· != 0) = true)
    (args : Bytes) : splitInput (inputOf name args) = (ascii name, args) := by
  have htake : (inputOf name args).takeWhile (· != 0) = ascii name := by
    rw [inputOf, List.takeWhile_append_of_pos (List.all_eq_true.mp hname),
      List.takeWhile_cons_of_neg (by decide), List.append_nil]
  unfold splitInput
  dsimp only
  rw [htake, inputOf, ← List.drop_drop, List.drop_left]
  rfl

section Inputs

variable {ctx : HostContext} {tank : Tank} {name : String} {method : Method} {args : Bytes}
  {o : Outcome}

theorem callBody_inputOf (hname : (ascii name).all (· != 0) = true)
    (hmethod : Method.ofBytes? (ascii name) = some method) :
    callBody (inputOf name args) = method.run args := by
  unfold callBody
  rw [splitInput_inputOf hname, hmethod]

/-- What is known of the method's outcome holds of an answer. -/
theorem gives_of_call {Post : Except Exit Bytes → Frame → Prop}
    (hcall : call ctx tank (inputOf name args) = .ok o) (hrefused : o.refused = false)
    (hname : (ascii name).all (· != 0) = true)
    (hmethod : Method.ofBytes? (ascii name) = some method)
    (h : Gives (method.run args) (Frame.start ctx) Post) :
    ∃ r s', Answered r o.data ∧ Post r s' ∧ o.frame.Alike s' := by
  obtain ⟨r, s', hrun, hanswer, halike⟩ := call_eq_ok hcall hrefused
  rw [callBody_inputOf hname hmethod] at hrun
  exact ⟨r, s', hanswer, h.of_run hrun, halike⟩

/-- With fuel enough, a method that ends well is answered. -/
theorem Fueled.answers {data : Bytes} (h : Fueled ctx tank (inputOf name args))
    (hname : (ascii name).all (· != 0) = true)
    (hmethod : Method.ofBytes? (ascii name) = some method)
    (hpasses : Gives (method.run args) (Frame.start ctx) fun r _ => r = .ok data) :
    ∃ o, call ctx tank (inputOf name args) = .ok o ∧ o.data = data ∧ o.refused = false := by
  refine h.call_eq_ok ?_
  rw [callBody_inputOf hname hmethod]
  exact hpasses

end Inputs

/-! ## Steps -/

/-- A call that is kept and allowed, or one that is undone. No sum of a call
that is kept reaches `2 ^ 128`. -/
inductive CallStep (allowed : HostContext → Bytes → Outcome → Prop) : Store → Store → Prop where
  | kept {ctx : HostContext} {tank : Tank} {input : Bytes} {o : Outcome}
      (hcall : call ctx tank input = .ok o) (hfits : o.frame.overflowed = false)
      (hallowed : allowed ctx input o) : CallStep allowed ctx.storage o.frame.storage
  | undone (m : Store) : CallStep allowed m m

/-! ## Scripts -/

/-- A call in the first block: the caller, the value sent with it, the
balance of the contract during it, the input and the fuel. -/
structure Turn where
  caller : AccountId
  value : U128
  balance : U128
  input : Bytes
  fuel : Nat := Vm.defaultFuelLimit.toNat

def Turn.context (t : Turn) (m : Store) : HostContext :=
  ⟨t.caller, Hash.zero, 0, m, t.value, t.balance⟩

/-- Ten for the instructions before each request. -/
def Turn.tank (t : Turn) : Tank := { fuel := t.fuel, work := fun _ => 10 }

/-- Plays calls one after the other, as long as they answer `ok`, nothing
overflows and they are allowed. -/
def play (allowed : HostContext → Bytes → Outcome → Prop)
    [∀ ctx input o, Decidable (allowed ctx input o)] : List Turn → Store → Option Store
  | [], m => some m
  | t :: rest, m =>
      match call (t.context m) t.tank t.input with
      | .ok o =>
          if o.data = ascii "ok" ∧ o.frame.overflowed = false ∧
              allowed (t.context m) t.input o then play allowed rest o.frame.storage
          else none
      | .error _ => none

section Play

variable {allowed : HostContext → Bytes → Outcome → Prop}
  [∀ ctx input o, Decidable (allowed ctx input o)]

/-- What one call of a script does, for any relation between storages. -/
theorem play_cons {t : Turn} {rest : List Turn} {m m' : Store}
    (h : play allowed (t :: rest) m = some m') :
    ∃ o, call (t.context m) t.tank t.input = .ok o ∧ o.data = ascii "ok" ∧
      o.frame.overflowed = false ∧ allowed (t.context m) t.input o ∧
      play allowed rest o.frame.storage = some m' := by
  rw [play] at h
  split at h
  · next o hcall =>
      split at h
      · next hok => exact ⟨o, hcall, hok.1, hok.2.1, hok.2.2, h⟩
      · cases h
  · cases h

theorem play_run {l : List Turn} {m m' : Store} (h : play allowed l m = some m') :
    Relation.ReflTransGen (CallStep allowed) m m' := by
  induction l generalizing m with
  | nil =>
    cases h
    exact .refl
  | cons t rest ih =>
    obtain ⟨o, hcall, -, hfits, hallowed, hrest⟩ := play_cons h
    exact .head (.kept hcall hfits hallowed) (ih hrest)

end Play

/-- A script, with facts of the storage it ends with, read off by `view`. -/
theorem exists_play {α : Type} {a : α} (allowed : HostContext → Bytes → Outcome → Prop)
    [∀ ctx input o, Decidable (allowed ctx input o)] (l : List Turn) (m : Store)
    (view : Store → α) (h : (play allowed l m).map view = some a) :
    ∃ m', play allowed l m = some m' ∧ view m' = a :=
  Option.map_eq_some_iff.mp h

/-- Two scripts, the second one from where the first one ends. -/
theorem exists_play_twice {α : Type} {a : α}
    (allowed allowed' : HostContext → Bytes → Outcome → Prop)
    [∀ ctx input o, Decidable (allowed ctx input o)]
    [∀ ctx input o, Decidable (allowed' ctx input o)] (l l' : List Turn) (m : Store)
    (view : Store → Store → α)
    (h : ((play allowed l m).bind fun m₁ => (play allowed' l' m₁).map (view m₁)) = some a) :
    ∃ m₁ m₂, play allowed l m = some m₁ ∧ play allowed' l' m₁ = some m₂ ∧ view m₁ m₂ = a := by
  obtain ⟨m₁, hfirst, h⟩ := Option.bind_eq_some_iff.mp h
  obtain ⟨m₂, hsecond, hview⟩ := Option.map_eq_some_iff.mp h
  exact ⟨m₁, m₂, hfirst, hsecond, hview⟩

/-- The first account sets a pool up, with the second one as its operator,
and makes the first deposit. -/
def opening (value : U128) : List Turn :=
  let owner := Hash.repeated 1
  [{ caller := owner, value := 0#128, balance := 0#128,
      input := inputOf "init" (owner.bytes ++ owner.bytes) },
    { caller := owner, value := 0#128, balance := 0#128,
      input := inputOf "set_op_count" (le64 1#64) },
    { caller := owner, value := 0#128, balance := 0#128,
      input := inputOf "set_operator" (le64 0#64 ++ (Hash.repeated 2).bytes) },
    { caller := owner, value := value, balance := value, input := inputOf "deposit" [] }]

/-- The owner asks for part of what it holds. -/
def asking (amount : U128) (fuel : Nat) : Turn where
  caller := Hash.repeated 1
  value := 0#128
  balance := minFeeReserve
  input := inputOf "request_withdrawal" (le128 amount)
  fuel := fuel

end Solen.StSolen
