import Solen.SystemCalls
import Solen.Auth

/-!
# Operation execution

One user operation: validation and nonce consumption, the fee reserve,
the actions in order, and then either a rollback that charges the
failure fee or the settlement of the fee.

Actions run on an `ExecState`, which is the overlay store together with
what the operation accumulates. Two of its fields are there for
specifications only: `calls` lists the target of every call made,
queued sub-calls included, and `collisions` the addresses at which a
deployment found an account already. Rolling back the store leaves
them.
-/

namespace Solen

open Machine Prog

/-! ## Configuration, receipts and errors -/

/-- The account that receives the part of the fees that is not burned. -/
def feeTreasuryAddress : AccountId where
  bytes := List.replicate 8 0xFF ++ List.replicate 8 0 ++ ascii "treasury" ++
    List.replicate 7 0 ++ [1]
  length_bytes := by decide

structure FeeConfig where
  baseFeePerGas : U128 := 1#128
  treasuryAccount : AccountId := feeTreasuryAddress
  burnRateBps : U64 := 5000#64

def FeeConfig.calculateFee (c : FeeConfig) (gasUsed : U64) : U128 :=
  satMul c.baseFeePerGas (gasUsed.setWidth 128)

def FeeConfig.treasuryAmount (c : FeeConfig) (totalFee : U128) : U128 :=
  satMul totalFee ((10000#64 - c.burnRateBps).setWidth 128) / 10000#128

/-- The height at which a dormant feature would become active. -/
def dormant : Nat := 2 ^ 64 - 1

structure BlockExecutor where
  feeConfig : FeeConfig := {}
  chainId : U64 := 0#64
  feeFixHeight : Nat := dormant
  pqAuthHeight : Nat := dormant
  epochRandomnessHeight : Nat := dormant

structure ExecutionReceipt where
  sender : AccountId
  nonce : U64
  success : Bool
  gasUsed : U64
  error : Option String
  events : List Event
  authMethod : String
deriving DecidableEq

inductive ExecutionError where
  | state (e : StateError)
  | invalidSignature
  | accountNotFound (what : String)
  | vmError (e : VmError)
deriving DecidableEq

def ExecutionError.message : ExecutionError → String
  | state e => s!"state error: {e.message}"
  | invalidSignature => "signature verification failed"
  | accountNotFound what => s!"account not found: {what}"
  | vmError e => s!"vm error: {e.message}"

/-- Most refusals of the executor are reported as a missing account. -/
def refused (msg : String) : ExecutionError := .state (.accountNotFound msg)

/-! ## Execution state -/

structure ExecState (base : Store) where
  store : OverlayStore base
  events : List Event := []
  gasUsed : U64 := 0#64
  fuelBudget : U64 := 0#64
  calls : List AccountId := []
  collisions : List AccountId := []

instance {base : Store} : StateStore (ExecState base) where
  get s k := StateStore.get s.store k
  put s k v := { s with store := StateStore.put s.store k v }
  delete s k := { s with store := StateStore.delete s.store k }
  scanPrefix s p := StateStore.scanPrefix s.store p
  entries s := StateStore.entries s.store
  get_eq s k := StateStore.get_eq s.store k
  entries_put s k v := StateStore.entries_put s.store k v
  entries_delete s k := StateStore.entries_delete s.store k

abbrev ExecM (base : Store) := Prog (ExecState base) ExecutionError

section

variable {base : Store} (E : Platform)

def emit {ε : Type} (e : Event) : Prog (ExecState base) ε Unit :=
  modify fun s => { s with events := s.events ++ [e] }

def addGas {ε : Type} (gas : U64) : Prog (ExecState base) ε Unit :=
  modify fun s => { s with gasUsed := s.gasUsed + gas }

def recordCall {ε : Type} (target : AccountId) : Prog (ExecState base) ε Unit :=
  modify fun s => { s with calls := s.calls ++ [target] }

def onState {α : Type} (m : Prog (ExecState base) StateError α) : ExecM base α :=
  mapError .state m

/-- Runs a system call on the store and keeps its events. -/
def callSystem {ε : Type} (sender target : AccountId) (method : String) (args : Bytes) :
    Prog (ExecState base) ε SystemCallResult := fun s =>
  let (r, s') := executeSystemCall E s sender target method args
  (.ok r, { s' with events := s'.events ++ r.events })

/-! ## Contract calls -/

def callBaseGas : U64 := 500#64

def maxFuelPerCall : U64 := 1000000#64

def maxCallTreeFuel : U64 := 64000000#64

def maxCallDepth : Nat := 8

structure SubcallPolicy where
  allowedTargets : List AccountId
  allowedMethods : List String
deriving DecidableEq

def SubcallPolicy.refusal (p : SubcallPolicy) (target : AccountId) (method : Bytes) :
    Option String :=
  if p.allowedTargets ≠ [] ∧ target ∉ p.allowedTargets then
    some "session key not authorized for sub-call target"
  else if p.allowedMethods ≠ [] ∧ (p.allowedMethods.any fun m => asBytes m == method) = false then
    some "session key not authorized for sub-call method"
  else none

/-- A queued call to a system contract runs with the contract as sender. -/
def dispatchSystemCall (caller target : AccountId) (method args : Bytes) : ExecM base U64 := do
  match fromUtf8 method with
  | none => stop (refused "system call method not utf-8")
  | some m => do
      let r ← callSystem E caller target m args
      match r.error with
      | some e => stop (refused s!"system call failed: {e}")
      | none => pure (callBaseGas + r.gasUsed)

/-- A native transfer out of a contract; a missing recipient is created. -/
def nativeTransfer (contract : AccountId) (t : NativeTransfer) : ExecM base Unit := do
  let acct ← onState (requireAccount E contract)
  stopIf (acct.balance < t.amount) (refused "contract insufficient balance for transfer")
  saveAccount E { acct with balance := acct.balance - t.amount }
  (do match ← attempt (requireAccount E t.dest) with
      | .ok recipient =>
          saveAccount E { recipient with balance := satAdd recipient.balance t.amount }
      | .error _ => saveAccount E { emptyAccount t.dest with balance := t.amount })
  emit ⟨contract, ascii "native_transfer", t.dest.bytes ++ le128 t.amount⟩

/-- Runs the code of a contract and commits what it returns, except for the
calls it queued. -/
def runContract (height : Nat) (caller target : AccountId) (method args : Bytes)
    (msgValue : U128) (account : Account) : ExecM base ExecutionResult := do
  let bytecode ← reads (loadBytecode account.codeHash)
  match bytecode with
  | none => stop (refused "bytecode not found")
  | some bytecode => do
      let storage ← reads (loadContractStorage target)
      let fuelBudget ← reads (·.fuelBudget)
      stopIf (fuelBudget = 0#64) (refused "operation fuel budget exhausted")
      let ctx : HostContext :=
        { caller := caller
          contractId := target
          blockHeight := height
          storage := storage
          msgValue := msgValue
          selfBalance := account.balance }
      match E.vmExecute account.codeHash bytecode (method ++ 0 :: args) ctx
          (umin fuelBudget maxFuelPerCall) with
      | .error .outOfGas => stop (refused "out of gas")
      | .error e => stop (.vmError e)
      | .ok result => do
          modify fun s => { s with fuelBudget := satSub s.fuelBudget result.gasUsed }
          onState (saveContractStorage E target result.storage)
          each (nativeTransfer E target) result.nativeTransfers
          each (fun e => emit ⟨target, e.topic, e.data⟩) result.events
          pure result

/-- Runs the queued calls in order and sums up their gas. -/
def runPending (call : PendingCall → ExecM base U64) :
    List PendingCall → U64 → ExecM base U64
  | [], total => pure total
  | p :: ps, total => do
      let gas ← call p
      runPending call ps (satAdd total gas)

/-- A contract call and everything it queues. `left` counts down the frames
that may still be opened; the frame at depth `d` runs with
`left = maxCallDepth + 1 - d`. -/
def dispatchContractCall (height : Nat) (policy : Option SubcallPolicy) :
    Nat → AccountId → AccountId → Bytes → Bytes → U128 → ExecM base U64
  | 0, _, _, _, _, _ =>
      stop (refused s!"call depth exceeded: {maxCallDepth + 1} > {maxCallDepth}")
  | left + 1, caller, target, method, args, msgValue => do
      recordCall target
      -- The outermost call was checked against the session's lists already.
      match (if left < maxCallDepth then policy.bind (·.refusal target method) else none) with
      | some msg => stop (refused msg)
      | none =>
          if System.isSystemContract target then
            dispatchSystemCall E caller target method args
          else do
            let account ← onState (requireAccount E target)
            if account.codeHash = Hash.zero then do
              emit ⟨target, asBytes s!"call:{fromUtf8Lossy method}", args⟩
              pure callBaseGas
            else do
              let result ← runContract E height caller target method args msgValue account
              runPending
                (fun p => dispatchContractCall height policy left target p.target p.method
                  p.args 0#128)
                result.pendingCalls (callBaseGas + result.gasUsed)

end

end Solen
