import Solen.SystemCall

/-!
# The intent pool

Intents wait in the pool until a proposer puts a settlement for them
into a block. The best of the solutions that were submitted is taken;
without one, and after two blocks, the proposer's own solver is asked.
The settlement is a call of the intent contract that carries the
marker signature of system operations, with the transfers of the
solution and the constraints of the intent in its arguments.
-/

namespace Solen

open Machine

inductive Constraint where
  | minBalance (account : AccountId) (minAmount : U128)
  | maxSpend (account : AccountId) (maxAmount : U128)
  | requireTransfer (source dest : AccountId) (minAmount : U128)
  | requireCall (target : AccountId) (method : String)
  | crossChainSwap (inputAmount minOutput : U128) (destinationChain : U64)
      (destinationAddress outputToken : Hash)
  | custom (verifier : AccountId) (data : Bytes)
deriving DecidableEq

structure Intent where
  id : U64
  sender : AccountId
  constraints : List Constraint
  maxFee : U128
  expiryHeight : Nat
  tip : U128
deriving DecidableEq

inductive IntentStatus where
  | pending
  | matched
  | fulfilled
  | expired
  | cancelled
deriving DecidableEq

structure Solution where
  intentId : U64
  solver : AccountId
  operations : List UserOperation
  claimedTip : U128
  score : U64
  signature : Bytes
deriving DecidableEq

/-! ## The pool -/

structure IntentPool where
  intents : Std.ExtTreeMap U64 (Intent × IntentStatus)
  solutions : Std.ExtTreeMap U64 (List Solution)
  nextId : U64

namespace IntentPool

def maxSize : Nat := 10000

def maxSolutionsPerIntent : Nat := 50

def new : IntentPool := ⟨∅, ∅, 0#64⟩

def submit (pool : IntentPool) (intent : Intent) : IntentPool :=
  if maxSize ≤ pool.intents.size then pool
  else
    { pool with
      intents := pool.intents.insert pool.nextId ({ intent with id := pool.nextId }, .pending)
      nextId := pool.nextId + 1#64 }

/-- What the solver of a solution has to sign. -/
def Solution.signedMessage (s : Solution) : Bytes :=
  le64 s.intentId ++ s.solver.bytes ++ le128 s.claimedTip

def submitSolution (verify : Hash → Bytes → Bytes → Bool) (pool : IntentPool) (s : Solution) :
    IntentPool :=
  if s.signature.length ≠ 64 ∨ verify s.solver (Solution.signedMessage s) s.signature = false then
    pool
  else
    match pool.intents[s.intentId]? with
    | none => pool
    | some (_, status) =>
        let entry := pool.solutions[s.intentId]?.getD []
        if status = .fulfilled then pool
        else if maxSolutionsPerIntent ≤ entry.length then
          { pool with solutions := pool.solutions.insert s.intentId entry }
        else { pool with solutions := pool.solutions.insert s.intentId (entry ++ [s]) }

/-- Higher score first, then the smaller tip; of equal ones the last. -/
def Solution.preferred (best s : Solution) : Solution :=
  if ((compare best.score s.score).then (compare s.claimedTip best.claimedTip)) = .gt then best
  else s

def selectBestSolution (pool : IntentPool) (intentId : U64) : Option Solution :=
  match pool.solutions[intentId]?.getD [] with
  | [] => none
  | s :: rest => some (rest.foldl Solution.preferred s)

def setStatus (pool : IntentPool) (intentId : U64) (status : IntentStatus) : IntentPool :=
  match pool.intents[intentId]? with
  | some (intent, _) => { pool with intents := pool.intents.insert intentId (intent, status) }
  | none => pool

def fulfill (pool : IntentPool) (intentId : U64) : IntentPool :=
  pool.setStatus intentId .fulfilled

def cancel (pool : IntentPool) (intentId : U64) (sender : AccountId) : IntentPool :=
  match pool.intents[intentId]? with
  | some (intent, _) => if intent.sender = sender then pool.setStatus intentId .cancelled else pool
  | none => pool

def expire (pool : IntentPool) (currentHeight : Nat) : IntentPool :=
  { pool with
    intents := pool.intents.map fun _ (intent, status) =>
      (intent, if status = .pending ∧ intent.expiryHeight < currentHeight then .expired
        else status) }

/-- The pending intents by ascending id. -/
def pendingIntents (pool : IntentPool) : List Intent :=
  let pending := pool.intents.toList.filterMap fun (_, intent, status) =>
    if status = .pending then some intent else none
  pending.mergeSort fun a b => a.id ≤ b.id

end IntentPool

/-! ## Settlements -/

/-- The proposer's own solver: the transfers the intent requires. -/
def directTransferSolver (id : AccountId) (intent : Intent) : Option Solution :=
  let actions := intent.constraints.filterMap fun
    | .requireTransfer _ dest minAmount => some (Action.transfer dest minAmount)
    | _ => none
  if actions = [] then none
  else some
    { intentId := intent.id
      solver := id
      operations := [⟨intent.sender, 0#64, actions, intent.maxFee, []⟩]
      claimedTip := intent.tip / 2#128
      score := 100#64
      signature := [] }

def Solution.transfers (s : Solution) : List (AccountId × U128) :=
  s.operations.flatMap fun op => op.actions.filterMap fun
    | .transfer dest amount => some (dest, amount)
    | _ => none

/-- Custom constraints are counted but have no encoding. -/
def Constraint.encode : Constraint → Bytes
  | .minBalance account minAmount => 0 :: (account.bytes ++ le128 minAmount)
  | .maxSpend account maxAmount => 1 :: (account.bytes ++ le128 maxAmount)
  | .requireTransfer source dest minAmount =>
      2 :: (source.bytes ++ dest.bytes ++ le128 minAmount)
  | .requireCall target method =>
      let methodBytes := asBytes method
      3 :: (target.bytes ++ toLeBytes 4 methodBytes.length ++ methodBytes)
  | .crossChainSwap inputAmount minOutput destinationChain destinationAddress outputToken =>
      4 :: (le128 inputAmount ++ le128 minOutput ++ le64 destinationChain ++
        destinationAddress.bytes ++ outputToken.bytes)
  | .custom _ _ => []

def fulfillArgs (intent : Intent) (s : Solution) : Bytes :=
  le64 intent.id ++ s.solver.bytes ++ le128 s.claimedTip ++
    toLeBytes 4 s.transfers.length ++ s.transfers.flatMap (fun t => t.1.bytes ++ le128 t.2) ++
    toLeBytes 4 intent.constraints.length ++ intent.constraints.flatMap Constraint.encode

def fulfillOperation (intent : Intent) (s : Solution) : UserOperation where
  sender := intent.sender
  nonce := 0#64
  actions := [.call System.intentAddress "fulfill" (fulfillArgs intent s)]
  maxFee := intent.maxFee
  signature := [0xFF]

/-- The solution a proposer uses. An intent counts as waiting since 500
blocks before it expires. -/
def chooseSolution (proposer : AccountId) (height : Nat) (pool : IntentPool) (intent : Intent) :
    Option Solution :=
  match pool.selectBestSolution intent.id with
  | some s => some s
  | none =>
      if 2 ≤ height - (intent.expiryHeight - 500) then directTransferSolver proposer intent
      else none

/-- Settlements for the pending intents of a block on top of `height`; an
intent that gets one leaves the pool. -/
def settleIntents (proposer : AccountId) (height : Nat) (pool : IntentPool) :
    List UserOperation × IntentPool :=
  let pool := pool.expire height
  pool.pendingIntents.foldl (fun (ops, pool) intent =>
    match chooseSolution proposer height pool intent with
    | some s => (ops ++ [fulfillOperation intent s], pool.fulfill intent.id)
    | none => (ops, pool)) ([], pool)

end Solen
