import Solen.Types

/-!
# Guardian recovery contract

Guardians of an account can jointly replace its authentication methods
after a timelock. The guardian list and the number of confirmations
needed are fixed when a recovery is initiated; at most one recovery per
account is pending at a time.
-/

namespace Solen

open Machine

def recoveryTimelockBlocks : U64 := 151200#64

def minConfirmations : Nat := 2

inductive RecoveryStatus where
  | pending
  | cancelled
  | executed
deriving DecidableEq

structure RecoveryRequest where
  id : U64
  targetAccount : AccountId
  newAuthMethods : List AuthMethod
  initiatedAt : U64
  executeAfter : U64
  confirmations : List AccountId
  guardianIds : List AccountId
  threshold : Nat
  status : RecoveryStatus
deriving DecidableEq

structure GuardianContract where
  recoveryRequests : List RecoveryRequest := []
  nextId : U64 := 0#64
deriving DecidableEq

namespace GuardianContract

/-- Majority of the guardians, or all of them when there are fewer than two. -/
def thresholdFor (guardianIds : List AccountId) : Nat :=
  if guardianIds.length < minConfirmations then guardianIds.length
  else guardianIds.length / 2 + 1

def initiateRecovery (c : GuardianContract) (targetAccount initiator : AccountId)
    (newAuthMethods : List AuthMethod) (guardianIds : List AccountId) (currentHeight : U64) :
    Except String (GuardianContract × U64) :=
  if guardianIds.isEmpty then .error "target account has no guardians"
  else if initiator ∉ guardianIds then
    .error "sender is not a guardian of the target account"
  else if c.recoveryRequests.any fun r =>
      r.targetAccount == targetAccount && r.status == .pending then
    .error "active recovery already exists for this account"
  else if newAuthMethods.isEmpty then .error "new_auth_methods cannot be empty"
  else
    let id := c.nextId
    .ok ({ c with
      nextId := id + 1#64
      recoveryRequests := c.recoveryRequests ++ [{
        id := id
        targetAccount := targetAccount
        newAuthMethods := newAuthMethods
        initiatedAt := currentHeight
        executeAfter := satAdd currentHeight recoveryTimelockBlocks
        confirmations := [initiator]
        guardianIds := guardianIds
        threshold := thresholdFor guardianIds
        status := .pending }] }, id)

def isPending (recoveryId : U64) (r : RecoveryRequest) : Bool :=
  r.id == recoveryId && r.status == .pending

def findPending (c : GuardianContract) (recoveryId : U64) : Except String RecoveryRequest :=
  match c.recoveryRequests.find? (isPending recoveryId) with
  | some r => .ok r
  | none => .error "recovery request not found or not pending"

def updatePending (c : GuardianContract) (recoveryId : U64)
    (f : RecoveryRequest → RecoveryRequest) : GuardianContract :=
  { c with recoveryRequests := c.recoveryRequests.updateFirst (isPending recoveryId) f }

def confirmRecovery (c : GuardianContract) (recoveryId : U64) (confirmer : AccountId) :
    Except String GuardianContract := do
  let r ← c.findPending recoveryId
  if confirmer ∉ r.guardianIds then .error "sender is not a guardian of the target account"
  else if confirmer ∈ r.confirmations then .error "already confirmed"
  else .ok (c.updatePending recoveryId fun r =>
    { r with confirmations := r.confirmations ++ [confirmer] })

def cancelRecovery (c : GuardianContract) (recoveryId : U64) (sender : AccountId) :
    Except String GuardianContract := do
  let r ← c.findPending recoveryId
  if r.targetAccount ≠ sender then .error "only the account owner can cancel recovery"
  else .ok (c.updatePending recoveryId fun r => { r with status := .cancelled })

def canExecute (c : GuardianContract) (recoveryId currentHeight : U64) :
    Except String RecoveryRequest := do
  let r ← c.findPending recoveryId
  if currentHeight < r.executeAfter then
    .error s!"timelock not expired: {(r.executeAfter - currentHeight).toNat} blocks remaining"
  else if r.confirmations.length < r.threshold then
    .error s!"insufficient confirmations: {r.confirmations.length} of {r.threshold} required"
  else .ok r

def markExecuted (c : GuardianContract) (recoveryId : U64) :
    Except String (GuardianContract × RecoveryRequest) := do
  let r ← c.findPending recoveryId
  .ok (c.updatePending recoveryId fun r => { r with status := .executed },
    { r with status := .executed })

def storageKey : Bytes := ascii "__guardian_state__"

end GuardianContract

end Solen
