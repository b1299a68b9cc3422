import Solen.Types

/-!
# Staking contract

The staking record and its operations: validator registration,
delegation, undelegation with an unbonding period, key rotation, and
the eligibility queries reward distribution reads. Operations that
fail return the record's error and change nothing.

Plain additions on stakes wrap at 128 bits, as they do in a release
build; the operations the source writes with `saturating_*` saturate.
-/

namespace Solen

open Machine

def defaultUnbondingPeriod : U64 := 7#64

/-- 500,000 SOLEN at 8 decimals. -/
def minValidatorStake : U128 := 50000000000000#128

def defaultCommissionBps : U64 := 1000#64

inductive StakingError where
  | insufficientStake (need got : U128)
  | validatorNotFound
  | delegationNotFound
  | alreadyRegistered
  | rotationAlreadyPending
  | keyAlreadyInUse
  | tooManyUndelegations
deriving DecidableEq

def StakingError.message : StakingError → String
  | insufficientStake need got => s!"insufficient stake: need {need.toNat}, have {got.toNat}"
  | validatorNotFound => "validator not found"
  | delegationNotFound => "delegation not found"
  | alreadyRegistered => "already registered"
  | rotationAlreadyPending => "key rotation already pending"
  | keyAlreadyInUse => "new key already in use by another validator"
  | tooManyUndelegations =>
      "too many pending undelegations (max 7 per delegator-validator pair)"

structure Delegation where
  delegator : AccountId
  validator : ValidatorId
  amount : U128
  rewardDebt : U128
  eligibleFromEpoch : U64
deriving DecidableEq

structure Undelegation where
  delegator : AccountId
  validator : ValidatorId
  amount : U128
  unlockEpoch : U64
deriving DecidableEq

structure StakingValidator where
  id : ValidatorId
  selfStake : U128
  totalDelegated : U128
  accumulatedRewardPerToken : U128
  isActive : Bool
  isGenesis : Bool
  genesisLockUntil : U64
  commissionRateBps : U64
  eligibleFromEpoch : U64
  pendingNewKey : Option ValidatorId
  keyRotationEpoch : U64
deriving DecidableEq

def StakingValidator.totalStake (v : StakingValidator) : U128 := v.selfStake + v.totalDelegated

structure StakingContract where
  validators : List StakingValidator := []
  delegations : List Delegation := []
  undelegations : List Undelegation := []
  minValidatorStake : Option U128 := none
  unbondingPeriod : Option U64 := none
deriving DecidableEq

namespace StakingContract

def registerValidatorAtEpochWithConfig (c : StakingContract) (id : ValidatorId)
    (selfStake : U128) (currentEpoch : U64) (minStake : U128) :
    Except StakingError StakingContract :=
  if selfStake < minStake then
    .error (.insufficientStake minStake selfStake)
  else if c.validators.any (·.id == id) then
    .error .alreadyRegistered
  else
    .ok { c with
      validators := c.validators ++ [{
        id := id
        selfStake := selfStake
        totalDelegated := 0#128
        accumulatedRewardPerToken := 0#128
        isActive := true
        isGenesis := false
        genesisLockUntil := 0#64
        commissionRateBps := defaultCommissionBps
        eligibleFromEpoch := currentEpoch + 1#64
        pendingNewKey := none
        keyRotationEpoch := 0#64 }] }

def isDelegation (delegator : AccountId) (validator : ValidatorId) (d : Delegation) : Bool :=
  d.delegator == delegator && d.validator == validator

def delegateAtEpoch (c : StakingContract) (delegator : AccountId) (validator : ValidatorId)
    (amount : U128) (currentEpoch : U64) : Except StakingError StakingContract :=
  match c.validators.find? (·.id == validator) with
  | none => .error .validatorNotFound
  | some val =>
      let validators := c.validators.updateFirst (·.id == validator) fun v =>
        { v with totalDelegated := satAdd v.totalDelegated amount }
      let rewardDebt := satMul val.accumulatedRewardPerToken amount / 1000000#128
      let delegations :=
        if c.delegations.any (isDelegation delegator validator) then
          c.delegations.updateFirst (isDelegation delegator validator) fun d =>
            { d with
              amount := satAdd d.amount amount
              rewardDebt := satAdd d.rewardDebt rewardDebt }
        else
          c.delegations ++ [{
            delegator := delegator
            validator := validator
            amount := amount
            rewardDebt := rewardDebt
            eligibleFromEpoch := currentEpoch + 1#64 }]
      .ok { c with validators := validators, delegations := delegations }

def maxUndelegationEntries : Nat := 7

/-- The limits are checked before anything changes. -/
def undelegate (c : StakingContract) (delegator : AccountId) (validator : ValidatorId)
    (amount : U128) (currentEpoch : U64) : Except StakingError StakingContract :=
  match c.delegations.find? (isDelegation delegator validator) with
  | none => .error .delegationNotFound
  | some delegation =>
      if delegation.amount < amount then
        .error (.insufficientStake amount delegation.amount)
      else if maxUndelegationEntries ≤ (c.undelegations.filter fun u =>
          u.delegator == delegator && u.validator == validator).length then
        .error .tooManyUndelegations
      else
        let reduced := c.delegations.updateFirst (isDelegation delegator validator) fun d =>
          { d with amount := d.amount - amount }
        let delegations :=
          if delegation.amount - amount = 0#128 then
            reduced.filter fun d => !(isDelegation delegator validator d && d.amount == 0#128)
          else reduced
        .ok { c with
          delegations := delegations
          validators := c.validators.updateFirst (·.id == validator) fun v =>
            { v with totalDelegated := satSub v.totalDelegated amount }
          undelegations := c.undelegations ++ [{
            delegator := delegator
            validator := validator
            amount := amount
            unlockEpoch := currentEpoch + c.unbondingPeriod.getD defaultUnbondingPeriod }] }

/-- Removes the unlocked undelegations of a delegator and sums them up. -/
def withdrawUndelegated (c : StakingContract) (delegator : AccountId) (currentEpoch : U64) :
    StakingContract × U128 :=
  let ready := fun (u : Undelegation) =>
    u.delegator == delegator && decide (u.unlockEpoch ≤ currentEpoch)
  ({ c with undelegations := c.undelegations.filter fun u => !ready u },
    (c.undelegations.filter ready).foldl (fun total u => total + u.amount) 0#128)

def unjail (c : StakingContract) (validatorId : ValidatorId) :
    Except StakingError StakingContract :=
  match c.validators.find? (·.id == validatorId) with
  | none => .error .validatorNotFound
  | some val =>
      if val.isActive then .ok c
      else
        let minStake := c.minValidatorStake.getD Solen.minValidatorStake
        if val.selfStake < minStake then
          .error (.insufficientStake minStake val.selfStake)
        else
          .ok { c with validators := c.validators.updateFirst (·.id == validatorId) fun v =>
            { v with isActive := true } }

def rotateKey (c : StakingContract) (validatorId newKey : ValidatorId) (currentEpoch : U64) :
    Except StakingError StakingContract :=
  if c.validators.any (·.id == newKey) then .error .keyAlreadyInUse
  else match c.validators.find? (·.id == validatorId) with
    | none => .error .validatorNotFound
    | some val =>
        if val.pendingNewKey.isSome then .error .rotationAlreadyPending
        else
          .ok { c with validators := c.validators.updateFirst (·.id == validatorId) fun v =>
            { v with
              pendingNewKey := some newKey
              keyRotationEpoch := currentEpoch + 1#64 } }

/-- The rotations that have come due, as pairs of old and new key. -/
def dueRotations (c : StakingContract) (currentEpoch : U64) :
    List (ValidatorId × ValidatorId) :=
  c.validators.filterMap fun v =>
    match v.pendingNewKey with
    | some newKey => if v.keyRotationEpoch ≤ currentEpoch then some (v.id, newKey) else none
    | none => none

def applyPendingRotations (c : StakingContract) (currentEpoch : U64) :
    StakingContract × List (ValidatorId × ValidatorId) :=
  let rotated := c.dueRotations currentEpoch
  let renamed := fun (id : ValidatorId) =>
    rotated.foldl (fun id r => if id = r.1 then r.2 else id) id
  ({ c with
      validators := c.validators.map fun v =>
        match v.pendingNewKey with
        | some newKey =>
            if v.keyRotationEpoch ≤ currentEpoch then
              { v with id := newKey, pendingNewKey := none, keyRotationEpoch := 0#64 }
            else v
        | none => v
      delegations := c.delegations.map fun d => { d with validator := renamed d.validator }
      undelegations := c.undelegations.map fun u =>
        { u with validator := renamed u.validator } },
    rotated)

/-! ## Queries -/

def eligibleDelegationsForValidator (c : StakingContract) (id : ValidatorId) (epoch : U64) :
    List Delegation :=
  c.delegations.filter fun d => d.validator == id && decide (d.eligibleFromEpoch ≤ epoch)

def eligibleValidators (c : StakingContract) (epoch : U64) : List StakingValidator :=
  c.validators.filter fun v => v.isActive && decide (v.eligibleFromEpoch ≤ epoch)

def activeValidators (c : StakingContract) : List StakingValidator :=
  c.validators.filter (·.isActive)

def totalActiveStake (c : StakingContract) : U128 :=
  c.activeValidators.foldl (fun t v => t + v.totalStake) 0#128

def storageKey : Bytes := ascii "__staking_state__"

end StakingContract

end Solen
