import Solen.SystemCall

/-!
# Staking calls

`register`, `delegate`, `undelegate`, `withdraw`, `slash`, `unjail` and
`rotate_key`. A method that moves funds first debits the caller, then
reloads the staking record and changes it; when the record refuses the
change, the debit is refunded. The record is saved at the end of every
method that does not return early.
-/

namespace Solen

open Machine Prog

section

variable {σ : Type} [StateStore σ] (E : Platform)

def stakingEvent (topic : String) (data : Bytes) : Event :=
  ⟨System.stakingAddress, ascii topic, data⟩

def minValidatorStakeKey : Bytes := ascii "__config_min_validator_stake__"

/-- The end of a call that debited its caller: the changed record, or a
refund when the record refused the change. -/
def recordStake (sender : AccountId) (amount : U128) (event : Event)
    (staking : StakingContract) :
    Except StakingError StakingContract → SysM σ (CallOutcome StakingContract)
  | .ok staking' => pure ⟨staking', [event], .ok ()⟩
  | .error e => do
      creditExisting E sender amount
      pure ⟨staking, [], .error e.message⟩

def stakingRegister (sender : AccountId) (args : Bytes) :
    SysM σ (CallOutcome StakingContract) := do
  let amount ← orErr (readU128 args 0) "invalid args: need amount[16]"
  let configured ← reads (readConfigU128 minValidatorStakeKey)
  let minStake := configured.getD minValidatorStake
  stopIf (amount < minStake)
    (err s!"insufficient stake: need {minStake.toNat} but got {amount.toNat}")
  debitWithReserve E sender amount "insufficient balance for registration (need fee reserve)"
  let staking ← reads (loadStaking E)
  let currentEpoch ← reads readCurrentEpoch
  recordStake E sender amount
    (stakingEvent "validator_registered" (sender.bytes ++ le128 amount)) staking
    (staking.registerValidatorAtEpochWithConfig sender amount currentEpoch minStake)

def stakingDelegate (sender : AccountId) (args : Bytes) :
    SysM σ (CallOutcome StakingContract) := do
  let validator ← orErr (readAccountId args 0) "invalid args: need validator[32] + amount[16]"
  let amount ← orErr (readU128 args 32) "invalid args: need amount[16]"
  debitWithReserve E sender amount "insufficient balance for delegation (need fee reserve)"
  let staking ← reads (loadStaking E)
  let currentEpoch ← reads readCurrentEpoch
  recordStake E sender amount (stakingEvent "delegate" (validator.bytes ++ le128 amount))
    staking (staking.delegateAtEpoch sender validator amount currentEpoch)

/-- Pays out what has matured: the record without the paid entries is saved
before the account is credited, and reloaded after. -/
def payMatured (sender : AccountId) (staking : StakingContract) :
    SysM σ (StakingContract × List Event) := do
  let currentEpoch ← reads readCurrentEpoch
  let w := staking.withdrawUndelegated sender currentEpoch
  if 0#128 < w.2 then do
    saveStaking E w.1
    creditExisting E sender w.2
    let reloaded ← reads (loadStaking E)
    pure (reloaded, [stakingEvent "withdraw" (le128 w.2)])
  else
    pure (w.1, [])

def stakingUndelegate (sender : AccountId) (args : Bytes) :
    SysM σ (CallOutcome StakingContract) := do
  let validator ← orErr (readAccountId args 0) "invalid args"
  let amount ← orErr (readU128 args 32) "invalid args"
  let currentEpoch ← reads readCurrentEpoch
  let initial ← reads (loadStaking E)
  let paid ← payMatured E sender initial
  match paid.1.undelegate sender validator amount currentEpoch with
  | .ok staking' =>
      pure ⟨staking', paid.2 ++ [stakingEvent "undelegate" (validator.bytes ++ le128 amount)],
        .ok ()⟩
  | .error e => pure ⟨paid.1, paid.2, .error e.message⟩

def stakingWithdraw (sender : AccountId) : SysM σ (CallOutcome StakingContract) := do
  let initial ← reads (loadStaking E)
  let paid ← payMatured E sender initial
  pure ⟨paid.1, paid.2, .ok ()⟩

/-! ## Slashing -/

def maxSlashBps : U64 := 1000#64

/-- Evidence for a slash: any record under `slash/<hex>`, or a downtime record. -/
def hasSlashEvidence (offender : AccountId) (s : σ) : Bool :=
  !(StateStore.scanPrefix s (ascii "slash/" ++ asBytes (hexEncode offender.bytes))).isEmpty ||
    (StateStore.get s (ascii "downtime/" ++ asBytes (hexEncode offender.bytes))).isSome

def bpsOf (amount : U128) (bps : U64) : U128 := satMul amount (bps.setWidth 128) / 10000#128

/-- Takes the penalty from the offender's own stake and from every delegation
to it, jails the offender, and returns the total taken. -/
def slashRecord (staking : StakingContract) (offender : AccountId) (penaltyBps : U64)
    (currentEpoch : U64) : StakingContract × U128 :=
  let selfPenalty :=
    match staking.validators.find? (·.id == offender) with
    | some v => bpsOf v.selfStake penaltyBps
    | none => 0#128
  let validators := staking.validators.updateFirst (·.id == offender) fun v =>
    { v with
      selfStake := satSub v.selfStake (bpsOf v.selfStake penaltyBps)
      isActive := false
      eligibleFromEpoch := currentEpoch + 1#64 }
  let delegatedPenalty := staking.delegations.foldl (fun t d =>
    if d.validator = offender then satAdd t (bpsOf d.amount penaltyBps) else t) 0#128
  let delegations := staking.delegations.map fun d =>
    if d.validator = offender then
      { d with amount := satSub d.amount (bpsOf d.amount penaltyBps) }
    else d
  let validators :=
    if 0#128 < delegatedPenalty then
      validators.updateFirst (·.id == offender) fun v =>
        { v with totalDelegated := satSub v.totalDelegated delegatedPenalty }
    else validators
  let totalPenalty :=
    if 0#128 < delegatedPenalty then satAdd (satAdd 0#128 selfPenalty) delegatedPenalty
    else satAdd 0#128 selfPenalty
  ({ staking with validators := validators, delegations := delegations }, totalPenalty)

def stakingSlash (args : Bytes) : SysM σ (CallOutcome StakingContract) := do
  let offender ← orErr (readAccountId args 0)
    "invalid args: need offender[32] + penalty_bps[8]"
  let penaltyBps := (readU64 args 32).getD 100#64
  stopIf (maxSlashBps < penaltyBps) (err "slash penalty exceeds maximum (10%)")
  let evidence ← reads (hasSlashEvidence offender)
  stopIf (evidence = false) (err "no slashing evidence found for validator")
  let staking ← reads (loadStaking E)
  let val ← orErr (staking.validators.find? (·.id == offender)) "validator not found"
  stopIf (val.isActive = false) (err "validator already inactive")
  let currentEpoch ← reads readCurrentEpoch
  let slashed := slashRecord staking offender penaltyBps currentEpoch
  let record ← (if 0#128 < slashed.2 then do
      saveStaking E slashed.1
      creditExisting E System.treasuryAddress slashed.2
      reads (loadStaking E)
    else pure slashed.1)
  pure ⟨record, [stakingEvent "slashed" (offender.bytes ++ le128 slashed.2)], .ok ()⟩

/-! ## Validator status -/

def stakingUnjail (sender : AccountId) : SysM σ (CallOutcome StakingContract) := do
  let staking ← reads (loadStaking E)
  let currentEpoch ← reads readCurrentEpoch
  (match staking.validators.find? (·.id == sender) with
  | some val =>
      stopIf (val.isActive = false ∧ currentEpoch < val.eligibleFromEpoch)
        (err s!"unjail cooldown: wait until epoch {val.eligibleFromEpoch.toNat} (current: {currentEpoch.toNat})")
  | none => pure ())
  match staking.unjail sender with
  | .ok staking' => pure ⟨staking', [stakingEvent "unjailed" sender.bytes], .ok ()⟩
  | .error e => pure ⟨staking, [], .error e.message⟩

def stakingRotateKey (sender : AccountId) (args : Bytes) :
    SysM σ (CallOutcome StakingContract) := do
  let newKey ← orErr (readAccountId args 0) "invalid args: need new_key[32]"
  let staking ← reads (loadStaking E)
  let currentEpoch ← reads readCurrentEpoch
  match staking.rotateKey sender newKey currentEpoch with
  | .ok staking' =>
      pure ⟨staking', [stakingEvent "key_rotation_requested" (sender.bytes ++ newKey.bytes)],
        .ok ()⟩
  | .error e => pure ⟨staking, [], .error e.message⟩

def stakingMethod (sender : AccountId) (method : String) (args : Bytes) :
    SysM σ (CallOutcome StakingContract) :=
  match method with
  | "register" => stakingRegister E sender args
  | "delegate" => stakingDelegate E sender args
  | "undelegate" => stakingUndelegate E sender args
  | "withdraw" => stakingWithdraw E sender
  | "slash" => stakingSlash E args
  | "unjail" => stakingUnjail E sender
  | "rotate_key" => stakingRotateKey E sender args
  | _ => do
      let staking ← reads (loadStaking E)
      pure ⟨staking, [], .error s!"unknown staking method: {method}"⟩

def executeStakingCall (sender : AccountId) (method : String) (args : Bytes) :
    SysM σ SystemCallResult := do
  let outcome ← stakingMethod E sender method args
  saveStaking E outcome.record
  pure outcome.toResult

end

end Solen
