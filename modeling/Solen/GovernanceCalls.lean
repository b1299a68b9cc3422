import Solen.SystemCall

/-!
# Governance calls

A `propose_*` method takes a deposit before it looks at its arguments;
a vote is weighted by stake that was committed before the current
epoch; finalising settles the deposit; executing applies the action to
the chain configuration.
-/

namespace Solen

open Machine Prog

section

variable {σ : Type} [StateStore σ] (E : Platform)

def governanceEvent (topic : String) (data : Bytes) : Event :=
  ⟨System.governanceAddress, ascii topic, data⟩

/-! ## Proposals -/

/-- Creates a proposal whose description follows its arguments. -/
def propose (sender : AccountId) (action : ProposalAction) (description : Bytes) :
    SysM σ (CallOutcome GovernanceContract) := do
  let gov ← reads (loadGovernance E)
  let epoch ← reads readCurrentEpoch
  let created := gov.createProposal sender action (fromUtf8Lossy description) epoch
  pure ⟨created.1, [governanceEvent "proposal_created" (le64 created.2)], .ok ()⟩

/-- A proposal with one 16-byte amount. -/
def proposeAmount (sender : AccountId) (args : Bytes) (action : U128 → ProposalAction)
    (msg : String) : SysM σ (CallOutcome GovernanceContract) := do
  let value ← orErr (readU128 args 0) msg
  propose E sender (action value) (args.drop 16)

/-- A proposal with one 8-byte value, which `bad` may refuse with a message. -/
def proposeValue (sender : AccountId) (args : Bytes) (action : U64 → ProposalAction)
    (msg : String) (bad : U64 → Option String) :
    SysM σ (CallOutcome GovernanceContract) := do
  let value ← orErr (readU64 args 0) msg
  match bad value with
  | some reason => stop (err reason)
  | none => propose E sender (action value) (args.drop 8)

/-- A proposal with one account identifier. -/
def proposeAccount (sender : AccountId) (args : Bytes) (action : AccountId → ProposalAction)
    (msg : String) : SysM σ (CallOutcome GovernanceContract) := do
  let id ← orErr (readAccountId args 0) msg
  propose E sender (action id) (args.drop 32)

def accepted (_ : U64) : Option String := none

def badBurnRate (bps : U64) : Option String :=
  if 10000#64 < bps then some "burn rate cannot exceed 10000 bps (100%)" else none

def badUnbondingPeriod (period : U64) : Option String :=
  if period = 0#64 then some "unbonding period must be > 0" else none

/-! ## Votes -/

/-- A voter's own stake and delegations, as far as they were committed before
the current epoch. -/
def votingStake (staking : StakingContract) (voter : AccountId) (epoch : U64) : U128 :=
  let validatorStake := (staking.validators.filter fun v =>
    (v.id == voter && v.isActive) && decide (v.eligibleFromEpoch ≤ epoch)).foldl
      (fun t v => t + v.selfStake) 0#128
  let delegatedStake := (staking.delegations.filter fun d =>
    d.delegator == voter && decide (d.eligibleFromEpoch ≤ epoch)).foldl
      (fun t d => t + d.amount) 0#128
  satAdd validatorStake delegatedStake

def governanceVote (sender : AccountId) (args : Bytes) :
    SysM σ (CallOutcome GovernanceContract) := do
  let proposalId ← orErr (readU64 args 0) "invalid args"
  let support := (args[8]?.map (· != 0)).getD false
  let claimedWeight := (readU128 args 9).getD 1#128
  let gov ← reads (loadGovernance E)
  let epoch ← reads readCurrentEpoch
  let staking ← reads (loadStaking E)
  let actualStake := votingStake staking sender epoch
  stopIf (actualStake = 0#128) (err "voter has no stake")
  let weight := umin claimedWeight actualStake
  match gov.vote proposalId sender support weight epoch with
  | .ok gov' => pure ⟨gov', [governanceEvent "voted" (le64 proposalId)], .ok ()⟩
  | .error e => pure ⟨gov, [], .error e.message⟩

/-! ## Finalisation and execution -/

def governanceFinalize (args : Bytes) : SysM σ (CallOutcome GovernanceContract) := do
  let proposalId ← orErr (readU64 args 0) "invalid args: need proposal_id[8]"
  let gov ← reads (loadGovernance E)
  let epoch ← reads readCurrentEpoch
  let staking ← reads (loadStaking E)
  let proposer := ((gov.getProposal proposalId).map (·.proposer)).getD Hash.zero
  let deposit := ((gov.getProposal proposalId).map (·.deposit)).getD 0#128
  match gov.finalize proposalId staking.totalActiveStake epoch
      (emergencyFasttrackActive epoch) with
  | .ok (gov', status) => do
      saveGovernance E gov'
      (if 0#128 < deposit then
        creditExisting E (if status = .passed then proposer else System.treasuryAddress) deposit
      else pure ())
      let reloaded ← reads (loadGovernance E)
      pure ⟨reloaded,
        [governanceEvent "proposal_finalized" (le64 proposalId ++ ascii status.debug)], .ok ()⟩
  | .error e => pure ⟨gov, [], .error e.message⟩

def putConfig (key : String) (value : Bytes) : SysM σ Unit :=
  modify fun s => StateStore.put s (ascii key) value

/-- Moves the whole team pool into the vesting vault and returns the amount. -/
def migrateTeamPool : SysM σ U128 := do
  match ← attempt (getAccount E System.teamPoolAddress) with
  | .ok (some teamPool) => do
      (if 0#128 < teamPool.balance then do
        saveAccount E { teamPool with balance := 0#128 }
        creditOrCreate E System.vestingAddress teamPool.balance
      else pure ())
      pure teamPool.balance
  | _ => pure 0#128

/-- Applies an executed action. Returns the governance record, which one of
the actions changes, and the description for the event. -/
def applyAction (gov : GovernanceContract) (action : ProposalAction) :
    SysM σ (GovernanceContract × String) :=
  match action with
  | .setBaseFee newFee => do
      putConfig "__config_base_fee__" (le128 newFee)
      pure (gov, s!"base_fee={newFee.toNat}")
  | .setBlockTime ms => do
      putConfig "__config_block_time__" (le64 ms)
      pure (gov, s!"block_time={ms.toNat}ms")
  | .setBurnRate bps => do
      putConfig "__config_burn_rate__" (le64 bps)
      pure (gov, s!"burn_rate={bps.toNat}bps")
  | .setEpochReward newReward => do
      putConfig "__config_epoch_reward__" (le128 newReward)
      pure (gov, s!"epoch_reward={newReward.toNat}")
  | .setMinValidatorStake newMinStake => do
      putConfig "__config_min_validator_stake__" (le128 newMinStake)
      let staking ← reads (loadStaking E)
      saveStaking E { staking with minValidatorStake := some newMinStake }
      pure (gov, s!"min_validator_stake={newMinStake.toNat}")
  | .setUnbondingPeriod newPeriod => do
      putConfig "__config_unbonding_period__" (le64 newPeriod)
      let staking ← reads (loadStaking E)
      saveStaking E { staking with unbondingPeriod := some newPeriod }
      pure (gov, s!"unbonding_period={newPeriod.toNat}")
  | .emergencyPause => pure (gov, "paused")
  | .emergencyResume => pure (gov, "resumed")
  | .setBridgeRelayer relayer => do
      putConfig "__bridge_relayer__" relayer.bytes
      pure (gov, s!"bridge_relayer={hexEncode relayer.bytes}")
  | .setVestingAdmin admin => do
      let vesting ← reads (loadVesting E)
      saveVesting E (vesting.governanceSetAdmin admin)
      pure (gov, s!"vesting_admin={hexEncode admin.bytes}")
  | .migrateTeamPoolToVesting => do
      let moved ← migrateTeamPool E
      pure (gov, s!"migrated_team_pool_to_vesting={moved.toNat}")
  | .setGovernanceVotingPeriod epochs =>
      pure ({ gov with votingPeriod := epochs }, s!"voting_period={epochs.toNat}")
  | .setMaxOpsPerBlock newMax =>
      pure (gov, s!"SetMaxOpsPerBlock \x7b new_max: {newMax.toNat} \x7d")
  | .registerRollup rollupId name =>
      pure (gov, s!"RegisterRollup \x7b rollup_id: {rollupId.toNat}, name: {name.quote} \x7d")

def governanceExecute (args : Bytes) : SysM σ (CallOutcome GovernanceContract) := do
  let proposalId ← orErr (readU64 args 0) "invalid args: need proposal_id[8]"
  let gov ← reads (loadGovernance E)
  let epoch ← reads readCurrentEpoch
  match gov.execute proposalId epoch (emergencyFasttrackActive epoch) with
  | .ok (gov', action) => do
      let applied ← applyAction E gov' action
      pure ⟨applied.1,
        [governanceEvent "proposal_executed" (le64 proposalId ++ asBytes applied.2)], .ok ()⟩
  | .error e => pure ⟨gov, [], .error e.message⟩

/-! ## Dispatch -/

def governanceMethod (sender : AccountId) (method : String) (args : Bytes) :
    SysM σ (CallOutcome GovernanceContract) :=
  match method with
  | "propose_set_base_fee" =>
      proposeAmount E sender args .setBaseFee "invalid args: need new_fee[16]"
  | "propose_set_block_time" =>
      proposeValue E sender args .setBlockTime "invalid args: need new_block_time_ms[8]" accepted
  | "propose_set_burn_rate" =>
      proposeValue E sender args .setBurnRate "invalid args: need new_burn_rate_bps[8]"
        badBurnRate
  | "propose_set_epoch_reward" =>
      proposeAmount E sender args .setEpochReward "invalid args: need new_reward[16]"
  | "propose_set_min_validator_stake" =>
      proposeAmount E sender args .setMinValidatorStake "invalid args: need new_min_stake[16]"
  | "propose_set_unbonding_period" =>
      proposeValue E sender args .setUnbondingPeriod "invalid args: need new_period[8]"
        badUnbondingPeriod
  | "propose_set_bridge_relayer" =>
      proposeAccount E sender args .setBridgeRelayer "invalid args: need relayer[32]"
  | "propose_set_vesting_admin" =>
      proposeAccount E sender args .setVestingAdmin "invalid args: need admin[32]"
  | "propose_migrate_team_pool_to_vesting" =>
      propose E sender .migrateTeamPoolToVesting args
  | "propose_set_voting_period" =>
      proposeValue E sender args .setGovernanceVotingPeriod "invalid args: need epochs[8]"
        accepted
  | "vote" => governanceVote E sender args
  | "finalize" => governanceFinalize E args
  | "execute" => governanceExecute E args
  | _ => do
      let gov ← reads (loadGovernance E)
      pure ⟨gov, [], .error s!"unknown governance method: {method}"⟩

def isProposalMethod (method : String) : Bool :=
  "propose_".toList.isPrefixOf method.toList

def executeGovernanceCall (sender : AccountId) (method : String) (args : Bytes) :
    SysM σ SystemCallResult := do
  (if isProposalMethod method then
    debitWithReserve E sender proposalDeposit
      s!"insufficient balance for proposal deposit: need {(proposalDeposit + minFeeReserve).toNat} (1,000 SOLEN + fee reserve)"
  else pure ())
  let outcome ← governanceMethod E sender method args
  saveGovernance E outcome.record
  match outcome.result with
  | .ok () => pure outcome.toResult
  | .error _ => do
      (if isProposalMethod method then creditExisting E sender proposalDeposit else pure ())
      pure outcome.toResult

end

end Solen
