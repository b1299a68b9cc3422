import Solen.Types

/-!
# Governance contract

Proposals with stake-weighted votes, a voting window, and a timelock
between passing and execution. The emergency fast track is compiled in
but dormant: its activation epoch is the largest 64-bit value, which
the source treats as "off".
-/

namespace Solen

open Machine

def maxSaneVotingPeriod : U64 := 50000#64

def saneVotingPeriod : U64 := 2016#64

def timelockDelay : U64 := 3#64

def quorumBps : U64 := 3000#64

def passThresholdBps : U64 := 6667#64

def emergencyFasttrackActivationEpoch : U64 := BitVec.allOnes 64

def emergencyFasttrackActive (epoch : U64) : Bool :=
  if emergencyFasttrackActivationEpoch = BitVec.allOnes 64 then false
  else decide (emergencyFasttrackActivationEpoch ≤ epoch)

/-- 1,000 SOLEN at 8 decimals. -/
def proposalDeposit : U128 := 100000000000#128

inductive GovernanceError where
  | proposalNotFound
  | votingEnded
  | votingNotEnded
  | alreadyVoted
  | proposalNotPassed
  | timelockNotExpired
deriving DecidableEq

def GovernanceError.message : GovernanceError → String
  | proposalNotFound => "proposal not found"
  | votingEnded => "voting period ended"
  | votingNotEnded => "voting period not ended"
  | alreadyVoted => "already voted"
  | proposalNotPassed => "proposal not passed"
  | timelockNotExpired => "timelock not expired"

inductive ProposalAction where
  | setBaseFee (newFee : U128)
  | setBlockTime (newBlockTimeMs : U64)
  | setMaxOpsPerBlock (newMax : U64)
  | registerRollup (rollupId : U64) (name : String)
  | setBurnRate (newBurnRateBps : U64)
  | setEpochReward (newReward : U128)
  | setMinValidatorStake (newMinStake : U128)
  | setUnbondingPeriod (newPeriod : U64)
  | emergencyPause
  | emergencyResume
  | setBridgeRelayer (relayer : AccountId)
  | setVestingAdmin (admin : AccountId)
  | migrateTeamPoolToVesting
  | setGovernanceVotingPeriod (epochs : U64)
deriving DecidableEq

def ProposalAction.isEmergency : ProposalAction → Bool
  | emergencyPause => true
  | emergencyResume => true
  | _ => false

inductive ProposalStatus where
  | active
  | passed
  | rejected
  | executed
  | expired
deriving DecidableEq

def ProposalStatus.debug : ProposalStatus → String
  | active => "Active"
  | passed => "Passed"
  | rejected => "Rejected"
  | executed => "Executed"
  | expired => "Expired"

structure Vote where
  voter : AccountId
  support : Bool
  stakeWeight : U128
deriving DecidableEq

structure Proposal where
  id : U64
  proposer : AccountId
  action : ProposalAction
  description : String
  createdEpoch : U64
  votingEndEpoch : U64
  executeAfterEpoch : U64
  status : ProposalStatus
  votes : List Vote
  totalFor : U128
  totalAgainst : U128
  deposit : U128
deriving DecidableEq

structure GovernanceContract where
  proposals : List Proposal := []
  nextProposalId : U64 := 0#64
  isPaused : Bool := false
  votingPeriod : U64 := 0#64
deriving DecidableEq

namespace GovernanceContract

def effectiveVotingPeriod (c : GovernanceContract) : U64 :=
  if c.votingPeriod = 0#64 ∨ maxSaneVotingPeriod < c.votingPeriod then saneVotingPeriod
  else c.votingPeriod

def createProposal (c : GovernanceContract) (proposer : AccountId) (action : ProposalAction)
    (description : String) (currentEpoch : U64) : GovernanceContract × U64 :=
  let id := c.nextProposalId
  let votingEnd := currentEpoch + c.effectiveVotingPeriod
  ({ c with
      nextProposalId := id + 1#64
      proposals := c.proposals ++ [{
        id := id
        proposer := proposer
        action := action
        description := description
        createdEpoch := currentEpoch
        votingEndEpoch := votingEnd
        executeAfterEpoch := votingEnd + timelockDelay
        status := .active
        votes := []
        totalFor := 0#128
        totalAgainst := 0#128
        deposit := proposalDeposit }] }, id)

def getProposal (c : GovernanceContract) (id : U64) : Option Proposal :=
  c.proposals.find? (·.id == id)

def updateProposal (c : GovernanceContract) (id : U64) (f : Proposal → Proposal) :
    GovernanceContract :=
  { c with proposals := c.proposals.updateFirst (·.id == id) f }

def vote (c : GovernanceContract) (proposalId : U64) (voter : AccountId) (support : Bool)
    (stakeWeight : U128) (currentEpoch : U64) : Except GovernanceError GovernanceContract :=
  match c.getProposal proposalId with
  | none => .error .proposalNotFound
  | some p =>
      if p.status ≠ .active then .error .votingEnded
      else if p.votingEndEpoch < currentEpoch then .error .votingEnded
      else if p.votes.any (·.voter == voter) then .error .alreadyVoted
      else
        .ok (c.updateProposal proposalId fun p =>
          { p with
            totalFor := if support then p.totalFor + stakeWeight else p.totalFor
            totalAgainst := if support then p.totalAgainst else p.totalAgainst + stakeWeight
            votes := p.votes ++ [⟨voter, support, stakeWeight⟩] })

def quorumMet (p : Proposal) (totalStake : U128) : Bool :=
  let totalVoted := p.totalFor + p.totalAgainst
  decide (0#128 < totalStake) &&
    decide (satMul totalStake (quorumBps.setWidth 128) ≤ satMul totalVoted 10000#128)

def thresholdMet (p : Proposal) : Bool :=
  let totalVoted := p.totalFor + p.totalAgainst
  decide (0#128 < totalVoted) &&
    decide (satMul totalVoted (passThresholdBps.setWidth 128) ≤ satMul p.totalFor 10000#128)

def finalize (c : GovernanceContract) (proposalId : U64) (totalStake : U128)
    (currentEpoch : U64) (emergencyFasttrack : Bool) :
    Except GovernanceError (GovernanceContract × ProposalStatus) :=
  match c.getProposal proposalId with
  | none => .error .proposalNotFound
  | some p =>
      let emergency := emergencyFasttrack && p.action.isEmergency
      if !emergency && decide (currentEpoch ≤ p.votingEndEpoch) then .error .votingNotEnded
      else if p.status ≠ .active then .ok (c, p.status)
      else if quorumMet p totalStake && thresholdMet p then
        .ok (c.updateProposal proposalId fun p => { p with status := .passed }, .passed)
      else if emergency && decide (currentEpoch ≤ p.votingEndEpoch) then .ok (c, .active)
      else .ok (c.updateProposal proposalId fun p => { p with status := .rejected }, .rejected)

def execute (c : GovernanceContract) (proposalId : U64) (currentEpoch : U64)
    (emergencyFasttrack : Bool) :
    Except GovernanceError (GovernanceContract × ProposalAction) :=
  match c.getProposal proposalId with
  | none => .error .proposalNotFound
  | some p =>
      if p.status ≠ .passed then .error .proposalNotPassed
      else
        let emergency := emergencyFasttrack && p.action.isEmergency
        if !emergency && decide (currentEpoch < p.executeAfterEpoch) then
          .error .timelockNotExpired
        else
          let executed := c.updateProposal proposalId fun p => { p with status := .executed }
          match p.action with
          | .emergencyPause => .ok ({ executed with isPaused := true }, p.action)
          | .emergencyResume => .ok ({ executed with isPaused := false }, p.action)
          | _ => .ok (executed, p.action)

def storageKey : Bytes := ascii "__governance_state__"

end GovernanceContract

end Solen
