import Solen.Machine
import Solen.Delta
import Solen.Prog
import Solen.Types
import Solen.Storage
import Solen.Staking
import Solen.Vesting
import Solen.Bridge
import Solen.Governance
import Solen.Guardian
import Solen.Text
import Solen.Platform
import Solen.State
import Solen.SystemCall
import Solen.StakingCalls
import Solen.GovernanceCalls
import Solen.BridgeCalls
import Solen.VestingCalls
import Solen.GuardianCalls
import Solen.SystemCalls
import Solen.Auth
import Solen.Executor
import Solen.Operation
import Solen.Borsh
import Solen.Block
import Solen.Wire
import Solen.Concrete
import Solen.Journal
import Solen.Atomicity
import Solen.Amounts
import Solen.CallRules
import Solen.VestingSafety
import Solen.GuardianSafety
import Solen.GovernanceLifecycle
import Solen.ProposalDeposits
import Solen.Committee
import Solen.CallFrame
import Solen.ActionFrame
import Solen.OperationFrame
import Solen.Spendable
import Solen.AccountFrame
import Solen.ExecFrame
import Solen.Replay
import Solen.Conservation
import Solen.ReadFrame
import Solen.SessionExpiry
import Solen.StateOnly
import Solen.Parallel
import Solen.BalanceFloor
import Solen.Session
import Solen.VaultSolvency
import Solen.StakingLedger
import Solen.KeyRotation
import Solen.StakeHistory
import Solen.ProRata
import Solen.EpochRewards
import Solen.VoteWeight
import Solen.CallTree
import Solen.Runtime
import Solen.ContractStorage
import Solen.StSolenHost
import Solen.StSolen
import Solen.StSolenBooks
import Solen.StSolenMethods
import Solen.StSolenCalls
import Solen.StSolenLedger
import Solen.StSolenQueue
import Solen.StSolenLiveness
import Solen.Overlay
import Solen.Backends
import Solen.HashTree
import Solen.StateRoot
import Solen.Mempool
import Solen.CallStates
import Solen.BlockFrame
import Solen.Intents
import Solen.Validators
import Solen.IntentPool
import Solen.Radix
import Solen.Address
import Solen.Proposers
import Solen.SetChange
import Solen.Threshold
import Solen.VmRuns
import Solen.CallEffects
import Solen.Ballot
import Solen.Consensus
import Solen.ForkChoice
import Solen.Engine
import Solen.Node
import Solen.ConcreteNode
import Solen.NonceOrder
import Solen.VestingClaims
import Solen.BaseFee
import Solen.Snapshot
import Solen.IntentTerms
import Solen.BlockWrites
