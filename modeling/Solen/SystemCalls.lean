import Solen.StakingCalls
import Solen.GovernanceCalls
import Solen.BridgeCalls
import Solen.VestingCalls
import Solen.GuardianCalls

/-!
# System call routing
-/

namespace Solen

open Machine Prog

variable {σ : Type} [StateStore σ] (E : Platform)

def systemCall (sender target : AccountId) (method : String) (args : Bytes) :
    SysM σ SystemCallResult :=
  if target = System.stakingAddress then executeStakingCall E sender method args
  else if target = System.governanceAddress then executeGovernanceCall E sender method args
  else if target = System.bridgeAddress then executeBridgeCall E sender method args
  else if target = System.treasuryAddress then executeTreasuryCall E method
  else if target = System.vestingAddress then executeVestingCall E sender method args
  else if target = System.intentAddress then executeIntentCall E sender method args
  else if target = System.paymasterRegistryAddress then executePaymasterCall E sender method
  else if target = System.guardianAddress then executeGuardianCall E sender method args
  else pure ⟨0#64, [], some "unknown system contract"⟩

def executeSystemCall (s : σ) (sender target : AccountId) (method : String) (args : Bytes) :
    SystemCallResult × σ :=
  runSystemCall (systemCall E sender target method args) s

variable {E}

theorem executeSystemCall_state (s : σ) (sender target : AccountId) (method : String)
    (args : Bytes) :
    (executeSystemCall E s sender target method args).2 =
      ((systemCall E sender target method args).run s).2 := by
  rw [executeSystemCall, runSystemCall]
  rcases (systemCall E sender target method args).run s with ⟨r | r, s'⟩ <;> rfl

end Solen
