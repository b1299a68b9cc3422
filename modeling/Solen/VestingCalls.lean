import Solen.SystemCall

/-!
# Vesting, treasury and paymaster calls

A vesting claim computes the claimable amount from the record, moves it
from the vault to the caller, and then reloads the record from the
store before saving it.
-/

namespace Solen

open Machine Prog

section

variable {σ : Type} [StateStore σ] (E : Platform)

def vestingEvent (topic : String) (data : Bytes) : Event :=
  ⟨System.vestingAddress, ascii topic, data⟩

/-! ## Vesting -/

def vestingClaim (sender : AccountId) : SysM σ (CallOutcome VestingContract) := do
  let vesting ← reads (loadVesting E)
  let currentEpoch ← reads readCurrentEpoch
  match vesting.claim sender currentEpoch with
  | .error e => pure ⟨vesting, [], .error e.message⟩
  | .ok (_, amount) => do
      let underfunded :=
        err "vesting vault underfunded — claim unavailable until the vault is funded"
      debitCovered E System.vestingAddress amount underfunded underfunded
      creditExisting E sender amount
      -- The claim's own update of the record is dropped here.
      let reloaded ← reads (loadVesting E)
      pure ⟨reloaded, [vestingEvent "vesting_claim" (sender.bytes ++ le128 amount)], .ok ()⟩

def vestingStatus (sender : AccountId) : SysM σ (CallOutcome VestingContract) := do
  let vesting ← reads (loadVesting E)
  let currentEpoch ← reads readCurrentEpoch
  match vesting.getSchedule sender with
  | some s =>
      let vested := (s.vestedAt currentEpoch).toNat
      let claimable := (s.claimableAt currentEpoch).toNat
      pure ⟨vesting, [vestingEvent "vesting_status" (ascii
        s!"total={s.totalAmount.toNat},vested={vested},claimed={s.claimed.toNat},claimable={claimable},type={s.vestingType.debug}")],
        .ok ()⟩
  | none => pure ⟨vesting, [], .error "no vesting schedule for this account"⟩

/-- The schedule kind at offset 48 of the arguments. -/
def parseVestingType (args : Bytes) : SysM σ VestingType :=
  match (args[48]? : Option UInt8) with
  | some 0 => pure .team
  | some 1 => pure .investor
  | some 2 => pure .validator
  | some 3 => do
      let missing := "add_vesting: Custom type needs cliff_epochs[8] + total_epochs[8]"
      stopIf (args.length < 65) (err missing)
      let cliff ← orErr (readU64 args 49) missing
      let total ← orErr (readU64 args 57) missing
      pure (.custom cliff total)
  | _ => stop (err "add_vesting: invalid vesting type")

omit [StateStore σ] in
theorem parseVestingType_keeps {I : σ → Prop} (args : Bytes) :
    Keeps I (parseVestingType args) fun _ => True := by
  unfold parseVestingType
  split
  · exact Keeps.pure trivial
  · exact Keeps.pure trivial
  · exact Keeps.pure trivial
  · refine Keeps.seq Keeps.guard fun _ => Keeps.seq (orErr_keeps _ _) fun _ => ?_
    exact Keeps.done (orErr_keeps _ _)
  · exact Keeps.stop

/-- Funds a new schedule from the treasury, then adds it. -/
def vestingAdd (sender : AccountId) (args : Bytes) : SysM σ (CallOutcome VestingContract) := do
  let short := "add_vesting: invalid args (need recipient[32] + amount[16] + type[1])"
  stopIf (args.length < 49) (err short)
  let recipient ← orErr (readAccountId args 0) short
  let amount ← orErr (readU128 args 32) short
  let vestingType ← parseVestingType args
  debitCovered E System.treasuryAddress amount
    (err "add_vesting: insufficient Treasury balance")
    (err "add_vesting: Treasury account not found")
  creditOrCreate E System.vestingAddress amount
  let vesting ← reads (loadVesting E)
  let currentEpoch ← reads readCurrentEpoch
  match vesting.addScheduleAdmin sender recipient amount vestingType currentEpoch with
  | .ok vesting' =>
      pure ⟨vesting', [vestingEvent "vesting_added" (recipient.bytes ++ le128 amount)], .ok ()⟩
  | .error e => pure ⟨vesting, [], .error e.message⟩

def vestingSetAdmin (sender : AccountId) (args : Bytes) :
    SysM σ (CallOutcome VestingContract) := do
  let newAdmin ← orErr (readAccountId args 0) "set_vesting_admin: need new_admin[32]"
  let vesting ← reads (loadVesting E)
  match vesting.setAdmin sender newAdmin with
  | .ok vesting' => pure ⟨vesting', [vestingEvent "vesting_admin_set" newAdmin.bytes], .ok ()⟩
  | .error e => pure ⟨vesting, [], .error e.message⟩

def vestingMethod (sender : AccountId) (method : String) (args : Bytes) :
    SysM σ (CallOutcome VestingContract) :=
  match method with
  | "claim" => vestingClaim E sender
  | "status" => vestingStatus E sender
  | "add_vesting" => vestingAdd E sender args
  | "set_vesting_admin" => vestingSetAdmin E sender args
  | _ => do
      let vesting ← reads (loadVesting E)
      pure ⟨vesting, [], .error s!"unknown vesting method: {method}"⟩

def executeVestingCall (sender : AccountId) (method : String) (args : Bytes) :
    SysM σ SystemCallResult := do
  let outcome ← vestingMethod E sender method args
  saveVesting E outcome.record
  pure outcome.toResult

/-! ## Treasury -/

def executeTreasuryCall (method : String) : SysM σ SystemCallResult := do
  let treasury ← reads (loadTreasury E)
  match method with
  | "status" =>
      pure (succeed [⟨System.treasuryAddress, ascii "treasury_status", ascii
        s!"balance={treasury.balance.toNat},collected={treasury.totalFeesCollected.toNat},burned={treasury.totalBurned.toNat}"⟩])
  | _ => pure (err s!"unknown treasury method: {method}")

/-! ## Paymasters -/

def paymastersKey : Bytes := ascii "__paymasters__"

def loadPaymasters (s : σ) : List AccountId := loadRecord E.accountIds paymastersKey [] s

def paymasterEvent (topic : String) (data : Bytes) : Event :=
  ⟨System.paymasterRegistryAddress, ascii topic, data⟩

def executePaymasterCall (sender : AccountId) (method : String) : SysM σ SystemCallResult :=
  match method with
  | "register" => do
      (do match ← attempt (getAccount E sender) with
          | .ok (some acct) =>
              stopIf (acct.codeHash = Hash.zero) (err "only contracts can register as paymasters")
          | _ => stop (err "only contracts can register as paymasters"))
      let paymasters ← reads (loadPaymasters E)
      stopIf (sender ∈ paymasters) (err "already registered as paymaster")
      modify (saveRecord E.accountIds paymastersKey (paymasters ++ [sender]))
      pure (succeed [paymasterEvent "paymaster_registered" sender.bytes])
  | "unregister" => do
      let paymasters ← reads (loadPaymasters E)
      modify (saveRecord E.accountIds paymastersKey (paymasters.filter (· != sender)))
      pure (succeed [paymasterEvent "paymaster_unregistered" sender.bytes])
  | "list" => do
      let paymasters ← reads (loadPaymasters E)
      pure (succeed [paymasterEvent "paymaster_list" (ascii s!"{paymasters.length}")])
  | _ => pure (err s!"unknown paymaster method: {method}")

end

end Solen
