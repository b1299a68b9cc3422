import Solen.SystemCall

/-!
# Guardian recovery and intent calls

`execute_recovery` saves the guardian record before it touches the
account and returns without saving it again. `fulfill` debits the owner
of an intent, but only where the chain holds an authorisation record
for that intent; no code path writes such a record yet.
-/

namespace Solen

open Machine Prog

section

variable {σ : Type} [StateStore σ] (E : Platform)

/-! ## Recovery -/

def guardianEvent (topic : String) (data : Bytes) : Event :=
  ⟨System.guardianAddress, ascii topic, data⟩

def guardiansOf (a : Account) : List AccountId :=
  a.authMethods.filterMap fun m =>
    match m with
    | .guardian id => some id
    | _ => none

def guardianInitiate (sender : AccountId) (args : Bytes) :
    SysM σ (CallOutcome GuardianContract) := do
  let guardian ← reads (loadGuardian E)
  let height ← reads readMetaHeight
  let target ← orErr (readAccountId args 0)
    "invalid args: need target_account[32] + new_auth_methods_json"
  match E.authMethodsFromJson (args.drop 32) with
  | .error e => stop (err s!"invalid new_auth_methods JSON: {e}")
  | .ok newAuth => do
      match ← attempt (getAccount E target) with
      | .ok (some acct) => do
          stopIf (guardiansOf acct = []) (err "target account has no guardians configured")
          match guardian.initiateRecovery target sender newAuth (guardiansOf acct) height with
          | .ok (guardian', id) =>
              pure ⟨guardian', [guardianEvent "recovery_initiated" (target.bytes ++ le64 id)],
                .ok ()⟩
          | .error e => pure ⟨guardian, [], .error e⟩
      | _ => stop (err "target account not found")

def guardianConfirm (sender : AccountId) (args : Bytes) :
    SysM σ (CallOutcome GuardianContract) := do
  let guardian ← reads (loadGuardian E)
  let recoveryId ← orErr (readU64 args 0) "invalid args: need recovery_id[8]"
  match guardian.confirmRecovery recoveryId sender with
  | .ok guardian' =>
      pure ⟨guardian',
        [guardianEvent "recovery_confirmed" (sender.bytes ++ le64 recoveryId)], .ok ()⟩
  | .error e => pure ⟨guardian, [], .error e⟩

def guardianCancel (sender : AccountId) (args : Bytes) :
    SysM σ (CallOutcome GuardianContract) := do
  let guardian ← reads (loadGuardian E)
  let recoveryId ← orErr (readU64 args 0) "invalid args: need recovery_id[8]"
  match guardian.cancelRecovery recoveryId sender with
  | .ok guardian' =>
      pure ⟨guardian', [guardianEvent "recovery_cancelled" (le64 recoveryId)], .ok ()⟩
  | .error e => pure ⟨guardian, [], .error e⟩

def replaceAuth (target : AccountId) (newAuthMethods : List AuthMethod) : SysM σ Unit := do
  match ← attempt (getAccount E target) with
  | .ok (some acct) => saveAccount E { acct with authMethods := newAuthMethods }
  | _ => stop (err "target account not found")

def guardianExecute (args : Bytes) : SysM σ SystemCallResult := do
  let guardian ← reads (loadGuardian E)
  let height ← reads readMetaHeight
  let recoveryId ← orErr (readU64 args 0) "invalid args: need recovery_id[8]"
  let _ ← mapError err (ofExcept (guardian.canExecute recoveryId height))
  let marked ← mapError err (ofExcept (guardian.markExecuted recoveryId))
  saveGuardian E marked.1
  replaceAuth E marked.2.targetAccount marked.2.newAuthMethods
  pure (succeed [guardianEvent "recovery_executed"
    (marked.2.targetAccount.bytes ++ le64 recoveryId)])

/-- Saves the record a method leaves behind and builds the result. -/
def finishGuardian (outcome : CallOutcome GuardianContract) : SysM σ SystemCallResult := do
  saveGuardian E outcome.record
  pure outcome.toResult

def executeGuardianCall (sender : AccountId) (method : String) (args : Bytes) :
    SysM σ SystemCallResult :=
  match method with
  | "initiate_recovery" => do finishGuardian E (← guardianInitiate E sender args)
  | "confirm_recovery" => do finishGuardian E (← guardianConfirm E sender args)
  | "cancel_recovery" => do finishGuardian E (← guardianCancel E sender args)
  | "execute_recovery" => guardianExecute E args
  | _ => do
      let guardian ← reads (loadGuardian E)
      finishGuardian E ⟨guardian, [], .error s!"unknown guardian method: {method}"⟩

/-! ## Intents -/

def intentKey (intentId : U64) : Bytes := ascii s!"intent/{intentId.toNat}"

def intentAuthorized (sender : AccountId) (intentId : U64) (s : σ) : Bool :=
  match StateStore.get s (intentKey intentId) with
  | some data => decide (32 ≤ data.length) && data.take 32 == sender.bytes
  | none => false

/-- `n` pairs of recipient and amount from the front of `bs`. -/
def parseTransfers : Nat → Bytes → SysM σ (List (AccountId × U128))
  | 0, _ => pure []
  | n + 1, bs => do
      stopIf (bs.length < 48) (err "invalid args: transfer data truncated")
      let dest ← orErr (readAccountId bs 0) "invalid args: bad transfer recipient"
      let amount := (readU128 bs 32).getD 0#128
      let rest ← parseTransfers n (bs.drop 48)
      pure ((dest, amount) :: rest)

def sumTo (transfers : List (AccountId × U128)) (dest : AccountId) : U128 :=
  (transfers.filter (·.1 == dest)).foldl (fun t e => t + e.2) 0#128

def transferEvent (sender dest : AccountId) (amount : U128) : Event :=
  ⟨sender, ascii "transfer", dest.bytes ++ le128 amount⟩

/-- One transfer of a fulfilment; the total was checked up front, so the
subtraction is unguarded. -/
def intentTransfer (sender : AccountId) (events : List Event) (dest : AccountId)
    (amount : U128) : SysM σ (List Event) := do
  let acct ← mapError (fun e => ⟨systemCallGas, events, some e.message⟩)
    (requireAccount E sender)
  saveAccount E { acct with balance := acct.balance - amount }
  creditOrCreate E dest amount
  pure (events ++ [transferEvent sender dest amount])

def intentTransfers (sender : AccountId) :
    List (AccountId × U128) → List Event → SysM σ (List Event)
  | [], events => pure events
  | (dest, amount) :: rest, events => do
      let events ← intentTransfer E sender events dest amount
      intentTransfers sender rest events

def intentTip (sender solver : AccountId) (claimedTip : U128) (events : List Event) :
    SysM σ (List Event) :=
  if 0#128 < claimedTip then do
    let acct ← mapError
      (fun e => ⟨systemCallGas, events, some s!"solver tip payment failed: {e.message}"⟩)
      (requireAccount E sender)
    stopIf (acct.balance < claimedTip)
      ⟨systemCallGas, events, some "insufficient balance for solver tip (unexpected)"⟩
    saveAccount E { acct with balance := acct.balance - claimedTip }
    creditOrCreate E solver claimedTip
    pure (events ++ [⟨sender, ascii "solver_tip", solver.bytes ++ le128 claimedTip⟩])
  else pure events

/-- Checks one constraint at the front of `bs`. Ends with the bytes after it,
or with `none` where the source stops looking. -/
def checkConstraint (sender : AccountId) (transfers : List (AccountId × U128))
    (totalNeeded : U128) (events : List Event) (bs : Bytes) : SysM σ (Option Bytes) :=
  match bs with
  | [] => pure none
  | ctype :: rest =>
      if ctype = 0 then
        if rest.length < 48 then pure none
        else do
          let account := (readAccountId rest 0).getD Hash.zero
          let minAmount := (readU128 rest 32).getD 0#128
          let loaded ← attempt (getAccount E account)
          let balance :=
            match loaded with
            | .ok (some a) => a.balance
            | _ => 0#128
          stopIf (balance < minAmount) ⟨systemCallGas, events, some
            s!"constraint violated: MinBalance — account has {balance.toNat} but needs {minAmount.toNat}"⟩
          pure (some (rest.drop 48))
      else if ctype = 1 then
        if rest.length < 48 then pure none
        else do
          let account := (readAccountId rest 0).getD Hash.zero
          let maxAmount := (readU128 rest 32).getD 0#128
          stopIf (account = sender ∧ maxAmount < totalNeeded) ⟨systemCallGas, events, some
            s!"constraint violated: MaxSpend — spent {totalNeeded.toNat} but max is {maxAmount.toNat}"⟩
          pure (some (rest.drop 48))
      else if ctype = 2 then
        if rest.length < 80 then pure none
        else do
          let reqTo := (readAccountId rest 32).getD Hash.zero
          let reqMin := (readU128 rest 64).getD 0#128
          let transferred := sumTo transfers reqTo
          stopIf (transferred < reqMin) ⟨systemCallGas, events, some
            s!"constraint violated: RequireTransfer — transferred {transferred.toNat} but needs {reqMin.toNat}"⟩
          pure (some (rest.drop 80))
      else if ctype = 3 then
        if rest.length < 36 then pure none
        else pure (some (rest.drop (36 + (readU32 rest 32).getD 0)))
      else if ctype = 4 then
        if rest.length < 104 then pure none
        else do
          let inputAmount := (readU128 rest 0).getD 0#128
          let bridged := sumTo transfers System.bridgeAddress
          stopIf (bridged < inputAmount) ⟨systemCallGas, events, some
            s!"constraint violated: CrossChainSwap — bridged {bridged.toNat} but needs {inputAmount.toNat}"⟩
          pure (some (rest.drop 104))
      else pure none

def checkConstraints (sender : AccountId) (transfers : List (AccountId × U128))
    (totalNeeded : U128) (events : List Event) : Nat → Bytes → SysM σ Unit
  | 0, _ => pure ()
  | n + 1, bs => do
      match ← checkConstraint E sender transfers totalNeeded events bs with
      | some rest => checkConstraints sender transfers totalNeeded events n rest
      | none => pure ()

def intentFulfill (sender : AccountId) (args : Bytes) : SysM σ SystemCallResult := do
  stopIf (args.length < 60) (err "invalid args: too short")
  let intentId := (readU64 args 0).getD 0#64
  let solver ← orErr (readAccountId args 8) "invalid args: bad solver"
  let claimedTip := (readU128 args 40).getD 0#128
  let numTransfers := (readU32 args 56).getD 0
  let authorized ← reads (intentAuthorized sender intentId)
  stopIf (authorized = false)
    (err "fulfill: no owner-authorized on-chain intent for this id — intent settlement is disabled pending signed-intent support")
  let transfers ← parseTransfers numTransfers (args.drop 60)
  let totalNeeded := satAdd (transfers.foldl (fun t e => satAdd t e.2) 0#128) claimedTip
  (do match ← attempt (getAccount E sender) with
      | .ok (some acct) =>
          stopIf (acct.balance < totalNeeded)
            (err s!"insufficient balance for intent: need {totalNeeded.toNat} but have {acct.balance.toNat}")
      | _ => stop (err "sender account not found"))
  let events ← intentTransfers E sender transfers []
  let events ← intentTip E sender solver claimedTip events
  let afterTransfers := args.drop (60 + numTransfers * 48)
  (if 4 ≤ afterTransfers.length then
    checkConstraints E sender transfers totalNeeded events
      (fromLeBytes (afterTransfers.take 4)) (afterTransfers.drop 4)
  else pure ())
  pure (succeed (events ++ [⟨sender, ascii "intent_fulfilled", le64 intentId⟩]))

def executeIntentCall (sender : AccountId) (method : String) (args : Bytes) :
    SysM σ SystemCallResult :=
  match method with
  | "fulfill" => intentFulfill E sender args
  | _ => pure (err s!"unknown intent method: {method}")

end

end Solen
