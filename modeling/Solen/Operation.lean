import Solen.Executor

/-!
# Actions and operations

The four kinds of action, the validation of an operation with the
restrictions of session keys, and the execution of a whole operation.
-/

namespace Solen

open Machine Prog

/-! ## Actions -/

def transferGas : U64 := 100#64

def accountCreationGas : U64 := 25000#64

def deployBaseGas : U64 := 1000#64

def setAuthGas : U64 := 200#64

def maxActionsPerOp : Nat := 16

/-- 4 MB. -/
def maxCodeSize : Nat := 4194304

/-- The `Debug` form of the first four bytes of an identifier. -/
def debugId (id : AccountId) : String :=
  "[" ++ String.intercalate ", " ((id.bytes.take 4).map fun b => toString b.toNat) ++ "]"

section

variable {base : Store} (E : Platform)

def transferAction (sender dest : AccountId) (amount : U128) : ExecM base U64 := do
  let existing ← onState (getAccount E dest)
  onState (transfer E sender dest amount)
  emit (transferEvent sender dest amount)
  pure (if existing.isNone then transferGas + accountCreationGas else transferGas)

def callAction (height : Nat) (policy : Option SubcallPolicy) (sender target : AccountId)
    (method : String) (args : Bytes) (msgValue : U128) : ExecM base U64 := do
  modify fun s => { s with fuelBudget := maxCallTreeFuel }
  dispatchContractCall E height policy (maxCallDepth + 1) sender target (asBytes method) args
    msgValue

/-- A threshold must be reachable and a guardian must exist. -/
def checkAuthMethod (m : AuthMethod) : ExecM base Unit :=
  match m with
  | .threshold signers threshold =>
      stopIf (threshold = 0#16 ∨ signers.length < threshold.toNat)
        (refused s!"invalid threshold: {threshold.toNat} of {signers.length} signers")
  | .guardian guardianId => do
      let existing ← onState (getAccount E guardianId)
      stopIf (existing.isNone = true)
        (refused s!"guardian account does not exist: {debugId guardianId}")
  | _ => pure ()

def setAuthAction (sender : AccountId) (authMethods : List AuthMethod) : ExecM base U64 := do
  stopIf (authMethods = []) (refused "auth_methods cannot be empty")
  each (checkAuthMethod E) authMethods
  let account ← onState (requireAccount E sender)
  saveAccount E { account with authMethods := authMethods }
  emit ⟨sender, ascii "set_auth", [UInt8.ofNat authMethods.length]⟩
  pure setAuthGas

/-- The address a deployment creates. -/
def deployAddress (sender : AccountId) (salt codeHash : Hash) : AccountId :=
  E.blake3 (sender.bytes ++ salt.bytes ++ codeHash.bytes)

/-- Only an account with code counts as a collision; any other account at the
new address is overwritten. -/
def checkDeployAddress (newId : AccountId) : ExecM base Unit := do
  match ← attempt (getAccount E newId) with
  | .ok (some existing) => do
      modify fun s => { s with collisions := s.collisions ++ [newId] }
      stopIf (existing.codeHash ≠ Hash.zero) (refused "contract address already exists")
  | _ => pure ()

/-- The new account takes over the authentication methods of its creator. -/
def createContract (sender newId : AccountId) (codeHash : Hash) : ExecM base U64 := do
  let owner ← attempt (getAccount E sender)
  let authMethods :=
    match owner with
    | .ok (some a) => a.authMethods
    | _ => []
  saveAccount E { emptyAccount newId with codeHash := codeHash, authMethods := authMethods }
  emit ⟨sender, ascii "deploy", newId.bytes⟩
  pure deployBaseGas

def deployAction (sender : AccountId) (code : Bytes) (salt : Hash) : ExecM base U64 := do
  stopIf (maxCodeSize < code.length)
    (refused s!"contract too large: {code.length} bytes (max {maxCodeSize})")
  let codeHash ← onState (storeBytecode E code)
  let newId := deployAddress E sender salt codeHash
  checkDeployAddress E newId
  createContract E sender newId codeHash

def executeAction (height : Nat) (policy : Option SubcallPolicy) (sender : AccountId)
    (msgValue : U128) : Action → ExecM base U64
  | .transfer dest amount => transferAction E sender dest amount
  | .call target method args => callAction E height policy sender target method args msgValue
  | .setAuth authMethods => setAuthAction E sender authMethods
  | .deploy code salt => deployAction E sender code salt

/-- The transfers made to each target and not yet seen by a call. -/
abbrev PendingTransfers := Std.ExtTreeMap AccountId U128

/-- What an action does to the pending transfers, and the value it passes on. -/
def takeMsgValue (pending : PendingTransfers) : Action → U128 × PendingTransfers
  | .transfer dest amount =>
      (0#128, pending.insert dest (satAdd (pending[dest]?.getD 0#128) amount))
  | .call target _ _ => (pending[target]?.getD 0#128, pending.erase target)
  | _ => (0#128, pending)

/-- One action of an operation. A call to a system contract goes straight to
it; its gas counts even when it fails. -/
def operationAction (height : Nat) (policy : Option SubcallPolicy) (sender : AccountId)
    (msgValue : U128) (action : Action) : Prog (ExecState base) String Unit :=
  match action with
  | .call target method args =>
      if System.isSystemContract target then do
        recordCall target
        let r ← callSystem E sender target method args
        addGas r.gasUsed
        match r.error with
        | some e => stop e
        | none => pure ()
      else do
        let gas ← mapError ExecutionError.message
          (executeAction E height policy sender msgValue action)
        addGas gas
  | _ => do
      let gas ← mapError ExecutionError.message
        (executeAction E height policy sender msgValue action)
      addGas gas

def operationActions (height : Nat) (policy : Option SubcallPolicy) (sender : AccountId) :
    List Action → PendingTransfers → Prog (ExecState base) String Unit
  | [], _ => pure ()
  | action :: rest, pending => do
      operationAction E height policy sender (takeMsgValue pending action).1 action
      operationActions height policy sender rest (takeMsgValue pending action).2

end

/-! ## Validation -/

structure PreparedOp where
  sessionCharge : Option (Bytes × U128) := none
  subcallPolicy : Option SubcallPolicy := none
deriving DecidableEq

def sessionSpentKey (owner : AccountId) (sessionKey : Hash) : Bytes :=
  ascii "session_spent/" ++ asBytes (hexEncode owner.bytes) ++ ascii "/" ++
    asBytes (hexEncode sessionKey.bytes)

/-- What one action counts towards a session's limits. Calls to system
contracts are read at the offset where most of them carry an amount. -/
def actionSpend : Action → U128
  | .transfer _ amount => amount
  | .call target _ args =>
      if System.isSystemContract target ∧ 48 ≤ args.length then
        (readU128 args (if target = System.bridgeAddress then 8 else 32)).getD 0#128
      else 0#128
  | _ => 0#128

def operationSpend (op : UserOperation) : U128 :=
  op.actions.foldl (fun t a => t + actionSpend a) 0#128

/-- What a session key may never do. -/
def sessionForbids : Action → Option String
  | .setAuth _ => some "session keys cannot modify account auth methods"
  | .deploy _ _ => some "session keys cannot deploy contracts"
  | .call target method _ =>
      if target = System.guardianAddress then some "session keys cannot call guardian recovery"
      else if target = System.governanceAddress ∧
          ("propose".toList.isPrefixOf method.toList ∨ method = "finalize" ∨
            method = "execute") then
        some "session keys cannot create or execute governance proposals"
      else none
  | .transfer _ _ => none

def outsideTargets (allowed : List AccountId) : Action → Option String
  | .call target _ _ =>
      if target ∉ allowed then some "session key not authorized for this target" else none
  | .transfer dest _ =>
      if dest ∉ allowed then some "session key not authorized for this target" else none
  | _ => none

def outsideMethods (allowed : List String) : Action → Option String
  | .call _ method _ =>
      if method ∉ allowed then some s!"session key not authorized for method: {method}"
      else none
  | _ => none

section

variable {σ : Type} [StateStore σ] (E : Platform)

/-- Stops with the first reason `f` finds in a list. -/
def refuseFirst {α : Type} (f : α → Option String) (l : List α) :
    Prog σ ExecutionError Unit :=
  match l.findSome? f with
  | some msg => stop (refused msg)
  | none => pure ()

def priorSpend (key : Bytes) (s : σ) : U128 := (readConfigU128 key s).getD 0#128

/-- The restrictions of a session key. Ends with the budget charge to commit
if the operation succeeds. -/
def checkSession (op : UserOperation) (sessionKey : Hash) (expiresAt : U64)
    (spendingLimit budgetTotal : U128) (allowedTargets : List AccountId)
    (allowedMethods : List String) (restrictSubcalls : Bool) :
    Prog σ ExecutionError PreparedOp := do
  let height ← reads fun s => (currentHeight s).getD 0
  stopIf (expiresAt.toNat < height) (refused "session key expired")
  let spend := operationSpend op
  stopIf (0#128 < spendingLimit ∧ spendingLimit < spend)
    (refused s!"session spending limit exceeded: {spend.toNat} > {spendingLimit.toNat}")
  let key := sessionSpentKey op.sender sessionKey
  let prior ← reads (priorSpend key)
  let newTotal := satAdd prior spend
  stopIf (0#128 < budgetTotal ∧ budgetTotal < newTotal)
    (refused s!"session budget exhausted: {prior.toNat} + {spend.toNat} > {budgetTotal.toNat}")
  (if allowedTargets = [] then pure () else refuseFirst (outsideTargets allowedTargets) op.actions)
  refuseFirst sessionForbids op.actions
  (if allowedMethods = [] then pure () else refuseFirst (outsideMethods allowedMethods) op.actions)
  pure
    { sessionCharge :=
        if 0#128 < budgetTotal ∧ 0#128 < spend then some (key, newTotal) else none
      subcallPolicy :=
        if restrictSubcalls = true ∧ (allowedTargets ≠ [] ∨ allowedMethods ≠ []) then
          some ⟨allowedTargets, allowedMethods⟩
        else none }

/-- The session method a 64-byte signature belongs to. -/
def matchesSession (msg signature : Bytes) : AuthMethod → Bool
  | .session sessionKey _ _ _ _ _ _ =>
      decide (signature.length = 64) && E.ed25519Verify sessionKey msg signature
  | _ => false

def checkSignature (X : BlockExecutor) (op : UserOperation) (height : Nat)
    (account : Account) : Prog σ ExecutionError PreparedOp := do
  let msg := op.signingMessage E X.chainId
  let pqEnabled := decide (X.pqAuthHeight ≤ height)
  stopIf ((account.authMethods.any fun m =>
    (verifyAuth E m msg op.signature pqEnabled).isSome) = false) .invalidSignature
  match account.authMethods.find? (matchesSession E msg op.signature) with
  | some (.session key expiresAt limit budget targets methods restrict) =>
      checkSession op key expiresAt limit budget targets methods restrict
  | _ => pure {}

/-- The nonce is consumed last, once everything else has been accepted. -/
def validateAndPrepare (X : BlockExecutor) (op : UserOperation) (height : Nat) :
    Prog σ ExecutionError PreparedOp := do
  match ← mapError .state (getAccount E op.sender) with
  | none => stop (.accountNotFound (debugId op.sender))
  | some account =>
      if isSystemAuthorized op then pure {}
      else do
        let prepared ← checkSignature E X op height account
        mapError .state (consumeNonce E op.sender op.nonce)
        pure prepared

end

/-! ## Operations -/

/-- What an operation leaves behind. The fee taken from the sender, the part
of it credited to the treasury, and the two logs are kept for
specifications. -/
structure OpOutcome (base : Store) where
  receipt : ExecutionReceipt
  store : OverlayStore base
  feePaid : U128 := 0#128
  treasuryCredit : U128 := 0#128
  calls : List AccountId := []
  collisions : List AccountId := []

def receiptOf (op : UserOperation) (gasUsed : U64) (error : Option String)
    (events : List Event) : ExecutionReceipt where
  sender := op.sender
  nonce := op.nonce
  success := error.isNone
  gasUsed := gasUsed
  error := error
  events := events
  authMethod := "ed25519"

section

variable {base : Store} (E : Platform) (X : BlockExecutor)

def deployRefusal : Action → Option String
  | .deploy code _ =>
      if maxCodeSize < code.length then
        some s!"contract too large: {code.length} bytes (max {maxCodeSize})"
      else match E.vmValidateBytecode code with
        | .error e => some s!"invalid WASM bytecode: {e.message}"
        | .ok () => none
  | _ => none

/-- Checks that need no state. -/
def precheck (op : UserOperation) : Option String :=
  if maxActionsPerOp < op.actions.length then
    some s!"too many actions: {op.actions.length} (max {maxActionsPerOp})"
  else op.actions.findSome? (deployRefusal E)

/-- Sets the signed maximum fee aside, as far as the balance reaches. -/
def reserveFee {ε : Type} (op : UserOperation) : Prog (ExecState base) ε U128 := do
  match ← attempt (getAccount E op.sender) with
  | .ok (some acct) => do
      let reserve := umin op.maxFee acct.balance
      saveAccount E { acct with balance := acct.balance - reserve }
      pure reserve
  | _ => pure 0#128

/-- The fee for `gasUsed`, from the fix height on capped by the signed maximum. -/
def cappedFee (op : UserOperation) (height : Nat) (feeConfig : FeeConfig) (gasUsed : U64) :
    U128 :=
  if X.feeFixHeight ≤ height then umin (feeConfig.calculateFee gasUsed) op.maxFee
  else feeConfig.calculateFee gasUsed

/-- After a rollback: consumes the nonce if that has not happened yet, and
takes the fee. Ends with the amount taken. -/
def chargeFailure (op : UserOperation) (height : Nat) (gasUsed : U64) :
    Prog (OverlayStore base) Empty U128 := do
  let _ ← attempt (consumeNonce E op.sender op.nonce)
  let fee := cappedFee X op height X.feeConfig gasUsed
  if 0#128 < fee then do
    match ← attempt (requireAccount E op.sender) with
    | .ok acct => do
        saveAccount E { acct with balance := satSub acct.balance fee }
        pure (umin acct.balance fee)
    | .error _ => pure 0#128
  else pure 0#128

def burnRateKey : Bytes := ascii "__config_burn_rate__"

/-- The configured burn rate takes the place of the built-in one. -/
def effectiveFeeConfig (s : ExecState base) : FeeConfig :=
  match StateStore.get s burnRateKey with
  | some data =>
      if 8 ≤ data.length then
        { X.feeConfig with burnRateBps := BitVec.ofNat 64 (fromLeBytes (data.take 8)) }
      else X.feeConfig
  | none => X.feeConfig

/-- Credits the treasury if it exists; ends with the amount credited. -/
def creditTreasury {ε : Type} (treasury : AccountId) (share : U128) :
    Prog (ExecState base) ε U128 := do
  if 0#128 < share then
    match ← attempt (getAccount E treasury) with
    | .ok (some acct) => do
        saveAccount E { acct with balance := satAdd acct.balance share }
        pure share
    | _ => pure 0#128
  else pure 0#128

/-- Returns the reserve and takes the fee; ends with the amounts taken and
credited. Below the fix height the full fee is split even when the sender
could not pay it. -/
def settleFees {ε : Type} (op : UserOperation) (height : Nat) (reserved : U128) :
    Prog (ExecState base) ε (U128 × U128) := do
  let feeConfig ← reads (effectiveFeeConfig X)
  let gasUsed ← reads (·.gasUsed)
  let totalFee := cappedFee X op height feeConfig gasUsed
  if 0#128 < reserved ∨ 0#128 < totalFee then
    match ← attempt (getAccount E op.sender) with
    | .ok (some acct) => do
        let available := satAdd acct.balance reserved
        let feePaid := if X.feeFixHeight ≤ height then umin totalFee available else totalFee
        saveAccount E { acct with balance := satSub available feePaid }
        let credit ← creditTreasury E feeConfig.treasuryAccount
          (feeConfig.treasuryAmount feePaid)
        emit ⟨op.sender, ascii "fee", le128 feePaid⟩
        pure (umin feePaid available, credit)
    | _ => pure (0#128, 0#128)
  else pure (0#128, 0#128)

/-- The fee reserve and the actions; ends with the reserved amount. -/
def reserveAndRun (op : UserOperation) (height : Nat) (policy : Option SubcallPolicy) :
    Prog (ExecState base) String U128 := do
  let reserved ← reserveFee E op
  operationActions E height policy op.sender op.actions ∅
  pure reserved

def commitSessionCharge (charge : Option (Bytes × U128)) (o : OverlayStore base) :
    OverlayStore base :=
  match charge with
  | some (key, total) => o.put key (le128 total)
  | none => o

/-- An action failed: everything since the savepoint is undone. -/
def failOperation (op : UserOperation) (height : Nat) (savepoint : Changes) (msg : String)
    (s : ExecState base) : OpOutcome base :=
  let charged := (chargeFailure E X op height s.gasUsed).run (s.store.restoreSavepoint savepoint)
  { receipt := receiptOf op s.gasUsed (some msg) []
    store := charged.2
    feePaid := match charged.1 with
      | .ok fee => fee
      | .error e => e.elim
    calls := s.calls
    collisions := s.collisions }

def finishOperation (op : UserOperation) (height : Nat) (prepared : PreparedOp)
    (reserved : U128) (s : ExecState base) : OpOutcome base :=
  let settled := (settleFees E X op height reserved : Prog _ Empty _).run s
  { receipt := receiptOf op s.gasUsed none settled.2.events
    store := commitSessionCharge prepared.sessionCharge settled.2.store
    feePaid := match settled.1 with
      | .ok fees => fees.1
      | .error e => e.elim
    treasuryCredit := match settled.1 with
      | .ok fees => fees.2
      | .error e => e.elim
    calls := s.calls
    collisions := s.collisions }

def executePrepared (op : UserOperation) (height : Nat) (prepared : PreparedOp)
    (o : OverlayStore base) : OpOutcome base :=
  match (reserveAndRun E op height prepared.subcallPolicy).run { store := o } with
  | (.error msg, s) => failOperation E X op height o.savepoint msg s
  | (.ok reserved, s) => finishOperation E X op height prepared reserved s

def executeOperation (o : OverlayStore base) (op : UserOperation) (height : Nat) :
    OpOutcome base :=
  match precheck E op with
  | some msg => { receipt := receiptOf op 0#64 (some msg) [], store := o }
  | none =>
      match (validateAndPrepare E X op height).run o with
      | (.error e, o') => { receipt := receiptOf op 0#64 (some e.message) [], store := o' }
      | (.ok prepared, o') => executePrepared E X op height prepared o'

end

end Solen
