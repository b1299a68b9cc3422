import Solen.SystemCall

/-!
# Bridge calls

Deposits into rollup vaults, the lock and release of funds for the
external bridge, rollup registration, and batch submission under a
validity committee.
-/

namespace Solen

open Machine Prog

section

variable {σ : Type} [StateStore σ] (E : Platform)

def bridgeEvent (topic : String) (data : Bytes) : Event :=
  ⟨System.bridgeAddress, ascii topic, data⟩

/-- Unlike the other debits this one goes ahead without a debit when the
caller's account cannot be read. -/
def debitIfReadable (sender : AccountId) (amount : U128) (msg : String) : SysM σ Unit := do
  match ← attempt (requireAccount E sender) with
  | .ok acct => do
      stopIf (acct.balance < amount + minFeeReserve) (err msg)
      saveAccount E { acct with balance := acct.balance - amount }
  | .error _ => pure ()

/-- The end of a deposit: the changed record, or a refund when there is no
vault. -/
def recordDeposit (sender : AccountId) (rollupId : U64) (amount : U128)
    (bridge : BridgeContract) : SysM σ (CallOutcome BridgeContract) :=
  match bridge.deposit rollupId amount with
  | .ok bridge' => pure ⟨bridge', [bridgeEvent "deposit" (le128 amount)], .ok ()⟩
  | .error e => do
      creditExisting E sender amount
      pure ⟨bridge, [], .error e.message⟩

def bridgeDeposit (sender : AccountId) (args : Bytes) : SysM σ (CallOutcome BridgeContract) := do
  let rollupId ← orErr (readU64 args 0) "invalid args: need rollup_id[8] + amount[16]"
  let amount ← orErr (readU128 args 8) "invalid args"
  debitIfReadable E sender amount "insufficient balance for deposit (need fee reserve)"
  let bridge ← reads (loadBridge E)
  recordDeposit E sender rollupId amount bridge

def bridgeToBase (sender : AccountId) (args : Bytes) : SysM σ (CallOutcome BridgeContract) := do
  let bridge ← reads (loadBridge E)
  stopIf (args.length < 36) (err "invalid args: need base_recipient[20] + amount[16]")
  let baseRecipient := args.take 20
  let amount ← orErr (readU128 args 20) "invalid args: bad amount"
  stopIf (amount = 0#128) (err "amount must be > 0")
  debitWithReserve E sender amount "insufficient balance for bridge (need fee reserve)"
  creditOrCreate E System.bridgeAddress amount
  pure ⟨bridge,
    [bridgeEvent "bridge_deposit" (sender.bytes ++ baseRecipient ++ le128 amount)], .ok ()⟩

/-! ## Release -/

def bridgeRelayerKey : Bytes := ascii "__bridge_relayer__"

def bridgeProcessedKey (baseTxHash : Bytes) : Bytes := ascii "bridge_processed/" ++ baseTxHash

def bridgeFromBase (sender : AccountId) (args : Bytes) :
    SysM σ (CallOutcome BridgeContract) := do
  let bridge ← reads (loadBridge E)
  let relayer ← reads fun s => (StateStore.get s bridgeRelayerKey).filter (·.length = 32)
  let relayer ← orErr relayer
    "bridge_from_base: no bridge relayer configured — releases disabled"
  stopIf (relayer ≠ sender.bytes)
    (err "bridge_from_base: caller is not the authorized relayer")
  stopIf (args.length < 80)
    (err "invalid args: need recipient[32] + amount[16] + base_tx_hash[32]")
  let recipient ← orErr (readAccountId args 0) "invalid args: bad recipient"
  let amount ← orErr (readU128 args 32) "invalid args: bad amount"
  let baseTxHash := (args.drop 48).take 32
  let processed ← reads fun s => StateStore.get s (bridgeProcessedKey baseTxHash)
  stopIf (processed.isSome = true) (err "bridge release already processed")
  debitCovered E System.bridgeAddress amount (err "bridge vault insufficient balance")
    (err "bridge account not found")
  creditOrCreate E recipient amount
  modify fun s => StateStore.put s (bridgeProcessedKey baseTxHash) [1]
  pure ⟨bridge,
    [bridgeEvent "bridge_release" (recipient.bytes ++ le128 amount ++ baseTxHash)], .ok ()⟩

/-! ## Vaults and rollups -/

def bridgeRegisterVault (args : Bytes) : SysM σ (CallOutcome BridgeContract) := do
  let rollupId ← orErr (readU64 args 0) "invalid args"
  let bridge ← reads (loadBridge E)
  match bridge.registerVault rollupId with
  | .ok bridge' => pure ⟨bridge', [bridgeEvent "vault_registered" (le64 rollupId)], .ok ()⟩
  | .error e => pure ⟨bridge, [], .error e.message⟩

def slice (args : Bytes) (start stop : Nat) : Bytes := (args.drop start).take (stop - start)

def readChainId (s : σ) : Nat :=
  match StateStore.get s (ascii "__chain_id__") with
  | some data => if 8 ≤ data.length then fromLeBytes (data.take 8) else 0
  | none => 0

/-- Threshold and attestor keys of a committee, at offset `off`. -/
def parseCommittee (args : Bytes) (off : Nat) : SysM σ (Nat × List Hash) := do
  stopIf (args.length < off + 8)
    (err "invalid args: committee needs threshold[4] + num_attestors[4]")
  let threshold := fromLeBytes (slice args off (off + 4))
  let num := fromLeBytes (slice args (off + 4) (off + 8))
  stopIf (num = 0 ∨ 100 < num) (err "invalid committee: num_attestors must be 1..=100")
  stopIf (threshold = 0 ∨ num < threshold)
    (err "invalid committee: threshold must be 1..=num_attestors")
  stopIf (args.length < off + 8 + num * 32)
    (err "invalid args: committee attestor list truncated")
  pure (threshold, (List.range num).filterMap fun i => readAccountId args (off + 8 + i * 32))

def rollupKey (rollupId : U64) : Bytes := ascii s!"__rollup_{rollupId.toNat}__"

def rollupDeposit : U128 := 1000000000000#128

structure RollupArgs where
  rollupId : U64
  name : String
  proofType : String
  sequencer : AccountId
  genesisStateRoot : Hash
  threshold : Nat
  attestors : List Hash

def parseRollupArgs (args : Bytes) : SysM σ RollupArgs := do
  let rollupId ← orErr (readU64 args 0) "invalid args: need rollup_id[8]"
  stopIf (args.length < 12) (err "invalid args: too short")
  let nameEnd := 12 + fromLeBytes (slice args 8 12)
  stopIf (args.length < nameEnd + 4) (err "invalid args: name too long")
  let name := fromUtf8Lossy (slice args 12 nameEnd)
  let ptEnd := nameEnd + 4 + fromLeBytes (slice args nameEnd (nameEnd + 4))
  stopIf (args.length < ptEnd + 64)
    (err "invalid args: need sequencer[32] + genesis_state_root[32]")
  let proofType := fromUtf8Lossy (slice args (nameEnd + 4) ptEnd)
  let chainId ← reads readChainId
  stopIf (chainId = 1 ∧ proofType ≠ "committee")
    (err "mainnet rollups must use a verifiable proof type ('committee')")
  let sequencer ← orErr (readAccountId args ptEnd) "invalid args: bad sequencer"
  let genesisStateRoot ← orErr (readAccountId args (ptEnd + 32))
    "invalid args: need sequencer[32] + genesis_state_root[32]"
  let committee ←
    (if proofType = "committee" then parseCommittee args (ptEnd + 64) else pure (0, []))
  pure ⟨rollupId, name, proofType, sequencer, genesisStateRoot, committee.1, committee.2⟩

/-- Moves the registration deposit to the bridge account, if that exists. -/
def payRollupDeposit (sender : AccountId) : SysM σ Unit := do
  match ← attempt (requireAccount E sender) with
  | .ok acct => do
      stopIf (acct.balance < rollupDeposit + minFeeReserve)
        (err "insufficient balance for rollup registration deposit")
      saveAccount E { acct with balance := acct.balance - rollupDeposit }
      creditExisting E System.bridgeAddress rollupDeposit
  | .error _ => stop (err "sender account not found")

def returnRollupDeposit (sender : AccountId) : SysM σ Unit := do
  creditExisting E sender rollupDeposit
  match ← attempt (requireAccount E System.bridgeAddress) with
  | .ok acct => saveAccount E { acct with balance := satSub acct.balance rollupDeposit }
  | .error _ => pure ()

def bridgeRegisterRollup (sender : AccountId) (args : Bytes) :
    SysM σ (CallOutcome BridgeContract) := do
  let a ← parseRollupArgs args
  payRollupDeposit E sender
  let bridge ← reads (loadBridge E)
  let height ← reads readMetaHeight
  match bridge.registerRollup a.rollupId a.name a.proofType a.sequencer a.genesisStateRoot
      height with
  | .ok bridge' => do
      let proofType := ((bridge'.getRollup a.rollupId).map (·.proofType)).getD ""
      let reg : JsonObject :=
        [("rollup_id", .num a.rollupId.toNat), ("proof_type", .str proofType),
          ("genesis_state_root", .str (hexEncode a.genesisStateRoot.bytes)),
          ("sequencer", .str (hexEncode a.sequencer.bytes)),
          ("committee_threshold", .num a.threshold),
          ("committee_attestors", .strs (a.attestors.map fun h => hexEncode h.bytes))]
      modify fun s => StateStore.put s (rollupKey a.rollupId) (E.jsonToVec reg)
      pure ⟨bridge', [bridgeEvent "rollup_registered" (le64 a.rollupId)], .ok ()⟩
  | .error e => do
      returnRollupDeposit E sender
      pure ⟨bridge, [], .error e.message⟩

/-! ## Batches -/

def attestationDomain : Bytes := ascii "solen-rollup-attestation:v1"

def committeeAttestationMessage (rollupId batchIndex : U64) (pre post dataHash : Hash) : Bytes :=
  attestationDomain ++ le64 rollupId ++ le64 batchIndex ++ pre.bytes ++ post.bytes ++
    dataHash.bytes

/-- Reads `count` entries of index and signature and collects the distinct
attestors with a valid one; `none` when the entries run out. -/
def collectSigners (msg : Bytes) (attestors : List Hash) :
    Nat → Bytes → List Nat → Option (List Nat)
  | 0, _, signers => some signers
  | count + 1, proof, signers =>
      if proof.length < 68 then none
      else
        let idx := fromLeBytes (proof.take 4)
        let sig := (proof.drop 4).take 64
        let rest := proof.drop 68
        match attestors[idx]? with
        | none => collectSigners msg attestors count rest signers
        | some key =>
            if idx ∉ signers ∧ E.ed25519Verify key msg sig = true then
              collectSigners msg attestors count rest (idx :: signers)
            else collectSigners msg attestors count rest signers

/-- `none` for malformed data, otherwise whether enough attestors signed. -/
def verifyCommitteeAttestation (rollupId batchIndex : U64) (pre post dataHash : Hash)
    (attestors : List Hash) (threshold : Nat) (proof : Bytes) : Option Bool :=
  if threshold = 0 ∨ attestors = [] ∨ attestors.length < threshold then none
  else if proof.length < 4 then none
  else
    (collectSigners E (committeeAttestationMessage rollupId batchIndex pre post dataHash)
      attestors (fromLeBytes (proof.take 4)) (proof.drop 4) []).map fun signers =>
        decide (threshold ≤ signers.length)

/-- Whether the proof is verified, or the error that refuses it. -/
def checkBatchProof (proofType : String) (reg : JsonObject) (rollupId batchIndex : U64)
    (pre post dataHash : Hash) (proof : Bytes) : SysM σ Bool :=
  match proofType with
  | "committee" =>
      let threshold := (reg.getNum "committee_threshold").getD 0
      let attestors := (reg.getStrs "committee_attestors").filterMap decodeHex32
      match verifyCommitteeAttestation E rollupId batchIndex pre post dataHash attestors
          threshold proof with
      | some true => pure true
      | some false => stop (err "batch proof: insufficient valid committee attestations")
      | none => stop (err "batch proof: malformed committee attestation data")
  | "mock" =>
      if proof = [] then stop (err "batch submission requires a proof") else pure false
  | other => stop (err s!"no verifier for proof type '{other}'")

def batchKey (rollupId batchIndex : U64) : Bytes :=
  ascii s!"__rollup_{rollupId.toNat}_batch_{batchIndex.toNat}__"

def batchCountKey (rollupId : U64) : Bytes := ascii s!"__rollup_{rollupId.toNat}_batch_count__"

/-- The proof that follows the fixed part, empty when it is cut short. -/
def batchProof (args : Bytes) : Bytes :=
  if 84 < args.length then
    let proofLen := fromLeBytes (slice args 80 84)
    if 84 + proofLen ≤ args.length then slice args 84 (84 + proofLen) else []
  else []

def bridgeSubmitBatch (sender : AccountId) (args : Bytes) :
    SysM σ (CallOutcome BridgeContract) := do
  let bridge ← reads (loadBridge E)
  let rollupId ← orErr (readU64 args 0) "invalid args: need rollup_id[8]"
  let batchIndex ← orErr (readU64 args 8) "invalid args: need batch_index[8]"
  let tooShort :=
    "invalid args: need rollup_id[8] + batch_index[8] + state_root[32] + data_hash[32]"
  let stateRoot ← orErr (readAccountId args 16) tooShort
  let dataHash ← orErr (readAccountId args 48) tooShort
  let proof := batchProof args
  let rollup ← orErr (bridge.getRollup rollupId) "rollup not registered"
  stopIf (rollup.sequencer ≠ sender)
    (err "only the registered sequencer can submit batches")
  let stored ← reads fun s => StateStore.get s (rollupKey rollupId)
  let reg := (stored.bind E.jsonFromSlice).getD []
  let expectedIndex : U64 :=
    match reg.getNum "latest_batch" with
    | some last => BitVec.ofNat 64 (last + 1)
    | none => 0#64
  stopIf (batchIndex ≠ expectedIndex)
    (err s!"batch index out of sequence: expected {expectedIndex.toNat} got {batchIndex.toNat}")
  let preKey := if batchIndex = 0#64 then "genesis_state_root" else "latest_state_root"
  let pre := ((reg.getStr preKey).bind decodeHex32).getD Hash.zero
  let verified ← checkBatchProof E rollup.proofType reg rollupId batchIndex pre stateRoot
    dataHash proof
  let batchData : JsonObject :=
    [("rollup_id", .num rollupId.toNat), ("batch_index", .num batchIndex.toNat),
      ("state_root", .str (hexEncode stateRoot.bytes)),
      ("data_hash", .str (hexEncode dataHash.bytes)),
      ("submitter", .str (hexEncode sender.bytes)), ("proof_len", .num proof.length),
      ("verified", .bool verified)]
  modify fun s => StateStore.put s (batchKey rollupId batchIndex) (E.jsonToVec batchData)
  let existing ← reads fun s => StateStore.get s (rollupKey rollupId)
  (match existing.bind E.jsonFromSlice with
  | some reg =>
      let reg' := (reg.set "latest_state_root" (.str (hexEncode stateRoot.bytes))).set
        "latest_batch" (.num batchIndex.toNat)
      modify fun s => StateStore.put s (rollupKey rollupId) (E.jsonToVec reg')
  | none => pure ())
  modify fun s => StateStore.put s (batchCountKey rollupId) (le64 batchIndex)
  pure ⟨bridge, [bridgeEvent "batch_submitted"
    (le64 rollupId ++ le64 batchIndex ++ stateRoot.bytes ++ dataHash.bytes)], .ok ()⟩

/-! ## Dispatch -/

def bridgeMethod (sender : AccountId) (method : String) (args : Bytes) :
    SysM σ (CallOutcome BridgeContract) :=
  match method with
  | "deposit" => bridgeDeposit E sender args
  | "bridge_to_base" => bridgeToBase E sender args
  | "bridge_from_base" => bridgeFromBase E sender args
  | "register_vault" => bridgeRegisterVault E args
  | "register_rollup" => bridgeRegisterRollup E sender args
  | "submit_batch" => bridgeSubmitBatch E sender args
  | _ => do
      let bridge ← reads (loadBridge E)
      pure ⟨bridge, [], .error s!"unknown bridge method: {method}"⟩

def executeBridgeCall (sender : AccountId) (method : String) (args : Bytes) :
    SysM σ SystemCallResult := do
  let outcome ← bridgeMethod E sender method args
  saveBridge E outcome.record
  pure outcome.toResult

end

end Solen
