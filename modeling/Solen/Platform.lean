import Solen.Storage
import Solen.Staking
import Solen.Vesting
import Solen.Bridge
import Solen.Governance
import Solen.Guardian
import Solen.Text

/-!
# What the chain is built on

The libraries the execution layer calls: the hash function, signature
verification, the serialisation formats and the WASM runtime. They are
parameters of everything above. Of a serialisation format only the
round trip is used: what was written is read back. Nothing is assumed
of the hash function, of signatures or of what the virtual machine
returns.
-/

namespace Solen

open Machine

/-- A serialisation format for `α`. -/
structure Serde (α : Type) where
  toVec : α → Bytes
  fromSlice : Bytes → Option α
  fromSlice_toVec : ∀ a, fromSlice (toVec a) = some a

theorem Serde.toVec_inj {α : Type} {c : Serde α} {a b : α} (h : c.toVec a = c.toVec b) :
    a = b := by
  have hb := c.fromSlice_toVec b
  rw [← h, c.fromSlice_toVec] at hb
  exact Option.some.inj hb

/-! ## The virtual machine's interface -/

structure NativeTransfer where
  dest : AccountId
  amount : U128
deriving DecidableEq

structure PendingCall where
  target : AccountId
  method : Bytes
  args : Bytes
deriving DecidableEq

structure HostEvent where
  topic : Bytes
  data : Bytes
deriving DecidableEq

structure HostContext where
  caller : AccountId
  contractId : AccountId
  blockHeight : Nat
  storage : Store
  msgValue : U128
  selfBalance : U128

structure ExecutionResult where
  gasUsed : U64
  events : List HostEvent
  storage : Store
  nativeTransfers : List NativeTransfer
  pendingCalls : List PendingCall

inductive VmError where
  | outOfGas
  | invalidBytecode (msg : String)
  | trap (msg : String)
  | hostError (msg : String)
  | missingExport (msg : String)
deriving DecidableEq

def VmError.message : VmError → String
  | outOfGas => "out of gas"
  | invalidBytecode msg => s!"invalid bytecode: {msg}"
  | trap msg => s!"execution trapped: {msg}"
  | hostError msg => s!"host error: {msg}"
  | missingExport msg => s!"missing export: {msg}"

/-! ## Epoch randomness record -/

structure EpochRandomness where
  acc : Hash := Hash.zero
  seed : Hash := Hash.zero
deriving DecidableEq

/-! ## The platform -/

structure Platform where
  blake3 : Bytes → Hash
  sha256 : Bytes → Hash
  /-- Key, message and 64-byte signature. -/
  ed25519Verify : Hash → Bytes → Bytes → Bool
  mlDsaVerify : Bytes → Bytes → Bytes → Bool
  /-- Affine coordinates, message, and the scalars `r` and `s`. -/
  p256Verify : Hash → Hash → Bytes → Bytes → Bytes → Bool
  account : Serde Account
  staking : Serde StakingContract
  governance : Serde GovernanceContract
  bridge : Serde BridgeContract
  treasury : Serde TreasuryContract
  vesting : Serde VestingContract
  guardian : Serde GuardianContract
  epochRandomness : Serde EpochRandomness
  accountIds : Serde (List AccountId)
  byteStrings : Serde (List Bytes)
  /-- A JSON object need not be read back as it was written. -/
  jsonToVec : JsonObject → Bytes
  jsonFromSlice : Bytes → Option JsonObject
  /-- Parses a JSON list of authentication methods. -/
  authMethodsFromJson : Bytes → Except String (List AuthMethod)
  actionsToJson : List Action → Bytes
  /-- Code hash, bytecode, input, host context and fuel limit. -/
  vmExecute : Hash → Bytes → Bytes → HostContext → U64 → Except VmError ExecutionResult
  vmValidateBytecode : Bytes → Except VmError Unit

/-! ## Loading and saving records

Every system contract keeps its record under one key. A missing or
unreadable record counts as the default one. -/

section Records

variable {σ α : Type} [StateStore σ]

def loadRecord (codec : Serde α) (key : Bytes) (default : α) (s : σ) : α :=
  match StateStore.get s key with
  | some data => (codec.fromSlice data).getD default
  | none => default

def saveRecord (codec : Serde α) (key : Bytes) (a : α) (s : σ) : σ :=
  StateStore.put s key (codec.toVec a)

theorem loadRecord_saveRecord (codec : Serde α) (key : Bytes) (d a : α) (s : σ) :
    loadRecord codec key d (saveRecord codec key a s) = a := by
  simp only [loadRecord, saveRecord, StateStore.get_put_self, codec.fromSlice_toVec,
    Option.getD_some]

theorem loadRecord_put_of_ne (codec : Serde α) {key k : Bytes} (d : α) (s : σ) (v : Bytes)
    (h : k ≠ key) :
    loadRecord codec key d (StateStore.put s k v) = loadRecord codec key d s := by
  simp only [loadRecord, StateStore.get_put_of_ne s v h]

end Records

end Solen
