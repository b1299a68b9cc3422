import Solen.Platform

/-!
# The contract runtime

Contracts are WASM modules. The engine that runs their instructions is
not part of this repository: an instance is any machine that works on its
linear memory for some fuel, asks for a host function, traps or returns.
What is modelled is what the runtime puts around it: the host functions
with their bounds checks and their fuel, and the execution of one call
from the input to the result.

A host function that meets a bad pointer, a bad length or too little fuel
gives up without a trap, and the instance goes on.
-/

namespace Solen

open Machine

abbrev I32 := BitVec 32

namespace Vm

/-! ## Metering -/

def defaultFuelLimit : U64 := 1000000#64

def storageWriteBaseFuel : Nat := 2000

def storageWritePerByteFuel : Nat := 10

def storageReadBaseFuel : Nat := 500

def fuelToGas (fuelConsumed : U64) : U64 := fuelConsumed

def storageWriteFuel (keyLen valLen : Nat) : U64 :=
  BitVec.ofNat 64 (storageWriteBaseFuel + (keyLen + valLen) * storageWritePerByteFuel)

def storageReadFuel (keyLen : Nat) : U64 :=
  BitVec.ofNat 64 (storageReadBaseFuel + keyLen * storageWritePerByteFuel)

def transferFuel : U64 := 5000#64

def queueFuel (methodLen argsLen : Nat) : U64 :=
  BitVec.ofNat 64 (5000 + (methodLen + argsLen) * 10)

/-! ## The store of an instance -/

/-- What the host functions work on. The memory is the export of that name,
if the module has one. -/
structure StoreData where
  ctx : HostContext
  events : List HostEvent := []
  returnData : Bytes := []
  nativeTransfers : List NativeTransfer := []
  pendingCalls : List PendingCall := []
  memory : Option Bytes
  fuel : U64

def StoreData.storage (s : StoreData) : Store := s.ctx.storage

/-- Takes fuel, if there is enough. -/
def StoreData.charge (s : StoreData) (cost : U64) : Option StoreData :=
  if s.fuel < cost then none else some { s with fuel := s.fuel - cost }

/-! ## Access to the memory -/

/-- 1 MB. -/
def maxHostAlloc : Nat := 1024 * 1024

/-- A length that is not negative and not too large. -/
def checkedLen (len : I32) : Option Nat :=
  if len.toInt < 0 then none
  else if maxHostAlloc < len.toNat then none
  else some len.toNat

/-- `ptr as usize`: a negative pointer lies beyond every memory. -/
def offset (ptr : I32) : Nat := (ptr.signExtend 64).toNat

def safeRead (memory : Bytes) (ptr : I32) (len : Nat) : Option Bytes :=
  if offset ptr + len ≤ memory.length then some ((memory.drop (offset ptr)).take len) else none

def writeAt (memory : Bytes) (at_ : Nat) (data : Bytes) : Option Bytes :=
  if at_ + data.length ≤ memory.length then
    some (memory.take at_ ++ data ++ memory.drop (at_ + data.length))
  else none

def safeWrite (memory : Bytes) (ptr : I32) (data : Bytes) : Option Bytes :=
  writeAt memory (offset ptr) data

/-- Writes to the memory; a bad pointer is ignored. -/
def StoreData.output (s : StoreData) (ptr : I32) (data : Bytes) : StoreData :=
  match s.memory with
  | none => s
  | some memory => { s with memory := some ((safeWrite memory ptr data).getD memory) }

/-! ## Host functions -/

inductive HostCall where
  | storageRead (keyPtr keyLen valPtr : I32)
  | storageWrite (keyPtr keyLen valPtr valLen : I32)
  | emitEvent (topicPtr topicLen dataPtr dataLen : I32)
  | getCaller (outPtr : I32)
  | getBlockHeight
  | transferNative (toPtr amountPtr : I32)
  | getMsgValue (outPtr : I32)
  | getSelfId (outPtr : I32)
  | getSelfBalance (outPtr : I32)
  | queueContractCall (targetPtr methodPtr methodLen argsPtr argsLen : I32)
  | setReturnData (ptr len : I32)
deriving DecidableEq

/-- What a host function returns to the instance. -/
inductive HostValue where
  | unit
  | i32 (value : I32)
  | i64 (value : BitVec 64)
deriving DecidableEq

def failure : HostValue := .i32 (-1#32)

/-- The key a `storage_read` asks for. -/
def StoreData.readKey (s : StoreData) (keyPtr keyLen : I32) : Option Bytes := do
  let klen ← checkedLen keyLen
  let memory ← s.memory
  safeRead memory keyPtr klen

def storageRead (s : StoreData) (keyPtr keyLen valPtr : I32) : StoreData × HostValue :=
  (do
    let key ← s.readKey keyPtr keyLen
    let memory ← s.memory
    let s ← s.charge (storageReadFuel key.length)
    match s.ctx.storage[key]? with
    | some val =>
        match safeWrite memory valPtr val with
        | none => pure (s, failure)
        | some memory =>
            pure ({ s with memory := some memory }, HostValue.i32 (BitVec.ofNat 32 val.length))
    | none => pure (s, failure)).getD (s, failure)

/-- The key and the value a `storage_write` asks for. -/
def StoreData.writeRequest (s : StoreData) (keyPtr keyLen valPtr valLen : I32) :
    Option (Bytes × Bytes) := do
  let klen ← checkedLen keyLen
  let vlen ← checkedLen valLen
  let memory ← s.memory
  let key ← safeRead memory keyPtr klen
  let val ← safeRead memory valPtr vlen
  pure (key, val)

def storageWrite (s : StoreData) (keyPtr keyLen valPtr valLen : I32) : StoreData :=
  (do
    let (key, val) ← s.writeRequest keyPtr keyLen valPtr valLen
    let s ← s.charge (storageWriteFuel key.length val.length)
    pure { s with ctx := { s.ctx with storage := s.ctx.storage.insert key val } }).getD s

def emitEvent (s : StoreData) (topicPtr topicLen dataPtr dataLen : I32) : StoreData :=
  (do
    let tlen ← checkedLen topicLen
    let dlen ← checkedLen dataLen
    let memory ← s.memory
    let topic ← safeRead memory topicPtr tlen
    let data ← safeRead memory dataPtr dlen
    let s ← s.charge (storageWriteFuel topic.length data.length)
    pure { s with events := s.events ++ [HostEvent.mk topic data] }).getD s

def maxNativeTransfers : Nat := 50

/-- The fuel is gone even when too many transfers are queued already. -/
def transferNative (s : StoreData) (toPtr amountPtr : I32) : StoreData × HostValue :=
  (do
    let memory ← s.memory
    let dest ← (safeRead memory toPtr 32).bind Hash.ofSlice?
    let amountBuf ← safeRead memory amountPtr 16
    let amount := BitVec.ofNat 128 (fromLeBytes amountBuf)
    guard (amount ≠ 0#128)
    let s ← s.charge transferFuel
    if maxNativeTransfers ≤ s.nativeTransfers.length then pure (s, failure)
    else
      pure ({ s with nativeTransfers := s.nativeTransfers ++ [NativeTransfer.mk dest amount] },
        HostValue.i32 0#32)).getD (s, failure)

def maxPendingCalls : Nat := 16

def maxMethodLen : Nat := 64

def maxArgsLen : Nat := 16 * 1024

def queueContractCall (s : StoreData) (targetPtr methodPtr methodLen argsPtr argsLen : I32) :
    StoreData × HostValue :=
  (do
    let mlen ← checkedLen methodLen
    let alen ← checkedLen argsLen
    guard (mlen ≠ 0 ∧ mlen ≤ maxMethodLen)
    guard (alen ≤ maxArgsLen)
    let memory ← s.memory
    let target ← (safeRead memory targetPtr 32).bind Hash.ofSlice?
    let method ← safeRead memory methodPtr mlen
    -- No arguments are read when there are none, wherever the pointer is.
    let args ← (if 0 < alen then safeRead memory argsPtr alen else some [])
    let s ← s.charge (queueFuel mlen alen)
    if maxPendingCalls ≤ s.pendingCalls.length then pure (s, failure)
    else
      pure ({ s with pendingCalls := s.pendingCalls ++ [PendingCall.mk target method args] },
        HostValue.i32 0#32)).getD (s, failure)

def setReturnData (s : StoreData) (ptr len : I32) : StoreData :=
  (do
    let dlen ← checkedLen len
    let memory ← s.memory
    let data ← safeRead memory ptr dlen
    let s ← s.charge (storageReadFuel data.length)
    pure { s with returnData := data }).getD s

/-- Runs a host function. -/
def HostCall.run (s : StoreData) : HostCall → StoreData × HostValue
  | storageRead keyPtr keyLen valPtr => Vm.storageRead s keyPtr keyLen valPtr
  | storageWrite keyPtr keyLen valPtr valLen =>
      (Vm.storageWrite s keyPtr keyLen valPtr valLen, .unit)
  | emitEvent topicPtr topicLen dataPtr dataLen =>
      (Vm.emitEvent s topicPtr topicLen dataPtr dataLen, .unit)
  | getCaller outPtr => (s.output outPtr s.ctx.caller.bytes, .unit)
  | getBlockHeight => (s, .i64 (BitVec.ofNat 64 s.ctx.blockHeight))
  | transferNative toPtr amountPtr => Vm.transferNative s toPtr amountPtr
  | getMsgValue outPtr => (s.output outPtr (toLeBytes 16 s.ctx.msgValue.toNat), .unit)
  | getSelfId outPtr => (s.output outPtr s.ctx.contractId.bytes, .unit)
  | getSelfBalance outPtr => (s.output outPtr (toLeBytes 16 s.ctx.selfBalance.toNat), .unit)
  | queueContractCall targetPtr methodPtr methodLen argsPtr argsLen =>
      Vm.queueContractCall s targetPtr methodPtr methodLen argsPtr argsLen
  | setReturnData ptr len => (Vm.setReturnData s ptr len, .unit)

/-! ## Instances -/

/-- What an instance does next. -/
inductive GuestMove (γ : Type) where
  /-- Instructions that cost `cost` and leave the memory as `memory`. -/
  | work (cost : Nat) (next : γ) (memory : Option Bytes)
  | host (call : HostCall) (resume : HostValue → γ)
  | finish
  | trap (msg : String)

/-- An instance of a module with states `γ`: any code at all. -/
structure Guest (γ : Type) where
  step : γ → Option Bytes → GuestMove γ
  memory : Option Bytes
  /-- The start function, if the module has one. -/
  start : Option γ
  /-- The exported `call` on the offset and the length of the input. -/
  call : Except String (I32 → I32 → γ)

/-- A host call, with the store around it. -/
structure CallRecord where
  before : StoreData
  call : HostCall
  after : StoreData
  value : HostValue

/-- Runs an instance for at most `steps` moves. Returns how it ended, if it
did, and the host calls it made. -/
def runGuest {γ : Type} (G : Guest γ) :
    Nat → γ → StoreData → Option (Except String Unit × StoreData) × List CallRecord
  | 0, _, _ => (none, [])
  | steps + 1, g, s =>
      match G.step g s.memory with
      | .work cost next memory =>
          if s.fuel.toNat < cost then
            (some (.error "all fuel consumed by WebAssembly", { s with fuel := 0#64 }), [])
          else
            runGuest G steps next { s with fuel := s.fuel - BitVec.ofNat 64 cost, memory := memory }
      | .host call resume =>
          let r := call.run s
          let rest := runGuest G steps (resume r.2) r.1
          (rest.1, ⟨s, call, r.1, r.2⟩ :: rest.2)
      | .finish => (some (.ok (), s), [])
      | .trap msg => (some (.error msg, s), [])

def inputOffset : Nat := 1024

/-- The call of an instance that has started: write the input, call, collect
the result. -/
def runInstance {γ : Type} (G : Guest γ) (steps : Nat) (input : Bytes) (fuel : U64)
    (s : StoreData) : Option (Except VmError ExecutionResult) × List CallRecord :=
  match s.memory with
  | none => (some (.error (.missingExport "memory")), [])
  | some memory =>
      match writeAt memory inputOffset input with
      | none => (some (.error (.trap "memory write failed: out of bounds memory access")), [])
      | some memory =>
          match G.call with
          | .error msg => (some (.error (.missingExport s!"call: {msg}")), [])
          | .ok call =>
              let r := runGuest G steps
                (call (BitVec.ofNat 32 inputOffset) (BitVec.ofNat 32 input.length))
                { s with memory := some memory }
              (r.1.map fun
                | (.error msg, s) =>
                    .error (if s.fuel = 0#64 then .outOfGas else .trap msg)
                | (.ok (), s) =>
                    .ok {
                      gasUsed := fuelToGas (fuel - s.fuel)
                      events := s.events
                      storage := s.ctx.storage
                      nativeTransfers := s.nativeTransfers
                      pendingCalls := s.pendingCalls }, r.2)

/-- Executes a contract: the start function runs when the module is
instantiated, and its host calls work on the same store. -/
def execute {γ : Type} (G : Guest γ) (steps : Nat) (input : Bytes) (ctx : HostContext)
    (fuelLimit : Option U64) : Option (Except VmError ExecutionResult) × List CallRecord :=
  let fuel := fuelLimit.getD defaultFuelLimit
  let s : StoreData := { ctx := ctx, memory := G.memory, fuel := fuel }
  match G.start with
  | none => runInstance G steps input fuel s
  | some g =>
      let r := runGuest G steps g s
      match r.1 with
      | none => (none, r.2)
      | some (.error msg, _) => (some (.error (.trap msg)), r.2)
      | some (.ok (), s) =>
          let rest := runInstance G steps input fuel s
          (rest.1, r.2 ++ rest.2)

end Vm

end Solen
