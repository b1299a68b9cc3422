import Solen.Runtime

/-!
# Contract storage under a fuel limit

A write that cannot be paid for is dropped and a read that cannot be paid
for reports the key as absent, and in both cases the contract goes on. An
execution that succeeds therefore shows every write and reports absence
truthfully exactly when there was fuel for the calls that matter: each last
write of a key that changes it, and each read of a key that is present.
-/

namespace Solen.Vm

open Machine

variable {key val : Bytes} {keyLen keyPtr valLen valPtr : I32} {st st' : Store} {cost : U64}

/-! ## What a host call does to the storage -/

section

variable {s s' : StoreData}

theorem charge_eq_some :
    s.charge cost = some s' ↔ cost ≤ s.fuel ∧ s' = { s with fuel := s.fuel - cost } := by
  unfold StoreData.charge
  by_cases h : s.fuel < cost
  · simp [h]
  · simp [h, BitVec.not_lt.mp h, eq_comm]

/-- A host function that gives up leaves the storage as it was. -/
theorem storage_getD {o : Option StoreData} (h : ∀ s', o = some s' → s'.storage = s.storage) :
    (o.getD s).storage = s.storage := by
  cases o with
  | none => rfl
  | some s' => exact h s' rfl

theorem storage_getD_fst {o : Option (StoreData × HostValue)} {v : HostValue}
    (h : ∀ r, o = some r → r.1.storage = s.storage) : (o.getD (s, v)).1.storage = s.storage := by
  cases o with
  | none => rfl
  | some r => exact h r rfl

theorem storage_charge (h : s.charge cost = some s') : s'.storage = s.storage := by
  obtain ⟨-, rfl⟩ := charge_eq_some.mp h
  rfl

theorem storage_output (ptr : I32) (data : Bytes) : (s.output ptr data).storage = s.storage := by
  unfold StoreData.output
  split <;> rfl

theorem storage_storageRead (keyPtr keyLen valPtr : I32) :
    (storageRead s keyPtr keyLen valPtr).1.storage = s.storage := by
  refine storage_getD_fst fun r h => ?_
  simp only [Option.bind_eq_bind, Option.bind_eq_some_iff] at h
  obtain ⟨key, -, memory, -, s', hs', h⟩ := h
  rw [← storage_charge hs']
  split at h
  · split at h
    · cases h; rfl
    · cases h; rfl
  · cases h; rfl

theorem storage_emitEvent (topicPtr topicLen dataPtr dataLen : I32) :
    (emitEvent s topicPtr topicLen dataPtr dataLen).storage = s.storage := by
  refine storage_getD fun r h => ?_
  simp only [Option.bind_eq_bind, Option.bind_eq_some_iff] at h
  obtain ⟨_, -, _, -, _, -, _, -, _, -, s', hs', h⟩ := h
  rw [← storage_charge hs']
  cases h
  rfl

theorem storage_setReturnData (ptr len : I32) :
    (setReturnData s ptr len).storage = s.storage := by
  refine storage_getD fun r h => ?_
  simp only [Option.bind_eq_bind, Option.bind_eq_some_iff] at h
  obtain ⟨_, -, _, -, _, -, s', hs', h⟩ := h
  rw [← storage_charge hs']
  cases h
  rfl

theorem storage_transferNative (toPtr amountPtr : I32) :
    (transferNative s toPtr amountPtr).1.storage = s.storage := by
  refine storage_getD_fst fun r h => ?_
  simp only [Option.bind_eq_bind, Option.bind_eq_some_iff] at h
  obtain ⟨_, -, _, -, _, -, _, -, s', hs', h⟩ := h
  rw [← storage_charge hs']
  split at h
  · cases h; rfl
  · cases h; rfl

theorem storage_queueContractCall (targetPtr methodPtr methodLen argsPtr argsLen : I32) :
    (queueContractCall s targetPtr methodPtr methodLen argsPtr argsLen).1.storage =
      s.storage := by
  refine storage_getD_fst fun r h => ?_
  simp only [Option.bind_eq_bind, Option.bind_eq_some_iff] at h
  obtain ⟨_, -, _, -, _, -, _, -, _, -, _, -, _, -, _, -, s', hs', h⟩ := h
  rw [← storage_charge hs']
  split at h
  · cases h; rfl
  · cases h; rfl

theorem charge_eq_none (h : ¬ cost ≤ s.fuel) : s.charge cost = none :=
  if_pos (BitVec.not_le.mp h)

/-- A write that cannot be paid for does nothing. -/
theorem storageWrite_unpaid
    (h : s.writeRequest keyPtr keyLen valPtr valLen = some (key, val))
    (hfuel : ¬ storageWriteFuel key.length val.length ≤ s.fuel) :
    storageWrite s keyPtr keyLen valPtr valLen = s := by
  unfold storageWrite
  rw [h]
  simp only [Option.bind_eq_bind, Option.bind_some, charge_eq_none hfuel]
  rfl

/-- A write is made if it can be paid for. -/
theorem storage_storageWrite
    (h : s.writeRequest keyPtr keyLen valPtr valLen = some (key, val)) :
    (storageWrite s keyPtr keyLen valPtr valLen).storage =
      if storageWriteFuel key.length val.length ≤ s.fuel then s.storage.insert key val
      else s.storage := by
  split
  · next hle =>
      unfold storageWrite
      rw [h]
      simp only [Option.bind_eq_bind, Option.bind_some, charge_eq_some.mpr ⟨hle, rfl⟩]
      rfl
  · next hle => rw [storageWrite_unpaid h hle]

theorem storageWrite_eq_self
    (h : s.writeRequest keyPtr keyLen valPtr valLen = none) :
    storageWrite s keyPtr keyLen valPtr valLen = s := by
  unfold storageWrite
  rw [h]
  rfl

/-- What a read of a key within bounds reports. -/
theorem storageRead_value {memory : Bytes}
    (hkey : s.readKey keyPtr keyLen = some key) (hmem : s.memory = some memory)
    (hroom : ∀ val, s.storage[key]? = some val → offset valPtr + val.length ≤ memory.length) :
    (storageRead s keyPtr keyLen valPtr).2 =
      if storageReadFuel key.length ≤ s.fuel then
        (s.storage[key]?.map fun val => HostValue.i32 (BitVec.ofNat 32 val.length)).getD failure
      else failure := by
  unfold storageRead
  rw [hkey, hmem]
  simp only [Option.bind_eq_bind, Option.bind_some]
  split
  · next hle =>
      rw [charge_eq_some.mpr ⟨hle, rfl⟩, Option.bind_some]
      cases hval : s.storage[key]? with
      | none =>
        have hval' : s.ctx.storage[key]? = none := hval
        simp only [hval']
        rfl
      | some val =>
        have hval' : s.ctx.storage[key]? = some val := hval
        have hfits : safeWrite memory valPtr val = some _ := if_pos (hroom val hval)
        simp only [hval', hfits]
        rfl
  · next hle =>
      rw [charge_eq_none hle]
      rfl

end

/-! ## The calls of an execution -/

/-- The key and value of a `storage_write` with allowed lengths and pointers
within the memory. -/
def CallRecord.written (r : CallRecord) : Option (Bytes × Bytes) :=
  match r.call with
  | .storageWrite keyPtr keyLen valPtr valLen => r.before.writeRequest keyPtr keyLen valPtr valLen
  | _ => none

/-- The call is a `storage_read` of `key` with pointers within the memory. -/
def CallRecord.Reads (r : CallRecord) (key : Bytes) : Prop :=
  ∃ keyPtr keyLen valPtr memory, r.call = .storageRead keyPtr keyLen valPtr ∧
    r.before.readKey keyPtr keyLen = some key ∧ r.before.memory = some memory ∧
    ∀ val, r.before.storage[key]? = some val → offset valPtr + val.length ≤ memory.length

/-- The record is of a call that was made. -/
def CallRecord.Genuine (r : CallRecord) : Prop := r.call.run r.before = (r.after, r.value)

section

variable {r : CallRecord}

/-- Only a write to the key changes what is stored there. -/
theorem CallRecord.storage_after (hr : r.Genuine)
    (h : ∀ val, r.written ≠ some (key, val)) : r.after.storage[key]? = r.before.storage[key]? := by
  obtain ⟨before, call, after, value⟩ := r
  have hafter : after = (call.run before).1 := (congrArg Prod.fst hr).symm
  subst hafter
  cases call with
  | storageRead => exact congrArg (·[key]?) (storage_storageRead ..)
  | storageWrite keyPtr keyLen valPtr valLen =>
    dsimp only [HostCall.run]
    cases hreq : before.writeRequest keyPtr keyLen valPtr valLen with
    | none => rw [storageWrite_eq_self hreq]
    | some kv =>
      rw [storage_storageWrite hreq]
      have hne : kv.1 ≠ key := fun hk => h kv.2 (hreq.trans (by rw [← hk]))
      split
      · rw [Delta.getElem?_insert, if_neg hne]
      · rfl
  | emitEvent => exact congrArg (·[key]?) (storage_emitEvent ..)
  | getCaller => exact congrArg (·[key]?) (storage_output ..)
  | getBlockHeight => rfl
  | transferNative => exact congrArg (·[key]?) (storage_transferNative ..)
  | getMsgValue => exact congrArg (·[key]?) (storage_output ..)
  | getSelfId => exact congrArg (·[key]?) (storage_output ..)
  | getSelfBalance => exact congrArg (·[key]?) (storage_output ..)
  | queueContractCall => exact congrArg (·[key]?) (storage_queueContractCall ..)
  | setReturnData => exact congrArg (·[key]?) (storage_setReturnData ..)

/-- A write shows if it was paid for or changes nothing. -/
theorem CallRecord.written_after_iff (hr : r.Genuine)
    (h : r.written = some (key, val)) :
    r.after.storage[key]? = some val ↔
      storageWriteFuel key.length val.length ≤ r.before.fuel ∨
        r.before.storage[key]? = some val := by
  obtain ⟨before, call, after, value⟩ := r
  have hafter : after = (call.run before).1 := (congrArg Prod.fst hr).symm
  subst hafter
  cases call with
  | storageWrite keyPtr keyLen valPtr valLen =>
    dsimp only [HostCall.run]
    rw [storage_storageWrite h]
    split
    · next hle => simp [hle]
    · next hle => simp [hle]
  | _ => cases h

/-- A read tells the truth about absence if the key is absent, or if it was
paid for and the length of the value does not read as `-1`. -/
theorem CallRecord.reads_truthful_iff (hr : r.Genuine) (h : r.Reads key) :
    (r.value = failure → r.before.storage[key]? = none) ↔
      r.before.storage[key]? = none ∨ storageReadFuel key.length ≤ r.before.fuel ∧
        ∀ val, r.before.storage[key]? = some val → val.length % 2 ^ 32 ≠ 2 ^ 32 - 1 := by
  obtain ⟨keyPtr, keyLen, valPtr, memory, hcall, hkey, hmem, hroom⟩ := h
  have hvalue : r.value = (storageRead r.before keyPtr keyLen valPtr).2 := by
    have := congrArg Prod.snd hr
    rw [hcall] at this
    exact this.symm
  rw [hvalue, storageRead_value hkey hmem hroom]
  cases hval : r.before.storage[key]? with
  | none => simp
  | some val =>
    have hlen : BitVec.ofNat 32 val.length = -1#32 ↔ val.length % 2 ^ 32 = 2 ^ 32 - 1 := by
      rw [← BitVec.toNat_inj, BitVec.toNat_ofNat]
      rfl
    by_cases hle : storageReadFuel key.length ≤ r.before.fuel
    · simpa [hle, failure] using hlen.not
    · simp [hle]

end

/-! ## Logs -/

/-- The log leads from one storage to another: each call starts from the
storage the one before it left. -/
def Leads : Store → List CallRecord → Store → Prop
  | st, [], st' => st = st'
  | st, r :: log, st' => r.Genuine ∧ r.before.storage = st ∧ Leads r.after.storage log st'

theorem Leads.append {st'' : Store} {log log' : List CallRecord} (h : Leads st log st')
    (h' : Leads st' log' st'') : Leads st (log ++ log') st'' := by
  induction log generalizing st with
  | nil =>
    cases h
    exact h'
  | cons r log ih =>
    obtain ⟨hr, hst, h⟩ := h
    exact ⟨hr, hst, ih h⟩

theorem Leads.genuine {log : List CallRecord} (h : Leads st log st') :
    ∀ r ∈ log, r.Genuine := by
  induction log generalizing st with
  | nil => nofun
  | cons r log ih =>
    obtain ⟨hr, -, h⟩ := h
    rintro r' (_ | ⟨_, hr'⟩)
    · exact hr
    · exact ih h r' hr'

/-- A log splits at every call. -/
theorem Leads.split {pre post : List CallRecord} {r : CallRecord}
    (h : Leads st (pre ++ r :: post) st') : Leads r.after.storage post st' := by
  induction pre generalizing st with
  | nil => exact h.2.2
  | cons r' pre ih => exact ih h.2.2

/-- A key that is not written keeps its value. -/
theorem Leads.getElem?_eq {log : List CallRecord} (h : Leads st log st') (hkey : ∀ r ∈ log, ∀ val, r.written ≠ some (key, val)) : st'[key]? = st[key]? := by
  induction log generalizing st with
  | nil => rw [show st = st' from h]
  | cons r log ih =>
    obtain ⟨hr, rfl, h⟩ := h
    rw [ih h fun r' hr' => hkey r' (List.mem_cons_of_mem r hr')]
    exact r.storage_after hr (hkey r List.mem_cons_self)

section

variable {γ : Type} {G : Guest γ} {steps : Nat}

/-- The log of a run leads from its storage to the one it ends with. -/
theorem leads_runGuest {g : γ} {s : StoreData} {e : Except String Unit × StoreData}
    {log : List CallRecord} (h : runGuest G steps g s = (some e, log)) :
    Leads s.storage log e.2.storage := by
  induction steps generalizing g s log with
  | zero => cases h
  | succ steps ih =>
    rw [runGuest] at h
    split at h
    · split at h
      · cases h; rfl
      · have hrest := ih h
        exact hrest
    · next call resume _ =>
        dsimp only at h
        cases hrest : runGuest G steps (resume (call.run s).2) (call.run s).1 with
        | mk rest log' =>
          rw [hrest] at h
          cases h
          exact ⟨rfl, rfl, ih hrest⟩
    · cases h; rfl
    · cases h; rfl

theorem leads_runInstance {input : Bytes} {fuel : U64} {s : StoreData} {result : ExecutionResult}
    {log : List CallRecord} (h : runInstance G steps input fuel s = (some (.ok result), log)) :
    Leads s.storage log result.storage := by
  unfold runInstance at h
  split at h
  · cases h
  · split at h
    · cases h
    · split at h
      · cases h
      · next memory _ _ call _ =>
          dsimp only at h
          cases hrun : runGuest G steps
              (call (BitVec.ofNat 32 inputOffset) (BitVec.ofNat 32 input.length))
              { s with memory := some memory } with
          | mk e log' =>
            rw [hrun] at h
            obtain ⟨hend, rfl⟩ := Prod.mk.inj h
            obtain ⟨⟨ended, s'⟩, rfl, hres⟩ := Option.map_eq_some_iff.mp hend
            cases ended with
            | error msg => cases hres
            | ok =>
              cases hres
              exact leads_runGuest hrun

/-- The log of an execution that succeeds leads from the storage it was given
to the one it returns. -/
theorem leads_execute {input : Bytes} {ctx : HostContext} {fuelLimit : Option U64}
    {result : ExecutionResult} {log : List CallRecord}
    (h : execute G steps input ctx fuelLimit = (some (.ok result), log)) :
    Leads ctx.storage log result.storage := by
  unfold execute at h
  dsimp only at h
  split at h
  · exact leads_runInstance h
  · next g _ =>
      cases hstart : runGuest G steps g
          { ctx := ctx, memory := G.memory, fuel := fuelLimit.getD defaultFuelLimit } with
      | mk e log₁ =>
        rw [hstart] at h
        dsimp only at h
        split at h
        · cases h
        · cases h
        · next s =>
            cases hrest : runInstance G steps input (fuelLimit.getD defaultFuelLimit) s with
            | mk e₂ log₂ =>
              rw [hrest] at h
              cases h
              exact (leads_runGuest hstart).append (leads_runInstance hrest)

end

/-! ## When nothing is lost -/

/-- Each write shows in the final storage unless its key is written again
later, and a read reports absence only of an absent key. -/
structure StorageKept (log : List CallRecord) (final : Store) : Prop where
  writes : ∀ pre r post key val, log = pre ++ r :: post → r.written = some (key, val) →
    (∀ r' ∈ post, ∀ val', r'.written ≠ some (key, val')) → final[key]? = some val
  reads : ∀ r ∈ log, ∀ key, r.Reads key → r.value = failure → r.before.storage[key]? = none

/-- There is fuel for the last write of each key, unless it changes nothing,
and for each read of a key that is present. -/
structure FuelSuffices (log : List CallRecord) : Prop where
  writes : ∀ pre r post key val, log = pre ++ r :: post → r.written = some (key, val) →
    (∀ r' ∈ post, ∀ val', r'.written ≠ some (key, val')) →
    storageWriteFuel key.length val.length ≤ r.before.fuel ∨ r.before.storage[key]? = some val
  reads : ∀ r ∈ log, ∀ key, r.Reads key →
    r.before.storage[key]? = none ∨ storageReadFuel key.length ≤ r.before.fuel ∧
      ∀ val, r.before.storage[key]? = some val → val.length % 2 ^ 32 ≠ 2 ^ 32 - 1

/-- An execution that succeeds loses nothing of the storage exactly when the
fuel sufficed at the calls that matter. -/
theorem storageKept_iff {γ : Type} (G : Guest γ) (steps : Nat) (input : Bytes)
    (ctx : HostContext) (fuelLimit : Option U64) {result : ExecutionResult}
    {log : List CallRecord}
    (h : execute G steps input ctx fuelLimit = (some (.ok result), log)) :
    StorageKept log result.storage ↔ FuelSuffices log := by
  have hlead := leads_execute h
  have hwrite : ∀ pre r post key val, log = pre ++ r :: post → r.written = some (key, val) →
      (∀ r' ∈ post, ∀ val', r'.written ≠ some (key, val')) →
      (result.storage[key]? = some val ↔
        storageWriteFuel key.length val.length ≤ r.before.fuel ∨
          r.before.storage[key]? = some val) := by
    intro pre r post key val hlog hr hlast
    subst hlog
    rw [hlead.split.getElem?_eq hlast]
    exact r.written_after_iff (hlead.genuine r (by simp)) hr
  constructor
  · intro hkept
    refine ⟨fun pre r post key val hlog hr hlast => ?_, fun r hr key hread => ?_⟩
    · exact (hwrite pre r post key val hlog hr hlast).mp
        (hkept.writes pre r post key val hlog hr hlast)
    · exact (r.reads_truthful_iff (hlead.genuine r hr) hread).mp (hkept.reads r hr key hread)
  · intro hfuel
    refine ⟨fun pre r post key val hlog hr hlast => ?_, fun r hr key hread => ?_⟩
    · exact (hwrite pre r post key val hlog hr hlast).mpr
        (hfuel.writes pre r post key val hlog hr hlast)
    · exact (r.reads_truthful_iff (hlead.genuine r hr) hread).mpr (hfuel.reads r hr key hread)

/-! A contract with `n` bytes of memory that overwrites a key and reads it
again. -/

section

def sampleMemory (n : Nat) : Bytes := List.replicate n 0

def sampleGuest (n : Nat) : Guest Nat where
  step pc memory :=
    match pc with
    | 0 => .work 10 1 memory
    | 1 => .host (.storageWrite 0#32 1#32 1#32 1#32) fun _ => 2
    | 2 => .host (.storageRead 0#32 1#32 2#32) fun _ => 3
    | _ => .finish
  memory := some (sampleMemory n)
  start := none
  call := .ok fun _ _ => 0

def sampleContext : HostContext where
  caller := Hash.zero
  contractId := Hash.zero
  blockHeight := 0
  storage := (∅ : Store).insert [0] [7]
  msgValue := 0#128
  selfBalance := 0#128

def sampleStore (n : Nat) (fuel : U64) : StoreData :=
  { ctx := sampleContext, memory := some (sampleMemory n), fuel := fuel - 10#64 }

/-- What the two calls of the contract see and leave. -/
def sampleLog (n : Nat) (fuel : U64) : List CallRecord :=
  let s₁ := sampleStore n fuel
  let s₂ := storageWrite s₁ 0#32 1#32 1#32 1#32
  let r := storageRead s₂ 0#32 1#32 2#32
  [⟨s₁, .storageWrite 0#32 1#32 1#32 1#32, s₂, .unit⟩,
    ⟨s₂, .storageRead 0#32 1#32 2#32, r.1, r.2⟩]

variable {n : Nat} {fuel : U64}

theorem writeAt_sampleMemory (hn : inputOffset ≤ n) :
    writeAt (sampleMemory n) inputOffset [] = some (sampleMemory n) := by
  rw [writeAt, if_pos (by simpa [sampleMemory] using hn)]
  simp

theorem runGuest_sampleGuest (h : 10 ≤ fuel.toNat) :
    runGuest (sampleGuest n) 4 0
        { ctx := sampleContext, memory := some (sampleMemory n), fuel := fuel } =
      (some (.ok (), (storageRead (storageWrite (sampleStore n fuel) 0#32 1#32 1#32 1#32)
        0#32 1#32 2#32).1), sampleLog n fuel) := by
  change (if fuel.toNat < 10 then _ else _) = _
  rw [if_neg (Nat.not_lt.mpr h)]
  rfl

theorem execute_sampleGuest (n : Nat) (fuel : U64) (hn : inputOffset ≤ n) (h : 10 ≤ fuel.toNat) :
    ∃ result, execute (sampleGuest n) 4 [] sampleContext (some fuel) =
        (some (.ok result), sampleLog n fuel) ∧
      result.storage = (storageWrite (sampleStore n fuel) 0#32 1#32 1#32 1#32).storage := by
  have hcall : execute (sampleGuest n) 4 [] sampleContext (some fuel) =
      runInstance (sampleGuest n) 4 [] fuel
        { ctx := sampleContext, memory := some (sampleMemory n), fuel := fuel } := rfl
  rw [hcall, runInstance]
  dsimp only
  rw [writeAt_sampleMemory hn]
  dsimp only
  change ∃ result, ((runGuest (sampleGuest n) 4 0
      { ctx := sampleContext, memory := some (sampleMemory n), fuel := fuel }).1.map _,
    (runGuest (sampleGuest n) 4 0
      { ctx := sampleContext, memory := some (sampleMemory n), fuel := fuel }).2) = _ ∧ _
  rw [runGuest_sampleGuest h]
  exact ⟨_, rfl, storage_storageRead ..⟩

theorem safeRead_sampleMemory {ptr : I32} {len : Nat} (h : offset ptr + len ≤ n) :
    safeRead (sampleMemory n) ptr len = some (List.replicate len 0) := by
  rw [safeRead, sampleMemory, List.length_replicate, if_pos h, List.drop_replicate,
    List.take_replicate, Nat.min_eq_left (by omega)]

theorem writeRequest_sampleStore (hn : inputOffset ≤ n) :
    (sampleStore n fuel).writeRequest 0#32 1#32 1#32 1#32 = some ([0], [0]) := by
  have hle : 2 ≤ n := Nat.le_trans (by decide) hn
  have h₀ : safeRead (sampleMemory n) 0#32 1 = some [0] :=
    safeRead_sampleMemory (Nat.le_trans (by decide) hle)
  have h₁ : safeRead (sampleMemory n) 1#32 1 = some [0] :=
    safeRead_sampleMemory (Nat.le_trans (by decide) hle)
  change (safeRead (sampleMemory n) 0#32 1).bind (fun key =>
    (safeRead (sampleMemory n) 1#32 1).bind fun val => some (key, val)) = _
  rw [h₀, h₁]
  rfl

theorem sampleStore_seven : (sampleStore n fuel).storage[([0] : Bytes)]? = some [7] :=
  Std.ExtTreeMap.getElem?_insert_self

/-- Fuel below the cost of a read: both calls give up. -/
theorem sampleLog_unpaid (hn : inputOffset ≤ n)
    (hfuel : ¬ storageReadFuel 1 ≤ (sampleStore n fuel).fuel) :
    ∃ write read, sampleLog n fuel = [write, read] ∧ write.written = some ([0], [0]) ∧
      write.before = sampleStore n fuel ∧ write.after = sampleStore n fuel ∧
      read.written = none ∧ read.Reads [0] ∧ read.value = failure ∧
      read.before = sampleStore n fuel := by
  have hreq : (sampleStore n fuel).writeRequest 0#32 1#32 1#32 1#32 = some ([0], [0]) :=
    writeRequest_sampleStore hn
  have hcost : storageReadFuel 1 ≤ storageWriteFuel 1 1 := by decide
  have hsame := storageWrite_unpaid hreq fun h => hfuel (BitVec.le_trans hcost h)
  have hkey : (sampleStore n fuel).readKey 0#32 1#32 = some [0] := by
    change safeRead (sampleMemory n) 0#32 1 = some [0]
    exact safeRead_sampleMemory (Nat.le_trans (by decide) hn)
  have hroom : ∀ val, (sampleStore n fuel).storage[([0] : Bytes)]? = some val →
      offset 2#32 + val.length ≤ (sampleMemory n).length := by
    intro val hval
    cases sampleStore_seven.symm.trans hval
    rw [sampleMemory, List.length_replicate]
    exact Nat.le_trans (by decide) hn
  have hlog : sampleLog n fuel =
      [⟨sampleStore n fuel, .storageWrite 0#32 1#32 1#32 1#32, sampleStore n fuel, .unit⟩,
        ⟨sampleStore n fuel, .storageRead 0#32 1#32 2#32,
          (storageRead (sampleStore n fuel) 0#32 1#32 2#32).1,
          (storageRead (sampleStore n fuel) 0#32 1#32 2#32).2⟩] := by
    rw [sampleLog, hsame]
  refine ⟨_, _, hlog, hreq, rfl, rfl, rfl, ?_, ?_, rfl⟩
  · exact ⟨_, _, _, _, rfl, hkey, rfl, hroom⟩
  · exact (storageRead_value hkey rfl hroom).trans (if_neg hfuel)

end

/-- With fuel for both calls the new value is returned. -/
theorem storageKept_iff_paid :
    ∃ result log, execute (sampleGuest 65536) 4 [] sampleContext (some 1000000#64) =
        (some (.ok result), log) ∧
      (StorageKept log result.storage ↔ FuelSuffices log) ∧
      result.storage[([0] : Bytes)]? = some [0] := by
  obtain ⟨result, hexec, hstorage⟩ :=
    execute_sampleGuest 65536 1000000#64 (by decide) (by decide)
  refine ⟨result, _, hexec, storageKept_iff _ _ _ _ _ hexec, ?_⟩
  rw [hstorage, storage_storageWrite (writeRequest_sampleStore (by decide)), if_pos (by decide)]
  exact Std.ExtTreeMap.getElem?_insert_self

/-- With fuel 100 the write is dropped, the read reports the key as absent, and
the execution succeeds. -/
theorem not_storageKept_unpaid :
    ∃ result write read, execute (sampleGuest 65536) 4 [] sampleContext (some 100#64) =
        (some (.ok result), [write, read]) ∧
      write.written = some ([0], [0]) ∧ result.storage[([0] : Bytes)]? = some [7] ∧
      read.Reads [0] ∧ read.value = failure ∧
      read.before.storage[([0] : Bytes)]? = some [7] ∧
      ¬ StorageKept [write, read] result.storage := by
  have hn : inputOffset ≤ 65536 := by decide
  have hfuel : ¬ storageReadFuel 1 ≤ (sampleStore 65536 100#64).fuel := by
    change ¬ storageReadFuel 1 ≤ 100#64 - 10#64
    decide
  obtain ⟨result, hexec, hstorage⟩ := execute_sampleGuest 65536 100#64 hn (by decide)
  obtain ⟨write, read, hlog, hwritten, hbefore, hafter, hnone, hreads, hvalue, hread⟩ :=
    sampleLog_unpaid hn hfuel
  have hlead := leads_execute hexec
  rw [hlog] at hexec hlead
  have hfinal : result.storage[([0] : Bytes)]? = some [7] := by
    rw [Leads.getElem?_eq hlead.2.2 (by simp [hnone]), hafter]
    exact sampleStore_seven
  refine ⟨result, write, read, hexec, hwritten, hfinal, hreads, hvalue, ?_, fun hkept => ?_⟩
  · rw [hread]
    exact sampleStore_seven
  · have hzero := hkept.writes [] write [read] [0] [0] rfl hwritten (by simp [hnone])
    rw [hfinal] at hzero
    cases hzero

end Solen.Vm
