import Solen.State

/-!
# System calls: common parts

A call to a system contract runs native code on the raw store. It ends
with a result that may carry an error; an early `return err(..)` leaves
the store as it is at that point, and undoing it is up to the executor.

The account moves the contracts share are defined once: debiting a
caller who must keep a fee reserve, crediting an account if it exists,
and crediting one that is created on demand.
-/

namespace Solen

open Machine Prog

structure SystemCallResult where
  gasUsed : U64
  events : List Event
  error : Option String
deriving DecidableEq

def systemCallGas : U64 := 200#64

/-- What a caller must be left with, so that it can still pay fees. -/
def minFeeReserve : U128 := 10000#128

abbrev SysM (σ : Type) := Prog σ SystemCallResult

def err (msg : String) : SystemCallResult := ⟨systemCallGas, [], some msg⟩

def succeed (events : List Event) : SystemCallResult := ⟨systemCallGas, events, none⟩

/-- What one method of a contract leaves behind: the record to save, the
events, and whether it succeeded. -/
structure CallOutcome (C : Type) where
  record : C
  events : List Event
  result : Except String Unit

def CallOutcome.toResult {C : Type} (o : CallOutcome C) : SystemCallResult :=
  match o.result with
  | .ok () => ⟨systemCallGas, o.events, none⟩
  | .error e => ⟨systemCallGas, o.events, some e⟩

/-- Runs a call to its result, whichever way it ends. -/
def runSystemCall {σ : Type} (m : SysM σ SystemCallResult) (s : σ) : SystemCallResult × σ :=
  match m.run s with
  | (.ok r, s') => (r, s')
  | (.error r, s') => (r, s')

/-! ## Arguments -/

def readAccountId (args : Bytes) (offset : Nat) : Option AccountId :=
  Hash.ofSlice? (args.drop offset)

/-- A little-endian integer of `n` bytes at `offset`. -/
def readUint (n : Nat) (args : Bytes) (offset : Nat) : Option Nat :=
  if offset + n ≤ args.length then some (fromLeBytes ((args.drop offset).take n)) else none

def readU128 (args : Bytes) (offset : Nat) : Option U128 :=
  (readUint 16 args offset).map (BitVec.ofNat 128)

def readU64 (args : Bytes) (offset : Nat) : Option U64 :=
  (readUint 8 args offset).map (BitVec.ofNat 64)

def readU32 (args : Bytes) (offset : Nat) : Option Nat := readUint 4 args offset

def le128 (v : U128) : Bytes := toLeBytes 16 v.toNat

def le64 (v : U64) : Bytes := toLeBytes 8 v.toNat

/-! ### What is written reads back -/

theorem readUint_toLeBytes_append {n v : Nat} (h : v < 256 ^ n) (rest : Bytes) :
    readUint n (toLeBytes n v ++ rest) 0 = some v := by
  have hlen : (toLeBytes n v).length = n := length_toLeBytes _ _
  rw [readUint, if_pos (by simp [hlen]), List.drop_zero]
  rw [List.take_append_of_le_length (by omega), List.take_of_length_le (by omega),
    fromLeBytes_toLeBytes h]

theorem readU64_le64_append (v : U64) (rest : Bytes) : readU64 (le64 v ++ rest) 0 = some v := by
  rw [readU64, le64, readUint_toLeBytes_append (by have := v.isLt; omega)]
  simp

theorem readU128_le128_append (v : U128) (rest : Bytes) :
    readU128 (le128 v ++ rest) 0 = some v := by
  rw [readU128, le128, readUint_toLeBytes_append (by have := v.isLt; omega)]
  simp

theorem Hash.ofSlice?_append (a : Hash) (rest : Bytes) : Hash.ofSlice? (a.bytes ++ rest) = some a := by
  have hlen := a.length_bytes
  rw [Hash.ofSlice?, dif_pos (by simp [hlen])]
  refine congrArg some (Hash.ext_bytes ?_)
  change (a.bytes ++ rest).take 32 = a.bytes
  rw [List.take_append_of_le_length (by omega), List.take_of_length_le (by omega)]

theorem readAccountId_bytes_append (id : AccountId) (rest : Bytes) :
    readAccountId (id.bytes ++ rest) 0 = some id := Hash.ofSlice?_append id rest

theorem readUint_append_left (n : Nat) {p args : Bytes} {offset : Nat} (h : p.length ≤ offset) :
    readUint n (p ++ args) offset = readUint n args (offset - p.length) := by
  obtain ⟨k, rfl⟩ := Nat.exists_eq_add_of_le h
  rw [Nat.add_sub_cancel_left]
  unfold readUint
  rw [List.drop_append, List.length_append]
  simp only [Nat.add_assoc, Nat.add_le_add_iff_left]
  rw [List.drop_of_length_le (by omega), List.nil_append, Nat.add_sub_cancel_left]

theorem readU64_append_left {p args : Bytes} {offset : Nat} (h : p.length ≤ offset) :
    readU64 (p ++ args) offset = readU64 args (offset - p.length) := by
  rw [readU64, readU64, readUint_append_left _ h]

theorem readU128_append_left {p args : Bytes} {offset : Nat} (h : p.length ≤ offset) :
    readU128 (p ++ args) offset = readU128 args (offset - p.length) := by
  rw [readU128, readU128, readUint_append_left _ h]

theorem readAccountId_append_left {p args : Bytes} {offset : Nat} (h : p.length ≤ offset) :
    readAccountId (p ++ args) offset = readAccountId args (offset - p.length) := by
  rw [readAccountId, readAccountId, List.drop_append, List.drop_of_length_le h, List.nil_append]

section

variable {σ : Type} {α : Type}

def orErr (o : Option α) (msg : String) : SysM σ α :=
  match o with
  | some a => pure a
  | none => stop (err msg)

theorem orErr_keeps {I : σ → Prop} (o : Option α) (msg : String) :
    Keeps I (orErr o msg) fun _ => True := by
  cases o with
  | none => exact Keeps.stop
  | some a => exact Keeps.pure trivial

theorem orErr_value {I : σ → Prop} (o : Option α) (msg : String) :
    Keeps I (orErr o msg) fun a => o = some a := by
  cases o with
  | none => exact Keeps.stop
  | some a => exact Keeps.pure rfl

end

section Accounts

variable {σ : Type} [StateStore σ] (E : Platform)

/-! ## Chain metadata and configuration -/

def readCurrentEpoch (s : σ) : U64 :=
  match metaHeight 16 s with
  | some height => BitVec.ofNat 64 (height / 100)
  | none => 0#64

def readMetaHeight (s : σ) : U64 := BitVec.ofNat 64 ((metaHeight 8 s).getD 0)

def readConfigU128 (key : Bytes) (s : σ) : Option U128 :=
  match StateStore.get s key with
  | some data =>
      if 16 ≤ data.length then some (BitVec.ofNat 128 (fromLeBytes (data.take 16))) else none
  | none => none

/-! ## Account moves -/

/-- Takes `amount` from the caller, who must own it and the fee reserve on
top. The sum in the check wraps. -/
def debitWithReserve (sender : AccountId) (amount : U128) (msg : String) : SysM σ Unit := do
  let acct ← mapError (fun e => err e.message) (requireAccount E sender)
  stopIf (acct.balance < amount + minFeeReserve) (err msg)
  saveAccount E { acct with balance := acct.balance - amount }

/-- Takes `amount` from an account that has to exist and own it. -/
def debitCovered (id : AccountId) (amount : U128) (low missing : SystemCallResult) :
    SysM σ Unit := do
  match ← attempt (getAccount E id) with
  | .ok (some acct) => do
      stopIf (acct.balance < amount) low
      saveAccount E { acct with balance := acct.balance - amount }
  | _ => stop missing

/-- Credits an account that can be read; otherwise does nothing. -/
def creditExisting {ε : Type} (id : AccountId) (amount : U128) : Prog σ ε Unit := do
  match ← attempt (requireAccount E id) with
  | .ok acct => saveAccount E { acct with balance := satAdd acct.balance amount }
  | .error _ => pure ()

def emptyAccount (id : AccountId) : Account where
  id := id
  codeHash := Hash.zero
  authMethods := []
  nonce := 0#64
  balance := 0#128

/-- An account, or an empty one when it cannot be read. -/
def getOrEmpty {ε : Type} (id : AccountId) : Prog σ ε Account := do
  match ← attempt (getAccount E id) with
  | .ok (some acct) => pure acct
  | _ => pure (emptyAccount id)

/-- Credits an account, creating it when it cannot be read. -/
def creditOrCreate {ε : Type} (id : AccountId) (amount : U128) : Prog σ ε Unit := do
  let acct ← getOrEmpty E id
  saveAccount E { acct with balance := satAdd acct.balance amount }

variable {E} in
theorem run_creditExisting {ε : Type} {id : AccountId} {amount : U128} {acct : Account} {s : σ}
    (hload : loadAccount E id s = .ok (some acct)) :
    (creditExisting E id amount : Prog σ ε Unit).run s =
      (.ok (), putAccount E { acct with balance := satAdd acct.balance amount } s) := by
  rw [creditExisting, run_bind, run_attempt, run_requireAccount_of_some hload]
  rfl

/-! ## Contract records -/

def loadStaking (s : σ) : StakingContract :=
  loadRecord E.staking StakingContract.storageKey {} s

def saveStaking {ε : Type} (c : StakingContract) : Prog σ ε Unit :=
  modify (saveRecord E.staking StakingContract.storageKey c)

def loadGovernance (s : σ) : GovernanceContract :=
  loadRecord E.governance GovernanceContract.storageKey {} s

def saveGovernance {ε : Type} (c : GovernanceContract) : Prog σ ε Unit :=
  modify (saveRecord E.governance GovernanceContract.storageKey c)

def loadBridge (s : σ) : BridgeContract :=
  loadRecord E.bridge BridgeContract.storageKey {} s

def saveBridge {ε : Type} (c : BridgeContract) : Prog σ ε Unit :=
  modify (saveRecord E.bridge BridgeContract.storageKey c)

def loadTreasury (s : σ) : TreasuryContract :=
  loadRecord E.treasury TreasuryContract.storageKey {} s

def loadVesting (s : σ) : VestingContract :=
  loadRecord E.vesting VestingContract.storageKey {} s

def saveVesting {ε : Type} (c : VestingContract) : Prog σ ε Unit :=
  modify (saveRecord E.vesting VestingContract.storageKey c)

def loadGuardian (s : σ) : GuardianContract :=
  loadRecord E.guardian GuardianContract.storageKey {} s

def saveGuardian {ε : Type} (c : GuardianContract) : Prog σ ε Unit :=
  modify (saveRecord E.guardian GuardianContract.storageKey c)

end Accounts

end Solen
