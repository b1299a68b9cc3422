import Solen.StSolen

/-!
# The books of the stSOLEN contract

The contract's storage read as one record. Keys of different kinds never
coincide, so that a write changes one component of the record and leaves
the others; with one equation per kind of key, a method is executed on the
record and the bytes are not looked at again.
-/

namespace Solen

open Machine

variable {x : AccountId} {msg : String} {a b v : U128}

/-! ## What is written reads back -/

@[simp] theorem readU64_le64 (v : U64) : readU64 (le64 v) 0 = some v := by
  have h := readU64_le64_append v []
  rwa [List.append_nil] at h

@[simp] theorem readU128_le128 (v : U128) : readU128 (le128 v) 0 = some v := by
  have h := readU128_le128_append v []
  rwa [List.append_nil] at h

@[simp] theorem Hash.ofSlice?_bytes (a : Hash) : Hash.ofSlice? a.bytes = some a := by
  have h := a.ofSlice?_append []
  rwa [List.append_nil] at h

instance uint8Finite : Finite UInt8 := Finite.of_injective UInt8.toFin fun _ _ => UInt8.toFin_inj.mp

instance : Finite Hash := by
  have hfin : Finite { l : Bytes // l.length = 32 } := List.finite_length_eq UInt8 32
  let slice : Hash → { l : Bytes // l.length = 32 } := fun a => ⟨a.bytes, a.length_bytes⟩
  refine Finite.of_injective slice fun a b h => ?_
  exact Hash.ext_bytes (congrArg Subtype.val h)

noncomputable instance : Fintype Hash := Fintype.ofFinite Hash

namespace StSolen

@[simp] theorem Withdrawal.decode_encode (w : Withdrawal) : decode w.encode = some w := by
  have haccount : w.account.bytes.length = 32 := w.account.length_bytes
  have howed : readU128 w.encode 32 = some w.solenOwed := by
    rw [encode, List.append_assoc, readU128_append_left haccount.le, haccount,
      readU128_le128_append]
  have hepoch : readU64 w.encode 48 = some w.requestedEpoch := by
    have hlen : (w.account.bytes ++ le128 w.solenOwed).length = 48 := by
      rw [List.length_append, haccount, le128, length_toLeBytes]
    rw [encode, readU64_append_left hlen.le, hlen]
    exact readU64_le64 _
  rw [encode, List.append_assoc] at howed hepoch
  simp only [decode, encode, List.append_assoc, Hash.ofSlice?_append, howed, hepoch,
    Option.pure_def, Option.bind_eq_bind, Option.bind_some]

@[simp] theorem Unbonding.decode_encode (u : Unbonding) : decode u.encode = some u := by
  have hlen : (le64 u.epoch).length = 8 := length_toLeBytes _ _
  have hamount : readU128 u.encode 8 = some u.amount := by
    rw [encode, List.append_assoc, readU128_append_left hlen.le, hlen, readU128_le128_append]
  have hoperator : u.encode.drop 24 = u.operator.bytes := by
    refine List.drop_left' ?_
    rw [List.length_append, hlen, le128, length_toLeBytes]
  have hepoch : readU64 u.encode 0 = some u.epoch := by
    rw [encode, List.append_assoc]
    exact readU64_le64_append _ _
  simp only [decode, hepoch, hamount, hoperator, Hash.ofSlice?_bytes, Option.pure_def,
    Option.bind_eq_bind, Option.bind_some]

theorem Withdrawal.decode_nil : decode [] = none := by rfl

theorem Unbonding.decode_nil : decode [] = none := by rfl

/-! ## Keys -/

/-- The fields, in the order of their constructors. -/
def Field.all : List Field :=
  [.owner, .treasury, .slashOracle, .paused, .totalSupply, .totalPooledSolen, .lastBalanceSeen,
    .pendingWithdrawalSolen, .protocolFeeBps, .opCount, .opCursor, .opCapBps,
    .lastRecompoundEpoch, .wqHead, .wqTail, .unLogHead, .unLogTail, .withdrawalBuffer]

/-- The part of a key before the slash. -/
def Key.stem : Key → Bytes
  | field f => ascii f.name
  | balance _ => ascii "bal"
  | allowance _ _ => ascii "allow"
  | op _ => ascii "op"
  | opStake _ => ascii "op_stake"
  | pendingUndelegate _ => ascii "pue"
  | inflightUndelegations _ => ascii "ifu"
  | wq _ => ascii "wq"
  | unLog _ => ascii "un"

def Key.stems : List Bytes :=
  Field.all.map (fun f => ascii f.name) ++ ["bal", "allow", "op", "op_stake", "pue", "ifu", "wq",
    "un"].map ascii

/-- The place of a key's stem in the list of stems. -/
def Key.kind : Key → Nat
  | field f => f.ctorIdx
  | balance _ => 18
  | allowance _ _ => 19
  | op _ => 20
  | opStake _ => 21
  | pendingUndelegate _ => 22
  | inflightUndelegations _ => 23
  | wq _ => 24
  | unLog _ => 25

theorem Key.stems_nodup : Key.stems.Nodup := by decide

theorem Key.stems_kind (k : Key) : Key.stems[k.kind]? = some k.stem := by
  cases k with
  | field f => cases f <;> rfl
  | _ => rfl

def slash : UInt8 := 47

/-- What follows the slash. -/
def Key.rest : Key → Bytes
  | field _ => []
  | balance account => account.bytes
  | allowance owner spender => owner.bytes ++ (ascii "/" ++ spender.bytes)
  | op i => le64 i
  | opStake operator => operator.bytes
  | pendingUndelegate operator => operator.bytes
  | inflightUndelegations operator => operator.bytes
  | wq seq => le64 seq
  | unLog seq => le64 seq

/-- A key from the two parts of its bytes. -/
def Key.ofParts (rest : Bytes) : Nat → Option Key
  | 18 => (Hash.ofSlice? rest).map balance
  | 19 => (Hash.ofSlice? rest).bind fun owner =>
      (Hash.ofSlice? (rest.drop 33)).map (allowance owner)
  | 20 => (readU64 rest 0).map op
  | 21 => (Hash.ofSlice? rest).map opStake
  | 22 => (Hash.ofSlice? rest).map pendingUndelegate
  | 23 => (Hash.ofSlice? rest).map inflightUndelegations
  | 24 => (readU64 rest 0).map wq
  | 25 => (readU64 rest 0).map unLog
  | i => Field.all[i]?.map field

theorem Key.ofParts_eq (k : Key) : Key.ofParts k.rest k.kind = some k := by
  cases k with
  | field f => cases f <;> rfl
  | allowance owner spender =>
    have hdrop : (owner.bytes ++ (ascii "/" ++ spender.bytes)).drop 33 = spender.bytes := by
      rw [← List.append_assoc]
      refine List.drop_left' ?_
      rw [List.length_append, owner.length_bytes]
      rfl
    simp only [Key.ofParts, Key.rest, Key.kind, Hash.ofSlice?_append, hdrop,
      Hash.ofSlice?_bytes, Option.bind_some, Option.map_some]
  | _ => simp [Key.ofParts, Key.rest, Key.kind]

/-- The bytes of a key fall apart at the first slash. -/
theorem split_at_slash (stem : Bytes) {lead rest : Bytes} (hlead : lead = stem ++ [slash])
    (h : stem.all (· != slash) = true) :
    (lead ++ rest).takeWhile (· != slash) = stem ∧
      ((lead ++ rest).dropWhile (· != slash)).tail = rest := by
  have hall := List.all_eq_true.mp h
  rw [hlead, List.append_assoc, List.singleton_append, List.takeWhile_append_of_pos hall,
    List.dropWhile_append_of_pos hall, List.takeWhile_cons_of_neg (by decide),
    List.dropWhile_cons_of_neg (by decide)]
  exact ⟨List.append_nil _, rfl⟩

theorem Key.split_bytes (k : Key) :
    k.bytes.takeWhile (· != slash) = k.stem ∧ (k.bytes.dropWhile (· != slash)).tail = k.rest := by
  cases k with
  | field f => cases f <;> decide
  | allowance a b =>
    rw [Key.bytes, List.append_assoc, List.append_assoc]
    exact split_at_slash (ascii "allow") (by decide) (by decide)
  | balance a => exact split_at_slash (ascii "bal") (by decide) (by decide)
  | op i => exact split_at_slash (ascii "op") (by decide) (by decide)
  | opStake a => exact split_at_slash (ascii "op_stake") (by decide) (by decide)
  | pendingUndelegate a => exact split_at_slash (ascii "pue") (by decide) (by decide)
  | inflightUndelegations a => exact split_at_slash (ascii "ifu") (by decide) (by decide)
  | wq i => exact split_at_slash (ascii "wq") (by decide) (by decide)
  | unLog i => exact split_at_slash (ascii "un") (by decide) (by decide)

theorem Key.bytes_injective : Function.Injective Key.bytes := by
  intro k k' h
  have hstem : k.stem = k'.stem := by rw [← k.split_bytes.1, ← k'.split_bytes.1, h]
  have hrest : k.rest = k'.rest := by rw [← k.split_bytes.2, ← k'.split_bytes.2, h]
  have hlt : k.kind < Key.stems.length := (List.getElem?_eq_some_iff.mp k.stems_kind).1
  have hkind : k.kind = k'.kind := by
    refine (List.getElem?_inj hlt Key.stems_nodup).mp ?_
    rw [k.stems_kind, k'.stems_kind, hstem]
  have hparts := k.ofParts_eq
  rw [hrest, hkind, k'.ofParts_eq] at hparts
  exact (Option.some.inj hparts).symm

theorem getElem?_insert_key (m : Store) (k k' : Key) (v : Bytes) :
    (m.insert k.bytes v)[k'.bytes]? = if k' = k then some v else m[k'.bytes]? := by
  rw [Delta.getElem?_insert]
  simp only [Key.bytes_injective.eq_iff, eq_comm]

/-! ## The books -/

/-- The contract's storage as one record. -/
@[ext]
structure Books where
  owner : AccountId
  treasury : AccountId
  slashOracle : AccountId
  paused : Bool
  supply : U128
  pooled : U128
  lastSeen : U128
  pending : U128
  buffer : U128
  feeBps : U64
  opCapBps : U64
  opCount : U64
  opCursor : U64
  lastRecompound : U64
  wqHead : U64
  wqTail : U64
  unHead : U64
  unTail : U64
  balance : AccountId → U128
  allowance : AccountId → AccountId → U128
  op : U64 → AccountId
  opStake : AccountId → U128
  pendingUndelegate : AccountId → U128
  inflight : AccountId → U64
  wq : U64 → Option Withdrawal
  unLog : U64 → Option Unbonding

section Views

variable (m : Store) (k : Key)

def u64At : Option U64 := m[k.bytes]?.bind fun data => readU64 data 0

def u128At : Option U128 := m[k.bytes]?.bind fun data => readU128 data 0

def hashAt : Option Hash := m[k.bytes]?.bind fun data => Hash.ofSlice? data

end Views

def books (m : Store) : Books where
  owner := (hashAt m (.field .owner)).getD Hash.zero
  treasury := (hashAt m (.field .treasury)).getD Hash.zero
  slashOracle := (hashAt m (.field .slashOracle)).getD Hash.zero
  paused := m[(Key.field .paused).bytes]?.bind List.head? == some 1
  supply := (u128At m (.field .totalSupply)).getD 0#128
  pooled := (u128At m (.field .totalPooledSolen)).getD 0#128
  lastSeen := (u128At m (.field .lastBalanceSeen)).getD 0#128
  pending := (u128At m (.field .pendingWithdrawalSolen)).getD 0#128
  buffer := (u128At m (.field .withdrawalBuffer)).getD 0#128
  feeBps := (u64At m (.field .protocolFeeBps)).getD defaultFeeBps
  opCapBps := (u64At m (.field .opCapBps)).getD defaultOpCapBps
  opCount := (u64At m (.field .opCount)).getD 0#64
  opCursor := (u64At m (.field .opCursor)).getD 0#64
  lastRecompound := (u64At m (.field .lastRecompoundEpoch)).getD 0#64
  wqHead := (u64At m (.field .wqHead)).getD 0#64
  wqTail := (u64At m (.field .wqTail)).getD 0#64
  unHead := (u64At m (.field .unLogHead)).getD 0#64
  unTail := (u64At m (.field .unLogTail)).getD 0#64
  balance account := (u128At m (.balance account)).getD 0#128
  allowance owner spender := (u128At m (.allowance owner spender)).getD 0#128
  op i := (hashAt m (.op i)).getD Hash.zero
  opStake op := (u128At m (.opStake op)).getD 0#128
  pendingUndelegate op := (u128At m (.pendingUndelegate op)).getD 0#128
  inflight op := (u64At m (.inflightUndelegations op)).getD 0#64
  wq seq := m[(Key.wq seq).bytes]?.bind Withdrawal.decode
  unLog seq := m[(Key.unLog seq).bytes]?.bind Unbonding.decode

/-- The books after `v` was written under a key. -/
def Books.put (b : Books) (v : Bytes) : Key → Books
  | .field .owner => { b with owner := (Hash.ofSlice? v).getD Hash.zero }
  | .field .treasury => { b with treasury := (Hash.ofSlice? v).getD Hash.zero }
  | .field .slashOracle => { b with slashOracle := (Hash.ofSlice? v).getD Hash.zero }
  | .field .paused => { b with paused := v.head? == some 1 }
  | .field .totalSupply => { b with supply := (readU128 v 0).getD 0#128 }
  | .field .totalPooledSolen => { b with pooled := (readU128 v 0).getD 0#128 }
  | .field .lastBalanceSeen => { b with lastSeen := (readU128 v 0).getD 0#128 }
  | .field .pendingWithdrawalSolen => { b with pending := (readU128 v 0).getD 0#128 }
  | .field .protocolFeeBps => { b with feeBps := (readU64 v 0).getD defaultFeeBps }
  | .field .opCount => { b with opCount := (readU64 v 0).getD 0#64 }
  | .field .opCursor => { b with opCursor := (readU64 v 0).getD 0#64 }
  | .field .opCapBps => { b with opCapBps := (readU64 v 0).getD defaultOpCapBps }
  | .field .lastRecompoundEpoch => { b with lastRecompound := (readU64 v 0).getD 0#64 }
  | .field .wqHead => { b with wqHead := (readU64 v 0).getD 0#64 }
  | .field .wqTail => { b with wqTail := (readU64 v 0).getD 0#64 }
  | .field .unLogHead => { b with unHead := (readU64 v 0).getD 0#64 }
  | .field .unLogTail => { b with unTail := (readU64 v 0).getD 0#64 }
  | .field .withdrawalBuffer => { b with buffer := (readU128 v 0).getD 0#128 }
  | .balance a => { b with balance := Function.update b.balance a ((readU128 v 0).getD 0#128) }
  | .allowance a c =>
      { b with
        allowance := Function.update b.allowance a
          (Function.update (b.allowance a) c ((readU128 v 0).getD 0#128)) }
  | .op i => { b with op := Function.update b.op i ((Hash.ofSlice? v).getD Hash.zero) }
  | .opStake a => { b with opStake := Function.update b.opStake a ((readU128 v 0).getD 0#128) }
  | .pendingUndelegate a =>
      { b with pendingUndelegate :=
          Function.update b.pendingUndelegate a ((readU128 v 0).getD 0#128) }
  | .inflightUndelegations a =>
      { b with inflight := Function.update b.inflight a ((readU64 v 0).getD 0#64) }
  | .wq i => { b with wq := Function.update b.wq i (Withdrawal.decode v) }
  | .unLog i => { b with unLog := Function.update b.unLog i (Unbonding.decode v) }

section Writes

variable (m : Store) (k : Key) (v : Bytes)

theorem u64At_insert (k' : Key) :
    u64At (m.insert k.bytes v) k' = if k' = k then readU64 v 0 else u64At m k' := by
  simp only [u64At, getElem?_insert_key]
  split <;> rfl

theorem u128At_insert (k' : Key) :
    u128At (m.insert k.bytes v) k' = if k' = k then readU128 v 0 else u128At m k' := by
  simp only [u128At, getElem?_insert_key]
  split <;> rfl

theorem hashAt_insert (k' : Key) :
    hashAt (m.insert k.bytes v) k' = if k' = k then Hash.ofSlice? v else hashAt m k' := by
  simp only [hashAt, getElem?_insert_key]
  split <;> rfl

theorem books_insert_field (f : Field) :
    books (m.insert (Key.field f).bytes v) = (books m).put v (.field f) := by
  cases f <;>
  simp [Books.put, books, u64At_insert, u128At_insert, hashAt_insert, getElem?_insert_key]

/-- Writing under a key changes one component. -/
theorem books_insert : books (m.insert k.bytes v) = (books m).put v k := by
  cases k
  case field f => exact books_insert_field m v f
  all_goals
    simp [Books.put, books, u64At_insert, u128At_insert, hashAt_insert, getElem?_insert_key,
      funext_iff, Function.update_apply, apply_ite Option.getD, ite_apply]
  case allowance owner spender =>
    intro x y
    by_cases hx : x = owner
    · subst hx
      simp
    · simp [hx]
  case wq | unLog =>
    intro x
    split <;> rfl

end Writes

/-! ## Frames -/

/-- A sum that stays below `2 ^ 128`. -/
def Fits (a b : U128) : Prop := a.toNat + b.toNat < 2 ^ 128

theorem Fits.toNat_add (h : Fits a b) : (a + b).toNat = a.toNat + b.toNat :=
  BitVec.toNat_add_of_lt h

theorem Fits.toNat_satAdd (h : Fits a b) : (satAdd a b).toNat = a.toNat + b.toNat :=
  toNat_satAdd_of_lt h

theorem Fits.zero (a : U128) : Fits a 0#128 := a.isLt

theorem toNat_pos (h : v ≠ 0#128) : 0 < v.toNat :=
  Nat.pos_of_ne_zero fun hzero => h (BitVec.eq_of_toNat_eq hzero)

namespace Frame

def books (s : Frame) : Books := StSolen.books s.storage

def put (k : Key) (v : Bytes) (s : Frame) : Frame := s.written k.bytes v

/-- A call to the staking contract. -/
def stakingCall (method : String) (args : Bytes) : PendingCall :=
  ⟨System.stakingAddress, ascii method, args⟩

def queueing (method : String) (args : Bytes) (s : Frame) : Frame :=
  s.queued (stakingCall method args)

variable (s : Frame) (k : Key) (v data : Bytes) (a b : U128) (topic : String) (dest : AccountId)

@[simp] theorem books_put : (s.put k v).books = s.books.put v k := books_insert _ _ _

@[simp] theorem books_noted : (s.noted a b).books = s.books := by rfl

@[simp] theorem books_emitted : (s.emitted topic data).books = s.books := by rfl

@[simp] theorem books_sending : (s.sending dest a).books = s.books := by rfl

@[simp] theorem books_queueing : (s.queueing topic data).books = s.books := by rfl

@[simp] theorem overflowed_put : (s.put k v).overflowed = s.overflowed := by rfl

/-- A sum that was noted and did not overflow. -/
@[simp] theorem overflowed_noted :
    (s.noted a b).overflowed = false ↔ s.overflowed = false ∧ Fits a b := by
  simp only [noted, Bool.or_eq_false_iff, decide_eq_false_iff_not, Nat.not_le, Fits]

@[simp] theorem overflowed_emitted : (s.emitted topic data).overflowed = s.overflowed := by rfl

@[simp] theorem overflowed_queueing : (s.queueing topic data).overflowed = s.overflowed := by rfl

@[simp] theorem pendingCalls_put : (s.put k v).pendingCalls = s.pendingCalls := by rfl

@[simp] theorem pendingCalls_noted : (s.noted a b).pendingCalls = s.pendingCalls := by rfl

@[simp] theorem pendingCalls_emitted : (s.emitted topic data).pendingCalls = s.pendingCalls := by rfl

@[simp] theorem pendingCalls_sending : (s.sending dest a).pendingCalls = s.pendingCalls := by rfl

@[simp] theorem pendingCalls_queueing :
    (s.queueing topic data).pendingCalls = s.pendingCalls ++ [stakingCall topic data] := by rfl

@[simp] theorem nativeTransfers_put : (s.put k v).nativeTransfers = s.nativeTransfers := by rfl

@[simp] theorem nativeTransfers_noted : (s.noted a b).nativeTransfers = s.nativeTransfers := by rfl

@[simp] theorem nativeTransfers_emitted :
    (s.emitted topic data).nativeTransfers = s.nativeTransfers := by rfl

@[simp] theorem nativeTransfers_sending :
    (s.sending dest a).nativeTransfers = s.nativeTransfers ++ [⟨dest, a⟩] := by rfl

@[simp] theorem nativeTransfers_queueing :
    (s.queueing topic data).nativeTransfers = s.nativeTransfers := by rfl

end Frame

/-! ## Executing methods -/

section Rules

variable {α β : Type} {s : Frame} {f : α → Code β} {next : Unit → Code β}
  {Post : Except Exit β → Frame → Prop}

@[simp] theorem gives_getOwner_bind {f : AccountId → Code β} :
    Gives (getOwner >>= f) s Post ↔ Gives (f s.books.owner) s Post := Iff.rfl

@[simp] theorem gives_getTreasury_bind {f : AccountId → Code β} :
    Gives (getTreasury >>= f) s Post ↔ Gives (f s.books.treasury) s Post := Iff.rfl

@[simp] theorem gives_getSlashOracle_bind {f : AccountId → Code β} :
    Gives (getSlashOracle >>= f) s Post ↔ Gives (f s.books.slashOracle) s Post := Iff.rfl

@[simp] theorem gives_isPaused_bind {f : Bool → Code β} :
    Gives (isPaused >>= f) s Post ↔ Gives (f s.books.paused) s Post := Iff.rfl

@[simp] theorem gives_getTotalSupply_bind {f : U128 → Code β} :
    Gives (getTotalSupply >>= f) s Post ↔ Gives (f s.books.supply) s Post := Iff.rfl

@[simp] theorem gives_getTotalPooled_bind {f : U128 → Code β} :
    Gives (getTotalPooled >>= f) s Post ↔ Gives (f s.books.pooled) s Post := Iff.rfl

@[simp] theorem gives_getLastBalanceSeen_bind {f : U128 → Code β} :
    Gives (getLastBalanceSeen >>= f) s Post ↔ Gives (f s.books.lastSeen) s Post := Iff.rfl

@[simp] theorem gives_getPendingWithdrawalsSolen_bind {f : U128 → Code β} :
    Gives (getPendingWithdrawalsSolen >>= f) s Post ↔ Gives (f s.books.pending) s Post := Iff.rfl

@[simp] theorem gives_getWithdrawalBuffer_bind {f : U128 → Code β} :
    Gives (getWithdrawalBuffer >>= f) s Post ↔ Gives (f s.books.buffer) s Post := Iff.rfl

@[simp] theorem gives_getProtocolFeeBps_bind {f : U64 → Code β} :
    Gives (getProtocolFeeBps >>= f) s Post ↔ Gives (f s.books.feeBps) s Post := Iff.rfl

@[simp] theorem gives_getOpCount_bind {f : U64 → Code β} :
    Gives (getOpCount >>= f) s Post ↔ Gives (f s.books.opCount) s Post := Iff.rfl

@[simp] theorem gives_getLastRecompoundEpoch_bind {f : U64 → Code β} :
    Gives (getLastRecompoundEpoch >>= f) s Post ↔ Gives (f s.books.lastRecompound) s Post := Iff.rfl

@[simp] theorem gives_getWqHead_bind {f : U64 → Code β} :
    Gives (getWqHead >>= f) s Post ↔ Gives (f s.books.wqHead) s Post := Iff.rfl

@[simp] theorem gives_getWqTail_bind {f : U64 → Code β} :
    Gives (getWqTail >>= f) s Post ↔ Gives (f s.books.wqTail) s Post := Iff.rfl

@[simp] theorem gives_getUnLogHead_bind {f : U64 → Code β} :
    Gives (getUnLogHead >>= f) s Post ↔ Gives (f s.books.unHead) s Post := Iff.rfl

@[simp] theorem gives_getUnLogTail_bind {f : U64 → Code β} :
    Gives (getUnLogTail >>= f) s Post ↔ Gives (f s.books.unTail) s Post := Iff.rfl

@[simp] theorem gives_getBalance_bind {f : U128 → Code β} :
    Gives (getBalance x >>= f) s Post ↔ Gives (f (s.books.balance x)) s Post := Iff.rfl

@[simp] theorem gives_getAllowance_bind {y : AccountId} {f : U128 → Code β} :
    Gives (getAllowance x y >>= f) s Post ↔ Gives (f (s.books.allowance x y)) s Post := Iff.rfl

@[simp] theorem gives_getOp_bind {i : U64} {f : AccountId → Code β} :
    Gives (getOp i >>= f) s Post ↔ Gives (f (s.books.op i)) s Post := Iff.rfl

@[simp] theorem gives_getOpStake_bind {f : U128 → Code β} :
    Gives (getOpStake x >>= f) s Post ↔ Gives (f (s.books.opStake x)) s Post := Iff.rfl

@[simp] theorem gives_getPendingUndelegate_bind {f : U128 → Code β} :
    Gives (getPendingUndelegate x >>= f) s Post ↔ Gives (f (s.books.pendingUndelegate x)) s Post := Iff.rfl

@[simp] theorem gives_getInflightUndelegations_bind {f : U64 → Code β} :
    Gives (getInflightUndelegations x >>= f) s Post ↔ Gives (f (s.books.inflight x)) s Post := Iff.rfl

@[simp] theorem gives_readWq_bind {seq : U64} {f : Option Withdrawal → Code β} :
    Gives (readWq seq >>= f) s Post ↔ Gives (f (s.books.wq seq)) s Post := Iff.rfl

@[simp] theorem gives_readUnLog_bind {seq : U64} {f : Option Unbonding → Code β} :
    Gives (readUnLog seq >>= f) s Post ↔ Gives (f (s.books.unLog seq)) s Post := Iff.rfl

@[simp] theorem gives_caller_bind {f : AccountId → Code β} :
    Gives (caller >>= f) s Post ↔ Gives (f s.ctx.caller) s Post := Iff.rfl

@[simp] theorem gives_msgValue_bind {f : U128 → Code β} :
    Gives (msgValue >>= f) s Post ↔ Gives (f s.ctx.msgValue) s Post := Iff.rfl

@[simp] theorem gives_selfBalance_bind {f : U128 → Code β} :
    Gives (selfBalance >>= f) s Post ↔ Gives (f s.ctx.selfBalance) s Post := Iff.rfl

/-- The epoch the contract sees. -/
def epochOf (ctx : HostContext) : U64 := BitVec.ofNat 64 ctx.blockHeight / epochLengthBlocks

@[simp] theorem gives_currentEpoch_bind {f : U64 → Code β} :
    Gives (currentEpoch >>= f) s Post ↔ Gives (f (epochOf s.ctx)) s Post := Iff.rfl

@[simp] theorem gives_set_bind {k : Key} {v : Bytes} :
    Gives (set k v >>= next) s Post ↔ Gives (next ()) (s.put k v) Post := Iff.rfl

@[simp] theorem gives_setU64_bind {k : Key} {v : U64} :
    Gives (setU64 k v >>= next) s Post ↔ Gives (next ()) (s.put k (le64 v)) Post := Iff.rfl

@[simp] theorem gives_setU128_bind {k : Key} :
    Gives (setU128 k v >>= next) s Post ↔ Gives (next ()) (s.put k (le128 v)) Post := Iff.rfl

@[simp] theorem gives_setU128 {k : Key} {Post : Except Exit Unit → Frame → Prop} :
    Gives (setU128 k v) s Post ↔ Post (.ok ()) (s.put k (le128 v)) := Iff.rfl

@[simp] theorem gives_emit_bind {topic : String} {data : Bytes} :
    Gives (emit topic data >>= next) s Post ↔ Gives (next ()) (s.emitted topic data) Post := Iff.rfl

@[simp] theorem gives_emit {topic : String} {data : Bytes}
    {Post : Except Exit Unit → Frame → Prop} :
    Gives (emit topic data) s Post ↔ Post (.ok ()) (s.emitted topic data) := Iff.rfl

@[simp] theorem gives_add_bind {f : U128 → Code β} :
    Gives (add a b >>= f) s Post ↔ Gives (f (a + b)) (s.noted a b) Post := Iff.rfl

@[simp] theorem gives_saturatingAdd_bind {f : U128 → Code β} :
    Gives (saturatingAdd a b >>= f) s Post ↔ Gives (f (satAdd a b)) (s.noted a b) Post := Iff.rfl

@[simp] theorem gives_failIf_bind {c : Prop} [Decidable c] :
    Gives (failIf c msg >>= next) s Post ↔
      (c → Post (.error (.returned (ascii msg))) s) ∧ (¬ c → Gives (next ()) s Post) :=
  gives_ite_bind

@[simp] theorem gives_trapIf_bind {c : Prop} [Decidable c] :
    Gives (trapIf c msg >>= next) s Post ↔
      (c → Post (.error (.trapped msg)) s) ∧ (¬ c → Gives (next ()) s Post) :=
  gives_ite_bind

@[simp] theorem gives_orFail_bind {o : Option α} :
    Gives (orFail o msg >>= f) s Post ↔
      (o = none → Post (.error (.returned (ascii msg))) s) ∧
        ∀ a, o = some a → Gives (f a) s Post := by
  cases o with
  | none => exact ⟨fun h => ⟨fun _ => h, nofun⟩, fun h => h.1 rfl⟩
  | some a => exact ⟨fun h => ⟨nofun, fun _ ha => Option.some.inj ha ▸ h⟩, fun h => h.2 a rfl⟩

@[simp] theorem gives_transferNative_bind {dest : AccountId} {amount : U128} :
    Gives (transferNative dest amount msg >>= next) s Post ↔
      (¬ s.CanSend amount → Post (.error (.trapped msg)) s) ∧
        (s.CanSend amount → Gives (next ()) (s.sending dest amount) Post) := by
  change Prog.Gives (Code.plain (.send dest amount fun sent => trapIf (sent = false) msg >>= next))
    s Post ↔ _
  unfold Prog.Gives
  rw [Code.run_plain_send]
  split
  · next hsend => exact ⟨fun h => ⟨(absurd hsend ·), fun _ => h⟩, fun h => h.2 hsend⟩
  · next hsend => exact ⟨fun h => ⟨fun _ => h, (absurd · hsend)⟩, fun h => h.1 hsend⟩

@[simp] theorem gives_queueStaking_bind {method : String} {args : Bytes} :
    Gives (queueStaking method args msg >>= next) s Post ↔
      (¬ s.CanQueue → Post (.error (.trapped msg)) s) ∧
        (s.CanQueue → Gives (next ()) (s.queueing method args) Post) := by
  change Prog.Gives (Code.plain (.queue (Frame.stakingCall method args)
    fun queued => trapIf (queued = false) msg >>= next)) s Post ↔ _
  unfold Prog.Gives
  rw [Code.run_plain_queue]
  split
  · next hqueue => exact ⟨fun h => ⟨(absurd hqueue ·), fun _ => h⟩, fun h => h.2 hqueue⟩
  · next hqueue => exact ⟨fun h => ⟨fun _ => h, (absurd · hqueue)⟩, fun h => h.1 hqueue⟩

@[simp] theorem gives_ok {Post : Except Exit Bytes → Frame → Prop} :
    Gives ok s Post ↔ Post (.ok (ascii "ok")) s := Iff.rfl

end Rules

end StSolen

end Solen
