import Mathlib
import Solen.Machine

/-!
# Core types

Accounts, user operations and block headers, as `solen-types` declares
them. A 32-byte identifier carries the proof of its length, so that
keys built from identifiers have a known shape; amounts and nonces are
fixed-width integers; block heights, epochs and timestamps are plain
counters.
-/

/-- `iter_mut().find(p)` followed by an in-place update: only the first
match changes. -/
def List.updateFirst {α : Type} (p : α → Bool) (f : α → α) : List α → List α
  | [] => []
  | a :: l => if p a then f a :: l else a :: l.updateFirst p f

theorem List.find?_updateFirst {α : Type} {p : α → Bool} {f : α → α}
    (hf : ∀ a, p a = true → p (f a) = true) :
    ∀ l : List α, (l.updateFirst p f).find? p = (l.find? p).map f
  | [] => rfl
  | a :: l => by
      cases ha : p a with
      | true => simp [List.updateFirst, ha, hf a ha]
      | false => simp [List.updateFirst, ha, List.find?_updateFirst hf l]

/-- Two updates of the same element. -/
theorem List.updateFirst_updateFirst {α : Type} {p : α → Bool} {f g : α → α}
    (hf : ∀ a, p a = true → p (f a) = true) :
    ∀ l : List α, (l.updateFirst p f).updateFirst p g = l.updateFirst p fun a => g (f a)
  | [] => rfl
  | a :: l => by
      cases ha : p a with
      | true => simp [List.updateFirst, ha, hf a ha]
      | false => simp [List.updateFirst, ha, List.updateFirst_updateFirst hf l]

/-- A search that passes over what is updated finds the same as before. -/
theorem List.find?_updateFirst_of_ne {α : Type} {p q : α → Bool} {f : α → α}
    (hq : ∀ a, p a = true → q a = false ∧ q (f a) = false) :
    ∀ l : List α, (l.updateFirst p f).find? q = l.find? q
  | [] => rfl
  | a :: l => by
      cases ha : p a with
      | true => simp [List.updateFirst, ha, hq a ha]
      | false =>
        rw [List.updateFirst, if_neg (by simp [ha]), List.find?_cons, List.find?_cons,
          List.find?_updateFirst_of_ne hq l]

/-- A sum over the list changes by what the first match changes. -/
theorem List.sum_map_updateFirst {α : Type} {p : α → Bool} {a : α} (f : α → α) (g : α → Nat) :
    ∀ {l : List α}, l.find? p = some a →
      ((l.updateFirst p f).map g).sum + g a = (l.map g).sum + g (f a)
  | [], h => by cases h
  | b :: l, h => by
      cases hb : p b with
      | true =>
        rw [List.find?_cons_of_pos hb] at h
        cases h
        simp only [List.updateFirst, hb, if_true, List.map_cons, List.sum_cons]
        omega
      | false =>
        rw [List.find?_cons_of_neg (by simp [hb])] at h
        have := List.sum_map_updateFirst f g h
        simp only [List.updateFirst, hb, Bool.false_eq_true, if_false, List.map_cons,
          List.sum_cons]
        omega

/-- A sum does not fall when the match does not count for less. -/
theorem List.sum_map_le_updateFirst {α : Type} {p : α → Bool} {f : α → α} {g : α → Nat}
    (h : ∀ a, p a = true → g a ≤ g (f a)) :
    ∀ l : List α, (l.map g).sum ≤ ((l.updateFirst p f).map g).sum
  | [] => Nat.le_refl _
  | a :: l => by
      rw [List.updateFirst]
      split
      · next ha =>
          rw [List.map_cons, List.map_cons, List.sum_cons, List.sum_cons]
          exact Nat.add_le_add_right (h a ha) _
      · rw [List.map_cons, List.map_cons, List.sum_cons, List.sum_cons]
        exact Nat.add_le_add_left (List.sum_map_le_updateFirst h l) _

theorem List.sum_map_filter {α : Type} (p : α → Bool) (f : α → Nat) (l : List α) :
    ((l.filter p).map f).sum = (l.map fun a => if p a then f a else 0).sum := by
  induction l with
  | nil => rfl
  | cons a l ih =>
    cases hp : p a with
    | true => simp [hp, ih]
    | false => simp [hp, ih]

/-- What does not change under the update reads the same off the whole list. -/
theorem List.map_updateFirst {α β : Type} {p : α → Bool} {f : α → α} {g : α → β}
    (hg : ∀ a, g (f a) = g a) : ∀ l : List α, (l.updateFirst p f).map g = l.map g
  | [] => rfl
  | a :: l => by
      rw [List.updateFirst]
      split
      · rw [List.map_cons, List.map_cons, hg]
      · rw [List.map_cons, List.map_cons, List.map_updateFirst hg l]

/-- An element of the updated list was there before, or is the updated match. -/
theorem List.mem_updateFirst {α : Type} {p : α → Bool} {f : α → α} {b : α} :
    ∀ {l : List α}, b ∈ l.updateFirst p f → b ∈ l ∨ ∃ a ∈ l, p a = true ∧ b = f a
  | [], h => by cases h
  | a :: l, h => by
      rw [List.updateFirst] at h
      split at h
      · next ha =>
          rcases List.mem_cons.mp h with rfl | h
          · exact .inr ⟨a, List.mem_cons_self, ha, rfl⟩
          · exact .inl (List.mem_cons_of_mem a h)
      · rcases List.mem_cons.mp h with rfl | h
        · exact .inl List.mem_cons_self
        · rcases List.mem_updateFirst h with h | ⟨a', ha', hp, rfl⟩
          · exact .inl (List.mem_cons_of_mem a h)
          · exact .inr ⟨a', List.mem_cons_of_mem a ha', hp, rfl⟩

/-- An element stays, unless it is the match that is updated. -/
theorem List.mem_updateFirst_of_mem {α : Type} {p : α → Bool} (f : α → α) {b : α} :
    ∀ {l : List α}, b ∈ l → b ∈ l.updateFirst p f ∨ p b = true ∧ f b ∈ l.updateFirst p f
  | a :: l, h => by
      rw [List.updateFirst]
      split
      · next ha =>
          rcases List.mem_cons.mp h with rfl | h
          · exact .inr ⟨ha, List.mem_cons_self⟩
          · exact .inl (List.mem_cons_of_mem _ h)
      · rcases List.mem_cons.mp h with rfl | h
        · exact .inl List.mem_cons_self
        · rcases List.mem_updateFirst_of_mem f h with h | ⟨hp, h⟩
          · exact .inl (List.mem_cons_of_mem a h)
          · exact .inr ⟨hp, List.mem_cons_of_mem a h⟩

/-- Updates of the first match, by its position. -/
theorem List.updateFirst_eq_set {α : Type} {p : α → Bool} {a : α} :
    ∀ {l : List α}, l.find? p = some a →
      ∃ i, l.findIdx? p = some i ∧ l[i]? = some a ∧ ∀ f, l.updateFirst p f = l.set i (f a)
  | [], h => by cases h
  | b :: l, h => by
      cases hb : p b with
      | true =>
        rw [List.find?_cons_of_pos hb] at h
        cases h
        exact ⟨0, by simp [List.findIdx?_cons, hb], rfl, fun f => by simp [List.updateFirst, hb]⟩
      | false =>
        rw [List.find?_cons_of_neg (by simp [hb])] at h
        obtain ⟨i, hidx, hget, hset⟩ := List.updateFirst_eq_set h
        refine ⟨i + 1, by simp [List.findIdx?_cons, hb, hidx], by simpa using hget, fun f => ?_⟩
        simp [List.updateFirst, hb, hset]

namespace Solen

open Machine

/-! ## Identifiers -/

/-- A 32-byte hash. Account and validator identifiers are hashes too. -/
structure Hash where
  bytes : Bytes
  length_bytes : bytes.length = 32
deriving DecidableEq

abbrev AccountId := Hash

abbrev ValidatorId := Hash

namespace Hash

theorem ext_bytes {a b : Hash} (h : a.bytes = b.bytes) : a = b := by
  cases a; cases b; simpa using h

instance : Ord Hash := ⟨fun a b => compare a.bytes b.bytes⟩

instance : Std.TransOrd Hash where
  eq_swap := fun {a b} => Std.OrientedOrd.eq_swap (a := a.bytes) (b := b.bytes)
  isLE_trans := fun {a b c} =>
    Std.TransOrd.isLE_trans (a := a.bytes) (b := b.bytes) (c := c.bytes)

instance : Std.LawfulEqOrd Hash where
  compare_self := fun {a} => Std.ReflOrd.compare_self (a := a.bytes)
  eq_of_compare := fun h => ext_bytes (Std.LawfulEqOrd.eq_of_compare h)

/-- `[b; 32]`. -/
def repeated (b : UInt8) : Hash := ⟨List.replicate 32 b, by simp⟩

def zero : Hash := repeated 0

/-- The first 32 bytes of a slice, when it has that many. -/
def ofSlice? (bs : Bytes) : Option Hash :=
  if h : 32 ≤ bs.length then some ⟨bs.take 32, by simp [h]⟩ else none

end Hash

/-- A polynomial checksum, to compute with where a hash function is asked for. -/
def checksum (bs : Bytes) : Hash :=
  ⟨toLeBytes 32 (bs.foldl (fun h b => (h * 257 + b.toNat + 1) % 2 ^ 256) 0), by simp⟩

/-- Bytes of an ASCII literal (`b"..."`). -/
def ascii (s : String) : Bytes := s.toList.map fun c => UInt8.ofNat c.toNat

theorem ascii_append (a b : String) : ascii (a ++ b) = ascii a ++ ascii b := by
  simp [ascii]

/-! ## Accounts -/

inductive AuthMethod where
  | passkey (credentialId : Bytes) (publicKeyX publicKeyY : Hash) (rpId : String)
      (origins : List String)
  | ed25519 (publicKey : Hash)
  | threshold (signers : List Hash) (threshold : BitVec 16)
  | guardian (guardianId : AccountId)
  | session (sessionKey : Hash) (expiresAt : U64) (spendingLimit budgetTotal : U128)
      (allowedTargets : List AccountId) (allowedMethods : List String)
      (restrictSubcalls : Bool)
  | mlDsa (publicKey : Bytes)
  | hybrid (ed25519PublicKey : Hash) (mlDsaPublicKey : Bytes)
deriving DecidableEq

structure Account where
  id : AccountId
  codeHash : Hash
  authMethods : List AuthMethod
  nonce : U64
  balance : U128
deriving DecidableEq

/-! ## Operations -/

inductive Action where
  | transfer (dest : AccountId) (amount : U128)
  | call (target : AccountId) (method : String) (args : Bytes)
  | deploy (code : Bytes) (salt : Hash)
  | setAuth (authMethods : List AuthMethod)
deriving DecidableEq

structure UserOperation where
  sender : AccountId
  nonce : U64
  actions : List Action
  maxFee : U128
  signature : Bytes
deriving DecidableEq

structure Event where
  emitter : AccountId
  topic : Bytes
  data : Bytes
deriving DecidableEq

/-! ## Block headers -/

structure BlockHeader where
  height : Nat
  epoch : Nat
  parentHash : Hash
  stateRoot : Hash
  transactionsRoot : Hash
  receiptsRoot : Hash
  proposer : ValidatorId
  timestampMs : Nat
  proposerSignature : Bytes
deriving DecidableEq

/-! ## System addresses -/

namespace System

def addr (id : UInt8) : AccountId := ⟨List.replicate 31 0xFF ++ [id], by simp⟩

def stakingAddress : AccountId := addr 0x01

def governanceAddress : AccountId := addr 0x02

def bridgeAddress : AccountId := addr 0x03

def treasuryAddress : AccountId := addr 0x04

def intentAddress : AccountId := addr 0x05

def vestingAddress : AccountId := addr 0x06

def paymasterRegistryAddress : AccountId := addr 0x07

def guardianAddress : AccountId := addr 0x08

def stakingPoolAddress : AccountId := addr 0x10

def teamPoolAddress : AccountId := addr 0x23

/-- The first 30 bytes are all `0xFF`. -/
def isSystemContract (id : AccountId) : Bool :=
  id.bytes.take 30 == List.replicate 30 0xFF

end System

end Solen
