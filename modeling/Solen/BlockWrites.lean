import Solen.BlockFrame
import Solen.Spendable

/-!
# What a run of blocks writes

Execution only ever adds to the store: it has no operation that removes a
key. What it adds is limited as well. Every key it writes enters the state
root, so that what the node keeps beside the state, the blocks, the chain's
metadata and the records to revert to, is out of reach of any operation;
and what it writes under a key of contract code is code with that hash.
`Admissible` names such entries and `Extends` the stores that are reached by
writing them one after another. A block leads from a store to one that
extends it (`extendsFrame`), and the rest is read off the relation.
-/

namespace Solen

open Machine

/-- An entry of the state whose key, if it is a key of contract code, is the
hash of the value. -/
structure Admissible (E : Platform) (k v : Bytes) : Prop where
  state : isNonStateKey k = false
  code : ∀ codeHash, k = bytecodeKey codeHash → E.blake3 v = codeHash

/-- One admissible entry is written. -/
def Writes (E : Platform) (m m' : Store) : Prop :=
  ∃ k v, Admissible E k v ∧ m' = m.insert k v

/-- Admissible entries are written, any number of them. -/
def Extends (E : Platform) : Store → Store → Prop := Relation.ReflTransGen (Writes E)

/-- Every piece of code is stored under its hash. -/
def CodeAddressed (E : Platform) (m : Store) : Prop :=
  ∀ codeHash code, m[bytecodeKey codeHash]? = some code → E.blake3 code = codeHash

/-! ## Stores that extend another -/

section Extends

variable {E : Platform} {s m : Store}

theorem Extends.insert (h : Extends E s m) {k v : Bytes} (hkv : Admissible E k v) :
    Extends E s (m.insert k v) :=
  Relation.ReflTransGen.tail h ⟨k, v, hkv, rfl⟩

theorem CodeAddressed.insert (h : CodeAddressed E m) {k v : Bytes} (hkv : Admissible E k v) :
    CodeAddressed E (m.insert k v) := by
  intro codeHash code hcode
  rw [Delta.getElem?_insert] at hcode
  split at hcode
  · next hkey =>
      cases hcode
      exact hkv.code codeHash hkey
  · exact h codeHash code hcode

theorem CodeAddressed.extends (hs : CodeAddressed E s) (h : Extends E s m) :
    CodeAddressed E m := by
  induction h with
  | refl => exact hs
  | tail _ hstep ih =>
    obtain ⟨k, v, hkv, rfl⟩ := hstep
    exact ih.insert hkv

theorem Extends.isSome (h : Extends E s m) {k : Bytes} (hk : s[k]?.isSome) : m[k]?.isSome := by
  induction h with
  | refl => exact hk
  | tail _ hstep ih =>
    obtain ⟨k', v, -, rfl⟩ := hstep
    rw [Delta.getElem?_insert]
    split
    · rfl
    · exact ih

theorem Extends.getElem?_nonState (h : Extends E s m) {k : Bytes} (hk : isNonStateKey k = true) :
    m[k]? = s[k]? := by
  induction h with
  | refl => rfl
  | tail _ hstep ih =>
    obtain ⟨k', v, hkv, rfl⟩ := hstep
    rw [Delta.getElem?_insert, if_neg, ih]
    rintro rfl
    rw [hkv.state] at hk
    cases hk

end Extends

/-! ## The entries that execution writes -/

section Entries

variable {E : Platform}

theorem CallWrites.isNonStateKey {method : String} {target : AccountId} {k : Bytes}
    (h : CallWrites method target k) : isNonStateKey k = false := by
  have hdiffer : ∀ p ∈ callPrefixes, ∀ q ∈ nonStatePrefixes, Differ p q := by decide
  obtain ⟨p, hp, t, rfl⟩ := h.begins
  exact isNonStateKey_append t (hdiffer p hp)

theorem bytecodeKey_ne_accountKey (codeHash : Hash) (id : AccountId) :
    accountKey id ≠ bytecodeKey codeHash :=
  fun h => (notAccountKey_bytecodeKey codeHash).ne id h.symm

theorem contractStorageKey_ne_bytecodeKey (id : AccountId) (k : Bytes) (codeHash : Hash) :
    contractStorageKey id k ≠ bytecodeKey codeHash := by
  intro h
  have hsnd := congrArg (fun l : Bytes => l[1]?) h
  simp only [contractStorageKey, contractStoragePrefix, bytecodeKey, List.append_assoc] at hsnd
  rw [List.getElem?_append_left (by decide), List.getElem?_append_left (by decide)] at hsnd
  revert hsnd
  decide

theorem sessionSpentKey_ne_bytecodeKey (owner : AccountId) (sessionKey codeHash : Hash) :
    sessionSpentKey owner sessionKey ≠ bytecodeKey codeHash := by
  intro h
  have hfst := congrArg (fun l : Bytes => l[0]?) h
  simp only [sessionSpentKey, bytecodeKey, List.append_assoc] at hfst
  rw [List.getElem?_append_left (by decide), List.getElem?_append_left (by decide)] at hfst
  revert hfst
  decide

theorem Admissible.account (id : AccountId) (v : Bytes) : Admissible E (accountKey id) v where
  state := isNonStateKey_accountKey id
  code codeHash hkey := absurd hkey (bytecodeKey_ne_accountKey codeHash id)

theorem Admissible.call {method : String} {target : AccountId} {k : Bytes}
    (h : CallWrites method target k) (v : Bytes) : Admissible E k v where
  state := h.isNonStateKey
  code codeHash hkey :=
    absurd hkey (h.ne_append (b := 99) (by decide) (by decide) codeHash.bytes)

theorem Admissible.storage (id : AccountId) (k v : Bytes) :
    Admissible E (contractStorageKey id k) v where
  state := isNonStateKey_contractStorage (List.prefix_append _ _)
  code codeHash hkey := absurd hkey (contractStorageKey_ne_bytecodeKey id k codeHash)

theorem bytecodeKey_injective : Function.Injective bytecodeKey := by
  intro a b h
  exact Hash.ext_bytes (List.append_cancel_left h)

theorem Admissible.bytecode (code : Bytes) :
    Admissible E (bytecodeKey (E.blake3 code)) code where
  state := isNonStateKey_bytecodeKey _
  code _ hkey := bytecodeKey_injective hkey

theorem Admissible.sessionSpent (owner : AccountId) (sessionKey : Hash) (v : Bytes) :
    Admissible E (sessionSpentKey owner sessionKey) v where
  state := by
    rw [sessionSpentKey, List.append_assoc, List.append_assoc]
    exact isNonStateKey_append _ (by decide)
  code codeHash hkey := absurd hkey (sessionSpentKey_ne_bytecodeKey owner sessionKey codeHash)

theorem Admissible.randomness (v : Bytes) : Admissible E epochRandomnessKey v where
  state := by decide
  code codeHash hkey := by
    have hhead := congrArg List.head? hkey
    rw [bytecodeKey, List.head?_append_of_ne_nil _ (by decide)] at hhead
    exact absurd hhead (by decide)

end Entries

/-! ## Operations and blocks -/

section Frames

variable {base : Store} (E : Platform) (s₀ : Store)

/-- What has been written since `s₀`. -/
abbrev Since {σ : Type} [StateStore σ] (s : σ) : Prop := Extends E s₀ (StateStore.entries s)

theorem sinceCallFrame {σ : Type} [StateStore σ] :
    CallFrame E (Since E s₀ : σ → Prop) (fun k => ∀ v, Admissible E k v) fun _ => True where
  put v hk hs := by
    rw [Since, StateStore.entries_put]
    exact hs.insert (hk v)
  save _ hs := by
    rw [Since, entries_putAccount]
    exact hs.insert (.account _ _)
  load _ _ := trivial
  balance _ _ := trivial

theorem sinceFrame :
    OperationFrame E (Since E s₀ : ExecState base → Prop) (fun _ => True) (fun _ => True)
      fun _ => True where
  storage id k v hs := by
    rw [Since, StateStore.entries_put]
    exact hs.insert (.storage id k v)
  bytecode _ hs := by
    rw [Since, StateStore.entries_put]
    exact hs.insert (.bytecode _)
  loadCode _ _ := trivial
  save := (sinceCallFrame E s₀).save
  load _ _ := trivial
  balance _ _ := trivial
  meter _ _ hs := hs
  emit _ hs := hs
  ofContract _ _ _ := trivial
  ofSender _ _ _ _ := trivial
  record _ _ hs := hs
  advance _ := trivial
  charge owner sessionKey v hs := by
    rw [Since, StateStore.entries_put]
    exact hs.insert (.sessionSpent owner sessionKey v)
  rollback {o o'} h ho := by
    change Extends E s₀ o'.entries
    rw [h]
    exact ho

theorem sinceKeepsCall :
    KeepsCall E (Since E s₀ : ExecState base → Prop) fun _ _ _ => True :=
  fun _ caller target method args _ hs =>
    (sinceCallFrame E s₀).executeSystemCall hs caller target method args
      (fun _ hk => .call hk) (fun _ _ _ _ _ => trivial) fun _ _ _ _ _ => trivial

theorem extendsFrame (X : BlockExecutor) : BlockFrame E X (Extends E s₀) where
  operation {base o} op height h := by
    have hop : ∃ s : ExecState base, Since E s₀ s ∧
        s.store = (executeOperation E X o op height).store ∧ _ :=
      (sinceFrame E s₀).executeOperation (sinceKeepsCall E s₀) LogFrame.vmFits
        (fun _ _ _ _ _ => trivial) (fun _ a _ => (sinceFrame E s₀).fits op.sender a) h
    obtain ⟨s, hs, hstore, -⟩ := hop
    rw [← hstore]
    exact hs
  account id v h := h.insert (.account id v)
  randomness v h := h.insert (.randomness v)

end Frames

/-! ## Runs of blocks -/

section Runs

variable (E : Platform) (X : BlockExecutor)

/-- Blocks executed one after another, each with its height. -/
def executeBlocks (s : Store) (blocks : List (List UserOperation × Nat)) : Store :=
  blocks.foldl (fun s b => (executeBlockWithHeight E X s b.1 b.2).2) s

theorem extends_executeBlocks (s : Store) (blocks : List (List UserOperation × Nat)) :
    Extends E s (executeBlocks E X s blocks) :=
  List.foldlRecOn (motive := Extends E s) blocks _ .refl fun _ hm b _ =>
    (extendsFrame E s X).block hm b.1 b.2

variable {E X} {s : Store}

/-- The code store stays addressed by content. Code that is stored stays
there, and could only be replaced by other code with the same hash. -/
theorem executeBlocks_codeAddressed (hs : CodeAddressed E s)
    (blocks : List (List UserOperation × Nat)) :
    CodeAddressed E (executeBlocks E X s blocks) ∧
      ∀ codeHash code, s[bytecodeKey codeHash]? = some code →
        ∃ code', (executeBlocks E X s blocks)[bytecodeKey codeHash]? = some code' ∧
          E.blake3 code' = E.blake3 code := by
  have hext := extends_executeBlocks E X s blocks
  have haddr := hs.extends hext
  refine ⟨haddr, fun codeHash code hcode => ?_⟩
  have hsome : s[bytecodeKey codeHash]?.isSome := by rw [hcode]; rfl
  obtain ⟨code', hcode'⟩ := Option.isSome_iff_exists.mp (hext.isSome hsome)
  refine ⟨code', hcode', ?_⟩
  rw [haddr codeHash code' hcode', hs codeHash code hcode]

/-- Alice deploys a contract and has another one run. -/
def deployOp : UserOperation :=
  signWith alice 0#64
    { sender := alice
      nonce := 0#64
      actions := [.deploy [3] Hash.zero, .call teller "pay" []]
      maxFee := 500000#128
      signature := [] }

theorem executeBlocks_codeAddressed_deploy :
    let s := contractStore (keyAccount alice 1000000#128)
    let s' := executeBlocks contractPlatform {} s [([deployOp], 1), ([], 100)]
    CodeAddressed contractPlatform s ∧ CodeAddressed contractPlatform s' ∧
      s[bytecodeKey (checksum [3])]? = none ∧ s'[bytecodeKey (checksum [3])]? = some [3] ∧
      ∃ code', s'[bytecodeKey (checksum [1])]? = some code' ∧ checksum code' = checksum [1] := by
  intro s s'
  have hempty : CodeAddressed contractPlatform ∅ := fun _ _ h => by simp at h
  have hs : CodeAddressed contractPlatform s :=
    ((((hempty.insert (.account alice _)).insert (.account teller _)).insert
      (.account keeper _)).insert (.bytecode [1])).insert (.bytecode [2])
  obtain ⟨hs', hkept⟩ := executeBlocks_codeAddressed (X := {}) hs [([deployOp], 1), ([], 100)]
  exact ⟨hs, hs', by decide +kernel, by decide +kernel, hkept _ [1] (by decide +kernel)⟩

/-- Execution removes no key. -/
theorem executeBlocks_keeps_keys {k : Bytes} (hk : s[k]?.isSome)
    (blocks : List (List UserOperation × Nat)) :
    (executeBlocks E X s blocks)[k]?.isSome :=
  (extends_executeBlocks E X s blocks).isSome hk

def paymentStore : Store := singleAccount alice (keyAccount alice 100000#128)

def paymentOp : UserOperation :=
  signWith alice freeExecutor.chainId
    { sender := alice
      nonce := 0#64
      actions := [.transfer bob 5#128]
      maxFee := 0#128
      signature := [] }

theorem executeBlocks_keeps_keys_payment :
    paymentStore[accountKey alice]?.isSome ∧
      (executeBlocks concretePlatform freeExecutor paymentStore [([paymentOp], 1), ([], 100)])[
        accountKey alice]?.isSome := by
  have hs : paymentStore[accountKey alice]?.isSome := by decide +kernel
  exact ⟨hs, executeBlocks_keeps_keys hs _⟩

/-- Execution does not touch what lies outside the state root. -/
theorem executeBlocks_nonState {k : Bytes} (hk : isNonStateKey k = true)
    (blocks : List (List UserOperation × Nat)) :
    (executeBlocks E X s blocks)[k]? = s[k]? :=
  (extends_executeBlocks E X s blocks).getElem?_nonState hk

theorem executeBlocks_nonState_payment :
    let k := ascii "__chain_meta__"
    isNonStateKey k = true ∧
      (executeBlocks concretePlatform freeExecutor (paymentStore.insert k [7])
        [([paymentOp], 1), ([], 100)])[k]? = some [7] := by
  have hk : isNonStateKey (ascii "__chain_meta__") = true := by decide
  refine ⟨hk, ?_⟩
  rw [executeBlocks_nonState hk]
  exact Std.ExtTreeMap.getElem?_insert_self

end Runs

end Solen
