import Solen.Prog
import Solen.Platform

/-!
# Accounts

Account records live under `acc/<id>`, bytecode under `code/<hash>` and
contract storage under `cs/<id>/<key>`. This file is the state manager
over an arbitrary store, together with the few facts about keys and
single account updates that every later proof uses.

An account is saved under the identifier written in its record, not
under the key it was loaded from. The two agree in a `WellFormed`
store, and every writer keeps it so.
-/

namespace Solen

open Machine Prog

variable {a : Account} {id : AccountId} {k key : Bytes} {m : Store} {nonce : U64}

inductive StateError where
  | accountNotFound (what : String)
  | insufficientBalance (got need : U128)
  | invalidNonce (expected got : U64)
  | serialization (msg : String)
deriving DecidableEq

def StateError.message : StateError → String
  | accountNotFound what => s!"account not found: {what}"
  | insufficientBalance got need =>
      s!"insufficient balance: have {got.toNat}, need {need.toNat}"
  | invalidNonce expected got =>
      s!"invalid nonce: expected {expected.toNat}, got {got.toNat}"
  | serialization msg => s!"serialization error: {msg}"

/-! ## Keys -/

def accountKey (id : AccountId) : Bytes := ascii "acc/" ++ id.bytes

def bytecodeKey (codeHash : Hash) : Bytes := ascii "code/" ++ codeHash.bytes

def contractStoragePrefix (contractId : AccountId) : Bytes :=
  ascii "cs/" ++ contractId.bytes ++ ascii "/"

def contractStorageKey (contractId : AccountId) (key : Bytes) : Bytes :=
  contractStoragePrefix contractId ++ key

def chainMetaKey : Bytes := ascii "__chain_meta__"

/-- The keys under which no account is stored. -/
def NotAccountKey (k : Bytes) : Prop := k.take 4 ≠ ascii "acc/"

instance (k : Bytes) : Decidable (NotAccountKey k) :=
  inferInstanceAs (Decidable (k.take 4 ≠ ascii "acc/"))

theorem accountKey_inj {a b : AccountId} : accountKey a = accountKey b ↔ a = b := by
  constructor
  · intro h
    exact Hash.ext_bytes (List.append_cancel_left h)
  · exact congrArg accountKey

theorem take_accountKey (id : AccountId) : (accountKey id).take 4 = ascii "acc/" := by
  have : (ascii "acc/").length = 4 := by decide
  rw [accountKey, ← this, List.take_left]

theorem NotAccountKey.ne (h : NotAccountKey k) (id : AccountId) :
    k ≠ accountKey id := by
  rintro rfl
  exact h (take_accountKey id)

theorem notAccountKey_append {p : Bytes} (hlen : 4 ≤ p.length) (h : NotAccountKey p) :
    NotAccountKey (p ++ k) := by
  unfold NotAccountKey at h ⊢
  rwa [List.take_append_of_le_length hlen]

theorem notAccountKey_bytecodeKey (h : Hash) : NotAccountKey (bytecodeKey h) :=
  notAccountKey_append (by decide) (by decide)

theorem notAccountKey_contractStorageKey (id : AccountId) (k : Bytes) :
    NotAccountKey (contractStorageKey id k) := by
  unfold NotAccountKey contractStorageKey contractStoragePrefix
  simp only [ascii, List.append_assoc]
  intro h
  have h0 := congrArg List.head? h
  revert h0
  simp

/-! ## The state manager -/

section Manager

variable {σ : Type} [StateStore σ] (E : Platform)

def loadAccount (id : AccountId) (s : σ) : Except StateError (Option Account) :=
  match StateStore.get s (accountKey id) with
  | none => .ok none
  | some data =>
      match E.account.fromSlice data with
      | some a => .ok (some a)
      | none => .error (.serialization "malformed account record")

def getAccount (id : AccountId) : Prog σ StateError (Option Account) :=
  tryReads (loadAccount E id)

def requireAccount (id : AccountId) : Prog σ StateError Account := do
  match ← getAccount E id with
  | some a => pure a
  | none => stop (.accountNotFound (hexEncode id.bytes))

def putAccount (a : Account) (s : σ) : σ :=
  StateStore.put s (accountKey a.id) (E.account.toVec a)

def saveAccount {ε : Type} (a : Account) : Prog σ ε Unit := modify (putAccount E a)

def createAccount (id : AccountId) (authMethods : List AuthMethod) (initialBalance : U128) :
    Prog σ StateError Account := do
  let account : Account :=
    { id := id
      codeHash := Hash.zero
      authMethods := authMethods
      nonce := 0#64
      balance := initialBalance }
  saveAccount E account
  pure account

/-- The receiver of a transfer: an existing account, or a new one whose key
is its identifier. System contracts are never created this way. -/
def transferReceiver (dest : AccountId) : Prog σ StateError Account := do
  match ← getAccount E dest with
  | some acc => pure acc
  | none => do
      stopIf (System.isSystemContract dest = true)
        (.accountNotFound "cannot transfer to system contract")
      let _ ← createAccount E dest [.ed25519 dest] 0#128
      requireAccount E dest

def transfer (source dest : AccountId) (amount : U128) : Prog σ StateError Unit := do
  let sender ← requireAccount E source
  stopIf (sender.balance < amount) (.insufficientBalance sender.balance amount)
  saveAccount E { sender with balance := sender.balance - amount }
  let receiver ← transferReceiver E dest
  saveAccount E { receiver with balance := satAdd receiver.balance amount }

def consumeNonce (id : AccountId) (nonce : U64) : Prog σ StateError Unit := do
  let account ← requireAccount E id
  stopIf (nonce ≠ account.nonce) (.invalidNonce account.nonce nonce)
  match checkedAdd account.nonce 1#64 with
  | none => stop (.serialization "nonce overflow")
  | some next => saveAccount E { account with nonce := next }

/-- The block height in the chain metadata, the first eight bytes of it. -/
def metaHeight (minLength : Nat) (s : σ) : Option Nat :=
  match StateStore.get s chainMetaKey with
  | some data => if minLength ≤ data.length then some (fromLeBytes (data.take 8)) else none
  | none => none

def currentHeight (s : σ) : Option Nat := metaHeight 8 s

def storeBytecode (code : Bytes) : Prog σ StateError Hash := do
  let hash := E.blake3 code
  modify fun s => StateStore.put s (bytecodeKey hash) code
  pure hash

def loadBytecode (codeHash : Hash) (s : σ) : Option Bytes :=
  StateStore.get s (bytecodeKey codeHash)

def loadContractStorage (contractId : AccountId) (s : σ) : Store :=
  let p := contractStoragePrefix contractId
  (StateStore.scanPrefix s p).foldl (fun m e => m.insert (e.1.drop p.length) e.2) ∅

/-- Writes every entry back, then the sorted list of keys as a manifest. -/
def saveContractStorage (contractId : AccountId) (storage : Store) : Prog σ StateError Unit := do
  each (fun e => modify fun s => StateStore.put s (contractStorageKey contractId e.1) e.2)
    storage.toList
  modify fun s => StateStore.put s (contractStorageKey contractId (ascii "__keys__"))
    (E.byteStrings.toVec storage.keys)

/-! ### Running the account operations -/

@[simp] theorem run_getAccount (id : AccountId) (s : σ) :
    (getAccount E id).run s = (loadAccount E id s, s) := rfl

@[simp] theorem run_saveAccount {ε : Type} (a : Account) (s : σ) :
    (saveAccount E a : Prog σ ε Unit).run s = (.ok (), putAccount E a s) := rfl

@[simp] theorem entries_putAccount (a : Account) (s : σ) :
    StateStore.entries (putAccount E a s) =
      (StateStore.entries s).insert (accountKey a.id) (E.account.toVec a) :=
  StateStore.entries_put s _ _

variable {E}

theorem loadAccount_of_getElem? {s : σ}
    (h : (StateStore.entries s)[accountKey id]? = some (E.account.toVec a)) :
    loadAccount E id s = .ok (some a) := by
  rw [loadAccount, StateStore.get_eq, h]
  simp only [E.account.fromSlice_toVec]

theorem loadAccount_putAccount (a : Account) (s : σ) (id : AccountId) :
    loadAccount E id (putAccount E a s) =
      if a.id = id then .ok (some a) else loadAccount E id s := by
  rw [loadAccount, putAccount, StateStore.get_put]
  by_cases hid : a.id = id
  · rw [if_pos (accountKey_inj.mpr hid), if_pos hid]
    simp only [E.account.fromSlice_toVec]
  · rw [if_neg (mt accountKey_inj.mp hid), if_neg hid]
    rfl

theorem loadAccount_saveRecord {α : Type} (codec : Serde α)
    (hk : NotAccountKey key) (r : α) (s : σ) (id : AccountId) :
    loadAccount E id (saveRecord codec key r s) = loadAccount E id s := by
  rw [loadAccount, saveRecord, StateStore.get_put_of_ne _ _ (hk.ne id), loadAccount]

theorem getAccount_eq_ok {s s' : σ} {o : Option Account}
    (h : (getAccount E id).run s = (.ok o, s')) : loadAccount E id s = .ok o ∧ s' = s := by
  rw [run_getAccount, Prod.mk.injEq] at h
  exact ⟨h.1, h.2.symm⟩

theorem run_requireAccount_of_some {s : σ}
    (h : loadAccount E id s = .ok (some a)) : (requireAccount E id).run s = (.ok a, s) := by
  rw [requireAccount, run_bind, run_getAccount, h]
  rfl

theorem requireAccount_eq_ok {s s' : σ}
    (h : (requireAccount E id).run s = (.ok a, s')) :
    loadAccount E id s = .ok (some a) ∧ s' = s := by
  rw [requireAccount, run_bind, run_getAccount] at h
  cases hload : loadAccount E id s with
  | error e => rw [hload] at h; cases h
  | ok o =>
    rw [hload] at h
    cases o with
    | none => cases h
    | some a' => cases h; exact ⟨rfl, rfl⟩

theorem requireAccount_state (id : AccountId) (s : σ) : ((requireAccount E id).run s).2 = s := by
  rw [requireAccount, run_bind, run_getAccount]
  cases loadAccount E id s with
  | error e => rfl
  | ok o => cases o <;> rfl

/-- A nonce is consumed by the account that has it, unless it is the last. -/
theorem consumeNonce_eq_ok {s s' : σ}
    (h : (consumeNonce E id nonce).run s = (.ok (), s')) :
    ∃ a, loadAccount E id s = .ok (some a) ∧ nonce = a.nonce ∧ a.nonce.toNat + 1 < 2 ^ 64 ∧
      s' = putAccount E { a with nonce := a.nonce + 1#64 } s := by
  rw [consumeNonce, run_bind_eq_ok] at h
  obtain ⟨a, s₁, hreq, h⟩ := h
  obtain ⟨hload, rfl⟩ := requireAccount_eq_ok hreq
  by_cases hn : nonce ≠ a.nonce
  · rw [run_bind_error (run_stopIf_pos hn)] at h
    cases h
  · rw [run_bind_ok (run_stopIf_neg hn)] at h
    cases hadd : checkedAdd a.nonce 1#64 with
    | none => rw [hadd] at h; cases h
    | some next =>
      rw [hadd] at h
      have hlt : a.nonce.toNat + 1 < 2 ^ 64 := by
        have hval := checkedAdd_eq_some.mp hadd
        have hnext := next.isLt
        rw [show (1#64).toNat = 1 from rfl] at hval
        omega
      have hnext : next = a.nonce + 1#64 := by
        rw [checkedAdd, if_pos (by simpa using hlt)] at hadd
        exact (Option.some.inj hadd).symm
      cases h
      exact ⟨a, hload, not_not.mp hn, hlt, by rw [hnext]⟩

theorem run_consumeNonce {s : σ}
    (hload : loadAccount E id s = .ok (some a)) (hlast : a.nonce.toNat + 1 < 2 ^ 64) :
    (consumeNonce E id a.nonce).run s =
      (.ok (), putAccount E { a with nonce := a.nonce + 1#64 } s) := by
  have hadd : checkedAdd a.nonce 1#64 = some (a.nonce + 1#64) := by
    rw [checkedAdd, if_pos (by simpa using hlast)]
  rw [consumeNonce, run_bind_ok (run_requireAccount_of_some hload),
    run_bind_ok (run_stopIf_neg (not_not.mpr rfl)), hadd]
  rfl

theorem consumeNonce_eq_error {s s' : σ} {e : StateError}
    (h : (consumeNonce E id nonce).run s = (.error e, s')) : s' = s := by
  rw [consumeNonce, run_bind_eq_error] at h
  rcases h with hreq | ⟨a, s₁, hreq, h⟩
  · rw [← requireAccount_state (E := E) id s, hreq]
  · obtain ⟨-, rfl⟩ := requireAccount_eq_ok hreq
    by_cases hn : nonce ≠ a.nonce
    · rw [run_bind_error (run_stopIf_pos hn)] at h
      cases h; rfl
    · rw [run_bind_ok (run_stopIf_neg hn)] at h
      cases hadd : checkedAdd a.nonce 1#64 with
      | none => rw [hadd] at h; cases h; rfl
      | some next => rw [hadd] at h; cases h

theorem getAccount_keeps {I : σ → Prop} (id : AccountId) :
    Keeps I (getAccount E id) fun _ => True := Keeps.tryAsk

theorem requireAccount_keeps {I : σ → Prop} (id : AccountId) :
    Keeps I (requireAccount E id) fun _ => True := by
  refine Keeps.seq (getAccount_keeps id) fun o => ?_
  cases o with
  | none => exact Keeps.stop
  | some a => exact Keeps.pure trivial

/-! What is loaded where the invariant holds. -/

section Value

variable {I : σ → Prop} {id : AccountId} {ε : Type}

theorem requireAccount_value {P : Account → Prop}
    (h : ∀ s a, I s → loadAccount E id s = .ok (some a) → P a) :
    Keeps I (requireAccount E id) P := by
  intro s hs
  rw [requireAccount_state]
  refine ⟨hs, fun a ha => h s a hs ?_⟩
  exact (requireAccount_eq_ok (Prod.ext ha (requireAccount_state id s))).1

theorem attemptGet_value {P : Except StateError (Option Account) → Prop}
    (h : ∀ s, I s → P (loadAccount E id s)) :
    Keeps I (attempt (getAccount E id) : Prog σ ε _) P := by
  intro s hs
  refine ⟨hs, fun r hr => ?_⟩
  cases hr
  exact h s hs

theorem attemptRequire_value {P : Account → Prop} {N : Prop}
    (hload : ∀ s a, I s → loadAccount E id s = .ok (some a) → P a)
    (hnone : ∀ s, I s → (∀ a, loadAccount E id s ≠ .ok (some a)) → N) :
    Keeps I (attempt (requireAccount E id) : Prog σ ε _) fun r =>
      (∀ a, r = .ok a → P a) ∧ ((∀ a, r ≠ .ok a) → N) := by
  intro s hs
  rw [run_attempt, requireAccount_state]
  refine ⟨hs, fun r hr => ?_⟩
  cases hr
  refine ⟨(requireAccount_value hload s hs).2, fun hmissing => hnone s hs fun a ha => ?_⟩
  refine hmissing a ?_
  rw [run_requireAccount_of_some ha]

theorem consumeNonce_keeps
    (h : ∀ s a, I s → loadAccount E id s = .ok (some a) → nonce = a.nonce →
      a.nonce.toNat + 1 < 2 ^ 64 → I (putAccount E { a with nonce := a.nonce + 1#64 } s)) :
    Keeps I (consumeNonce E id nonce) fun _ => True := by
  intro s hs
  refine ⟨?_, fun _ _ => trivial⟩
  rcases hrun : (consumeNonce E id nonce).run s with ⟨r, s'⟩
  cases r with
  | error e => exact consumeNonce_eq_error hrun ▸ hs
  | ok u =>
    obtain ⟨a, hload, hnonce, hlast, rfl⟩ := consumeNonce_eq_ok hrun
    exact h s a hs hload hnonce hlast

end Value

section Ends

variable {P : σ → Prop} {ε : Type}

theorem getAccount_ends (id : AccountId) :
    Ends P (getAccount E id) fun o s => P s ∧ loadAccount E id s = .ok o := by
  intro s o s' hs hrun
  obtain ⟨hload, rfl⟩ := getAccount_eq_ok hrun
  exact ⟨hs, hload⟩

theorem requireAccount_ends (id : AccountId) :
    Ends P (requireAccount E id) fun a s => P s ∧ loadAccount E id s = .ok (some a) := by
  intro s a s' hs hrun
  obtain ⟨hload, rfl⟩ := requireAccount_eq_ok hrun
  exact ⟨hs, hload⟩

theorem attemptGet_ends (id : AccountId) :
    Ends P (attempt (getAccount E id) : Prog σ ε _) fun r s => P s ∧ loadAccount E id s = r := by
  rintro s r s' hs hrun
  cases hrun
  exact ⟨hs, rfl⟩

theorem attemptRequire_ends (id : AccountId) :
    Ends P (attempt (requireAccount E id) : Prog σ ε _) fun r s => P s ∧
      (∀ a, r = .ok a → loadAccount E id s = .ok (some a)) ∧
      (∀ e, r = .error e → ∀ a, loadAccount E id s ≠ .ok (some a)) := by
  rintro s r s' hs hrun
  rw [run_attempt, requireAccount_state] at hrun
  cases hrun
  refine ⟨hs, fun a ha => ?_, fun e he a ha => ?_⟩
  · exact (requireAccount_eq_ok (Prod.ext ha (requireAccount_state id s))).1
  · rw [run_requireAccount_of_some ha] at he
    cases he

end Ends

end Manager

/-! ## Well-formed stores -/

section WellFormed

variable (E : Platform)

/-- The account stored under `id`. -/
def account? (m : Store) (id : AccountId) : Option Account :=
  m[accountKey id]?.bind E.account.fromSlice

/-- Every account record can be read and carries the identifier it is
stored under. -/
def WellFormed (m : Store) : Prop :=
  ∀ id data, m[accountKey id]? = some data →
    ∃ a, E.account.fromSlice data = some a ∧ a.id = id

variable {E}

theorem WellFormed.id_eq (hwf : WellFormed E m)
    (h : account? E m id = some a) : a.id = id := by
  rw [account?, Option.bind_eq_some_iff] at h
  obtain ⟨data, hdata, hslice⟩ := h
  obtain ⟨a', ha', hid⟩ := hwf id data hdata
  rw [ha'] at hslice
  exact Option.some.inj hslice ▸ hid

theorem WellFormed.loadAccount_eq {σ : Type} [StateStore σ] {s : σ}
    (hwf : WellFormed E (StateStore.entries s)) (id : AccountId) :
    loadAccount E id s = .ok (account? E (StateStore.entries s) id) := by
  rw [loadAccount, account?, StateStore.get_eq]
  cases hk : (StateStore.entries s)[accountKey id]? with
  | none => rfl
  | some data =>
    obtain ⟨a, ha, -⟩ := hwf id data hk
    simp [ha]

theorem account?_of_loadAccount {σ : Type} [StateStore σ] {s : σ}
    {o : Option Account} (h : loadAccount E id s = .ok o) :
    account? E (StateStore.entries s) id = o := by
  rw [loadAccount, StateStore.get_eq] at h
  rw [account?]
  cases hk : (StateStore.entries s)[accountKey id]? with
  | none => rw [hk] at h; cases h; rfl
  | some data =>
    rw [hk] at h
    cases ha : E.account.fromSlice data with
    | none => simp [ha] at h
    | some a => simp only [ha, Except.ok.injEq] at h; simp [ha, h]

theorem loadAccount_of_account? {σ : Type} [StateStore σ] {s : σ}
    (h : account? E (StateStore.entries s) id = some a) : loadAccount E id s = .ok (some a) := by
  obtain ⟨data, hk, ha⟩ := Option.bind_eq_some_iff.mp h
  rw [loadAccount, StateStore.get_eq, hk]
  simp only [ha]

/-! ### Single updates -/

theorem account?_insert_accountKey (m : Store) (a : Account) (id : AccountId) :
    account? E (m.insert (accountKey a.id) (E.account.toVec a)) id =
      if a.id = id then some a else account? E m id := by
  rw [account?, Delta.getElem?_insert]
  simp only [accountKey_inj]
  split
  · simp [E.account.fromSlice_toVec]
  · rfl

theorem account?_insert_of_notAccountKey (hk : NotAccountKey k)
    (v : Bytes) (id : AccountId) : account? E (m.insert k v) id = account? E m id := by
  rw [account?, account?, Delta.getElem?_insert, if_neg (hk.ne id)]

theorem WellFormed.insert_account (hwf : WellFormed E m) (a : Account) :
    WellFormed E (m.insert (accountKey a.id) (E.account.toVec a)) := by
  intro id data h
  rw [Delta.getElem?_insert] at h
  simp only [accountKey_inj] at h
  split at h
  · next hid =>
      cases h
      exact ⟨a, E.account.fromSlice_toVec a, hid⟩
  · exact hwf id data h

theorem WellFormed.insert_of_notAccountKey (hwf : WellFormed E m)
    (hk : NotAccountKey k) (v : Bytes) : WellFormed E (m.insert k v) := by
  intro id data h
  rw [Delta.getElem?_insert, if_neg (hk.ne id)] at h
  exact hwf id data h

/-! ### Updates of a store -/

section

variable {σ : Type} [StateStore σ]

theorem account?_putAccount (a : Account) (s : σ) (id : AccountId) :
    account? E (StateStore.entries (putAccount E a s)) id =
      if a.id = id then some a else account? E (StateStore.entries s) id := by
  rw [entries_putAccount, account?_insert_accountKey]

theorem WellFormed.putAccount {s : σ} (hwf : WellFormed E (StateStore.entries s)) (a : Account) :
    WellFormed E (StateStore.entries (putAccount E a s)) := by
  rw [entries_putAccount]
  exact hwf.insert_account a

theorem account?_saveRecord {α : Type} (codec : Serde α) (hk : NotAccountKey key)
    (r : α) (s : σ) (id : AccountId) :
    account? E (StateStore.entries (saveRecord codec key r s)) id =
      account? E (StateStore.entries s) id := by
  rw [saveRecord, StateStore.entries_put, account?_insert_of_notAccountKey hk]

theorem loadRecord_putAccount {α : Type} (codec : Serde α)
    (hk : NotAccountKey key) (d : α) (a : Account) (s : σ) :
    loadRecord codec key d (putAccount E a s) = loadRecord codec key d s :=
  loadRecord_put_of_ne codec d s _ (hk.ne a.id).symm

end

end WellFormed

end Solen
