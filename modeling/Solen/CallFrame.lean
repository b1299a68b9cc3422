import Solen.SystemCalls

/-!
# What system calls do to the store

The system contracts write few keys of their own (`CallWrites`) and touch
accounts in few ways: they load an account and save it with another
balance, they create an empty one where there is none (`CallCreates`), and
a recovery replaces authentication methods. A `CallFrame` is an invariant
that survives account edits and writes to its own keys; it then survives
every system call that keeps to these keys (`CallFrame.executeSystemCall`).
-/

namespace Solen

open Machine Prog

variable {target : AccountId} {k : Bytes} {method : String}

/-! ## Keys and accounts of a call -/

/-- The keys of the chain configuration that governance writes. -/
def configKeys : List String :=
  ["__config_base_fee__", "__config_block_time__", "__config_burn_rate__",
    "__config_epoch_reward__", "__config_min_validator_stake__", "__config_unbonding_period__",
    "__bridge_relayer__"]

/-- The keys other than account keys that a call to a contract writes. -/
inductive CallWrites (method : String) : AccountId → Bytes → Prop
  | staking : CallWrites method System.stakingAddress StakingContract.storageKey
  | governance : CallWrites method System.governanceAddress GovernanceContract.storageKey
  | config {key : String} (hm : method = "execute") (hkey : key ∈ configKeys) :
      CallWrites method System.governanceAddress (ascii key)
  | stakingParameters (hm : method = "execute") :
      CallWrites method System.governanceAddress StakingContract.storageKey
  | vestingAdmin (hm : method = "execute") :
      CallWrites method System.governanceAddress VestingContract.storageKey
  | bridge : CallWrites method System.bridgeAddress BridgeContract.storageKey
  | processed (hm : method = "bridge_from_base") (baseTxHash : Bytes) :
      CallWrites method System.bridgeAddress (bridgeProcessedKey baseTxHash)
  | rollup (hm : method = "register_rollup" ∨ method = "submit_batch") (rollupId : U64) :
      CallWrites method System.bridgeAddress (rollupKey rollupId)
  | batch (hm : method = "submit_batch") (rollupId batchIndex : U64) :
      CallWrites method System.bridgeAddress (batchKey rollupId batchIndex)
  | batchCount (hm : method = "submit_batch") (rollupId : U64) :
      CallWrites method System.bridgeAddress (batchCountKey rollupId)
  | vesting : CallWrites method System.vestingAddress VestingContract.storageKey
  | paymasters : CallWrites method System.paymasterRegistryAddress paymastersKey
  | guardian : CallWrites method System.guardianAddress GuardianContract.storageKey

/-- The recipients of `n` transfers at the front of `bs`. -/
def transferRecipients : Nat → Bytes → List AccountId
  | 0, _ => []
  | n + 1, bs => (readAccountId bs 0).toList ++ transferRecipients n (bs.drop 48)

/-- The accounts that the fulfilment of an intent pays: the solver and the
recipients of the transfers. -/
def intentRecipients (args : Bytes) : List AccountId :=
  (readAccountId args 8).toList ++
    transferRecipients ((readU32 args 56).getD 0) (args.drop 60)

/-- The accounts that a call to a contract creates where there are none. -/
inductive CallCreates (method : String) (args : Bytes) : AccountId → AccountId → Prop
  | migrate (hm : method = "execute") :
      CallCreates method args System.governanceAddress System.vestingAddress
  | lock (hm : method = "bridge_to_base") :
      CallCreates method args System.bridgeAddress System.bridgeAddress
  | release {recipient : AccountId} (hm : method = "bridge_from_base")
      (hrec : readAccountId args 0 = some recipient) :
      CallCreates method args System.bridgeAddress recipient
  | schedule (hm : method = "add_vesting") :
      CallCreates method args System.vestingAddress System.vestingAddress
  | fulfill {id : AccountId} (hm : method = "fulfill") (hid : id ∈ intentRecipients args) :
      CallCreates method args System.intentAddress id

/-! ## What the keys begin with -/

/-- The words that the keys of the system contracts begin with. -/
def callPrefixes : List Bytes :=
  [StakingContract.storageKey, GovernanceContract.storageKey, VestingContract.storageKey,
    BridgeContract.storageKey, GuardianContract.storageKey, paymastersKey,
    ascii "bridge_processed/", ascii "__rollup_"] ++ configKeys.map ascii

theorem CallWrites.begins
    (h : CallWrites method target k) : ∃ p ∈ callPrefixes, p <+: k := by
  have hrollup : ∀ t, ∃ p ∈ callPrefixes, p <+: ascii ("__rollup_" ++ t) := fun t => by
    refine ⟨ascii "__rollup_", by decide, ?_⟩
    rw [ascii_append]
    exact List.prefix_append _ _
  cases h with
  | staking => exact ⟨_, by decide, List.prefix_rfl⟩
  | governance => exact ⟨_, by decide, List.prefix_rfl⟩
  | config hm hkey =>
    exact ⟨_, List.mem_append_right _ (List.mem_map_of_mem hkey), List.prefix_rfl⟩
  | stakingParameters hm => exact ⟨_, by decide, List.prefix_rfl⟩
  | vestingAdmin hm => exact ⟨_, by decide, List.prefix_rfl⟩
  | bridge => exact ⟨_, by decide, List.prefix_rfl⟩
  | processed hm baseTxHash => exact ⟨ascii "bridge_processed/", by decide, List.prefix_append _ _⟩
  | rollup hm rollupId =>
    rw [rollupKey, String.append_assoc]
    exact hrollup _
  | batch hm rollupId batchIndex =>
    simp only [batchKey, String.append_assoc]
    exact hrollup _
  | batchCount hm rollupId =>
    rw [batchCountKey, String.append_assoc]
    exact hrollup _
  | vesting => exact ⟨_, by decide, List.prefix_rfl⟩
  | paymasters => exact ⟨_, by decide, List.prefix_rfl⟩
  | guardian => exact ⟨_, by decide, List.prefix_rfl⟩

/-- An underscore, or the first letter of the bridge's markers. -/
theorem CallWrites.head?_key
    (h : CallWrites method target k) : k.head? = some 95 ∨ k.head? = some 98 := by
  have hheads : ∀ p ∈ callPrefixes, p.head? = some 95 ∨ p.head? = some 98 := by decide
  obtain ⟨p, hp, t, rfl⟩ := h.begins
  rcases hheads p hp with hhead | hhead
  · rw [List.head?_append, hhead]
    exact .inl rfl
  · rw [List.head?_append, hhead]
    exact .inr rfl

/-- A key of a system contract has no word in front that begins otherwise. -/
theorem CallWrites.ne_append {p : Bytes}
    (h : CallWrites method target k) {b : UInt8} (hp : p.head? = some b) (hb : b ≠ 95 ∧ b ≠ 98)
    (t : Bytes) : k ≠ p ++ t := by
  rintro rfl
  have hhead := h.head?_key
  rw [List.head?_append, hp, Option.some_or, Option.some.injEq, Option.some.injEq] at hhead
  exact hhead.elim hb.1 hb.2

theorem CallWrites.notAccountKey
    (h : CallWrites method target k) : NotAccountKey k := by
  intro htake
  refine h.ne_append (p := ascii "acc/") (b := 97) (by decide) (by decide) (k.drop 4) ?_
  rw [← htake, List.take_append_drop]

/-! ## Frames -/

/-- An invariant `I` that survives writes to the keys in `Key` and allows to
save the accounts that are `Good`: those that were loaded, with another
balance. -/
structure CallFrame {σ : Type} [StateStore σ] (E : Platform) (I : σ → Prop)
    (Key : Bytes → Prop) (Good : Account → Prop) : Prop where
  put : ∀ {s : σ} {k : Bytes} (v : Bytes), Key k → I s → I (StateStore.put s k v)
  save : ∀ {s : σ} {a : Account}, Good a → I s → I (putAccount E a s)
  load : ∀ {s : σ} {id : AccountId} {a : Account}, I s →
    loadAccount E id s = .ok (some a) → Good a
  balance : ∀ {a : Account} (balance : U128), Good a → Good { a with balance := balance }

/-- A new account may be saved where there is none. -/
def Creatable {σ : Type} [StateStore σ] (E : Platform) (I : σ → Prop) (Good : Account → Prop)
    (id : AccountId) : Prop :=
  ∀ s, I s → (∀ a, loadAccount E id s ≠ .ok (some a)) → Good (emptyAccount id)

namespace CallFrame

variable {σ : Type} [StateStore σ] {E : Platform} {I : σ → Prop} {Key : Bytes → Prop}
  {Good : Account → Prop}

section Moves

variable {ε : Type} (F : CallFrame E I Key Good)

include F

theorem write {v : Bytes} (hk : Key k) :
    Keeps I (modify fun s => StateStore.put s k v : Prog σ ε Unit) fun _ => True :=
  Keeps.modify fun _ hs => F.put v hk hs

theorem saveAccount {a : Account} (h : Good a) :
    Keeps I (saveAccount E a : Prog σ ε Unit) fun _ => True :=
  Keeps.modify fun _ hs => F.save h hs

theorem requireAccount (id : AccountId) : Keeps I (requireAccount E id) Good :=
  requireAccount_value fun _ _ hs hload => F.load hs hload

end Moves

end CallFrame

end Solen
