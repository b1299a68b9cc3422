import Solen.CallFrame
import Solen.CallRules

/-!
# What system calls read and write

Two stores that agree on the keys a system call reads let it run the
same way: same result, same writes. Almost everything the system
contracts read enters the state root; `SystemReads` lists the keys they
read besides.

The calls are gone through once, for a relation between the states of
two stores (`SysFrame`): reads of the keys in `V` agree, and writes to
the keys in `Key` and of the accounts that are `Good` preserve the
relation. A `ReadFrame` is such a relation that every write preserves,
and the invariant of a `CallFrame` is one between a state and itself.
-/

namespace Solen

open Machine Prog

variable {id sender : AccountId} {k key : Bytes}

/-! ## Keys that enter the state root -/

/-- Two byte strings that differ at a position both have. -/
def Differ (p q : Bytes) : Prop := ¬ p <+: q ∧ ¬ q <+: p

theorem Differ.not_prefix_append {p q t : Bytes} (h : Differ p q) : ¬ q <+: p ++ t := by
  intro hq
  rcases List.prefix_or_prefix_of_prefix hq (List.prefix_append p t) with hqp | hpq
  · exact h.2 hqp
  · exact h.1 hpq

instance (p q : Bytes) : Decidable (Differ p q) :=
  inferInstanceAs (Decidable (¬ p <+: q ∧ ¬ q <+: p))

theorem isNonStateKey_append {p : Bytes} (t : Bytes)
    (h : ∀ q ∈ nonStatePrefixes, Differ p q) : isNonStateKey (p ++ t) = false := by
  rw [isNonStateKey, List.any_eq_false]
  intro q hq hpre
  exact (h q hq).not_prefix_append (List.isPrefixOf_iff_prefix.mp hpre)

theorem isNonStateKey_accountKey (id : AccountId) : isNonStateKey (accountKey id) = false :=
  isNonStateKey_append _ (by decide)

theorem isNonStateKey_bytecodeKey (h : Hash) : isNonStateKey (bytecodeKey h) = false :=
  isNonStateKey_append _ (by decide)

theorem isNonStateKey_contractStorage
    (h : contractStoragePrefix id <+: k) : isNonStateKey k = false := by
  obtain ⟨t, rfl⟩ := h
  rw [contractStoragePrefix, List.append_assoc, List.append_assoc]
  exact isNonStateKey_append _ (by decide)

theorem isNonStateKey_rollupKey (rollupId : U64) :
    isNonStateKey (rollupKey rollupId) = false := by
  rw [rollupKey, String.append_assoc, ascii_append]
  exact isNonStateKey_append _ (by decide)

theorem isNonStateKey_intentKey (intentId : U64) :
    isNonStateKey (intentKey intentId) = false := by
  rw [intentKey, ascii_append]
  exact isNonStateKey_append _ (by decide)

theorem isNonStateKey_bridgeProcessedKey (h : Bytes) :
    isNonStateKey (bridgeProcessedKey h) = false :=
  isNonStateKey_append _ (by decide)

theorem isNonStateKey_downtime (id : AccountId) :
    isNonStateKey (ascii "downtime/" ++ asBytes (hexEncode id.bytes)) = false :=
  isNonStateKey_append _ (by decide)

/-! ## Keys outside the state root that system calls read -/

def chainIdKey : Bytes := ascii "__chain_id__"

def slashPrefix (offender : AccountId) : Bytes :=
  ascii "slash/" ++ asBytes (hexEncode offender.bytes)

/-- The calls that read the height or the epoch from the chain metadata. -/
def ReadsHeight (target : AccountId) (method : String) : Prop :=
  (target = System.stakingAddress ∧ method ∈ ["register", "delegate", "undelegate", "withdraw",
    "slash", "unjail", "rotate_key"]) ∨
  (target = System.governanceAddress ∧ (isProposalMethod method ∨
    method ∈ ["vote", "finalize", "execute"])) ∨
  (target = System.bridgeAddress ∧ method = "register_rollup") ∨
  (target = System.vestingAddress ∧ method ∈ ["claim", "status", "add_vesting"]) ∨
  (target = System.guardianAddress ∧ method ∈ ["initiate_recovery", "execute_recovery"])

/-- The keys outside the state root that a system call reads. -/
def SystemReads (target : AccountId) (method : String) (args k : Bytes) : Prop :=
  (k = chainMetaKey ∧ ReadsHeight target method) ∨
  (k = chainIdKey ∧ target = System.bridgeAddress ∧ method = "register_rollup") ∨
  (target = System.stakingAddress ∧ method = "slash" ∧
    ∃ offender, readAccountId args 0 = some offender ∧ slashPrefix offender <+: k)

/-! ## Frames -/

/-- A relation under which reads of the keys in `V` agree. -/
structure ViewFrame {σ σ' : Type} [StateStore σ] [StateStore σ'] (V : Bytes → Prop)
    (R : σ → σ' → Prop) : Prop where
  state : ∀ {k : Bytes}, isNonStateKey k = false → V k
  get : ∀ {s : σ} {s' : σ'} {k : Bytes}, R s s' → V k → StateStore.get s k = StateStore.get s' k
  scan : ∀ {s : σ} {s' : σ'} {p : Bytes}, R s s' → (∀ k, p <+: k → V k) →
    StateStore.scanPrefix s p = StateStore.scanPrefix s' p

/-- It survives every write. -/
structure ReadFrame {σ σ' : Type} [StateStore σ] [StateStore σ'] (V : Bytes → Prop)
    (R : σ → σ' → Prop) : Prop extends ViewFrame V R where
  put : ∀ {s : σ} {s' : σ'} (k v : Bytes), R s s' →
    R (StateStore.put s k v) (StateStore.put s' k v)

/-- The accounts that system contracts pay from on behalf of others. -/
def isVault (id : AccountId) : Bool :=
  id == System.bridgeAddress || id == System.vestingAddress || id == System.treasuryAddress ||
    id == System.teamPoolAddress

/-- The calls that take something from their sender. -/
def DebitsSender (target : AccountId) (method : String) : Prop :=
  (target = System.stakingAddress ∧ (method = "register" ∨ method = "delegate")) ∨
  (target = System.governanceAddress ∧ isProposalMethod method = true) ∨
  (target = System.bridgeAddress ∧
    (method = "deposit" ∨ method = "bridge_to_base" ∨ method = "register_rollup")) ∨
  (target = System.intentAddress ∧ method = "fulfill")

/-- It survives writes to the keys in `Key` and of the accounts that are
`Good`: those that were loaded, also after a credit, and those in `Pays`,
which the vaults are, with any balance. -/
structure SysFrame {σ σ' : Type} [StateStore σ] [StateStore σ'] (E : Platform)
    (V Key : Bytes → Prop) (Good : Account → Prop) (Pays : AccountId → Prop)
    (R : σ → σ' → Prop) : Prop extends ViewFrame V R where
  put : ∀ {s : σ} {s' : σ'} {k : Bytes} (v : Bytes), Key k → R s s' →
    R (StateStore.put s k v) (StateStore.put s' k v)
  save : ∀ {s : σ} {s' : σ'} {a : Account}, Good a → R s s' →
    R (putAccount E a s) (putAccount E a s')
  load : ∀ {s : σ} {s' : σ'} {id : AccountId} {a : Account}, R s s' →
    loadAccount E id s = .ok (some a) →
      Good a ∧ (Pays id → ∀ balance : U128, Good { a with balance := balance })
  credit : ∀ {a : Account} (amount : U128), Good a →
    Good { a with balance := satAdd a.balance amount }
  vault : ∀ {id : AccountId}, isVault id = true → Pays id

/-- A new account may be saved where there is none. -/
def MayCreate {σ σ' : Type} [StateStore σ] (E : Platform) (Good : Account → Prop)
    (R : σ → σ' → Prop) (id : AccountId) : Prop :=
  ∀ s s', R s s' → (∀ a, loadAccount E id s ≠ .ok (some a)) → Good (emptyAccount id)

/-- A call that keeps to a frame: what it reads, writes, creates and takes
from its sender is covered, and so is an account with other authentication
methods where a recovery may replace them. -/
structure CallFits {σ σ' : Type} [StateStore σ] (E : Platform) (V Key : Bytes → Prop)
    (Good : Account → Prop) (Pays : AccountId → Prop) (R : σ → σ' → Prop)
    (sender target : AccountId) (method : String) (args : Bytes) : Prop where
  reads : ∀ k, SystemReads target method args k → V k
  writes : ∀ k, CallWrites method target k → Key k
  creates : ∀ id, CallCreates method args target id → MayCreate E Good R id
  pays : DebitsSender target method → Pays sender
  auth : target = System.guardianAddress → method = "execute_recovery" →
    ∀ a authMethods, Good a → Good { a with authMethods := authMethods }

/-- Two runs of a call, which only stops to report an error. -/
abbrev CallSim {σ σ' α : Type} (R : σ → σ' → Prop) (m : SysM σ α) (m' : SysM σ' α) : Prop :=
  SimTo Failed R m m'

instance (msg : String) : Fact (Failed (err msg)) := ⟨failed_err msg⟩

instance (gas : U64) (events : List Event) (msg : String) : Fact (Failed ⟨gas, events, some msg⟩) :=
  ⟨nofun⟩

theorem orErr_sim {σ σ' α : Type} {R : σ → σ' → Prop} (o : Option α) (msg : String) :
    CallSim R (orErr o msg) (orErr o msg) := by
  cases o with
  | none => exact Sim.stop _
  | some a => exact Sim.pure a

theorem orErr_bind_sim {σ σ' α β : Type} {R : σ → σ' → Prop} {o : Option α} {msg : String}
    {f : α → SysM σ β} {f' : α → SysM σ' β} (h : ∀ a, o = some a → CallSim R (f a) (f' a)) :
    CallSim R (orErr o msg >>= f) (orErr o msg >>= f') := by
  cases o with
  | none => exact fun _ _ hs => ⟨rfl, hs, by rintro _ ⟨⟩; exact failed_err msg⟩
  | some a => exact h a rfl

variable {σ σ' : Type} [StateStore σ] [StateStore σ'] {E : Platform} {V Key : Bytes → Prop}
  {Good : Account → Prop} {Pays : AccountId → Prop} {R : σ → σ' → Prop}

/-! ## Reads -/

namespace ViewFrame

variable {ε : Type} {Q : ε → Prop} (F : ViewFrame V R)

include F

theorem getState {s : σ} {s' : σ'} (hs : R s s') (hk : isNonStateKey k = false) :
    StateStore.get s k = StateStore.get s' k :=
  F.get hs (F.state hk)

theorem loadAccount_eq {s : σ} {s' : σ'} (hs : R s s') (id : AccountId) :
    loadAccount E id s = loadAccount E id s' := by
  rw [loadAccount, loadAccount, F.getState hs (isNonStateKey_accountKey id)]

theorem loadRecord_eq {α : Type} {s : σ} {s' : σ'} (hs : R s s') (codec : Serde α)
    (d : α) (hk : isNonStateKey key = false) :
    loadRecord codec key d s = loadRecord codec key d s' := by
  rw [loadRecord, loadRecord, F.getState hs hk]

theorem readConfigU128_eq {s : σ} {s' : σ'} (hs : R s s')
    (hk : isNonStateKey key = false) : readConfigU128 key s = readConfigU128 key s' := by
  rw [readConfigU128, readConfigU128, F.getState hs hk]

theorem metaHeight_eq {s : σ} {s' : σ'} (hs : R s s') (hmeta : V chainMetaKey) (n : Nat) :
    metaHeight n s = metaHeight n s' := by
  rw [metaHeight, metaHeight, F.get hs hmeta]

theorem record {α : Type} (codec : Serde α) (d : α)
    (hk : isNonStateKey key = false) :
    SimTo Q R (reads (loadRecord codec key d) : Prog σ ε α) (reads (loadRecord codec key d)) :=
  Sim.reads fun _ _ hs => F.loadRecord_eq hs codec d hk

theorem config (hk : isNonStateKey key = false) :
    SimTo Q R (reads (readConfigU128 key) : Prog σ ε _) (reads (readConfigU128 key)) :=
  Sim.reads fun _ _ hs => F.readConfigU128_eq hs hk

theorem value (hk : isNonStateKey k = false) :
    SimTo Q R (reads fun s => StateStore.get s k : Prog σ ε _) (reads fun s => StateStore.get s k) :=
  Sim.reads fun _ _ hs => F.getState hs hk

theorem epoch (hmeta : V chainMetaKey) :
    SimTo Q R (reads readCurrentEpoch : Prog σ ε _) (reads readCurrentEpoch) :=
  Sim.reads fun _ _ hs => by rw [readCurrentEpoch, readCurrentEpoch, F.metaHeight_eq hs hmeta]

theorem height (hmeta : V chainMetaKey) :
    SimTo Q R (reads readMetaHeight : Prog σ ε _) (reads readMetaHeight) :=
  Sim.reads fun _ _ hs => by rw [readMetaHeight, readMetaHeight, F.metaHeight_eq hs hmeta]

theorem getAccount (id : AccountId) : Sim R (getAccount E id) (getAccount E id) :=
  Sim.tryReads fun _ _ hs => F.loadAccount_eq hs id

theorem requireAccount (id : AccountId) : Sim R (requireAccount E id) (requireAccount E id) := by
  refine Sim.bind (F.getAccount id) fun o => ?_
  cases o with
  | none => exact Sim.stop _
  | some a => exact Sim.pure a

/-! ### Parts of calls that only read -/

theorem staking : CallSim R (reads (loadStaking E) : SysM σ _) (reads (loadStaking E)) :=
  F.record _ _ (by decide)

/-- The evidence for a slash is the one thing that is looked up by a scan. -/
theorem slashEvidence {offender : AccountId} (hev : ∀ k, slashPrefix offender <+: k → V k) :
    CallSim R (reads (hasSlashEvidence offender) : SysM σ _) (reads (hasSlashEvidence offender)) :=
  Sim.reads fun s s' hs => by
    have hscan := F.scan hs hev
    unfold slashPrefix at hscan
    rw [hasSlashEvidence, hasSlashEvidence, hscan,
      F.getState hs (isNonStateKey_downtime offender)]

theorem governance : CallSim R (reads (loadGovernance E) : SysM σ _) (reads (loadGovernance E)) :=
  F.record _ _ (by decide)

theorem propose (hmeta : V chainMetaKey) (sender : AccountId) (action : ProposalAction)
    (description : Bytes) :
    CallSim R (propose E sender action description) (propose E sender action description) :=
  Sim.bind F.governance fun _ => Sim.done (F.epoch hmeta)

theorem proposeAmount (hmeta : V chainMetaKey) (sender : AccountId) (args : Bytes)
    (action : U128 → ProposalAction) (msg : String) :
    CallSim R (proposeAmount E sender args action msg) (proposeAmount E sender args action msg) :=
  Sim.bind (orErr_sim _ _) fun _ => F.propose hmeta _ _ _

theorem proposeValue (hmeta : V chainMetaKey) (sender : AccountId) (args : Bytes)
    (action : U64 → ProposalAction) (msg : String) (bad : U64 → Option String) :
    CallSim R (proposeValue E sender args action msg bad)
      (proposeValue E sender args action msg bad) := by
  refine Sim.bind (orErr_sim _ _) fun _ => ?_
  split
  · exact Sim.stop _
  · exact F.propose hmeta _ _ _

theorem proposeAccount (hmeta : V chainMetaKey) (sender : AccountId) (args : Bytes)
    (action : AccountId → ProposalAction) (msg : String) :
    CallSim R (proposeAccount E sender args action msg) (proposeAccount E sender args action msg) :=
  Sim.bind (orErr_sim _ _) fun _ => F.propose hmeta _ _ _

theorem governanceVote (hmeta : V chainMetaKey) (sender : AccountId) (args : Bytes) :
    CallSim R (governanceVote E sender args) (governanceVote E sender args) := by
  refine Sim.bind (orErr_sim _ _) fun _ => Sim.bind F.governance fun _ => ?_
  refine Sim.bind (F.epoch hmeta) fun _ => Sim.bind F.staking fun _ => ?_
  refine Sim.guard ?_
  dsimp only
  split <;> exact Sim.pure _

theorem bridge : CallSim R (reads (loadBridge E) : SysM σ _) (reads (loadBridge E)) :=
  F.record _ _ (by decide)

theorem parseRollupArgs (hid : V chainIdKey) (args : Bytes) :
    CallSim R (parseRollupArgs args) (parseRollupArgs args) := by
  refine Sim.bind (orErr_sim _ _) fun _ => Sim.guard ?_
  refine Sim.guard <| Sim.guard ?_
  refine Sim.bind (Sim.reads fun s s' hs => ?_) fun _ => Sim.guard ?_
  · have hget := F.get hs hid
    unfold chainIdKey at hget
    rw [readChainId, readChainId, hget]
  refine Sim.bind (orErr_sim _ _) fun _ => Sim.bind (orErr_sim _ _) fun _ => ?_
  refine Sim.done (Sim.ite (fun _ => ?_) fun _ => Sim.pure _)
  refine Sim.guard <| Sim.guard ?_
  exact Sim.guard <| Sim.done (Sim.stopIf _ _)

omit F [StateStore σ] [StateStore σ'] in
theorem checkBatchProof (proofType : String) (reg : JsonObject) (rollupId batchIndex : U64)
    (pre post dataHash : Hash) (proof : Bytes) :
    CallSim R (checkBatchProof E proofType reg rollupId batchIndex pre post dataHash proof)
      (checkBatchProof E proofType reg rollupId batchIndex pre post dataHash proof) := by
  unfold Solen.checkBatchProof
  split
  · dsimp only
    split
    · exact Sim.pure _
    · exact Sim.stop _
    · exact Sim.stop _
  · exact Sim.ite (fun _ => Sim.stop _) fun _ => Sim.pure _
  · exact Sim.stop _

theorem vesting : CallSim R (reads (loadVesting E) : SysM σ _) (reads (loadVesting E)) :=
  F.record _ _ (by decide)

omit F [StateStore σ] [StateStore σ'] in
theorem parseVestingType (args : Bytes) :
    CallSim R (parseVestingType args) (parseVestingType args) := by
  unfold Solen.parseVestingType
  split
  · exact Sim.pure _
  · exact Sim.pure _
  · exact Sim.pure _
  · refine Sim.guard <| Sim.bind (orErr_sim _ _) fun _ => ?_
    exact Sim.done (orErr_sim _ _)
  · exact Sim.stop _

theorem executeTreasuryCall (method : String) :
    CallSim R (executeTreasuryCall E method) (executeTreasuryCall E method) := by
  refine Sim.bind (F.record _ _ (by decide)) fun _ => ?_
  split <;> exact Sim.pure _

theorem paymasters : CallSim R (reads (loadPaymasters E) : SysM σ _) (reads (loadPaymasters E)) :=
  F.record _ _ (by decide)

theorem guardian : CallSim R (reads (loadGuardian E) : SysM σ _) (reads (loadGuardian E)) :=
  F.record _ _ (by decide)

theorem guardianInitiate (hmeta : V chainMetaKey) (sender : AccountId) (args : Bytes) :
    CallSim R (guardianInitiate E sender args) (guardianInitiate E sender args) := by
  refine Sim.bind F.guardian fun _ => Sim.bind (F.height hmeta) fun _ => ?_
  refine Sim.bind (orErr_sim _ _) fun _ => ?_
  split
  · exact Sim.stop _
  · refine Sim.bind (F.getAccount _).attempt fun _ => ?_
    split
    · refine Sim.guard ?_
      split <;> exact Sim.pure _
    · exact Sim.stop _

theorem checkConstraint (sender : AccountId) (transfers : List (AccountId × U128))
    (totalNeeded : U128) (events : List Event) (bs : Bytes) :
    CallSim R (checkConstraint E sender transfers totalNeeded events bs)
      (checkConstraint E sender transfers totalNeeded events bs) := by
  have hguard : ∀ {c : Prop} [Decidable c] (e : SystemCallResult) [Fact (Failed e)]
      (o : Option Bytes), CallSim R (stopIf c e >>= fun _ => pure o)
        (stopIf c e >>= fun _ => pure o) := fun _ _ _ => Sim.done (Sim.stopIf _ _)
  cases bs with
  | nil => exact Sim.pure _
  | cons ctype rest =>
    refine Sim.ite (fun _ => Sim.ite (fun _ => Sim.pure _) fun _ => ?_) fun _ => ?_
    · exact Sim.bind (F.getAccount _).attempt fun _ => hguard _ _
    refine Sim.ite (fun _ => Sim.ite (fun _ => Sim.pure _) fun _ => ?_) fun _ => ?_
    · exact hguard _ _
    refine Sim.ite (fun _ => Sim.ite (fun _ => Sim.pure _) fun _ => ?_) fun _ => ?_
    · exact hguard _ _
    refine Sim.ite (fun _ => Sim.ite (fun _ => Sim.pure _) fun _ => ?_) fun _ => ?_
    · exact Sim.pure _
    refine Sim.ite (fun _ => Sim.ite (fun _ => Sim.pure _) fun _ => ?_) fun _ => ?_
    · exact hguard _ _
    · exact Sim.pure _

theorem checkConstraints (sender : AccountId) (transfers : List (AccountId × U128))
    (totalNeeded : U128) (events : List Event) (n : Nat) (bs : Bytes) :
    CallSim R (checkConstraints E sender transfers totalNeeded events n bs)
      (checkConstraints E sender transfers totalNeeded events n bs) := by
  induction n generalizing bs with
  | zero => exact Sim.pure _
  | succ n ih =>
    refine Sim.bind (F.checkConstraint _ _ _ _ _) fun r => ?_
    cases r with
    | none => exact Sim.pure _
    | some rest => exact ih rest

end ViewFrame

/-! ## Account moves -/

namespace SysFrame

section Moves

variable {ε : Type} {Q : ε → Prop} (F : SysFrame E V Key Good Pays R)

include F

theorem write (hk : Key k) (v : Bytes) :
    SimTo Q R (modify fun s => StateStore.put s k v : Prog σ ε Unit)
      (modify fun s => StateStore.put s k v) :=
  Sim.modify fun _ _ hs => F.put v hk hs

theorem saveRecord {α : Type} (codec : Serde α) (hk : Key key) (r : α) :
    SimTo Q R (modify (saveRecord codec key r) : Prog σ ε Unit) (modify (saveRecord codec key r)) :=
  Sim.modify fun _ _ hs => F.put _ hk hs

theorem saveAccount {a : Account} (h : Good a) :
    SimTo Q R (saveAccount E a : Prog σ ε Unit) (saveAccount E a) :=
  Sim.modify fun _ _ hs => F.save h hs

/-- An account that is there is good; what follows may use it. -/
theorem require_bind (id : AccountId) {α : Type} {g : StateError → ε}
    [∀ e, Fact (Q (g e))] {f : Account → Prog σ ε α} {f' : Account → Prog σ' ε α}
    (hf : ∀ a, Good a ∧ (Pays id → ∀ balance : U128, Good { a with balance := balance }) →
      SimTo Q R (f a) (f' a)) :
    SimTo Q R (mapError g (requireAccount E id) >>= f) (mapError g (requireAccount E id) >>= f') := by
  refine Sim.bind_of (F.requireAccount id).mapError (fun s s' hs a ha => ?_) hf
  rcases hrun : (Solen.requireAccount E id).run s with ⟨r, s₁⟩
  rw [run_mapError, hrun] at ha
  cases r with
  | error e => cases ha
  | ok b =>
    cases ha
    exact F.load hs (requireAccount_eq_ok hrun).1

theorem attemptRequire_bind (id : AccountId) {α : Type}
    {f : Except StateError Account → Prog σ ε α} {f' : Except StateError Account → Prog σ' ε α}
    (hf : ∀ r, (∀ a, r = .ok a →
      Good a ∧ (Pays id → ∀ balance : U128, Good { a with balance := balance })) →
      SimTo Q R (f r) (f' r)) :
    SimTo Q R (attempt (requireAccount E id) >>= f) (attempt (requireAccount E id) >>= f') := by
  refine Sim.bind_of (F.requireAccount id).attempt (fun s s' hs r hr a ha => ?_) hf
  rw [run_attempt] at hr
  cases hr
  have hrun : (Solen.requireAccount E id).run s = (.ok a, s) :=
    Prod.ext ha (requireAccount_state id s)
  exact F.load hs (requireAccount_eq_ok hrun).1

theorem attemptGet_bind (id : AccountId) {α : Type}
    {f : Except StateError (Option Account) → Prog σ ε α}
    {f' : Except StateError (Option Account) → Prog σ' ε α}
    (hf : ∀ r, (∀ a, r = .ok (some a) →
      Good a ∧ (Pays id → ∀ balance : U128, Good { a with balance := balance })) →
      SimTo Q R (f r) (f' r)) :
    SimTo Q R (attempt (getAccount E id) >>= f) (attempt (getAccount E id) >>= f') := by
  refine Sim.bind_of (F.getAccount id).attempt (fun s s' hs r hr a ha => ?_) hf
  cases hr
  exact F.load hs ha

theorem debitWithReserve (hpay : Pays sender) (amount : U128)
    (msg : String) : CallSim R (debitWithReserve E sender amount msg) (debitWithReserve E sender amount msg) := by
  refine F.require_bind sender fun a ha => ?_
  exact Sim.guard <| F.saveAccount (ha.2 hpay _)

theorem debitCovered (hpay : Pays id) (amount : U128) (low missing : SystemCallResult)
    [Fact (Failed low)] [Fact (Failed missing)] :
    CallSim R (debitCovered E id amount low missing) (debitCovered E id amount low missing) := by
  refine F.attemptGet_bind id fun r hr => ?_
  split
  · exact Sim.guard <| F.saveAccount ((hr _ rfl).2 hpay _)
  · exact Sim.stop _

theorem creditExisting (id : AccountId) (amount : U128) :
    SimTo Q R (creditExisting E id amount : Prog σ ε Unit) (creditExisting E id amount) := by
  refine F.attemptRequire_bind id fun r hr => ?_
  cases r with
  | ok a => exact F.saveAccount (F.credit _ (hr a rfl).1)
  | error e => exact Sim.pure ()

theorem creditOrCreate (hnew : MayCreate E Good R id) (amount : U128) :
    SimTo Q R (creditOrCreate E id amount : Prog σ ε Unit) (creditOrCreate E id amount) := by
  have hget : SimTo Q R (getOrEmpty E id : Prog σ ε Account) (getOrEmpty E id) := by
    refine Sim.bind (F.getAccount id).attempt fun r => ?_
    split <;> exact Sim.pure _
  refine Sim.bind_of hget (fun s s' hs a ha => ?_) fun a ha => F.saveAccount (F.credit _ ha)
  rw [getOrEmpty, run_bind, run_attempt, run_getAccount] at ha
  dsimp only at ha
  split at ha
  · next b hb =>
      cases ha
      exact (F.load hs hb).1
  · next hnone =>
      cases ha
      exact hnew s s' hs hnone

theorem creditIf {c : Prop} [Decidable c] (id : AccountId) (amount : U128) :
    SimTo Q R (if c then Solen.creditExisting E id amount else pure () : Prog σ ε Unit)
      (if c then Solen.creditExisting E id amount else pure ()) :=
  Sim.ite (fun _ => F.creditExisting _ _) fun _ => Sim.pure ()

end Moves

/-! ## Staking -/

section Calls

variable (F : SysFrame E V Key Good Pays R)

include F

section Staking

variable (hkey : Key StakingContract.storageKey)

include hkey

theorem saveStaking (c : StakingContract) :
    CallSim R (saveStaking E c : SysM σ Unit) (saveStaking E c) := F.saveRecord _ hkey _

omit hkey in
theorem recordStake (sender : AccountId) (amount : U128) (event : Event) (c : StakingContract)
    (r : Except StakingError StakingContract) :
    CallSim R (recordStake E sender amount event c r) (recordStake E sender amount event c r) := by
  cases r with
  | ok c' => exact Sim.pure _
  | error e => exact Sim.done (F.creditExisting _ _)

omit hkey in
theorem stakingRegister (hmeta : V chainMetaKey) (hpay : Pays sender)
    (args : Bytes) : CallSim R (stakingRegister E sender args) (stakingRegister E sender args) := by
  refine Sim.bind (orErr_sim _ _) fun _ => Sim.bind (F.config (by decide)) fun _ => ?_
  refine Sim.guard <| Sim.bind (F.debitWithReserve hpay _ _) fun _ => ?_
  refine Sim.bind F.staking fun _ => Sim.bind (F.epoch hmeta) fun _ => ?_
  exact F.recordStake _ _ _ _ _

omit hkey in
theorem stakingDelegate (hmeta : V chainMetaKey) (hpay : Pays sender)
    (args : Bytes) : CallSim R (stakingDelegate E sender args) (stakingDelegate E sender args) := by
  refine Sim.bind (orErr_sim _ _) fun _ => Sim.bind (orErr_sim _ _) fun _ => ?_
  refine Sim.bind (F.debitWithReserve hpay _ _) fun _ => ?_
  refine Sim.bind F.staking fun _ => Sim.bind (F.epoch hmeta) fun _ => ?_
  exact F.recordStake _ _ _ _ _

theorem payMatured (hmeta : V chainMetaKey) (sender : AccountId) (c : StakingContract) :
    CallSim R (payMatured E sender c) (payMatured E sender c) := by
  refine Sim.bind (F.epoch hmeta) fun _ => Sim.ite (fun _ => ?_) fun _ => Sim.pure _
  refine Sim.bind (F.saveStaking hkey _) fun _ => Sim.bind (F.creditExisting _ _) fun _ => ?_
  exact Sim.done F.staking

theorem stakingUndelegate (hmeta : V chainMetaKey) (sender : AccountId) (args : Bytes) :
    CallSim R (stakingUndelegate E sender args) (stakingUndelegate E sender args) := by
  refine Sim.bind (orErr_sim _ _) fun _ => Sim.bind (orErr_sim _ _) fun _ => ?_
  refine Sim.bind (F.epoch hmeta) fun _ => Sim.bind F.staking fun _ => ?_
  refine Sim.bind (F.payMatured hkey hmeta _ _) fun _ => ?_
  split <;> exact Sim.pure _

theorem stakingSlash (hmeta : V chainMetaKey) (args : Bytes)
    (hev : ∀ offender, readAccountId args 0 = some offender →
      ∀ k, slashPrefix offender <+: k → V k) :
    CallSim R (stakingSlash E args) (stakingSlash E args) := by
  refine orErr_bind_sim fun offender hoff => Sim.guard ?_
  refine Sim.bind (F.slashEvidence (hev offender hoff)) fun _ => ?_
  refine Sim.guard <| Sim.bind F.staking fun _ => ?_
  refine Sim.bind (orErr_sim _ _) fun _ => Sim.guard ?_
  refine Sim.bind (F.epoch hmeta) fun _ => ?_
  refine Sim.done (Sim.ite (fun _ => ?_) fun _ => Sim.pure _)
  refine Sim.bind (F.saveStaking hkey _) fun _ => Sim.bind (F.creditExisting _ _) fun _ => ?_
  exact F.staking

theorem executeStakingCall (sender : AccountId) (method : String) (args : Bytes)
    (hpay : method = "register" ∨ method = "delegate" → Pays sender)
    (hV : ∀ k, SystemReads System.stakingAddress method args k → V k) :
    CallSim R (executeStakingCall E sender method args) (executeStakingCall E sender method args) := by
  have hmeta : method ∈ ["register", "delegate", "undelegate", "withdraw", "slash", "unjail",
      "rotate_key"] → V chainMetaKey := fun h => hV _ (.inl ⟨rfl, .inl ⟨rfl, h⟩⟩)
  refine Sim.bind ?_ fun _ => Sim.done (F.saveStaking hkey _)
  unfold stakingMethod
  split
  · exact F.stakingRegister (hmeta (by simp)) (hpay (.inl rfl)) args
  · exact F.stakingDelegate (hmeta (by simp)) (hpay (.inr rfl)) args
  · exact F.stakingUndelegate hkey (hmeta (by simp)) sender args
  · refine Sim.bind F.staking fun _ => ?_
    exact Sim.done (F.payMatured hkey (hmeta (by simp)) _ _)
  · exact F.stakingSlash hkey (hmeta (by simp)) args fun offender hoff k hk =>
      hV k (.inr (.inr ⟨rfl, rfl, offender, hoff, hk⟩))
  · refine Sim.bind F.staking fun _ => Sim.bind (F.epoch (hmeta (by simp))) fun _ =>
      Sim.bind ?_ fun _ => ?_
    · split
      · exact Sim.stopIf _ _
      · exact Sim.pure _
    · split <;> exact Sim.pure _
  · refine Sim.bind (orErr_sim _ _) fun _ => Sim.bind F.staking fun _ => ?_
    refine Sim.bind (F.epoch (hmeta (by simp))) fun _ => ?_
    split <;> exact Sim.pure _
  · exact Sim.done F.staking

end Staking

/-! ## Governance -/

section Governance

variable {method : String} (hkey : ∀ k, CallWrites method System.governanceAddress k → Key k)

include hkey

theorem saveGovernance (c : GovernanceContract) :
    CallSim R (saveGovernance E c : SysM σ Unit) (saveGovernance E c) :=
  F.saveRecord _ (hkey _ .governance) _

theorem governanceFinalize (hmeta : V chainMetaKey) (args : Bytes) :
    CallSim R (governanceFinalize E args) (governanceFinalize E args) := by
  refine Sim.bind (orErr_sim _ _) fun _ => Sim.bind F.governance fun _ => ?_
  refine Sim.bind (F.epoch hmeta) fun _ => Sim.bind F.staking fun _ => ?_
  dsimp only
  split
  · refine Sim.bind (F.saveGovernance hkey _) fun _ => Sim.bind (F.creditIf _ _) fun _ => ?_
    exact Sim.done F.governance
  · exact Sim.pure _

omit hkey in
theorem migrateTeamPool (hnew : MayCreate E Good R System.vestingAddress) :
    CallSim R (migrateTeamPool E) (migrateTeamPool E) := by
  refine F.attemptGet_bind _ fun r hr => ?_
  split
  · refine Sim.done (Sim.ite (fun _ => ?_) fun _ => Sim.pure _)
    exact Sim.bind (F.saveAccount ((hr _ rfl).2 (F.vault (by decide)) _)) fun _ =>
      F.creditOrCreate hnew _
  · exact Sim.pure _

/-- Of the actions only the migration of the team pool touches accounts. -/
theorem applyAction (hm : method = "execute") (hnew : MayCreate E Good R System.vestingAddress)
    (gov : GovernanceContract) (action : ProposalAction) :
    CallSim R (applyAction E gov action) (applyAction E gov action) := by
  have hconfig : ∀ (key : String) (value : Bytes), key ∈ configKeys →
      CallSim R (putConfig key value : SysM σ Unit) (putConfig key value) :=
    fun key value h => F.write (hkey _ (.config hm h)) _
  have hstaking : ∀ c, CallSim R (Solen.saveStaking E c : SysM σ Unit) (Solen.saveStaking E c) :=
    fun c => F.saveStaking (hkey _ (.stakingParameters hm)) c
  cases action with
  | migrateTeamPoolToVesting => exact Sim.done (F.migrateTeamPool hnew)
  | setBaseFee _ => exact Sim.done (hconfig _ _ (by decide))
  | setBlockTime _ => exact Sim.done (hconfig _ _ (by decide))
  | setBurnRate _ => exact Sim.done (hconfig _ _ (by decide))
  | setEpochReward _ => exact Sim.done (hconfig _ _ (by decide))
  | setBridgeRelayer _ => exact Sim.done (hconfig _ _ (by decide))
  | setMinValidatorStake _ =>
    refine Sim.bind (hconfig _ _ (by decide)) fun _ => Sim.bind F.staking fun _ => ?_
    exact Sim.done (hstaking _)
  | setUnbondingPeriod _ =>
    refine Sim.bind (hconfig _ _ (by decide)) fun _ => Sim.bind F.staking fun _ => ?_
    exact Sim.done (hstaking _)
  | setVestingAdmin _ =>
    refine Sim.bind (F.record _ _ (by decide)) fun _ => ?_
    exact Sim.done (F.saveRecord _ (hkey _ (.vestingAdmin hm)) _)
  | emergencyPause => exact Sim.pure _
  | emergencyResume => exact Sim.pure _
  | setGovernanceVotingPeriod _ => exact Sim.pure _
  | setMaxOpsPerBlock _ => exact Sim.pure _
  | registerRollup _ _ => exact Sim.pure _

theorem governanceExecute (hm : method = "execute")
    (hnew : MayCreate E Good R System.vestingAddress) (hmeta : V chainMetaKey) (args : Bytes) :
    CallSim R (governanceExecute E args) (governanceExecute E args) := by
  refine Sim.bind (orErr_sim _ _) fun _ => Sim.bind F.governance fun _ => ?_
  refine Sim.bind (F.epoch hmeta) fun _ => ?_
  split
  · exact Sim.done (F.applyAction hkey hm hnew _ _)
  · exact Sim.pure _

theorem governanceMethod (hnew : method = "execute" → MayCreate E Good R System.vestingAddress)
    (sender : AccountId) (args : Bytes)
    (hmeta : isProposalMethod method ∨ method ∈ ["vote", "finalize", "execute"] →
      V chainMetaKey) :
    CallSim R (governanceMethod E sender method args) (governanceMethod E sender method args) := by
  have hpropose : isProposalMethod method = true → V chainMetaKey := fun h => hmeta (.inl h)
  unfold Solen.governanceMethod
  split
  · exact F.proposeAmount (hpropose (by decide)) _ _ _ _
  · exact F.proposeValue (hpropose (by decide)) _ _ _ _ _
  · exact F.proposeValue (hpropose (by decide)) _ _ _ _ _
  · exact F.proposeAmount (hpropose (by decide)) _ _ _ _
  · exact F.proposeAmount (hpropose (by decide)) _ _ _ _
  · exact F.proposeValue (hpropose (by decide)) _ _ _ _ _
  · exact F.proposeAccount (hpropose (by decide)) _ _ _ _
  · exact F.proposeAccount (hpropose (by decide)) _ _ _ _
  · exact F.propose (hpropose (by decide)) _ _ _
  · exact F.proposeValue (hpropose (by decide)) _ _ _ _ _
  · exact F.governanceVote (hmeta (by simp)) _ _
  · exact F.governanceFinalize hkey (hmeta (by simp)) _
  · exact F.governanceExecute hkey rfl (hnew rfl) (hmeta (by simp)) _
  · exact Sim.done F.governance

theorem executeGovernanceCall
    (hnew : method = "execute" → MayCreate E Good R System.vestingAddress)
    (sender : AccountId) (args : Bytes) (hpay : isProposalMethod method = true → Pays sender)
    (hV : ∀ k, SystemReads System.governanceAddress method args k → V k) :
    CallSim R (executeGovernanceCall E sender method args)
      (executeGovernanceCall E sender method args) := by
  refine Sim.bind ?_ fun _ => Sim.bind (F.governanceMethod hkey hnew _ _ fun h =>
    hV _ (.inl ⟨rfl, .inr (.inl ⟨rfl, h⟩)⟩)) fun o => ?_
  · exact Sim.ite (fun hm => F.debitWithReserve (hpay hm) _ _) fun _ => Sim.pure _
  refine Sim.bind (F.saveGovernance hkey _) fun _ => ?_
  split
  · exact Sim.pure _
  · exact Sim.done (F.creditIf _ _)

end Governance

/-! ## Bridge -/

theorem debitIfReadable (hpay : Pays sender) (amount : U128)
    (msg : String) : CallSim R (debitIfReadable E sender amount msg) (debitIfReadable E sender amount msg) := by
  refine F.attemptRequire_bind sender fun r hr => ?_
  cases r with
  | ok a => exact Sim.guard <| F.saveAccount ((hr a rfl).2 hpay _)
  | error e => exact Sim.pure _

theorem bridgeDeposit (hpay : Pays sender) (args : Bytes) :
    CallSim R (bridgeDeposit E sender args) (bridgeDeposit E sender args) := by
  refine Sim.bind (orErr_sim _ _) fun _ => Sim.bind (orErr_sim _ _) fun _ => ?_
  refine Sim.bind (F.debitIfReadable hpay _ _) fun _ => Sim.bind F.bridge fun _ => ?_
  unfold recordDeposit
  split
  · exact Sim.pure _
  · exact Sim.done (F.creditExisting _ _)

theorem bridgeToBase (hnew : MayCreate E Good R System.bridgeAddress)
    (hpay : Pays sender) (args : Bytes) : CallSim R (bridgeToBase E sender args) (bridgeToBase E sender args) := by
  refine Sim.bind F.bridge fun _ => Sim.guard ?_
  refine Sim.bind (orErr_sim _ _) fun _ => Sim.guard ?_
  refine Sim.bind (F.debitWithReserve hpay _ _) fun _ => ?_
  exact Sim.done (F.creditOrCreate hnew _)

theorem bridgeFromBase (sender : AccountId) (args : Bytes)
    (hkey : ∀ baseTxHash, Key (bridgeProcessedKey baseTxHash))
    (hnew : ∀ recipient, readAccountId args 0 = some recipient → MayCreate E Good R recipient) :
    CallSim R (bridgeFromBase E sender args) (bridgeFromBase E sender args) := by
  refine Sim.bind F.bridge fun _ => Sim.bind (Sim.reads fun s s' hs => ?_) fun _ => ?_
  · rw [F.getState hs (by decide)]
  refine Sim.bind (orErr_sim _ _) fun _ => Sim.guard ?_
  refine Sim.guard <| orErr_bind_sim fun recipient hrec => ?_
  refine Sim.bind (orErr_sim _ _) fun _ => ?_
  refine Sim.bind (F.value (isNonStateKey_bridgeProcessedKey _)) fun _ => ?_
  refine Sim.guard <| Sim.bind (F.debitCovered (F.vault (by decide)) _ _ _) fun _ => ?_
  refine Sim.bind (F.creditOrCreate (hnew recipient hrec) _) fun _ => ?_
  exact Sim.done (F.write (hkey _) _)

theorem payRollupDeposit (hpay : Pays sender) :
    CallSim R (payRollupDeposit E sender) (payRollupDeposit E sender) := by
  refine F.attemptRequire_bind sender fun r hr => ?_
  cases r with
  | ok a =>
    refine Sim.guard ?_
    refine Sim.bind (F.saveAccount ((hr a rfl).2 hpay _)) fun _ => ?_
    exact F.creditExisting _ _
  | error e => exact Sim.stop _

theorem returnRollupDeposit (sender : AccountId) :
    CallSim R (returnRollupDeposit E sender) (returnRollupDeposit E sender) := by
  refine Sim.bind (F.creditExisting _ _) fun _ => ?_
  refine F.attemptRequire_bind _ fun r hr => ?_
  cases r with
  | ok a => exact F.saveAccount ((hr a rfl).2 (F.vault (by decide)) _)
  | error e => exact Sim.pure _

theorem bridgeRegisterRollup (hmeta : V chainMetaKey) (hid : V chainIdKey)
    (hkey : ∀ rollupId, Key (rollupKey rollupId)) (hpay : Pays sender)
    (args : Bytes) :
    CallSim R (bridgeRegisterRollup E sender args) (bridgeRegisterRollup E sender args) := by
  refine Sim.bind (F.parseRollupArgs hid _) fun a => Sim.bind (F.payRollupDeposit hpay) fun _ => ?_
  refine Sim.bind F.bridge fun _ => Sim.bind (F.height hmeta) fun _ => ?_
  split
  · exact Sim.done (F.write (hkey _) _)
  · exact Sim.done (F.returnRollupDeposit _)

theorem bridgeSubmitBatch (sender : AccountId) (args : Bytes)
    (hkey : ∀ rollupId, Key (rollupKey rollupId))
    (hbatch : ∀ rollupId batchIndex, Key (batchKey rollupId batchIndex))
    (hcount : ∀ rollupId, Key (batchCountKey rollupId)) :
    CallSim R (bridgeSubmitBatch E sender args) (bridgeSubmitBatch E sender args) := by
  refine Sim.bind F.bridge fun _ => Sim.bind (orErr_sim _ _) fun _ => ?_
  refine Sim.bind (orErr_sim _ _) fun _ => Sim.bind (orErr_sim _ _) fun _ => ?_
  refine Sim.bind (orErr_sim _ _) fun _ => Sim.bind (orErr_sim _ _) fun _ => ?_
  refine Sim.guard ?_
  refine Sim.bind (F.value (isNonStateKey_rollupKey _)) fun _ => ?_
  refine Sim.guard ?_
  refine Sim.bind (ViewFrame.checkBatchProof _ _ _ _ _ _ _ _) fun _ => ?_
  refine Sim.bind (F.write (hbatch _ _) _) fun _ => ?_
  refine Sim.bind (F.value (isNonStateKey_rollupKey _)) fun _ => Sim.bind ?_ fun _ => ?_
  · split
    · exact F.write (hkey _) _
    · exact Sim.pure _
  · exact Sim.done (F.write (hcount _) _)

theorem executeBridgeCall (sender : AccountId) (method : String) (args : Bytes)
    (C : CallFits E V Key Good Pays R sender System.bridgeAddress method args) :
    CallSim R (executeBridgeCall E sender method args) (executeBridgeCall E sender method args) := by
  have hpay : method = "deposit" ∨ method = "bridge_to_base" ∨ method = "register_rollup" →
      Pays sender := fun h => C.pays (.inr (.inr (.inl ⟨rfl, h⟩)))
  refine Sim.bind ?_ fun _ => Sim.done (F.saveRecord _ (C.writes _ .bridge) _)
  unfold bridgeMethod
  split
  · exact F.bridgeDeposit (hpay (.inl rfl)) _
  · exact F.bridgeToBase (C.creates _ (.lock rfl)) (hpay (.inr (.inl rfl))) _
  · exact F.bridgeFromBase _ _ (fun _ => C.writes _ (.processed rfl _))
      fun _ hrec => C.creates _ (.release rfl hrec)
  · refine Sim.bind (orErr_sim _ _) fun _ => Sim.bind F.bridge fun _ => ?_
    split <;> exact Sim.pure _
  · exact F.bridgeRegisterRollup (C.reads _ (.inl ⟨rfl, .inr (.inr (.inl ⟨rfl, rfl⟩))⟩))
      (C.reads _ (.inr (.inl ⟨rfl, rfl, rfl⟩))) (fun _ => C.writes _ (.rollup (.inl rfl) _))
      (hpay (.inr (.inr rfl))) _
  · exact F.bridgeSubmitBatch _ _ (fun _ => C.writes _ (.rollup (.inr rfl) _))
      (fun _ _ => C.writes _ (.batch rfl _ _)) fun _ => C.writes _ (.batchCount rfl _)
  · exact Sim.done F.bridge

/-! ## Vesting and paymasters -/

theorem vestingClaim (hmeta : V chainMetaKey) (sender : AccountId) :
    CallSim R (vestingClaim E sender) (vestingClaim E sender) := by
  refine Sim.bind F.vesting fun _ => Sim.bind (F.epoch hmeta) fun _ => ?_
  split
  · exact Sim.pure _
  · refine Sim.bind (F.debitCovered (F.vault (by decide)) _ _ _) fun _ => Sim.bind (F.creditExisting _ _) fun _ => ?_
    exact Sim.done F.vesting

theorem vestingAdd (hnew : MayCreate E Good R System.vestingAddress) (hmeta : V chainMetaKey)
    (sender : AccountId) (args : Bytes) :
    CallSim R (vestingAdd E sender args) (vestingAdd E sender args) := by
  refine Sim.guard <| Sim.bind (orErr_sim _ _) fun _ => ?_
  refine Sim.bind (orErr_sim _ _) fun _ => Sim.bind (ViewFrame.parseVestingType _) fun _ => ?_
  refine Sim.bind (F.debitCovered (F.vault (by decide)) _ _ _) fun _ => Sim.bind (F.creditOrCreate hnew _) fun _ => ?_
  refine Sim.bind F.vesting fun _ => Sim.bind (F.epoch hmeta) fun _ => ?_
  split <;> exact Sim.pure _

theorem executeVestingCall (sender : AccountId) (method : String) (args : Bytes)
    (C : CallFits E V Key Good Pays R sender System.vestingAddress method args) :
    CallSim R (executeVestingCall E sender method args) (executeVestingCall E sender method args) := by
  have hmeta : method ∈ ["claim", "status", "add_vesting"] → V chainMetaKey := fun h =>
    C.reads _ (.inl ⟨rfl, .inr (.inr (.inr (.inl ⟨rfl, h⟩)))⟩)
  refine Sim.bind ?_ fun _ => Sim.done (F.saveRecord _ (C.writes _ .vesting) _)
  unfold vestingMethod
  split
  · exact F.vestingClaim (hmeta (by simp)) _
  · refine Sim.bind F.vesting fun _ => Sim.bind (F.epoch (hmeta (by simp))) fun _ => ?_
    split <;> exact Sim.pure _
  · exact F.vestingAdd (C.creates _ (.schedule rfl)) (hmeta (by simp)) _ _
  · refine Sim.bind (orErr_sim _ _) fun _ => Sim.bind F.vesting fun _ => ?_
    split <;> exact Sim.pure _
  · exact Sim.done F.vesting

theorem executePaymasterCall (hkey : Key paymastersKey) (sender : AccountId) (method : String) :
    CallSim R (executePaymasterCall E sender method) (executePaymasterCall E sender method) := by
  unfold Solen.executePaymasterCall
  split
  · refine Sim.bind ?_ fun _ => Sim.bind F.paymasters fun _ => Sim.guard ?_
    · refine Sim.bind (F.getAccount _).attempt fun _ => ?_
      split
      · exact Sim.stopIf _ _
      · exact Sim.stop _
    · exact Sim.done (F.saveRecord _ hkey _)
  · refine Sim.bind F.paymasters fun _ => ?_
    exact Sim.done (F.saveRecord _ hkey _)
  · exact Sim.done F.paymasters
  · exact Sim.pure _

/-! ## Guardians and intents -/

theorem finishGuardian (hkey : Key GuardianContract.storageKey)
    (outcome : CallOutcome GuardianContract) :
    CallSim R (finishGuardian E outcome) (finishGuardian E outcome) :=
  Sim.done (F.saveRecord _ hkey _)

theorem guardianExecute (hkey : Key GuardianContract.storageKey)
    (hauth : ∀ a authMethods, Good a → Good { a with authMethods := authMethods })
    (hmeta : V chainMetaKey) (args : Bytes) :
    CallSim R (guardianExecute E args) (guardianExecute E args) := by
  refine Sim.bind F.guardian fun _ => Sim.bind (F.height hmeta) fun _ => ?_
  refine Sim.bind (orErr_sim _ _) fun _ => Sim.bind (Sim.ofExcept _).mapError fun _ => ?_
  refine Sim.bind (Sim.ofExcept _).mapError fun _ => Sim.bind (F.saveRecord _ hkey _) fun _ => ?_
  refine Sim.done (F.attemptGet_bind _ fun r hr => ?_)
  split
  · next a => exact F.saveAccount (hauth a _ (hr a rfl).1)
  · exact Sim.stop _

theorem executeGuardianCall (sender : AccountId) (method : String) (args : Bytes)
    (C : CallFits E V Key Good Pays R sender System.guardianAddress method args) :
    CallSim R (executeGuardianCall E sender method args)
      (executeGuardianCall E sender method args) := by
  have hmeta : method ∈ ["initiate_recovery", "execute_recovery"] → V chainMetaKey := fun h =>
    C.reads _ (.inl ⟨rfl, .inr (.inr (.inr (.inr ⟨rfl, h⟩)))⟩)
  unfold Solen.executeGuardianCall
  split
  · exact Sim.bind (F.guardianInitiate (hmeta (by simp)) _ _) fun _ => F.finishGuardian (C.writes _ .guardian) _
  · refine Sim.bind (Sim.bind F.guardian fun _ => Sim.bind (orErr_sim _ _) fun _ => ?_)
      fun _ => F.finishGuardian (C.writes _ .guardian) _
    split <;> exact Sim.pure _
  · refine Sim.bind (Sim.bind F.guardian fun _ => Sim.bind (orErr_sim _ _) fun _ => ?_)
      fun _ => F.finishGuardian (C.writes _ .guardian) _
    split <;> exact Sim.pure _
  · exact F.guardianExecute (C.writes _ .guardian) (C.auth rfl rfl) (hmeta (by simp)) _
  · exact Sim.bind F.guardian fun _ => F.finishGuardian (C.writes _ .guardian) _

omit F [StateStore σ] [StateStore σ'] in
/-- The recipients of the transfers come from the arguments. -/
theorem parseTransfers_bind (n : Nat) (bs : Bytes) {α : Type}
    {f : List (AccountId × U128) → SysM σ α} {f' : List (AccountId × U128) → SysM σ' α}
    (hf : ∀ ts, (∀ t ∈ ts, t.1 ∈ transferRecipients n bs) → CallSim R (f ts) (f' ts)) :
    CallSim R (parseTransfers n bs >>= f) (parseTransfers n bs >>= f') := by
  induction n generalizing bs f f' with
  | zero => exact hf [] fun t ht => absurd ht List.not_mem_nil
  | succ n ih =>
    simp only [parseTransfers, bind_assoc, pure_bind]
    refine Sim.guard <| orErr_bind_sim fun dest hdest => ?_
    refine ih _ fun ts hts => hf _ fun t ht => ?_
    rw [transferRecipients, hdest]
    rcases List.mem_cons.mp ht with rfl | ht
    · exact List.mem_cons_self
    · exact List.mem_cons_of_mem _ (hts t ht)

theorem intentTransfer (hpay : Pays sender) (events : List Event) {dest : AccountId}
    (hnew : MayCreate E Good R dest) (amount : U128) :
    CallSim R (intentTransfer E sender events dest amount)
      (intentTransfer E sender events dest amount) := by
  refine F.require_bind sender fun a ha => ?_
  refine Sim.bind (F.saveAccount (ha.2 hpay _)) fun _ => ?_
  exact Sim.done (F.creditOrCreate hnew _)

theorem intentTransfers (hpay : Pays sender) {transfers : List (AccountId × U128)}
    (hnew : ∀ t ∈ transfers, MayCreate E Good R t.1) (events : List Event) :
    CallSim R (intentTransfers E sender transfers events)
      (intentTransfers E sender transfers events) := by
  induction transfers generalizing events with
  | nil => exact Sim.pure _
  | cons t rest ih =>
    refine Sim.bind (F.intentTransfer hpay _ (hnew t List.mem_cons_self) _) fun _ => ?_
    exact ih (fun t ht => hnew t (List.mem_cons_of_mem _ ht)) _

theorem intentTip (hpay : Pays sender) {solver : AccountId}
    (hnew : MayCreate E Good R solver) (claimedTip : U128) (events : List Event) :
    CallSim R (intentTip E sender solver claimedTip events)
      (intentTip E sender solver claimedTip events) := by
  refine Sim.ite (fun _ => ?_) fun _ => Sim.pure _
  refine F.require_bind sender fun a ha => ?_
  refine Sim.guard ?_
  refine Sim.bind (F.saveAccount (ha.2 hpay _)) fun _ => ?_
  exact Sim.done (F.creditOrCreate hnew _)

theorem intentFulfill (hpay : Pays sender) {args : Bytes}
    (hnew : ∀ id ∈ intentRecipients args, MayCreate E Good R id) :
    CallSim R (intentFulfill E sender args) (intentFulfill E sender args) := by
  refine Sim.guard <| orErr_bind_sim fun solver hsolver => ?_
  refine Sim.bind (Sim.reads fun s s' hs => ?_) fun _ => Sim.guard ?_
  · rw [intentAuthorized, intentAuthorized, F.getState hs (isNonStateKey_intentKey _)]
  refine parseTransfers_bind _ _ fun transfers htransfers => Sim.bind ?_ fun _ => ?_
  · refine Sim.bind (F.getAccount _).attempt fun _ => ?_
    split
    · exact Sim.stopIf _ _
    · exact Sim.stop _
  have hpaid : ∀ t ∈ transfers, MayCreate E Good R t.1 := fun t ht =>
    hnew t.1 (List.mem_append_right _ (htransfers t ht))
  have htip : MayCreate E Good R solver := by
    refine hnew solver (List.mem_append_left _ ?_)
    rw [hsolver]
    exact List.mem_singleton.mpr rfl
  refine Sim.bind (F.intentTransfers hpay hpaid _) fun _ => ?_
  refine Sim.bind (F.intentTip hpay htip _ _) fun _ => Sim.bind ?_ fun _ => Sim.pure _
  exact Sim.ite (fun _ => F.checkConstraints _ _ _ _ _ _) fun _ => Sim.pure _

theorem executeIntentCall (sender : AccountId) (method : String) (args : Bytes)
    (hpay : method = "fulfill" → Pays sender)
    (hnew : method = "fulfill" → ∀ id ∈ intentRecipients args, MayCreate E Good R id) :
    CallSim R (executeIntentCall E sender method args) (executeIntentCall E sender method args) := by
  unfold Solen.executeIntentCall
  split
  · exact F.intentFulfill (hpay rfl) (hnew rfl)
  · exact Sim.pure _

/-! ## All of them -/

theorem systemCall (sender target : AccountId) (method : String) (args : Bytes)
    (C : CallFits E V Key Good Pays R sender target method args) :
    CallSim R (systemCall E sender target method args) (systemCall E sender target method args) := by
  refine Sim.ite (fun h => ?_) fun _ => Sim.ite (fun h => ?_) fun _ =>
    Sim.ite (fun h => ?_) fun _ => Sim.ite (fun _ => F.executeTreasuryCall _) fun _ =>
    Sim.ite (fun h => ?_) fun _ => Sim.ite (fun h => ?_) fun _ =>
    Sim.ite (fun h => ?_) fun _ => Sim.ite (fun h => ?_) fun _ => Sim.pure _
  · subst h
    exact F.executeStakingCall (C.writes _ .staking) _ _ _ (fun h => C.pays (.inl ⟨rfl, h⟩)) C.reads
  · subst h
    exact F.executeGovernanceCall C.writes (fun hm => C.creates _ (.migrate hm)) _ _
      (fun h => C.pays (.inr (.inl ⟨rfl, h⟩))) C.reads
  · subst h
    exact F.executeBridgeCall _ _ _ C
  · subst h
    exact F.executeVestingCall _ _ _ C
  · exact F.executeIntentCall _ _ _ (fun hm => C.pays (.inr (.inr (.inr ⟨h, hm⟩))))
      fun hm id hid => C.creates id (h ▸ .fulfill hm hid)
  · exact F.executePaymasterCall (C.writes _ (h ▸ .paymasters)) _ _
  · subst h
    exact F.executeGuardianCall _ _ _ C

end Calls

end SysFrame

/-! ## The two readings -/

namespace ReadFrame

variable {ε : Type} (F : ReadFrame V R)

include F

theorem sysFrame : SysFrame E V (fun _ => True) (fun _ => True) (fun _ => True) R where
  toViewFrame := F.toViewFrame
  put := fun v _ hs => F.put _ v hs
  save := fun _ hs => F.put _ _ hs
  load := fun _ _ => ⟨trivial, fun _ _ => trivial⟩
  credit := fun _ _ => trivial
  vault := fun _ => trivial

theorem write (k v : Bytes) :
    Sim R (modify fun s => StateStore.put s k v : Prog σ ε Unit)
      (modify fun s => StateStore.put s k v) :=
  Sim.modify fun _ _ hs => F.put k v hs

theorem saveAccount (a : Account) : Sim R (saveAccount E a : Prog σ ε Unit) (saveAccount E a) :=
  F.write _ _

/-- A system call has the same result on both stores and writes the same. -/
theorem executeSystemCall {s : σ} {s' : σ'} (hs : R s s') (sender target : AccountId)
    (method : String) (args : Bytes) (hV : ∀ k, SystemReads target method args k → V k) :
    (executeSystemCall E s sender target method args).1 =
        (executeSystemCall E s' sender target method args).1 ∧
      R (executeSystemCall E s sender target method args).2
        (executeSystemCall E s' sender target method args).2 := by
  obtain ⟨hval, hR, -⟩ := F.sysFrame.systemCall (E := E) sender target method args
    ⟨hV, fun _ _ => trivial, fun _ _ _ _ _ _ => trivial, fun _ => trivial,
      fun _ _ _ _ _ => trivial⟩ s s' hs
  simp only [Solen.executeSystemCall, runSystemCall]
  rcases hrun : (Solen.systemCall E sender target method args).run s with ⟨r, s₁⟩
  rcases hrun' : (Solen.systemCall E sender target method args).run s' with ⟨r', s₁'⟩
  rw [hrun, hrun'] at hval hR
  cases hval
  cases r with
  | ok a => exact ⟨rfl, hR⟩
  | error e => exact ⟨rfl, hR⟩

end ReadFrame

/-- A state is compared with itself where an invariant holds. -/
theorem ViewFrame.self {I : σ → Prop} :
    ViewFrame (fun _ => True) (fun s s' : σ => s = s' ∧ I s) where
  state := fun _ => trivial
  get := fun hs _ => by rw [hs.1]
  scan := fun hs _ => by rw [hs.1]

namespace CallFrame

variable {I : σ → Prop} (F : CallFrame E I Key Good)

include F

theorem sysFrame : SysFrame E (fun _ => True) Key Good (fun _ => True)
    (fun s s' : σ => s = s' ∧ I s) where
  toViewFrame := ViewFrame.self
  put := fun v hk hs => ⟨by rw [hs.1], F.put v hk hs.2⟩
  save := fun ha hs => ⟨by rw [hs.1], F.save ha hs.2⟩
  load := fun hs ha => ⟨F.load hs.2 ha, fun _ b => F.balance b (F.load hs.2 ha)⟩
  credit := fun _ ha => F.balance _ ha
  vault := fun _ => trivial

theorem executeStakingCall (hkey : Key StakingContract.storageKey) (sender : AccountId)
    (method : String) (args : Bytes) :
    Keeps I (executeStakingCall E sender method args) fun _ => True :=
  (F.sysFrame.executeStakingCall hkey sender method args (fun _ => trivial)
    fun _ _ => trivial).keeps

/-- A system call keeps every frame that knows its keys, whether it succeeds
or not. -/
theorem executeSystemCall {s : σ} (hs : I s) (sender target : AccountId) (method : String)
    (args : Bytes) (hkey : ∀ k, CallWrites method target k → Key k)
    (hnew : ∀ id, CallCreates method args target id → Creatable E I Good id)
    (hauth : target = System.guardianAddress → method = "execute_recovery" →
      ∀ a authMethods, Good a → Good { a with authMethods := authMethods }) :
    I (executeSystemCall E s sender target method args).2 := by
  rw [executeSystemCall_state]
  have hfits : CallFits E (fun _ => True) Key Good (fun _ => True)
      (fun s s' : σ => s = s' ∧ I s) sender target method args :=
    ⟨fun _ _ => trivial, hkey, fun id hid s _ hs hnone => hnew id hid s hs.2 hnone,
      fun _ => trivial, hauth⟩
  exact ((F.sysFrame.systemCall sender target method args hfits).keeps s hs).1

end CallFrame

/-! ## Calls that succeed -/

variable (E) in
/-- The frame of everything. -/
theorem anyFrame : SysFrame E (fun _ => True) (fun _ => True) (fun _ => True) (fun _ => True)
    (fun s s' : σ => s = s' ∧ True) where
  toViewFrame := ViewFrame.self
  put := fun _ _ hs => ⟨by rw [hs.1], trivial⟩
  save := fun _ hs => ⟨by rw [hs.1], trivial⟩
  load := fun _ _ => ⟨trivial, fun _ _ => trivial⟩
  credit := fun _ _ => trivial
  vault := fun _ => trivial

/-- A successful call ran to its end: no call stops without reporting an
error. -/
theorem run_of_executeSystemCall {s s' : σ} {target : AccountId} {method : String} {args : Bytes}
    {r : SystemCallResult} (h : executeSystemCall E s sender target method args = (r, s'))
    (hok : r.error = none) : (systemCall E sender target method args).run s = (.ok r, s') := by
  refine run_of_runSystemCall (SimTo.stops ?_) h hok
  exact (anyFrame E).systemCall sender target method args ⟨fun _ _ => trivial,
    fun _ _ => trivial, fun _ _ _ _ _ _ => trivial, fun _ => trivial, fun _ _ _ _ _ => trivial⟩

end Solen
