import Solen.ExecFrame
import Solen.Atomicity

/-!
# Conservation of value

The total of all balances, and what an operation does to it. Moving funds
between accounts keeps the total: a debit never goes below zero, and the
credit that follows cannot saturate, because no balance exceeds the
total. The fee is set aside first and settled last, so in between the
total is short of exactly the reserve.
-/

namespace Solen

open Machine Prog
open StateStore (entries)

variable {a : Account} {id : AccountId} {T b height : Nat} {op : UserOperation}

/-! ## The total of all balances -/

section Total

variable (E : Platform)

/-- What an entry of the store adds to the total. -/
def entryBalance (k v : Bytes) : Nat :=
  if k.take 4 = ascii "acc/" ∧ k.length = 36 then
    ((E.account.fromSlice v).map (·.balance.toNat)).getD 0
  else 0

def totalBalance (m : Store) : Nat := Delta.sumOf (entryBalance E) m

/-- The balance of an account, zero when there is none. -/
def balanceIn (m : Store) (id : AccountId) : Nat :=
  ((account? E m id).map (·.balance.toNat)).getD 0

variable {E}

theorem length_accountKey (id : AccountId) : (accountKey id).length = 36 := by
  rw [accountKey, List.length_append, id.length_bytes]
  rfl

theorem entryBalance_accountKey (id : AccountId) (v : Bytes) :
    entryBalance E (accountKey id) v =
      ((E.account.fromSlice v).map (·.balance.toNat)).getD 0 :=
  if_pos ⟨take_accountKey id, length_accountKey id⟩

theorem totalBalance_insert_account (m : Store) (a : Account) :
    totalBalance E (m.insert (accountKey a.id) (E.account.toVec a)) + balanceIn E m a.id =
      totalBalance E m + a.balance.toNat := by
  have hsum := Delta.sumOf_insert (entryBalance E) m (accountKey a.id) (E.account.toVec a)
  rw [entryBalance_accountKey, E.account.fromSlice_toVec, Option.map_some,
    Option.getD_some] at hsum
  have hold : (m[accountKey a.id]?.map (entryBalance E (accountKey a.id))).getD 0 =
      balanceIn E m a.id := by
    rw [balanceIn, account?]
    cases m[accountKey a.id]? with
    | none => rfl
    | some data => exact entryBalance_accountKey a.id data
  rw [hold] at hsum
  exact hsum

theorem totalBalance_insert_of_notAccountKey (m : Store) {k : Bytes} (hk : NotAccountKey k)
    (v : Bytes) : totalBalance E (m.insert k v) = totalBalance E m := by
  have hzero : ∀ v, entryBalance E k v = 0 := fun v => if_neg fun h => hk h.1
  have hsum := Delta.sumOf_insert (entryBalance E) m k v
  rw [hzero] at hsum
  cases hget : m[k]? with
  | none =>
    rw [hget] at hsum
    exact hsum
  | some old =>
    rw [hget, Option.map_some, hzero] at hsum
    exact hsum

/-- No balance exceeds the total. -/
theorem balance_le_totalBalance {m : Store}
    (h : account? E m id = some a) : a.balance.toNat ≤ totalBalance E m := by
  rw [account?, Option.bind_eq_some_iff] at h
  obtain ⟨data, hdata, hslice⟩ := h
  have hle := Delta.le_sumOf (entryBalance E) hdata
  rw [entryBalance_accountKey, hslice] at hle
  exact hle

end Total

/-! ## Funds -/

/-- The state of an operation between the fee reserve and the settlement:
accounts are well-formed, their balances add up to `total`, the payer
still exists, and the configured burn rate is what it was. -/
structure Funds {σ : Type} [StateStore σ] (E : Platform) (payer : AccountId)
    (rate : Option Bytes) (total : Nat) (s : σ) : Prop where
  wellFormed : WellFormed E (entries s)
  total_eq : totalBalance E (entries s) = total
  payer_exists : ∃ a, account? E (entries s) payer = some a
  burnRate : (entries s)[ascii "__config_burn_rate__"]? = rate

namespace Funds

variable {σ : Type} [StateStore σ] {E : Platform} {payer : AccountId} {rate : Option Bytes}
  {T : Nat} {s : σ}

theorem of_entries {τ : Type} [StateStore τ] {t : τ} (h : Funds E payer rate T s)
    (heq : entries t = entries s) : Funds E payer rate T t :=
  ⟨heq ▸ h.wellFormed, heq ▸ h.total_eq, heq ▸ h.payer_exists, heq ▸ h.burnRate⟩

theorem load (h : Funds E payer rate T s)
    (hload : loadAccount E id s = .ok (some a)) :
    a.id = id ∧ account? E (entries s) id = some a ∧ a.balance.toNat ≤ T := by
  have hacct := account?_of_loadAccount hload
  refine ⟨h.wellFormed.id_eq hacct, hacct, ?_⟩
  rw [← h.total_eq]
  exact balance_le_totalBalance hacct

/-- Saving an account moves the total by the change of its balance. -/
theorem save {T' : Nat} (h : Funds E payer rate T s)
    (hT : T' + balanceIn E (entries s) a.id = T + a.balance.toNat) :
    Funds E payer rate T' (putAccount E a s) where
  wellFormed := h.wellFormed.putAccount a
  total_eq := by
    have hsum := totalBalance_insert_account (E := E) (entries s) a
    rw [entries_putAccount]
    rw [h.total_eq] at hsum
    omega
  payer_exists := by
    rw [account?_putAccount]
    split
    · exact ⟨a, rfl⟩
    · exact h.payer_exists
  burnRate := by
    have hkey : NotAccountKey (ascii "__config_burn_rate__") := by decide
    rw [entries_putAccount, Delta.getElem?_insert, if_neg (hkey.ne a.id).symm]
    exact h.burnRate

/-- Writing the record of an account again, with another balance. -/
theorem saveLoaded {b : U128} {T' : Nat}
    (h : Funds E payer rate T s) (hload : loadAccount E id s = .ok (some a))
    (hT : T' + a.balance.toNat = T + b.toNat) (authMethods : List AuthMethod) :
    Funds E payer rate T'
      (putAccount E { a with balance := b, authMethods := authMethods } s) := by
  obtain ⟨hid, hacct, -⟩ := h.load hload
  refine h.save ?_
  change T' + balanceIn E (entries s) a.id = T + b.toNat
  rw [balanceIn, hid, hacct]
  exact hT

theorem debit {amount : U128} (h : Funds E payer rate T s)
    (hload : loadAccount E id s = .ok (some a)) (hle : amount ≤ a.balance) :
    Funds E payer rate (T - amount.toNat)
      (putAccount E { a with balance := a.balance - amount } s) := by
  obtain ⟨-, -, hbal⟩ := h.load hload
  refine h.saveLoaded hload ?_ a.authMethods
  rw [BitVec.toNat_sub_of_le hle]
  rw [BitVec.le_def] at hle
  omega

/-- A credit that the total has room for does not saturate. -/
theorem credit (amount : U128) (h : Funds E payer rate T s)
    (hload : loadAccount E id s = .ok (some a)) (hT : T + amount.toNat < 2 ^ 128) :
    Funds E payer rate (T + amount.toNat)
      (putAccount E { a with balance := satAdd a.balance amount } s) := by
  obtain ⟨-, -, hbal⟩ := h.load hload
  refine h.saveLoaded hload ?_ a.authMethods
  rw [toNat_satAdd]
  omega

/-- A new account with its first balance. -/
theorem create (h : Funds E payer rate T s)
    (hnone : ∀ a, loadAccount E id s ≠ .ok (some a)) (hid : a.id = id) :
    Funds E payer rate (T + a.balance.toNat) (putAccount E a s) := by
  refine h.save ?_
  have habsent : account? E (entries s) a.id = none := by
    cases hacct : account? E (entries s) a.id with
    | none => rfl
    | some b =>
      refine absurd ?_ (hnone b)
      rw [← hid, h.wellFormed.loadAccount_eq, hacct]
  rw [balanceIn, habsent]
  rfl

/-- Writes to other keys. -/
theorem put {k : Bytes} (h : Funds E payer rate T s) (hk : NotAccountKey k)
    (hrate : k ≠ ascii "__config_burn_rate__") (v : Bytes) :
    Funds E payer rate T (StateStore.put s k v) where
  wellFormed := by
    rw [StateStore.entries_put]
    exact h.wellFormed.insert_of_notAccountKey hk v
  total_eq := by
    rw [StateStore.entries_put, totalBalance_insert_of_notAccountKey _ hk]
    exact h.total_eq
  payer_exists := by
    rw [StateStore.entries_put, account?_insert_of_notAccountKey hk]
    exact h.payer_exists
  burnRate := by
    rw [StateStore.entries_put, Delta.getElem?_insert, if_neg hrate]
    exact h.burnRate

end Funds

/-! ## Actions keep the funds -/

section Actions

variable {base : Store} {E : Platform} {payer : AccountId} {rate : Option Bytes} {T : Nat}
  {ε : Type}

/-- Logs, gas and fuel are not funds. -/
theorem Funds.congr {s s' : ExecState base} (h : Funds E payer rate T s)
    (hstore : s'.store = s.store) : Funds E payer rate T s' :=
  h.of_entries (congrArg OverlayStore.entries hstore)

theorem emit_funds (e : Event) :
    Ends (Funds E payer rate T) (emit e : Prog (ExecState base) ε Unit)
      fun _ => Funds E payer rate T :=
  Ends.modify fun _ hs => hs.congr rfl

theorem nativeTransfer_funds (hT : T < 2 ^ 128) (contract : AccountId) (t : NativeTransfer) :
    Ends (Funds E payer rate T) (nativeTransfer E contract t : ExecM base Unit)
      fun _ => Funds E payer rate T := by
  refine Ends.bind (requireAccount_ends contract).mapError fun a => ?_
  refine Ends.bind (Ends.stopIf (Q := fun _ s => (Funds E payer rate T s ∧
    loadAccount E contract s = .ok (some a)) ∧ t.amount ≤ a.balance)
      fun s hs hlow => ⟨hs, BitVec.not_lt.mp hlow⟩) fun _ => ?_
  refine Ends.bind (Ends.modify (Q := fun _ s => Funds E payer rate (T - t.amount.toNat) s ∧
    t.amount.toNat ≤ T) fun s hs => ?_) fun _ => ?_
  · obtain ⟨⟨hfunds, hload⟩, hle⟩ := hs
    obtain ⟨-, -, hbal⟩ := hfunds.load hload
    exact ⟨hfunds.debit hload hle, Nat.le_trans (BitVec.le_def.mp hle) hbal⟩
  refine Ends.bind (Ends.bind (attemptRequire_ends t.dest) fun r => ?_) fun _ => emit_funds _
  cases r with
  | ok recipient =>
    refine Ends.modify fun s ⟨⟨hfunds, hle⟩, hload, _⟩ => ?_
    have hcredit := hfunds.credit t.amount (hload recipient rfl) (by omega)
    rwa [Nat.sub_add_cancel hle] at hcredit
  | error e =>
    refine Ends.modify fun s ⟨⟨hfunds, hle⟩, _, hnone⟩ => ?_
    have hnew := hfunds.create (a := { emptyAccount t.dest with balance := t.amount })
      (hnone e rfl) rfl
    change Funds E payer rate (T - t.amount.toNat + t.amount.toNat) _ at hnew
    rwa [Nat.sub_add_cancel hle] at hnew

theorem contractStorageKey_ne_burnRate (id : AccountId) (k : Bytes) :
    contractStorageKey id k ≠ ascii "__config_burn_rate__" := by
  intro h
  have h0 := congrArg List.head? h
  revert h0
  simp [contractStorageKey, contractStoragePrefix, ascii]

theorem saveContractStorage_funds (contractId : AccountId) (storage : Store) :
    Ends (Funds E payer rate T) (saveContractStorage E contractId storage : Prog (ExecState base) _ _)
      fun _ => Funds E payer rate T := by
  have hput : ∀ (k v : Bytes), Ends (Funds E payer rate T)
      (modify fun s : ExecState base => StateStore.put s (contractStorageKey contractId k) v :
        Prog (ExecState base) StateError Unit) fun _ => Funds E payer rate T := fun k v =>
    Ends.modify fun s hs => hs.put (notAccountKey_contractStorageKey _ _)
      (contractStorageKey_ne_burnRate _ _) v
  exact Ends.bind (Ends.each fun e _ => hput e.1 e.2) fun _ => hput _ _

theorem runContract_funds (hT : T < 2 ^ 128) (height : Nat) (caller target : AccountId)
    (method args : Bytes) (msgValue : U128) (account : Account) :
    Ends (Funds E payer rate T)
      (runContract E height caller target method args msgValue account : ExecM base _)
      fun _ => Funds E payer rate T := by
  refine Ends.bind (Ends.reads (Q := fun _ => Funds E payer rate T) fun _ hs => hs) fun code => ?_
  cases code with
  | none => exact Ends.stop
  | some bytecode =>
    refine Ends.bind (Ends.reads (Q := fun _ => Funds E payer rate T) fun _ hs => hs) fun _ => ?_
    refine Ends.bind (Ends.reads (Q := fun _ => Funds E payer rate T) fun _ hs => hs) fun _ => ?_
    refine Ends.bind (Ends.stopIf (Q := fun _ => Funds E payer rate T)
      fun _ hs _ => hs) fun _ => ?_
    dsimp only
    split
    · exact Ends.stop
    · exact Ends.stop
    · refine Ends.bind (Ends.modify (Q := fun _ => Funds E payer rate T)
        fun _ hs => hs.congr rfl) fun _ => ?_
      refine Ends.bind (saveContractStorage_funds _ _).mapError fun _ => ?_
      refine Ends.bind (Ends.each fun t _ => nativeTransfer_funds hT target t) fun _ => ?_
      refine Ends.bind (Ends.each fun e _ => emit_funds _) fun _ => ?_
      exact Ends.pure fun _ hs => hs

theorem transferReceiver_funds (dest : AccountId) :
    Ends (Funds E payer rate T) (transferReceiver E dest : Prog (ExecState base) _ _)
      fun a s => Funds E payer rate T s ∧ loadAccount E dest s = .ok (some a) := by
  refine Ends.bind (getAccount_ends dest) fun o => ?_
  cases o with
  | some a => exact Ends.pure fun s hs => hs
  | none =>
    refine Ends.bind (Ends.stopIf (Q := fun _ s => Funds E payer rate T s ∧
      loadAccount E dest s = .ok none) fun _ hs _ => hs) fun _ => ?_
    refine Ends.bind (Q := fun _ => Funds E payer rate T) ?_ fun _ => requireAccount_ends dest
    refine Ends.bind (Ends.modify (Q := fun _ => Funds E payer rate T) fun s hs => ?_) fun _ =>
      Ends.pure fun _ hs => hs
    have hnone : ∀ a, loadAccount E dest s ≠ .ok (some a) := by
      intro a ha
      rw [hs.2] at ha
      cases ha
    exact hs.1.create (a := { emptyAccount dest with authMethods := [.ed25519 dest] }) hnone rfl

theorem transfer_funds (hT : T < 2 ^ 128) (source dest : AccountId) (amount : U128) :
    Ends (Funds E payer rate T) (transfer E source dest amount : Prog (ExecState base) _ _)
      fun _ => Funds E payer rate T := by
  refine Ends.bind (requireAccount_ends source) fun a => ?_
  refine Ends.bind (Ends.stopIf (Q := fun _ s => (Funds E payer rate T s ∧
    loadAccount E source s = .ok (some a)) ∧ amount ≤ a.balance)
      fun s hs hlow => ⟨hs, BitVec.not_lt.mp hlow⟩) fun _ => ?_
  refine Ends.bind (Ends.modify (Q := fun _ s => Funds E payer rate (T - amount.toNat) s ∧
    amount.toNat ≤ T) fun s hs => ?_) fun _ => ?_
  · obtain ⟨⟨hfunds, hload⟩, hle⟩ := hs
    obtain ⟨-, -, hbal⟩ := hfunds.load hload
    exact ⟨hfunds.debit hload hle, Nat.le_trans (BitVec.le_def.mp hle) hbal⟩
  -- The receiver is loaded after the debit, so a transfer to oneself nets out.
  refine Ends.bind ((transferReceiver_funds dest).frame _) fun b => ?_
  refine Ends.modify fun s ⟨⟨hfunds, hload⟩, hle⟩ => ?_
  have hcredit := hfunds.credit amount hload (by omega)
  rwa [Nat.sub_add_cancel hle] at hcredit

theorem checkAuthMethod_funds (m : AuthMethod) :
    Ends (Funds E payer rate T) (checkAuthMethod E m : ExecM base Unit)
      fun _ => Funds E payer rate T := by
  unfold checkAuthMethod
  split
  · exact Ends.stopIf fun _ hs _ => hs
  · exact Ends.bind (getAccount_ends _).mapError fun _ => Ends.stopIf fun _ hs _ => hs.1
  · exact Ends.pure fun _ hs => hs

theorem setAuthAction_funds (sender : AccountId) (authMethods : List AuthMethod) :
    Ends (Funds E payer rate T) (setAuthAction E sender authMethods : ExecM base U64)
      fun _ => Funds E payer rate T := by
  refine Ends.bind (Ends.stopIf (Q := fun _ => Funds E payer rate T) fun _ hs _ => hs) fun _ => ?_
  refine Ends.bind (Ends.each fun m _ => checkAuthMethod_funds m) fun _ => ?_
  refine Ends.bind (requireAccount_ends sender).mapError fun a => ?_
  refine Ends.bind (Ends.modify (Q := fun _ => Funds E payer rate T) fun s hs => ?_) fun _ => ?_
  · exact hs.1.saveLoaded (b := a.balance) hs.2 rfl authMethods
  · exact Ends.bind (emit_funds _) fun _ => Ends.pure fun _ hs => hs

theorem transferAction_funds (hT : T < 2 ^ 128) (sender dest : AccountId) (amount : U128) :
    Ends (Funds E payer rate T) (transferAction E sender dest amount : ExecM base U64)
      fun _ => Funds E payer rate T := by
  refine Ends.bind ((getAccount_ends dest).mapError.mono fun _ _ hs => hs.1) fun _ => ?_
  refine Ends.bind (transfer_funds hT _ _ _).mapError fun _ => ?_
  exact Ends.bind (emit_funds _) fun _ => Ends.pure fun _ hs => hs

end Actions

/-! ## Calls -/

section Calls

variable {base : Store} {E : Platform} {payer : AccountId} {rate : Option Bytes} {T : Nat}
  {ε : Type}

/-- A system contract has been called. -/
def CalledSystem (s : ExecState base) : Prop := ∃ t ∈ s.calls, System.isSystemContract t = true

theorem systemFrame (E : Platform) :
    ExecFrame E (CalledSystem : ExecState base → Prop) fun _ => True :=
  logFrame E (Q := fun calls _ => ∃ t ∈ calls, System.isSystemContract t = true)
    fun _ _ _ ⟨t, ht, hsys⟩ => ⟨t, List.mem_append_left _ ht, hsys⟩

/-- As long as no system contract is called the funds are kept. -/
def FundsOr (E : Platform) (payer : AccountId) (rate : Option Bytes) (T : Nat)
    (s : ExecState base) : Prop :=
  CalledSystem s ∨ Funds E payer rate T s

/-- Recording a call to a system contract settles the matter. -/
theorem recordCall_funds (target : AccountId) :
    Ends (Funds E payer rate T) (recordCall target : Prog (ExecState base) ε Unit) fun _ s =>
      Funds E payer rate T s ∧ (System.isSystemContract target = true → CalledSystem s) :=
  Ends.modify fun _ hs => ⟨hs.congr rfl, fun hsys =>
    ⟨target, List.mem_append_right _ List.mem_cons_self, hsys⟩⟩

theorem runPending_fundsOr {call : PendingCall → ExecM base U64}
    (h : ∀ p, Ends (FundsOr E payer rate T) (call p) fun _ => FundsOr E payer rate T)
    (ps : List PendingCall) (total : U64) :
    Ends (FundsOr E payer rate T) (runPending call ps total) fun _ => FundsOr E payer rate T := by
  induction ps generalizing total with
  | nil => exact Ends.pure fun _ hs => hs
  | cons p ps ih => exact Ends.bind (h p) fun _ => ih _

/-- By induction on the frames that may still be opened. -/
theorem dispatchContractCall_fundsOr (hT : T < 2 ^ 128) (height : Nat)
    (policy : Option SubcallPolicy) (left : Nat) (caller target : AccountId)
    (method args : Bytes) (msgValue : U128) :
    Ends (FundsOr E payer rate T)
      (dispatchContractCall E height policy left caller target method args msgValue :
        ExecM base U64) fun _ => FundsOr E payer rate T := by
  induction left generalizing caller target method args msgValue with
  | zero => exact Ends.stop
  | succ left ih =>
    refine Ends.or ?_ ?_
    · exact ((systemFrame E).dispatchContractCall _ _ _ _ _ _ _ _).ends.mono
        fun _ _ hs => .inl hs
    refine Ends.bind (recordCall_funds target) fun _ => ?_
    split
    · exact Ends.stop
    refine Ends.ite (fun hsys => ?_) fun _ => ?_
    · exact (((systemFrame E).dispatchSystemCall _ _ _ _).ends.mono fun _ _ hs => .inl hs).pre
        fun s hs => hs.2 hsys
    refine Ends.bind (Q := fun _ => Funds E payer rate T)
      ((requireAccount_ends target).mapError.mono fun _ _ hs => hs.1.1) fun account => ?_
    refine Ends.ite (fun _ => ?_) fun _ => ?_
    · exact Ends.bind (emit_funds _) fun _ => Ends.pure fun _ hs => .inr hs
    refine Ends.bind (runContract_funds hT _ _ _ _ _ _ _) fun result => ?_
    exact (runPending_fundsOr (fun p => ih _ _ _ _ _) _ _).pre fun _ hs => .inr hs

theorem operationAction_fundsOr (hT : T < 2 ^ 128) (height : Nat)
    (policy : Option SubcallPolicy) (sender : AccountId) (msgValue : U128) (action : Action)
    (hdeploy : ∀ code salt, action ≠ .deploy code salt) :
    Ends (FundsOr E payer rate T)
      (operationAction E height policy sender msgValue action : Prog (ExecState base) _ _)
      fun _ => FundsOr E payer rate T := by
  have haddGas : ∀ gas : U64, Ends (FundsOr E payer rate T)
      (addGas gas : Prog (ExecState base) String Unit) fun _ => FundsOr E payer rate T :=
    fun gas => Ends.modify fun s hs => hs.imp_right fun h => h.congr rfl
  refine Ends.or ?_ ?_
  · exact ((systemFrame E).operationAction _ _ _ _ _ fun code salt heq =>
      absurd heq (hdeploy code salt)).ends.mono fun _ _ hs => .inl hs
  cases action with
  | transfer dest amount =>
    exact Ends.bind ((transferAction_funds hT _ _ _).mapError.mono fun _ _ hs => .inr hs) haddGas
  | setAuth authMethods =>
    exact Ends.bind ((setAuthAction_funds _ _).mapError.mono fun _ _ hs => .inr hs) haddGas
  | deploy code salt => exact absurd rfl (hdeploy code salt)
  | call target method args =>
    refine Ends.ite (fun hsys => ?_) fun _ => ?_
    · refine Ends.bind (Q := fun _ => CalledSystem)
        ((recordCall_funds target).mono fun _ _ hs => hs.2 hsys) fun _ => ?_
      refine Ends.bind ((systemFrame E).callSystem _ _ _ _).ends fun r => ?_
      refine Ends.bind ((systemFrame E).addGas _).ends fun _ => ?_
      split
      · exact Ends.stop
      · exact Ends.pure fun _ hs => .inl hs
    · refine Ends.bind (Ends.mapError (Q := fun _ => FundsOr E payer rate T) ?_) haddGas
      refine Ends.bind (Ends.modify (Q := fun _ => FundsOr E payer rate T)
        fun _ hs => .inr (hs.congr rfl)) fun _ => ?_
      exact dispatchContractCall_fundsOr hT _ _ _ _ _ _ _ _

theorem operationActions_fundsOr (hT : T < 2 ^ 128) (height : Nat)
    (policy : Option SubcallPolicy) (sender : AccountId) (actions : List Action)
    (pending : PendingTransfers) (hdeploy : ∀ code salt, .deploy code salt ∉ actions) :
    Ends (FundsOr E payer rate T)
      (operationActions E height policy sender actions pending : Prog (ExecState base) _ _)
      fun _ => FundsOr E payer rate T := by
  induction actions generalizing pending with
  | nil => exact Ends.pure fun _ hs => hs
  | cons action rest ih =>
    refine Ends.bind (operationAction_fundsOr hT _ _ _ _ _ fun code salt heq => ?_) fun _ => ?_
    · exact hdeploy code salt (heq ▸ List.mem_cons_self)
    · exact ih _ fun code salt hmem => hdeploy code salt (List.mem_cons_of_mem _ hmem)

end Calls

/-! ## Fees -/

section Fees

variable {base : Store} {E : Platform} {X : BlockExecutor} {payer : AccountId}
  {rate : Option Bytes} {T : Nat} {ε : Type}

/-- The treasury never gets more than the fee. -/
theorem treasuryAmount_le (c : FeeConfig) (fee : U128) (h : c.burnRateBps ≤ 10000#64) :
    (c.treasuryAmount fee).toNat ≤ fee.toNat := by
  have hrate : ((10000#64 - c.burnRateBps).setWidth 128).toNat ≤ 10000 := by
    rw [BitVec.toNat_setWidth, BitVec.toNat_sub_of_le h, show (10000#64).toNat = 10000 from rfl]
    exact Nat.le_trans (Nat.mod_le _ _) (Nat.sub_le _ _)
  rw [FeeConfig.treasuryAmount, BitVec.toNat_udiv, toNat_satMul,
    show (10000#128).toNat = 10000 from rfl]
  refine Nat.div_le_of_le_mul ?_
  calc min (fee.toNat * ((10000#64 - c.burnRateBps).setWidth 128).toNat) (2 ^ 128 - 1)
      ≤ fee.toNat * ((10000#64 - c.burnRateBps).setWidth 128).toNat := min_le_left _ _
    _ ≤ fee.toNat * 10000 := Nat.mul_le_mul_left _ hrate
    _ = 10000 * fee.toNat := Nat.mul_comm _ _

theorem reserveFee_funds :
    Ends (Funds E payer rate T) (reserveFee E op : Prog (ExecState base) ε U128)
      fun r s => Funds E payer rate (T - r.toNat) s ∧ r.toNat ≤ T := by
  refine Ends.bind (attemptGet_ends _) fun r => ?_
  split
  · next acct =>
      refine Ends.bind (Ends.modify (Q := fun _ s =>
        Funds E payer rate (T - (umin op.maxFee acct.balance).toNat) s ∧
          (umin op.maxFee acct.balance).toNat ≤ T) fun s hs => ?_) fun _ =>
        Ends.pure fun _ hs => hs
      obtain ⟨hfunds, hload⟩ := hs
      obtain ⟨-, -, hbal⟩ := hfunds.load hload
      have hle : umin op.maxFee acct.balance ≤ acct.balance := by
        rw [BitVec.le_def, toNat_umin]
        exact min_le_right _ _
      exact ⟨hfunds.debit hload hle, Nat.le_trans (BitVec.le_def.mp hle) hbal⟩
  · exact Ends.pure fun s hs => ⟨hs.1, Nat.zero_le _⟩

theorem creditTreasury_funds {treasury : AccountId} {share : U128}
    (hT : T + share.toNat < 2 ^ 128) :
    Ends (Funds E payer rate T) (creditTreasury E treasury share : Prog (ExecState base) ε U128)
      fun credit s => Funds E payer rate (T + credit.toNat) s := by
  refine Ends.ite (fun _ => ?_) fun _ => Ends.pure fun s hs => hs
  refine Ends.bind (attemptGet_ends _) fun r => ?_
  split
  · next acct =>
      refine Ends.bind (Ends.modify (Q := fun _ => Funds E payer rate (T + share.toNat))
        fun s hs => ?_) fun _ => Ends.pure fun _ hs => hs
      exact hs.1.credit share hs.2 hT
  · exact Ends.pure fun s hs => hs.1

theorem cappedFee_le (hfix : X.feeFixHeight ≤ height)
    (c : FeeConfig) (gasUsed : U64) : (cappedFee X op height c gasUsed).toNat ≤ op.maxFee.toNat := by
  rw [cappedFee, if_pos hfix, toNat_umin]
  exact min_le_right _ _

/-- The configuration in force depends on the configured rate only. -/
theorem effectiveFeeConfig_congr {s s' : ExecState base}
    (h : (entries s)[burnRateKey]? = (entries s')[burnRateKey]?) :
    effectiveFeeConfig X s = effectiveFeeConfig X s' := by
  unfold effectiveFeeConfig
  rw [StateStore.get_eq, StateStore.get_eq, h]

/-- The payer gets the reserve back and pays the fee. -/
theorem Funds.payFee {s : ExecState base} {acct : Account} {reserved fee : U128}
    (h : Funds E payer rate (T - reserved.toNat) s) (hres : reserved.toNat ≤ T)
    (hT : T < 2 ^ 128) (hload : loadAccount E payer s = .ok (some acct))
    (hfee : fee ≤ satAdd acct.balance reserved) :
    fee.toNat ≤ T ∧ Funds E payer rate (T - fee.toNat)
      (putAccount E { acct with balance := satSub (satAdd acct.balance reserved) fee } s) := by
  obtain ⟨-, -, hbal⟩ := h.load hload
  rw [BitVec.le_def, toNat_satAdd] at hfee
  refine ⟨by omega, h.saveLoaded hload ?_ acct.authMethods⟩
  rw [toNat_satSub, toNat_satAdd]
  omega

/-- Settling gives the reserve back and takes the fee, part of which goes to
the treasury. -/
theorem settleFees_funds {reserved : U128}
    (hpayer : payer = op.sender) (hfix : X.feeFixHeight ≤ height) (hT : T < 2 ^ 128)
    (hburn : ∀ s : ExecState base, (entries s)[burnRateKey]? = rate →
      (effectiveFeeConfig X s).burnRateBps ≤ 10000#64) :
    Ends (fun s => Funds E payer rate (T - reserved.toNat) s ∧ reserved.toNat ≤ T)
      (settleFees E X op height reserved : Prog (ExecState base) ε _) fun fees s =>
        totalBalance E (entries s) + fees.1.toNat = T + fees.2.toNat ∧
          fees.1.toNat ≤ op.maxFee.toNat := by
  refine Ends.bind (Ends.reads (Q := fun c s => (Funds E payer rate (T - reserved.toNat) s ∧
    reserved.toNat ≤ T) ∧ c.burnRateBps ≤ 10000#64) fun s hs =>
      ⟨hs, hburn s hs.1.burnRate⟩) fun c => ?_
  refine Ends.bind (Ends.reads (Q := fun _ s => (Funds E payer rate (T - reserved.toNat) s ∧
    reserved.toNat ≤ T) ∧ c.burnRateBps ≤ 10000#64) fun s hs => hs) fun gas => ?_
  dsimp only
  refine Ends.ite (fun _ => ?_) fun hzero => ?_
  · refine Ends.bind (attemptGet_ends _) fun r => ?_
    split
    · next acct =>
        simp only [if_pos hfix]
        have hcap : (umin (cappedFee X op height c gas) (satAdd acct.balance reserved)).toNat ≤
            op.maxFee.toNat := by
          rw [toNat_umin]
          exact Nat.le_trans (min_le_left _ _) (cappedFee_le hfix c gas)
        have havail : umin (cappedFee X op height c gas) (satAdd acct.balance reserved) ≤
            satAdd acct.balance reserved := by
          rw [BitVec.le_def, toNat_umin]
          exact min_le_right _ _
        revert hcap havail
        generalize umin (cappedFee X op height c gas) (satAdd acct.balance reserved) = fee
        intro hcap havail
        have htaken : umin fee (satAdd acct.balance reserved) = fee := by
          refine BitVec.eq_of_toNat_eq ?_
          rw [toNat_umin, min_eq_left (BitVec.le_def.mp havail)]
        simp only [htaken]
        refine Ends.bind (Ends.modify (Q := fun _ s => Funds E payer rate (T - fee.toNat) s ∧
          (fee.toNat ≤ T ∧ c.burnRateBps ≤ 10000#64)) fun s hs => ?_) fun _ => ?_
        · obtain ⟨⟨⟨hfunds, hle⟩, hrate⟩, hload⟩ := hs
          subst hpayer
          obtain ⟨hfee, hpaid⟩ := hfunds.payFee hle hT hload havail
          exact ⟨hpaid, hfee, hrate⟩
        by_cases hrate : fee.toNat ≤ T ∧ c.burnRateBps ≤ 10000#64
        · have hshare := treasuryAmount_le c fee hrate.2
          refine Ends.bind (((creditTreasury_funds (by omega)).pre fun _ hs => hs.1)) fun credit => ?_
          refine Ends.bind (emit_funds _) fun _ => Ends.pure fun s hs => ⟨?_, hcap⟩
          rw [hs.total_eq]
          dsimp only
          omega
        · exact fun s _ _ hs => absurd hs.2 hrate
    · next hnone =>
        refine fun s _ _ hs => ?_
        obtain ⟨a, ha⟩ := hs.1.1.1.payer_exists
        refine absurd ?_ (hnone a)
        rw [← hs.2, ← hpayer, hs.1.1.1.wellFormed.loadAccount_eq, ha]
  · refine Ends.pure fun s ⟨⟨hfunds, hle⟩, _⟩ => ⟨?_, Nat.zero_le _⟩
    have h0 : reserved.toNat = 0 := by
      rw [not_or, BitVec.lt_def] at hzero
      simpa using hzero.1
    rw [hfunds.total_eq, h0]
    rfl

/-! ## Nonces and failures -/

theorem Funds.setNonce {σ : Type} [StateStore σ] {s : σ}
    (h : Funds E payer rate T s) (hload : loadAccount E id s = .ok (some a)) (nonce : U64) :
    Funds E payer rate T (putAccount E { a with nonce := nonce } s) := by
  obtain ⟨hid, hacct, -⟩ := h.load hload
  refine h.save ?_
  change T + balanceIn E (entries s) a.id = T + a.balance.toNat
  rw [balanceIn, hid, hacct]
  rfl

theorem consumeNonce_funds {σ : Type} [StateStore σ] (id : AccountId) (nonce : U64) :
    Keeps (Funds E payer rate T) (consumeNonce E id nonce : Prog σ _ _) fun _ => True :=
  consumeNonce_keeps fun _ _ hs hload _ _ => hs.setNonce hload _

/-- A failed operation pays out of the sender's balance, to nobody. -/
theorem chargeFailure_funds {gasUsed : U64}
    (hfix : X.feeFixHeight ≤ height) :
    Ends (Funds E payer rate T)
      (chargeFailure E X op height gasUsed : Prog (OverlayStore base) Empty U128) fun fee o =>
        totalBalance E (entries o) + fee.toNat = T ∧
          fee.toNat ≤ op.maxFee.toNat := by
  have hcap : (cappedFee X op height X.feeConfig gasUsed).toNat ≤ op.maxFee.toNat :=
    cappedFee_le hfix X.feeConfig gasUsed
  refine Ends.bind (consumeNonce_funds _ _).attempt.ends fun _ => ?_
  refine Ends.ite (fun _ => ?_) fun _ => Ends.pure fun o ho => ⟨ho.total_eq, Nat.zero_le _⟩
  refine Ends.bind (attemptRequire_ends _) fun r => ?_
  cases r with
  | error e => exact Ends.pure fun o ho => ⟨ho.1.total_eq, Nat.zero_le _⟩
  | ok acct =>
    generalize cappedFee X op height X.feeConfig gasUsed = fee at hcap
    refine Ends.bind (Ends.modify (Q := fun _ o => Funds E payer rate
      (T - (umin acct.balance fee).toNat) o ∧ (umin acct.balance fee).toNat ≤ T)
        fun o ho => ?_) fun _ => Ends.pure fun o ho => ?_
    · have hload := ho.2.1 acct rfl
      obtain ⟨-, -, hbal⟩ := ho.1.load hload
      rw [toNat_umin]
      refine ⟨ho.1.saveLoaded hload ?_ acct.authMethods, by omega⟩
      rw [toNat_satSub]
      omega
    · refine ⟨by rw [ho.1.total_eq]; omega, ?_⟩
      rw [toNat_umin]
      omega

end Fees

/-! ## Operations -/

section Operation

variable {base : Store} {E : Platform} {X : BlockExecutor} {op : UserOperation} {height : Nat}
  {rate : Option Bytes} {T : Nat}

theorem commitSessionCharge_total {prepared : PreparedOp} (hp : prepared.ChargesSession)
    (o : OverlayStore base) :
    totalBalance E (commitSessionCharge prepared.sessionCharge o).entries =
      totalBalance E o.entries := by
  unfold commitSessionCharge
  split
  · next key total hcharge =>
      rw [OverlayStore.entries_put, totalBalance_insert_of_notAccountKey _ (hp key total hcharge)]
  · rfl

theorem executePrepared_conserves {prepared : PreparedOp} {o : OverlayStore base}
    (hp : prepared.ChargesSession) (ho : Funds E op.sender rate T o) (hT : T < 2 ^ 128)
    (hfix : X.feeFixHeight ≤ height) (hdeploy : ∀ code salt, .deploy code salt ∉ op.actions)
    (hburn : ∀ s : ExecState base, (entries s)[burnRateKey]? = rate →
      (effectiveFeeConfig X s).burnRateBps ≤ 10000#64)
    (hsys : ∀ t ∈ (executePrepared E X op height prepared o).calls,
      System.isSystemContract t = false) :
    totalBalance E (executePrepared E X op height prepared o).store.entries +
        (executePrepared E X op height prepared o).feePaid.toNat =
      T + (executePrepared E X op height prepared o).treasuryCredit.toNat ∧
    (executePrepared E X op height prepared o).feePaid ≤ op.maxFee := by
  unfold executePrepared at hsys ⊢
  rcases hrun : (reserveAndRun E op height prepared.subcallPolicy).run { store := o } with ⟨r, s⟩
  rw [hrun] at hsys
  cases r with
  | error msg =>
    have hback : Funds E op.sender rate T (s.store.restoreSavepoint o.savepoint) :=
      ho.of_entries (OverlayStore.entries_restoreSavepoint o s.store)
    rcases hcharge : (chargeFailure E X op height s.gasUsed).run
      (s.store.restoreSavepoint o.savepoint) with ⟨fee, o'⟩
    cases fee with
    | error e => exact e.elim
    | ok fee =>
      simp only [failOperation, hcharge]
      exact chargeFailure_funds hfix _ _ _ hback hcharge
  | ok reserved =>
    obtain ⟨r, s₁, hreserve, hrun⟩ := run_bind_eq_ok.mp hrun
    obtain ⟨u, s₂, hactions, hrun⟩ := run_bind_eq_ok.mp hrun
    cases hrun
    have hstart : Funds E op.sender rate T ({ store := o } : ExecState base) :=
      ho.of_entries rfl
    obtain ⟨hreserved, hle⟩ := reserveFee_funds _ _ _ hstart hreserve
    have hfunds : Funds E op.sender rate (T - reserved.toNat) s := by
      refine (operationActions_fundsOr (Nat.lt_of_le_of_lt (Nat.sub_le _ _) hT) _ _ _ _ _
        hdeploy _ _ _ (.inr hreserved) hactions).resolve_left fun ⟨t, ht, htrue⟩ => ?_
      rw [hsys t ht] at htrue
      cases htrue
    rcases hsettle : (settleFees E X op height reserved : Prog _ Empty _).run s with ⟨fees, s₃⟩
    cases fees with
    | error e => exact e.elim
    | ok fees =>
      obtain ⟨htotal, hfee⟩ :=
        settleFees_funds rfl hfix hT hburn _ _ _ ⟨hfunds, hle⟩ hsettle
      simp only [finishOperation, hsettle, commitSessionCharge_total hp]
      exact ⟨htotal, hfee⟩

/-- An operation without deployments and system calls keeps the total of all
balances, except for the part of the fee that is burned. -/
theorem value_conserved (X : BlockExecutor) (o : OverlayStore base) (op : UserOperation)
    (height : Nat) (hwf : WellFormed E o.entries)
    (hfix : X.feeFixHeight ≤ height)
    (hburn : (effectiveFeeConfig X { store := o }).burnRateBps ≤ 10000#64)
    (huser : isSystemAuthorized op = false)
    (hdeploy : ∀ code salt, .deploy code salt ∉ op.actions)
    (hsys : ∀ t ∈ (executeOperation E X o op height).calls, System.isSystemContract t = false)
    (htotal : totalBalance E o.entries < 2 ^ 128) :
    totalBalance E (executeOperation E X o op height).store.entries +
        (executeOperation E X o op height).feePaid.toNat =
      totalBalance E o.entries + (executeOperation E X o op height).treasuryCredit.toNat ∧
    (executeOperation E X o op height).feePaid ≤ op.maxFee := by
  have hzero : (0#128) ≤ op.maxFee := by
    rw [BitVec.le_def]
    exact Nat.zero_le _
  rcases executeOperation_cases E X o op height with ⟨msg, hrefused⟩ | ⟨prepared, o', hval, hexec⟩
  · rw [hrefused]
    exact ⟨rfl, hzero⟩
  rw [hexec] at hsys ⊢
  obtain ⟨a, hload, -, -, rfl⟩ := validateAndPrepare_eq_ok huser hval
  have hstart : Funds E op.sender o.entries[burnRateKey]? (totalBalance E o.entries) o :=
    ⟨hwf, rfl, ⟨a, account?_of_loadAccount hload⟩, rfl⟩
  refine executePrepared_conserves (validateAndPrepare_charges op height hval)
    (hstart.setNonce hload _) htotal hfix hdeploy (fun s hs => ?_) hsys
  have hconfig : effectiveFeeConfig X s = effectiveFeeConfig X { store := o } :=
    effectiveFeeConfig_congr hs
  rw [hconfig]
  exact hburn

/-! ## A transfer -/

/-- A transfer signed by its sender, with a maximum fee of 30000. -/
def signedTransfer (sender dest : AccountId) (amount : U128) : UserOperation :=
  signWith sender 0#64
    { sender := sender
      nonce := 0#64
      actions := [.transfer dest amount]
      maxFee := 30000#128
      signature := [] }

/-- `alice`, who can pay for a transfer, and the treasury. -/
def payerStore : Store :=
  accountStore concretePlatform
    [keyAccount alice 100000#128, keyAccount feeTreasuryAddress 7#128]

/-- The transfer costs 25100, of which the treasury gets one half. -/
theorem value_conserved_signedTransfer :
    let o := OverlayStore.new payerStore
    let outcome := executeOperation concretePlatform { feeFixHeight := 0 } o
      (signedTransfer alice bob 10#128) 1
    outcome.receipt.success = true ∧ outcome.feePaid = 25100#128 ∧
      outcome.treasuryCredit = 12550#128 ∧
      balanceIn concretePlatform outcome.store.entries bob = 10 ∧
      balanceIn concretePlatform outcome.store.entries feeTreasuryAddress = 12557 ∧
      totalBalance concretePlatform o.entries = 100007 ∧
      totalBalance concretePlatform outcome.store.entries + outcome.feePaid.toNat =
        totalBalance concretePlatform o.entries + outcome.treasuryCredit.toNat := by
  have hwf : WellFormed concretePlatform (OverlayStore.new payerStore).entries := by
    rw [OverlayStore.entries_new]
    exact wellFormed_accountStore _ _
  have hcalls : (executeOperation concretePlatform { feeFixHeight := 0 }
      (OverlayStore.new payerStore) (signedTransfer alice bob 10#128) 1).calls = [] := by
    decide +kernel
  have h := (value_conserved { feeFixHeight := 0 } (OverlayStore.new payerStore)
    (signedTransfer alice bob 10#128) 1 hwf (Nat.zero_le _) (by decide +kernel) rfl
    (fun code salt hmem => by cases List.mem_singleton.mp hmem)
    (fun t ht => by rw [hcalls] at ht; cases ht) (by decide +kernel)).1
  exact ⟨by decide +kernel, by decide +kernel, by decide +kernel, by decide +kernel,
    by decide +kernel, by decide +kernel, h⟩

end Operation

/-! ## Deployments -/

section Deploy

variable {base : Store} {E : Platform}

/-- What all accounts hold together, and what one of them holds. -/
def Holds (E : Platform) (id : AccountId) (total held : Nat) (s : ExecState base) : Prop :=
  totalBalance E (entries s) = total ∧ balanceIn E (entries s) id = held

theorem storeBytecode_holds (code : Bytes) :
    Ends (Holds E id T b) (onState (storeBytecode E code) : ExecM base Hash)
      fun h s => Holds E id T b s ∧ h = E.blake3 code := by
  refine Ends.mapError (Ends.bind (Ends.modify (Q := fun _ => Holds E id T b) ?_) fun _ =>
    Ends.pure fun s hs => ⟨hs, rfl⟩)
  rintro s ⟨hT, hb⟩
  have hkey := notAccountKey_bytecodeKey (E.blake3 code)
  refine ⟨?_, ?_⟩
  · rw [StateStore.entries_put, totalBalance_insert_of_notAccountKey _ hkey, hT]
  · rw [StateStore.entries_put, balanceIn, account?_insert_of_notAccountKey hkey]
    exact hb

theorem checkDeployAddress_holds (newId : AccountId) :
    Ends (Holds E id T b) (checkDeployAddress E newId : ExecM base Unit)
      fun _ => Holds E id T b := by
  refine Ends.bind (attemptGet_ends newId) fun r => ?_
  split
  · exact Ends.bind (Ends.modify (Q := fun _ => Holds E id T b) fun s hs => hs.1) fun _ =>
      Ends.stopIf fun s hs _ => hs
  · exact Ends.pure fun s hs => hs.1

/-- The new record has no balance, whatever the old one had. -/
theorem createContract_holds (sender newId : AccountId) (codeHash : Hash) :
    Ends (Holds E newId T b) (createContract E sender newId codeHash : ExecM base U64)
      fun _ => Holds E newId (T - b) 0 := by
  refine Ends.bind (attemptGet_ends sender) fun owner =>
    Ends.bind (Q := fun _ => Holds E newId (T - b) 0) (Ends.modify ?_) fun _ =>
    Ends.bind (Ends.modify (Q := fun _ => Holds E newId (T - b) 0) fun s hs => hs) fun _ =>
    Ends.pure fun s hs => hs
  rintro s ⟨⟨hT, hb⟩, -⟩
  generalize hnew : ({ emptyAccount newId with codeHash := codeHash, authMethods := _ } : Account) = a
  have hid : a.id = newId := by rw [← hnew]; rfl
  have hzero : a.balance = 0#128 := by rw [← hnew]; rfl
  refine ⟨?_, ?_⟩
  · have hsum := totalBalance_insert_account (E := E) (entries s) a
    rw [hT, hid, hb, hzero] at hsum
    rw [entries_putAccount, hid]
    exact Nat.eq_sub_of_add_eq hsum
  · rw [balanceIn, account?_putAccount, hid, if_pos rfl, Option.map_some, hzero]
    rfl

theorem deployAction_holds (sender : AccountId) (code : Bytes) (salt : Hash) :
    Ends (Holds E (deployAddress E sender salt (E.blake3 code)) T b)
      (deployAction E sender code salt : ExecM base U64)
      fun _ => Holds E (deployAddress E sender salt (E.blake3 code)) (T - b) 0 := by
  refine Ends.bind (Ends.stopIf (Q := fun _ => Holds E _ T b) fun s hs _ => hs) fun _ => ?_
  refine Ends.bind (storeBytecode_holds code) fun h => ?_
  rintro s gas s' ⟨hs, rfl⟩ hrun
  exact Ends.bind (checkDeployAddress_holds _) (fun _ => createContract_holds _ _ _) s gas s' hs
    hrun

/-- A deployment keeps what its address holds, and with it the total, only
where the address holds nothing. -/
theorem deploy_keeps_funds_iff (height : Nat) (policy : Option SubcallPolicy)
    (sender : AccountId) (msgValue : U128) (code : Bytes) (salt : Hash)
    (s s' : ExecState base) (gas : U64)
    (hrun : (executeAction E height policy sender msgValue (.deploy code salt)).run s =
      (.ok gas, s')) :
    (balanceIn E s'.store.entries (deployAddress E sender salt (E.blake3 code)) =
          balanceIn E s.store.entries (deployAddress E sender salt (E.blake3 code)) ∧
        totalBalance E s.store.entries ≤ totalBalance E s'.store.entries) ↔
      balanceIn E s.store.entries (deployAddress E sender salt (E.blake3 code)) = 0 := by
  obtain ⟨htotal, hzero⟩ := deployAction_holds sender code salt s gas s' ⟨rfl, rfl⟩ hrun
  change totalBalance E s'.store.entries =
    totalBalance E s.store.entries - balanceIn E s.store.entries _ at htotal
  change balanceIn E s'.store.entries _ = 0 at hzero
  rw [hzero, htotal]
  constructor
  · rintro ⟨hkept, -⟩
    exact hkept.symm
  · intro hnone
    rw [hnone]
    exact ⟨rfl, Nat.le_refl _⟩

/-- The address of a contract of Alice. -/
def childAddress : AccountId := deployAddress plainPlatform alice Hash.zero (checksum [0])

def payChild : UserOperation :=
  signWith alice 0#64 ⟨alice, 0#64, [.transfer childAddress 500#128], 30000#128, []⟩

def deployChild : UserOperation :=
  signWith alice 0#64 ⟨alice, 1#64, [.deploy [0] Hash.zero], 30000#128, []⟩

/-- After a block with the payment. -/
def childPaid : BlockResult × Store :=
  executeBlockWithHeight plainPlatform {} (plainStore [(alice, 100000#128)]) [payChild] 1

theorem deploy_keeps_funds_iff_child :
    let s : ExecState childPaid.2 := { store := OverlayStore.new childPaid.2 }
    let r := (executeAction plainPlatform 2 none alice 0#128 (.deploy [0] Hash.zero)).run s
    r.1.toOption = some deployBaseGas ∧
      ¬ (balanceIn plainPlatform r.2.store.entries childAddress =
          balanceIn plainPlatform s.store.entries childAddress ∧
        totalBalance plainPlatform s.store.entries ≤
          totalBalance plainPlatform r.2.store.entries) := by
  intro s r
  have hgas : r.1.toOption = some deployBaseGas := by decide +kernel
  refine ⟨hgas, fun hkept => ?_⟩
  have hrun : r = (.ok deployBaseGas, r.2) := by
    rcases r with ⟨_ | gas, s'⟩
    · cases hgas
    · cases hgas
      rfl
  have hzero := (deploy_keeps_funds_iff 2 none alice 0#128 [0] Hash.zero s r.2 deployBaseGas
    hrun).mp hkept
  exact absurd hzero (by decide +kernel)

/-- Alice pays her contract's address and then deploys it: what she paid is
gone. -/
theorem deploy_loses_funds :
    let deployed := executeBlockWithHeight plainPlatform {} childPaid.2 [deployChild] 2
    childPaid.1.receipts.map (·.success) = [true] ∧
      deployed.1.receipts.map (·.success) = [true] ∧
      balanceIn plainPlatform childPaid.2 childAddress = 500 ∧
      balanceIn plainPlatform deployed.2 childAddress = 0 := by
  decide +kernel

end Deploy

end Solen
