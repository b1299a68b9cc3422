import Solen.ExecFrame

/-!
# How far a balance can fall

The owner of a session key watches one balance. This file bounds from
below what a system call, a contract call or an action leaves of it.
`Floor` says that at least `n` is left; credits, the moves of other
accounts and writes to other records keep it, and a debit of the owner
lowers `n` by its amount.

What a call debits from its sender is read off the arguments by
`callDebit`, at the offsets where the contract itself reads them.
-/

namespace Solen

open Machine Prog

variable {a : Account} {id target : AccountId} {k : Bytes} {d : Nat} {method : String}

/-! ## Debits -/

/-- The amount at an offset of the arguments, 0 if they end before. -/
def amountAt (args : Bytes) (offset : Nat) : Nat := ((readU128 args offset).getD 0#128).toNat

/-- The sum of `n` transfers, each a recipient and an amount. -/
def transferTotal : Nat → Bytes → Nat
  | 0, _ => 0
  | n + 1, bs => amountAt bs 32 + transferTotal n (bs.drop 48)

def stakingDebit (method : String) (args : Bytes) : Nat :=
  match method with
  | "register" => amountAt args 0
  | "delegate" => amountAt args 32
  | _ => 0

def governanceDebit (method : String) : Nat :=
  if isProposalMethod method then proposalDeposit.toNat else 0

def bridgeDebit (method : String) (args : Bytes) : Nat :=
  match method with
  | "deposit" => amountAt args 8
  | "bridge_to_base" => amountAt args 20
  | "register_rollup" => rollupDeposit.toNat
  | _ => 0

def intentDebit (method : String) (args : Bytes) : Nat :=
  match method with
  | "fulfill" => transferTotal ((readU32 args 56).getD 0) (args.drop 60) + amountAt args 40
  | _ => 0

/-- The most that a call to a system contract takes from its sender. -/
def callDebit (target : AccountId) (method : String) (args : Bytes) : Nat :=
  if target = System.stakingAddress then stakingDebit method args
  else if target = System.governanceAddress then governanceDebit method
  else if target = System.bridgeAddress then bridgeDebit method args
  else if target = System.intentAddress then intentDebit method args
  else 0

/-! ## The floor -/

/-- The account that is watched, and the record of what one of its session
keys has spent. -/
structure Watched where
  owner : AccountId
  sessionKey : Hash
  spent : Option Bytes

/-- A key under which neither accounts nor session ledgers are stored. -/
def PlainKey (k : Bytes) : Prop := k.head? ≠ some 97 ∧ k.head? ≠ some 115

instance (k : Bytes) : Decidable (PlainKey k) :=
  inferInstanceAs (Decidable (_ ∧ _))

theorem head?_accountKey (id : AccountId) : (accountKey id).head? = some 97 := by
  simp [accountKey, ascii]

theorem head?_sessionSpentKey (owner : AccountId) (key : Hash) :
    (sessionSpentKey owner key).head? = some 115 := by
  simp [sessionSpentKey, ascii]

theorem PlainKey.notAccountKey (h : PlainKey k) : NotAccountKey k := by
  intro hk
  refine h.1 ?_
  have hhead := congrArg List.head? hk
  rw [List.head?_take, if_neg (by decide)] at hhead
  rw [hhead]
  rfl

theorem PlainKey.ne_sessionSpentKey (h : PlainKey k) (owner : AccountId)
    (key : Hash) : k ≠ sessionSpentKey owner key := by
  rintro rfl
  exact h.2 (head?_sessionSpentKey owner key)

theorem CallWrites.plainKey
    (h : CallWrites method target k) : PlainKey k := by
  rcases h.head?_key with hk | hk <;> exact ⟨by rw [hk]; decide, by rw [hk]; decide⟩

theorem plainKey_contractStorageKey (id : AccountId) (k : Bytes) :
    PlainKey (contractStorageKey id k) := by
  have hhead : (contractStorageKey id k).head? = some 99 := by
    simp [contractStorageKey, contractStoragePrefix, ascii]
  exact ⟨by rw [hhead]; decide, by rw [hhead]; decide⟩

/-- Accounts are well-formed, the watched account exists, has no code and at
least `n`, and its ledger entry is as it was. -/
structure Floor {σ : Type} [StateStore σ] (E : Platform) (W : Watched) (n : Nat) (s : σ) :
    Prop where
  wellFormed : WellFormed E (StateStore.entries s)
  funded : ∃ a, account? E (StateStore.entries s) W.owner = some a ∧ n ≤ a.balance.toNat ∧
    a.codeHash = Hash.zero
  ledger : (StateStore.entries s)[sessionSpentKey W.owner W.sessionKey]? = W.spent

/-- What the owner pays when `sender` is charged `amount`. -/
def Watched.share (W : Watched) (sender : AccountId) (amount : Nat) : Nat :=
  if sender = W.owner then amount else 0

/-- An account that may be saved at the floor `n`. -/
def Watched.Allows (W : Watched) (n : Nat) (a : Account) : Prop :=
  a.id = W.owner → n ≤ a.balance.toNat ∧ a.codeHash = Hash.zero

namespace Floor

variable {σ : Type} [StateStore σ] {E : Platform} {W : Watched} {n : Nat} {s : σ}

theorem of_entries {τ : Type} [StateStore τ] {t : τ} (h : Floor E W n s)
    (heq : StateStore.entries t = StateStore.entries s) : Floor E W n t :=
  ⟨heq ▸ h.wellFormed, heq ▸ h.funded, heq ▸ h.ledger⟩

theorem mono {n' : Nat} (h : Floor E W n s) (hle : n' ≤ n) : Floor E W n' s := by
  obtain ⟨a, ha, hn, hcode⟩ := h.funded
  exact ⟨h.wellFormed, ⟨a, ha, hle.trans hn, hcode⟩, h.ledger⟩

theorem put (v : Bytes) (hk : PlainKey k) (h : Floor E W n s) :
    Floor E W n (StateStore.put s k v) where
  wellFormed := by
    rw [StateStore.entries_put]
    exact h.wellFormed.insert_of_notAccountKey hk.notAccountKey v
  funded := by
    rw [StateStore.entries_put, account?_insert_of_notAccountKey hk.notAccountKey]
    exact h.funded
  ledger := by
    rw [StateStore.entries_put, Delta.getElem?_insert, if_neg (hk.ne_sessionSpentKey _ _)]
    exact h.ledger

theorem accountKey_ne_sessionSpentKey (id owner : AccountId) (key : Hash) :
    accountKey id ≠ sessionSpentKey owner key := by
  intro h
  have hhead := congrArg List.head? h
  rw [head?_accountKey, head?_sessionSpentKey] at hhead
  exact absurd hhead (by decide)

/-- Saving an account moves the floor only if it is the owner's. -/
theorem save {n' : Nat} (ha : W.Allows n' a) (hle : a.id ≠ W.owner → n' ≤ n)
    (h : Floor E W n s) : Floor E W n' (putAccount E a s) where
  wellFormed := h.wellFormed.putAccount a
  funded := by
    rw [account?_putAccount]
    split
    · next hid => exact ⟨a, rfl, ha hid⟩
    · next hid => exact (h.mono (hle hid)).funded
  ledger := by
    rw [entries_putAccount, Delta.getElem?_insert,
      if_neg (accountKey_ne_sessionSpentKey _ _ _)]
    exact h.ledger

theorem load (h : Floor E W n s)
    (hload : loadAccount E id s = .ok (some a)) : a.id = id ∧ W.Allows n a := by
  have hacct := account?_of_loadAccount hload
  have hid := h.wellFormed.id_eq hacct
  refine ⟨hid, fun howner => ?_⟩
  obtain ⟨b, hb, hrest⟩ := h.funded
  rw [← howner, hid, hacct] at hb
  cases hb
  exact hrest

/-- An account that does not exist is not the owner's. -/
theorem fresh (h : Floor E W n s)
    (hnone : ∀ a, loadAccount E id s ≠ .ok (some a)) (hid : a.id = id) :
    W.Allows n a := by
  intro howner
  obtain ⟨b, hb, -⟩ := h.funded
  rw [← howner, hid] at hb
  exact absurd (loadAccount_of_account? hb) (hnone b)

end Floor

/-! ## Account moves -/

namespace Watched.Allows

variable {W : Watched} {n : Nat} {a : Account}

theorem raise (h : W.Allows n a) {b : U128} (hle : a.balance.toNat ≤ b.toNat)
    (authMethods : List AuthMethod) :
    W.Allows n { a with balance := b, authMethods := authMethods } :=
  fun hid => ⟨(h hid).1.trans hle, (h hid).2⟩

theorem credit (h : W.Allows n a) (amount : U128) :
    W.Allows n { a with balance := satAdd a.balance amount } := by
  refine h.raise ?_ a.authMethods
  rw [toNat_satAdd]
  have := a.balance.isLt
  omega

theorem other (hne : a.id ≠ W.owner) : W.Allows n a := fun hid => absurd hid hne

end Watched.Allows

theorem toNat_sub_ge {w : Nat} (a b : BitVec w) : a.toNat - b.toNat ≤ (a - b).toNat := by
  rw [BitVec.toNat_sub]
  have ha := a.isLt
  have hb := b.isLt
  rcases Nat.lt_or_ge (2 ^ w - b.toNat + a.toNat) (2 ^ w) with h | h
  · omega
  · rw [Nat.mod_eq_sub_mod h, Nat.mod_eq_of_lt (by omega)]
    omega

/-- A debit, wrapped or not, takes at most its amount. -/
theorem Watched.Allows.debit {W : Watched} {n : Nat}
    (h : W.Allows n a) (hid : a.id = id) (amount : U128) :
    W.Allows (n - W.share id amount.toNat) { a with balance := a.balance - amount } := by
  intro howner
  refine ⟨?_, (h howner).2⟩
  rw [Watched.share, if_pos (hid.symm.trans howner)]
  exact (Nat.sub_le_sub_right (h howner).1 _).trans (toNat_sub_ge _ _)

namespace Floor

variable {σ : Type} [StateStore σ] {E : Platform} {W : Watched} {n : Nat}

section Moves

variable {ε : Type}

theorem write {v : Bytes} (hk : PlainKey k) :
    Keeps (Floor E W n) (modify fun s => StateStore.put s k v : Prog σ ε Unit) fun _ => True :=
  Keeps.modify fun _ hs => hs.put v hk

theorem saveAccount (h : W.Allows n a) :
    Keeps (Floor E W n) (saveAccount E a : Prog σ ε Unit) fun _ => True :=
  Keeps.modify fun _ hs => hs.save h fun _ => le_rfl

theorem requireAccount (id : AccountId) :
    Keeps (Floor E W n) (requireAccount E id : Prog σ _ _) fun a => a.id = id ∧ W.Allows n a :=
  requireAccount_value fun _ _ hs hload => hs.load hload

theorem attemptGet (id : AccountId) :
    Keeps (Floor E W n) (attempt (getAccount E id) : Prog σ ε _) fun r =>
      (∀ a, r = .ok (some a) → a.id = id ∧ W.Allows n a) ∧
        ((∀ a, r ≠ .ok (some a)) → ∀ a : Account, a.id = id → W.Allows n a) :=
  attemptGet_value fun _ hs => ⟨fun _ ha => hs.load ha, fun hnone _ hid => hs.fresh hnone hid⟩

theorem attemptRequire (id : AccountId) :
    Keeps (Floor E W n) (attempt (Solen.requireAccount E id) : Prog σ ε _) fun r =>
      (∀ a, r = .ok a → a.id = id ∧ W.Allows n a) ∧
        ((∀ a, r ≠ .ok a) → ∀ a : Account, a.id = id → W.Allows n a) :=
  attemptRequire_value (fun _ _ hs hload => hs.load hload)
    fun _ hs hnone _ hid => hs.fresh hnone hid

/-- Saving the sender's account after a debit. -/
theorem saveDebited {sender : AccountId} (amount : U128)
    (ha : a.id = sender ∧ W.Allows n a) :
    Lowers (Floor E W) n (W.share sender amount.toNat)
      (Solen.saveAccount E { a with balance := a.balance - amount } : Prog σ ε Unit)
      fun _ => True :=
  fun _ hs => ⟨hs.save (ha.2.debit ha.1 amount) fun _ => Nat.sub_le _ _, fun _ _ => trivial⟩

/-! The rules for a debit, and for what stands before and after it. -/

theorem kept {α : Type} {m : Prog σ ε α} (h : Keeps (Floor E W n) m fun _ => True) (d : Nat) :
    Lowers (Floor E W) n d m fun _ => True :=
  Lowers.of_keeps (fun _ _ _ hle hs => hs.mono hle) h d

theorem after {α β : Type} {m : Prog σ ε α} {f : α → Prog σ ε β} {P : α → Prop}
    {R : β → Prop} (hm : Keeps (Floor E W n) m P)
    (hf : ∀ a, P a → Lowers (Floor E W) n d (f a) R) : Lowers (Floor E W) n d (m >>= f) R :=
  Lowers.after (fun _ _ _ hle hs => hs.mono hle) hm hf

theorem before {α β : Type} {m : Prog σ ε α} {f : α → Prog σ ε β} {R : β → Prop}
    (hm : Lowers (Floor E W) n d m fun _ => True)
    (hf : ∀ a, Keeps (Floor E W (n - d)) (f a) R) : Lowers (Floor E W) n d (m >>= f) R :=
  Lowers.before (fun _ _ _ hle hs => hs.mono hle) hm fun a _ => hf a

theorem both {α β : Type} {d' : Nat} {m : Prog σ ε α} {f : α → Prog σ ε β} {R : β → Prop}
    (hm : Lowers (Floor E W) n d m fun _ => True)
    (hf : ∀ a, Lowers (Floor E W) (n - d) d' (f a) R) :
    Lowers (Floor E W) n (d + d') (m >>= f) R :=
  Lowers.bind (fun _ _ _ hle hs => hs.mono hle) hm fun a _ => hf a

/-- A step whose value does not matter. -/
theorem skip {α β : Type} {m : Prog σ ε α} {f : α → Prog σ ε β} {R : β → Prop}
    (hm : Keeps (Floor E W n) m fun _ => True)
    (hf : ∀ a, Lowers (Floor E W) n d (f a) R) : Lowers (Floor E W) n d (m >>= f) R :=
  after hm fun a _ => hf a

end Moves

theorem debitWithReserve (sender : AccountId) (amount : U128) (msg : String) :
    Lowers (Floor E W) n (W.share sender amount.toNat) (debitWithReserve E sender amount msg : SysM σ Unit)
      fun _ => True := by
  refine after (requireAccount sender).mapError fun a ha => ?_
  exact skip Keeps.guard fun _ => saveDebited amount ha

/-! ## Staking -/

section Calls

section Vaults

variable (hvault : isVault W.owner = false)

include hvault

theorem vault_ne (h : isVault id = true) : id ≠ W.owner := by
  rintro rfl
  rw [h] at hvault
  cases hvault

/-- Whatever does not take from the owner keeps the floor. -/
theorem frame :
    SysFrame E (fun _ => True) PlainKey (W.Allows n) (fun id => id ≠ W.owner)
      (fun s s' : σ => s = s' ∧ Floor E W n s) where
  toViewFrame := ViewFrame.self
  put := fun v hk hs => ⟨by rw [hs.1], hs.2.put v hk⟩
  save := fun ha hs => ⟨by rw [hs.1], hs.2.save ha fun _ => le_rfl⟩
  load := fun hs ha => ⟨(hs.2.load ha).2, fun hne _ => .other ((hs.2.load ha).1 ▸ hne)⟩
  credit := fun amount ha => ha.credit amount
  vault := fun h => vault_ne hvault h

omit hvault in
theorem mayCreate (id : AccountId) :
    MayCreate E (W.Allows n) (fun s s' : σ => s = s' ∧ Floor E W n s) id :=
  fun _ _ hs hnone => hs.2.fresh hnone rfl

theorem creditExisting (id : AccountId) (amount : U128) :
    Keeps (Floor E W n) (creditExisting E id amount : SysM σ Unit) fun _ => True :=
  ((frame hvault).creditExisting (Q := Failed) id amount).keeps

theorem creditOrCreate (id : AccountId) (amount : U128) :
    Keeps (Floor E W n) (creditOrCreate E id amount : SysM σ Unit) fun _ => True :=
  ((frame hvault).creditOrCreate (Q := Failed) (mayCreate id) amount).keeps

omit hvault in
/-- A debit of an amount that was read from the arguments. -/
theorem amountAt_eq {args : Bytes} {offset : Nat} {amount : U128}
    (h : readU128 args offset = some amount) : amount.toNat = amountAt args offset := by
  rw [amountAt, h]
  rfl

theorem stakingRegister (sender : AccountId) (args : Bytes) :
    Lowers (Floor E W) n (W.share sender (amountAt args 0)) (stakingRegister E sender args : SysM σ _)
      fun _ => True := by
  refine after (orErr_value _ _) fun amount hamount => ?_
  rw [← amountAt_eq hamount]
  refine skip Keeps.ask fun _ => skip Keeps.guard fun _ => ?_
  refine before (debitWithReserve _ _ _) fun _ => ?_
  refine Keeps.seq Keeps.ask fun _ => Keeps.seq Keeps.ask fun _ => ?_
  exact ((frame hvault).recordStake _ _ _ _ _).keeps

theorem stakingDelegate (sender : AccountId) (args : Bytes) :
    Lowers (Floor E W) n (W.share sender (amountAt args 32)) (stakingDelegate E sender args : SysM σ _)
      fun _ => True := by
  refine skip (orErr_keeps _ _) fun _ => ?_
  refine after (orErr_value _ _) fun amount hamount => ?_
  rw [← amountAt_eq hamount]
  refine before (debitWithReserve _ _ _) fun _ => ?_
  refine Keeps.seq Keeps.ask fun _ => Keeps.seq Keeps.ask fun _ => ?_
  exact ((frame hvault).recordStake _ _ _ _ _).keeps

theorem executeStakingCall (sender : AccountId) (args : Bytes)
    (hm : method = "register" ∨ method = "delegate") :
    Lowers (Floor E W) n (W.share sender (stakingDebit method args))
      (executeStakingCall E sender method args : SysM σ _) fun _ => True := by
  refine before ?_ fun _ =>
    Keeps.done ((frame hvault).saveStaking (by decide) _).keeps
  rcases hm with rfl | rfl
  · exact stakingRegister hvault sender args
  · exact stakingDelegate hvault sender args

theorem executeGovernanceCall (sender : AccountId) (args : Bytes)
    (hm : isProposalMethod method = true) :
    Lowers (Floor E W) n (W.share sender (governanceDebit method))
      (executeGovernanceCall E sender method args : SysM σ _) fun _ => True := by
  rw [governanceDebit, if_pos hm, Solen.executeGovernanceCall, if_pos hm]
  have hkey : ∀ k, CallWrites method System.governanceAddress k → PlainKey k := fun _ h => h.plainKey
  refine before (debitWithReserve _ _ _) fun _ => Keeps.seq ?_ fun o => ?_
  · exact ((frame hvault).governanceMethod hkey (fun _ => mayCreate _) _ _ fun _ => trivial).keeps
  refine Keeps.seq ((frame hvault).saveGovernance hkey _).keeps fun _ => ?_
  split
  · exact Keeps.pure trivial
  · exact Keeps.done ((frame hvault).creditIf (Q := Failed) _ _).keeps

/-! ## Bridge -/

omit hvault in
theorem debitIfReadable (sender : AccountId) (amount : U128) (msg : String) :
    Lowers (Floor E W) n (W.share sender amount.toNat) (debitIfReadable E sender amount msg : SysM σ Unit)
      fun _ => True := by
  refine after (attemptRequire sender) fun r hr => ?_
  cases r with
  | ok a => exact skip Keeps.guard fun _ => saveDebited amount (hr.1 a rfl)
  | error e => exact kept (Keeps.pure trivial) _

theorem bridgeDeposit (sender : AccountId) (args : Bytes) :
    Lowers (Floor E W) n (W.share sender (amountAt args 8)) (bridgeDeposit E sender args : SysM σ _)
      fun _ => True := by
  refine skip (orErr_keeps _ _) fun _ => ?_
  refine after (orErr_value _ _) fun amount hamount => ?_
  rw [← amountAt_eq hamount]
  refine before (debitIfReadable _ _ _) fun _ => ?_
  refine Keeps.seq Keeps.ask fun _ => ?_
  unfold recordDeposit
  split
  · exact Keeps.pure trivial
  · exact Keeps.done (creditExisting hvault _ _)

theorem bridgeToBase (sender : AccountId) (args : Bytes) :
    Lowers (Floor E W) n (W.share sender (amountAt args 20)) (bridgeToBase E sender args : SysM σ _)
      fun _ => True := by
  refine skip Keeps.ask fun _ => skip Keeps.guard fun _ => ?_
  refine after (orErr_value _ _) fun amount hamount => ?_
  rw [← amountAt_eq hamount]
  refine skip Keeps.guard fun _ => ?_
  refine before (debitWithReserve _ _ _) fun _ => ?_
  exact Keeps.done (creditOrCreate hvault _ _)

theorem payRollupDeposit (sender : AccountId) :
    Lowers (Floor E W) n (W.share sender rollupDeposit.toNat) (payRollupDeposit E sender : SysM σ Unit)
      fun _ => True := by
  refine after (attemptRequire sender) fun r hr => ?_
  cases r with
  | ok a =>
    refine skip Keeps.guard fun _ => ?_
    exact before (saveDebited _ (hr.1 a rfl)) fun _ => creditExisting hvault _ _
  | error e => exact kept Keeps.stop _

theorem bridgeRegisterRollup (sender : AccountId) (args : Bytes) :
    Lowers (Floor E W) n (W.share sender rollupDeposit.toNat) (bridgeRegisterRollup E sender args : SysM σ _)
      fun _ => True := by
  refine skip (ViewFrame.self.parseRollupArgs trivial _).keeps fun a => ?_
  refine before (payRollupDeposit hvault _) fun _ => ?_
  refine Keeps.seq Keeps.ask fun _ => Keeps.seq Keeps.ask fun _ => ?_
  split
  · refine Keeps.done (write ?_)
    exact (CallWrites.rollup (.inl rfl) _).plainKey
  · exact Keeps.done ((frame hvault).returnRollupDeposit _).keeps

theorem executeBridgeCall (sender : AccountId) (args : Bytes)
    (hm : method = "deposit" ∨ method = "bridge_to_base" ∨ method = "register_rollup") :
    Lowers (Floor E W) n (W.share sender (bridgeDebit method args))
      (executeBridgeCall E sender method args : SysM σ _) fun _ => True := by
  refine before ?_ fun _ =>
    Keeps.done ((frame hvault).saveRecord (Q := Failed) _ (by decide) _).keeps
  rcases hm with rfl | rfl | rfl
  · exact bridgeDeposit hvault _ _
  · exact bridgeToBase hvault _ _
  · exact bridgeRegisterRollup hvault _ _

/-! ## Intents -/

omit hvault [StateStore σ] in
theorem parseTransfers_total (k : Nat) (bs : Bytes) {I : σ → Prop} :
    Keeps I (parseTransfers k bs : SysM σ _) fun l =>
      (l.map fun t => t.2.toNat).sum = transferTotal k bs := by
  induction k generalizing bs with
  | zero => exact Keeps.pure rfl
  | succ k ih =>
    refine Keeps.seq Keeps.guard fun _ => Keeps.seq (orErr_keeps _ _) fun _ => ?_
    refine Keeps.bind (ih _) fun l hl => Keeps.pure ?_
    rw [List.map_cons, List.sum_cons, hl]
    rfl

omit hvault in
theorem share_add (sender : AccountId) (a b : Nat) :
    W.share sender (a + b) = W.share sender a + W.share sender b := by
  unfold Watched.share
  split <;> rfl

theorem intentTransfer (sender : AccountId) (events : List Event) (dest : AccountId)
    (amount : U128) :
    Lowers (Floor E W) n (W.share sender amount.toNat) (intentTransfer E sender events dest amount : SysM σ _)
      fun _ => True := by
  refine after (requireAccount sender).mapError fun a ha => ?_
  refine before (saveDebited amount ha) fun _ => ?_
  exact Keeps.done (creditOrCreate hvault _ _)

theorem intentTransfers (sender : AccountId) (transfers : List (AccountId × U128))
    (events : List Event) :
    Lowers (Floor E W) n (W.share sender (transfers.map fun t => t.2.toNat).sum) (intentTransfers E sender transfers events : SysM σ _)
      fun _ => True := by
  induction transfers generalizing events n with
  | nil => exact kept (Keeps.pure trivial) _
  | cons t rest ih =>
    rw [List.map_cons, List.sum_cons, share_add]
    exact both (intentTransfer hvault _ _ _ _) fun events => ih events

theorem intentTip (sender solver : AccountId) (claimedTip : U128) (events : List Event) :
    Lowers (Floor E W) n (W.share sender claimedTip.toNat) (intentTip E sender solver claimedTip events : SysM σ _)
      fun _ => True := by
  refine Lowers.ite (fun _ => ?_) fun _ => kept (Keeps.pure trivial) _
  refine after (requireAccount sender).mapError fun a ha => ?_
  refine skip Keeps.guard fun _ => ?_
  refine before (saveDebited claimedTip ha) fun _ => ?_
  exact Keeps.done (creditOrCreate hvault _ _)

theorem executeIntentCall (sender : AccountId) (args : Bytes) :
    Lowers (Floor E W) n (W.share sender (intentDebit "fulfill" args))
      (executeIntentCall E sender "fulfill" args : SysM σ _) fun _ => True := by
  change Lowers _ _ _ (intentFulfill E sender args) _
  refine skip Keeps.guard fun _ => skip (orErr_keeps _ _) fun _ => ?_
  refine skip Keeps.ask fun _ => skip Keeps.guard fun _ => ?_
  refine after (parseTransfers_total _ _) fun transfers hsum => ?_
  rw [intentDebit, ← hsum, share_add]
  refine skip ?_ fun _ => ?_
  · refine Keeps.seq (getAccount_keeps _).attempt.triv fun _ => ?_
    split
    · exact Keeps.guard
    · exact Keeps.stop
  refine both (intentTransfers hvault _ _ _) fun _ => before (intentTip hvault _ _ _ _) fun _ => ?_
  refine Keeps.seq ?_ fun _ => Keeps.pure trivial
  exact Keeps.ite (fun _ => (ViewFrame.self.checkConstraints _ _ _ _ _ _).keeps) fun _ =>
    Keeps.pure trivial

/-! ## All of them -/

theorem systemCall (sender target : AccountId) (method : String) (args : Bytes) :
    Lowers (Floor E W) n (W.share sender (callDebit target method args)) (systemCall E sender target method args : SysM σ _)
      fun _ => True := by
  by_cases hdebits : DebitsSender target method
  · rcases hdebits with ⟨rfl, hm⟩ | ⟨rfl, hm⟩ | ⟨rfl, hm⟩ | ⟨rfl, rfl⟩
    · exact executeStakingCall hvault sender args hm
    · exact executeGovernanceCall hvault sender args hm
    · exact executeBridgeCall hvault sender args hm
    · exact executeIntentCall hvault sender args
  · refine kept (SysFrame.systemCall (frame hvault) sender target method args ?_).keeps _
    exact ⟨fun _ _ => trivial, fun _ hk => hk.plainKey, fun id _ => mayCreate id,
      fun h => absurd h hdebits, fun _ _ _ _ ha => ha.raise le_rfl _⟩

/-! ## Contract calls -/

variable {base : Store} {ε : Type}

omit hvault in
theorem congr {s s' : ExecState base} (h : Floor E W n s) (hstore : s'.store = s.store) :
    Floor E W n s' :=
  h.of_entries (congrArg OverlayStore.entries hstore)

omit hvault in
theorem emit (e : Event) :
    Keeps (Floor E W n) (emit e : Prog (ExecState base) ε Unit) fun _ => True :=
  Keeps.modify fun _ hs => hs.congr rfl

omit hvault in
theorem addGas (gas : U64) :
    Keeps (Floor E W n) (addGas gas : Prog (ExecState base) ε Unit) fun _ => True :=
  Keeps.modify fun _ hs => hs.congr rfl

omit hvault in
theorem recordCall (target : AccountId) :
    Keeps (Floor E W n) (recordCall target : Prog (ExecState base) ε Unit) fun _ => True :=
  Keeps.modify fun _ hs => hs.congr rfl

theorem callSystem (sender target : AccountId) (method : String) (args : Bytes) :
    Lowers (Floor E W) n (W.share sender (callDebit target method args))
      (callSystem E sender target method args : Prog (ExecState base) ε _) fun _ => True := by
  intro s hs
  refine ⟨?_, fun _ _ => trivial⟩
  have h := (systemCall hvault sender target method args s hs).1
  rw [← executeSystemCall_state] at h
  exact h.congr rfl

/-- A contract that is not the owner does not charge the owner. -/
theorem dispatchSystemCall {caller : AccountId} (hne : caller ≠ W.owner) (target : AccountId)
    (method args : Bytes) :
    Keeps (Floor E W n) (dispatchSystemCall E caller target method args : ExecM base _)
      fun _ => True := by
  unfold Solen.dispatchSystemCall
  split
  · exact Keeps.stop
  · next m _ =>
      have hcall : Lowers (Floor E W) n (W.share caller (callDebit target m args))
          (Solen.callSystem E caller target m args : ExecM base _) fun _ => True :=
        callSystem hvault caller target m args
      rw [Watched.share, if_neg hne] at hcall
      refine Keeps.seq hcall fun r => ?_
      split
      · exact Keeps.stop
      · exact Keeps.pure trivial

omit hvault in
theorem nativeTransfer {contract : AccountId} (hne : contract ≠ W.owner) (t : NativeTransfer) :
    Keeps (Floor E W n) (nativeTransfer E contract t : ExecM base Unit) fun _ => True := by
  refine Keeps.bind (requireAccount contract).mapError fun a ha => ?_
  refine Keeps.seq Keeps.guard fun _ => Keeps.seq (saveAccount (.other (ha.1 ▸ hne))) fun _ => ?_
  refine Keeps.seq (Keeps.bind (attemptRequire t.dest) fun r hr => ?_) fun _ => emit _
  cases r with
  | ok a => exact saveAccount ((hr.1 a rfl).2.credit _)
  | error e => exact saveAccount (hr.2 nofun _ rfl)

omit hvault in
theorem saveContractStorage (contractId : AccountId) (storage : Store) :
    Keeps (Floor E W n) (saveContractStorage E contractId storage : Prog (ExecState base) _ _)
      fun _ => True := by
  refine Keeps.seq (Keeps.each fun e _ => ?_) fun _ => ?_
  · exact write (plainKey_contractStorageKey _ _)
  · exact write (plainKey_contractStorageKey _ _)

omit hvault in
theorem runContract (height : Nat) (caller : AccountId)
    (hne : target ≠ W.owner) (method args : Bytes) (msgValue : U128) (account : Account) :
    Keeps (Floor E W n)
      (runContract E height caller target method args msgValue account : ExecM base _)
      fun _ => True := by
  refine Keeps.seq Keeps.ask fun code => ?_
  cases code with
  | none => exact Keeps.stop
  | some bytecode =>
    refine Keeps.seq Keeps.ask fun _ => Keeps.seq Keeps.ask fun _ => ?_
    refine Keeps.seq Keeps.guard fun _ => ?_
    dsimp only
    split
    · exact Keeps.stop
    · exact Keeps.stop
    · refine Keeps.seq (Keeps.modify fun _ hs => hs.congr rfl) fun _ => ?_
      refine Keeps.seq (saveContractStorage _ _).mapError fun _ => ?_
      refine Keeps.seq (Keeps.each fun t _ => nativeTransfer hne t) fun _ => ?_
      exact Keeps.done (Keeps.each fun _ _ => emit _)

/-- Code runs only at accounts that have some, so never as the owner. -/
theorem dispatchContractCall (height : Nat) (policy : Option SubcallPolicy) (left : Nat)
    {caller : AccountId}
    (hcall : caller ≠ W.owner ∨ System.isSystemContract target = false) (method args : Bytes)
    (msgValue : U128) :
    Keeps (Floor E W n)
      (dispatchContractCall E height policy left caller target method args msgValue : ExecM base _)
      fun _ => True := by
  induction left generalizing caller target method args msgValue with
  | zero => exact Keeps.stop
  | succ left ih =>
    refine Keeps.seq (recordCall _) fun _ => ?_
    split
    · exact Keeps.stop
    refine Keeps.ite (fun hsys => ?_) fun _ => ?_
    · refine dispatchSystemCall hvault (hcall.resolve_right ?_) _ _ _
      rw [hsys]
      simp
    refine Keeps.bind (requireAccount target).mapError fun account ha => ?_
    refine Keeps.ite (fun _ => Keeps.done (emit _)) fun hcode => ?_
    have hne : target ≠ W.owner := fun howner => hcode (ha.2 (ha.1.trans howner)).2
    refine Keeps.seq (runContract _ _ hne _ _ _ _) fun result => ?_
    exact ActionFrame.runPending (fun p _ => ih (.inl hne) _ _ _) _

/-! ## Actions -/

omit hvault in
theorem transferReceiver (dest : AccountId) :
    Keeps (Floor E W n) (transferReceiver E dest : Prog (ExecState base) _ _)
      (W.Allows n) := by
  have hget : Keeps (Floor E W n) (getAccount E dest : Prog (ExecState base) _ _) fun o =>
      (∀ a, o = some a → W.Allows n a) ∧
        (o = none → ∀ a : Account, a.id = dest → W.Allows n a) := by
    refine Keeps.tryReads fun s hs o ho =>
      ⟨fun a ha => (hs.load (ha ▸ ho)).2, fun hnone a hid => hs.fresh (fun b hb => ?_) hid⟩
    rw [ho, hnone] at hb
    cases hb
  refine Keeps.bind hget fun o ho => ?_
  cases o with
  | some a => exact Keeps.pure (ho.1 a rfl)
  | none =>
    refine Keeps.seq Keeps.guard fun _ => Keeps.seq ?_ fun _ =>
      (requireAccount dest).mono fun _ h => h.2
    exact Keeps.done (saveAccount (ho.2 rfl _ rfl))

omit hvault in
theorem transfer (sender dest : AccountId) (amount : U128) :
    Lowers (Floor E W) n (W.share sender amount.toNat)
      (transfer E sender dest amount : Prog (ExecState base) _ _) fun _ => True := by
  refine after (requireAccount sender) fun a ha => skip Keeps.guard fun _ => ?_
  refine before (saveDebited amount ha) fun _ => ?_
  exact Keeps.bind (transferReceiver dest) fun _ hb => saveAccount (hb.credit _)

omit hvault in
theorem transferAction (sender dest : AccountId) (amount : U128) :
    Lowers (Floor E W) n (W.share sender amount.toNat)
      (transferAction E sender dest amount : ExecM base _) fun _ => True := by
  refine skip (getAccount_keeps dest).mapError fun _ => ?_
  refine before (transfer _ _ _).mapError fun _ => ?_
  exact Keeps.done (emit _)

end Vaults

end Calls

end Floor

/-- The most that an action takes from its sender, apart from code that runs
as the sender. -/
def actionDebit : Action → Nat
  | .transfer _ amount => amount.toNat
  | .call target method args =>
      if System.isSystemContract target then callDebit target method args else 0
  | _ => 0

def operationDebit (op : UserOperation) : Nat := (op.actions.map actionDebit).sum

namespace Floor

variable {base : Store} {E : Platform} {W : Watched} {n : Nat}
  (hvault : isVault W.owner = false)

include hvault

omit hvault in
theorem share_owner (d : Nat) : W.share W.owner d = d := if_pos rfl

/-- Every action that a session key may take. -/
theorem operationAction (height : Nat) (policy : Option SubcallPolicy) (msgValue : U128)
    {action : Action} (hallowed : sessionForbids action = none) :
    Lowers (Floor E W) n (actionDebit action)
      (operationAction E height policy W.owner msgValue action :
        Prog (ExecState base) String Unit) fun _ => True := by
  cases action with
  | transfer dest amount =>
    refine before (Lowers.mapError ?_) fun _ => addGas _
    rw [actionDebit, ← share_owner (W := W) amount.toNat]
    exact transferAction _ _ _
  | call target method args =>
    rw [Solen.operationAction, actionDebit]
    by_cases hsys : System.isSystemContract target = true
    · rw [if_pos hsys, if_pos hsys]
      refine skip (recordCall _) fun _ => before ?_ fun r => ?_
      · rw [← share_owner (W := W) (callDebit target method args)]
        exact callSystem hvault _ _ _ _
      · refine Keeps.seq (addGas _) fun _ => ?_
        split
        · exact Keeps.stop
        · exact Keeps.pure trivial
    · rw [if_neg hsys, if_neg hsys]
      refine kept (Keeps.seq (Keeps.mapError ?_) fun _ => addGas _) 0
      refine Keeps.seq (Keeps.modify fun _ hs => hs.congr rfl) fun _ => ?_
      exact dispatchContractCall hvault _ _ _ (.inr (by simpa using hsys)) _ _ _
  | setAuth authMethods => cases hallowed
  | deploy code salt => cases hallowed

theorem operationActions (height : Nat) (policy : Option SubcallPolicy) (actions : List Action)
    (hallowed : ∀ a ∈ actions, sessionForbids a = none) (pending : PendingTransfers) :
    Lowers (Floor E W) n (actions.map actionDebit).sum
      (operationActions E height policy W.owner actions pending :
        Prog (ExecState base) String Unit) fun _ => True := by
  induction actions generalizing n pending with
  | nil => exact kept (Keeps.pure trivial) _
  | cons action rest ih =>
    rw [List.map_cons, List.sum_cons]
    refine both (operationAction hvault _ _ _ (hallowed action List.mem_cons_self)) fun _ => ?_
    exact ih (fun a ha => hallowed a (List.mem_cons_of_mem _ ha)) _

end Floor

end Solen
