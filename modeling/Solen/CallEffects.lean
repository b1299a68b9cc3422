import Solen.VmRuns

/-!
# What a contract call changes

A contract reaches no further than its own storage and the balances of
accounts: a whole tree of calls without system contracts writes to the
storage of the contracts it calls, pays accounts, and creates accounts for
those who are paid and have none (`contractCall_frame`). Code, nonces,
authentication methods and every record of the system stay as they are,
whatever the virtual machine returns.
-/

namespace Solen

open Machine Prog

variable {base : Store} {E : Platform}

/-! ## The relation -/

/-- Every account that can be read carries the identifier it is stored
under. -/
def Named (E : Platform) (s : ExecState base) : Prop :=
  ∀ id a, loadAccount E id s = .ok (some a) → a.id = id

theorem WellFormed.named {s : ExecState base} (h : WellFormed E (StateStore.entries s)) :
    Named E s :=
  fun _ _ ha => h.id_eq (account?_of_loadAccount ha)

/-- From `s₀` to `s`, contracts in `Called` have written to their storage, and
accounts have been paid, where new ones belong to `Paid`. -/
structure Reaches (E : Platform) (Called Paid : AccountId → Prop) (s₀ s : ExecState base) :
    Prop where
  other : ∀ k, (∀ id, k ≠ accountKey id) → (∀ id, Called id → ¬StorageOf id k) →
    StateStore.get s k = StateStore.get s₀ k
  kept : ∀ id a, loadAccount E id s₀ = .ok (some a) →
    ∃ b, loadAccount E id s = .ok (some { a with balance := b })
  created : ∀ id, (∀ a, loadAccount E id s₀ ≠ .ok (some a)) →
    StateStore.get s (accountKey id) = StateStore.get s₀ (accountKey id) ∨
      Paid id ∧ ∃ b, loadAccount E id s = .ok (some { emptyAccount id with balance := b })

namespace Reaches

variable {Called Paid Called' Paid' : AccountId → Prop} {s₀ s s' : ExecState base}

theorem refl (s : ExecState base) : Reaches E Called Paid s s where
  other _ _ _ := rfl
  kept _ a ha := ⟨a.balance, ha⟩
  created _ _ := Or.inl rfl

theorem mono (h : Reaches E Called Paid s₀ s) (hcalled : ∀ id, Called id → Called' id)
    (hpaid : ∀ id, Paid id → Paid' id) : Reaches E Called' Paid' s₀ s where
  other k hk hs := h.other k hk fun id hid => hs id (hcalled id hid)
  kept := h.kept
  created id hid := (h.created id hid).imp_right fun hnew => ⟨hpaid id hnew.1, hnew.2⟩

theorem loadAccount_eq {id : AccountId}
    (h : StateStore.get s (accountKey id) = StateStore.get s₀ (accountKey id)) :
    loadAccount E id s = loadAccount E id s₀ := by
  rw [loadAccount, loadAccount, h]

theorem trans (h : Reaches E Called Paid s₀ s) (h' : Reaches E Called Paid s s') :
    Reaches E Called Paid s₀ s' where
  other k hk hs := (h'.other k hk hs).trans (h.other k hk hs)
  kept id a ha := by
    obtain ⟨b, hb⟩ := h.kept id a ha
    obtain ⟨b', hb'⟩ := h'.kept id _ hb
    exact ⟨b', hb'⟩
  created id hnone := by
    rcases h.created id hnone with hsame | ⟨hpaid, b, hb⟩
    · have hnone' : ∀ a, loadAccount E id s ≠ .ok (some a) := by
        rw [loadAccount_eq hsame]
        exact hnone
      rcases h'.created id hnone' with hsame' | hnew
      · exact Or.inl (hsame'.trans hsame)
      · exact Or.inr hnew
    · obtain ⟨b', hb'⟩ := h'.kept id _ hb
      exact Or.inr ⟨hpaid, b', hb'⟩

/-- Only the store counts, not the meters, the events and the notes. -/
theorem of_store (h : Reaches E Called Paid s₀ s) (hstore : s'.store = s.store) :
    Reaches E Called Paid s₀ s' := by
  have hget : ∀ k, StateStore.get s' k = StateStore.get s k := by
    intro k
    change StateStore.get s'.store k = StateStore.get s.store k
    rw [hstore]
  have hload : ∀ id, loadAccount E id s' = loadAccount E id s := fun id => loadAccount_eq (hget _)
  refine ⟨fun k hk hs => (hget k).trans (h.other k hk hs), fun id a ha => ?_, fun id hid => ?_⟩
  · rw [hload]
    exact h.kept id a ha
  · rw [hload, hget]
    exact h.created id hid

/-! ## What one contract does -/

theorem named (h : Reaches E Called Paid s₀ s) (hnamed : Named E s₀) : Named E s := by
  intro id a ha
  by_cases hold : ∃ a₀, loadAccount E id s₀ = .ok (some a₀)
  · obtain ⟨a₀, ha₀⟩ := hold
    obtain ⟨b, hb⟩ := h.kept id a₀ ha₀
    rw [hb] at ha
    cases ha
    exact hnamed id a₀ ha₀
  · rw [not_exists] at hold
    rcases h.created id hold with hsame | ⟨-, b, hb⟩
    · rw [loadAccount_eq hsame] at ha
      exact absurd ha (hold a)
    · rw [hb] at ha
      cases ha
      rfl

/-- The accounts that may be saved: those of `s₀` with another balance, and
new ones of those who are paid. -/
def Savable (E : Platform) (Paid : AccountId → Prop) (s₀ : ExecState base) (a : Account) : Prop :=
  (∃ a₀ b, loadAccount E a.id s₀ = .ok (some a₀) ∧ a = { a₀ with balance := b }) ∨
    (∀ a₀, loadAccount E a.id s₀ ≠ .ok (some a₀)) ∧ Paid a.id ∧
      ∃ b, a = { emptyAccount a.id with balance := b }

theorem save {a : Account} (ha : Savable E Paid s₀ a) (h : Reaches E Called Paid s₀ s) :
    Reaches E Called Paid s₀ (putAccount E a s) := by
  refine ⟨fun k hk hs => ?_, fun id a₁ ha₁ => ?_, fun id hid => ?_⟩
  · rw [putAccount, StateStore.get_put_of_ne _ _ (hk a.id).symm]
    exact h.other k hk hs
  · rw [loadAccount_putAccount]
    split
    · next heq =>
        subst heq
        rcases ha with ⟨a₀, b, ha₀, rfl⟩ | ⟨hnone, -⟩
        · rw [ha₀] at ha₁
          cases ha₁
          exact ⟨b, rfl⟩
        · exact absurd ha₁ (hnone a₁)
    · exact h.kept id a₁ ha₁
  · rw [loadAccount_putAccount]
    by_cases heq : a.id = id
    · subst heq
      rcases ha with ⟨a₀, b, ha₀, -⟩ | ⟨-, hpaid, b, hb⟩
      · exact absurd ha₀ (hid a₀)
      · refine Or.inr ⟨hpaid, b, ?_⟩
        rw [if_pos rfl, ← hb]
    · rw [if_neg heq, putAccount, StateStore.get_put_of_ne _ _ (mt accountKey_inj.mp heq)]
      exact h.created id hid

theorem savable_of_load (hnamed : Named E s₀) (h : Reaches E Called Paid s₀ s) {id : AccountId}
    {a : Account} (ha : loadAccount E id s = .ok (some a)) : Savable E Paid s₀ a := by
  have haid := h.named hnamed id a ha
  subst haid
  by_cases hold : ∃ a₀, loadAccount E a.id s₀ = .ok (some a₀)
  · obtain ⟨a₀, ha₀⟩ := hold
    obtain ⟨b, hb⟩ := h.kept a.id a₀ ha₀
    rw [ha] at hb
    cases hb
    exact Or.inl ⟨a₀, _, ha₀, rfl⟩
  · rw [not_exists] at hold
    rcases h.created a.id hold with hsame | ⟨hpaid, b, hb⟩
    · rw [loadAccount_eq hsame] at ha
      exact absurd ha (hold a)
    · rw [ha] at hb
      exact Or.inr ⟨hold, hpaid, b, Option.some.inj (Except.ok.inj hb)⟩

theorem put {contract : AccountId} {k : Bytes} (v : Bytes) (hcalled : Called contract)
    (hk : StorageOf contract k) (h : Reaches E Called Paid s₀ s) :
    Reaches E Called Paid s₀ (StateStore.put s k v) := by
  have haccount : ∀ id, accountKey id ≠ k := by
    intro id heq
    obtain ⟨key, rfl⟩ := hk
    exact (notAccountKey_contractStorageKey contract key).ne id heq.symm
  have hload : ∀ id, loadAccount E id (StateStore.put s k v) = loadAccount E id s :=
    fun id => loadAccount_eq (StateStore.get_put_of_ne _ _ (haccount id).symm)
  refine ⟨fun k' hk' hs => ?_, fun id a ha => ?_, fun id hid => ?_⟩
  · rw [StateStore.get_put_of_ne]
    · exact h.other k' hk' hs
    · rintro rfl
      exact hs contract hcalled hk
  · rw [hload]
    exact h.kept id a ha
  · rw [hload, StateStore.get_put_of_ne _ _ (haccount id).symm]
    exact h.created id hid

theorem contractFrame (hnamed : Named E s₀) {contract : AccountId} (hcalled : Called contract) :
    ContractFrame E contract (Reaches E Called Paid s₀) (Savable E Paid s₀) where
  put v hk h := h.put v hcalled hk
  save ha h := h.save ha
  load h ha := h.savable_of_load hnamed ha
  balance b ha := by
    rcases ha with ⟨a₀, b', ha₀, heq⟩ | ⟨hnone, hpaid, b', heq⟩
    · exact Or.inl ⟨a₀, b, ha₀, by rw [heq]⟩
    · refine Or.inr ⟨hnone, hpaid, b, ?_⟩
      rw [heq]
      rfl
  emit _ _ h := h.of_store rfl

theorem creatable {id : AccountId} (hpaid : Paid id) :
    Creatable E (Reaches E Called Paid s₀) (Savable E Paid s₀) id := by
  intro s h hnone
  refine Or.inr ⟨fun a ha => ?_, hpaid, 0#128, rfl⟩
  obtain ⟨b, hb⟩ := h.kept id a ha
  exact hnone _ hb

end Reaches

/-! ## What a tree of calls does -/

/-- The contracts a tree calls. -/
def InTree (tree : List TreeCall) (id : AccountId) : Prop := ∃ c ∈ tree, c.target = id

/-- The recipients of the native transfers that some runs ask for. -/
def PaidBy (runs : List VmRun) (id : AccountId) : Prop :=
  ∃ run ∈ runs, ∃ result, run.result = .ok result ∧ ∃ t ∈ result.nativeTransfers, t.dest = id

/-- One piece of a tree after the other. -/
theorem Reaches.append {tree tree' : List TreeCall} {runs runs' : List VmRun}
    {s₀ s s' : ExecState base} (h : Reaches E (InTree tree) (PaidBy runs) s₀ s)
    (h' : Reaches E (InTree tree') (PaidBy runs') s s') :
    Reaches E (InTree (tree ++ tree')) (PaidBy (runs ++ runs')) s₀ s' := by
  refine (h.mono ?_ ?_).trans (h'.mono ?_ ?_)
  · rintro id ⟨c, hc, hid⟩
    exact ⟨c, List.mem_append_left _ hc, hid⟩
  · rintro id ⟨run, hrun, hpaid⟩
    exact ⟨run, List.mem_append_left _ hrun, hpaid⟩
  · rintro id ⟨c, hc, hid⟩
    exact ⟨c, List.mem_append_right _ hc, hid⟩
  · rintro id ⟨run, hrun, hpaid⟩
    exact ⟨run, List.mem_append_right _ hrun, hpaid⟩

section

variable {height : Nat} {policy : Option SubcallPolicy}

/-- A frame that is no system call. -/
theorem Opened.reaches {caller target : AccountId} {method args : Bytes} {s : ExecState base}
    {run : Option VmRun} {outcome : Except ExecutionError (U64 × List PendingCall) × ExecState base}
    (h : Opened E caller target method args s run outcome) (hnamed : Named E s)
    (hsys : System.isSystemContract target = false) :
    Reaches E (InTree [⟨target, method⟩]) (PaidBy run.toList) s outcome.2 := by
  cases h with
  | refused e hrun => exact Reaches.refl s
  | system hsys' hrun =>
    rw [hsys] at hsys'
    cases hsys'
  | noCode _ hrun topic data => exact (Reaches.refl s).of_store rfl
  | code _ hrun hpaid hresult =>
    next r result =>
    subst hrun
    have hcontract : ContractFrame E target
        (Reaches E (InTree [⟨target, method⟩]) (PaidBy (some r).toList) s)
        (Reaches.Savable E (PaidBy (some r).toList) s) :=
      Reaches.contractFrame hnamed ⟨_, List.mem_singleton_self _, rfl⟩
    have hcommit := hcontract.commitResult fun t ht =>
      Reaches.creatable ⟨r, List.mem_singleton_self r, result, hresult, t, ht, rfl⟩
    refine (Keeps.seq hcommit (fun _ => Keeps.pure (P := fun _ => True) trivial) _ ?_).1
    exact (Reaches.refl s).of_store rfl

theorem reaches_runPending {call : PendingCall → ExecM base U64}
    {tree : PendingCall → ExecState base → List TreeCall}
    {runs : PendingCall → ExecState base → List VmRun}
    (h : ∀ p s, Named E s → (∀ c ∈ tree p s, System.isSystemContract c.target = false) →
      Reaches E (InTree (tree p s)) (PaidBy (runs p s)) s ((call p).run s).2)
    (ps : List PendingCall) (total : U64) {s : ExecState base} (hnamed : Named E s)
    (hsys : ∀ c ∈ pendingTree call tree ps s, System.isSystemContract c.target = false) :
    Reaches E (InTree (pendingTree call tree ps s)) (PaidBy (pendingRuns call runs ps s)) s
      ((runPending call ps total).run s).2 := by
  induction ps generalizing total s with
  | nil => exact Reaches.refl s
  | cons p ps ih =>
    rw [pendingTree] at hsys ⊢
    rw [pendingRuns, runPending, run_bind]
    have hfirst := h p s hnamed fun c hc => hsys c (List.mem_append_left _ hc)
    rcases hrun : (call p).run s with ⟨e | gas, s₁⟩
    · rw [hrun] at hfirst
      exact hfirst.append (Reaches.refl s₁)
    · rw [hrun] at hfirst hsys
      refine hfirst.append (ih (satAdd total gas) (hfirst.named hnamed) fun c hc => ?_)
      exact hsys c (List.mem_append_right _ hc)

/-- By induction on the frames that may still be opened. -/
theorem reaches_dispatchContractCall (left : Nat) (caller target : AccountId)
    (method args : Bytes) (msgValue : U128) {s : ExecState base} (hnamed : Named E s)
    (hsys : ∀ c ∈ callTree E height policy left caller target method args msgValue s,
      System.isSystemContract c.target = false) :
    Reaches E (InTree (callTree E height policy left caller target method args msgValue s))
      (PaidBy (vmRuns E height policy left caller target method args msgValue s)) s
      ((dispatchContractCall E height policy left caller target method args msgValue).run s).2 := by
  induction left generalizing caller target method args msgValue s with
  | zero => exact Reaches.refl s
  | succ left ih =>
    have hopened := opened_openCall E height policy left caller target method args msgValue s
    rw [callTree] at hsys ⊢
    rw [vmRuns, dispatchContractCall_succ, run_bind]
    have htarget := hsys ⟨target, method⟩ List.mem_cons_self
    have hnote : Reaches E (InTree [⟨target, method⟩]) (PaidBy (frameRun E height policy left
        caller target method args msgValue (noteCall target s)).toList) s (noteCall target s) :=
      (Reaches.refl s).of_store rfl
    have hframe := hnote.trans (hopened.reaches (hnote.named hnamed) htarget)
    rcases hrun : (openCall E height policy left caller target method args msgValue).run s with
      ⟨e | opened, s₁⟩
    · rw [hrun] at hframe
      exact hframe.append (Reaches.refl s₁)
    · rw [hrun] at hframe hsys
      refine hframe.append (reaches_runPending (fun p s hs hp => ih target p.target p.method p.args
        0#128 hs hp) opened.2 opened.1 (hframe.named hnamed) fun c hc => ?_)
      exact hsys c (List.mem_cons_of_mem _ hc)

end

/-- A tree of contract calls without system contracts writes to nothing but
the storage of the contracts it calls and account records; it leaves of
each account all but the balance, and creates accounts for the recipients
of its native transfers only. -/
theorem contractCall_frame (E : Platform) (height : Nat) (policy : Option SubcallPolicy)
    (left : Nat) (caller target : AccountId) (method args : Bytes) (msgValue : U128)
    (s : ExecState base) (hwf : WellFormed E (StateStore.entries s))
    (hsys : ∀ c ∈ callTree E height policy left caller target method args msgValue s,
      System.isSystemContract c.target = false) :
    ∃ r s', (dispatchContractCall E height policy left caller target method args msgValue).run s =
        (r, s') ∧
      (∀ k, StateStore.get s' k ≠ StateStore.get s k →
        (∃ c ∈ callTree E height policy left caller target method args msgValue s,
          ∃ key, k = contractStorageKey c.target key) ∨ ∃ id, k = accountKey id) ∧
      (∀ id a, loadAccount E id s = .ok (some a) →
        ∃ b, loadAccount E id s' = .ok (some { a with balance := b })) ∧
      ∀ id a, StateStore.get s (accountKey id) = none → loadAccount E id s' = .ok (some a) →
        a.nonce = 0#64 ∧ a.codeHash = Hash.zero ∧
          ∃ run ∈ vmRuns E height policy left caller target method args msgValue s,
            ∃ result, run.result = .ok result ∧ ∃ t ∈ result.nativeTransfers, t.dest = id := by
  have hreach := reaches_dispatchContractCall left caller target method args msgValue hwf.named hsys
  rcases hrun : (dispatchContractCall E height policy left caller target method args msgValue).run
    s with ⟨r, s'⟩
  rw [hrun] at hreach
  refine ⟨r, s', rfl, fun k hk => ?_, hreach.kept, fun id a hnone ha => ?_⟩
  · by_contra hother
    obtain ⟨hstorage, haccount⟩ := not_or.mp hother
    refine hk (hreach.other k (fun id hid => haccount ⟨id, hid⟩) fun id hid hkey => hstorage ?_)
    obtain ⟨c, hc, hcid⟩ := hid
    obtain ⟨key, rfl⟩ := hkey
    exact ⟨c, hc, key, by rw [hcid]⟩
  · have hload : loadAccount E id s = .ok none := by
      rw [loadAccount, hnone]
    have hno : ∀ a, loadAccount E id s ≠ .ok (some a) := by
      intro a h
      cases hload.symm.trans h
    rcases hreach.created id hno with hsame | ⟨hpaid, b, hb⟩
    · rw [Reaches.loadAccount_eq hsame, hload] at ha
      cases ha
    · rw [hb] at ha
      cases ha
      exact ⟨rfl, rfl, hpaid⟩

/-- The teller writes, pays bob, who has no account, and has the keeper
called, who writes too. -/
theorem contractCall_frame_teller :
    let s : ExecState (contractStore (keyAccount alice 50#128)) :=
      { store := OverlayStore.new (contractStore (keyAccount alice 50#128))
        fuelBudget := maxCallTreeFuel }
    let call := dispatchContractCall contractPlatform 1 none (maxCallDepth + 1) alice teller [7] []
      0#128
    let tree := callTree contractPlatform 1 none (maxCallDepth + 1) alice teller [7] [] 0#128 s
    tree = [⟨teller, [7]⟩, ⟨keeper, ascii "note"⟩] ∧ (call.run s).1 = .ok 1020#64 ∧
      (∀ k, StateStore.get (call.run s).2 k ≠ StateStore.get s k →
        (∃ c ∈ tree, ∃ key, k = contractStorageKey c.target key) ∨ ∃ id, k = accountKey id) ∧
      StateStore.get (call.run s).2 (contractStorageKey keeper [1]) = some [2] ∧
      (∃ b, loadAccount contractPlatform teller (call.run s).2 =
        .ok (some { emptyAccount teller with codeHash := checksum [1], balance := b })) ∧
      loadAccount contractPlatform bob (call.run s).2 =
        .ok (some { emptyAccount bob with balance := 5#128 }) ∧
      ∃ run ∈ vmRuns contractPlatform 1 none (maxCallDepth + 1) alice teller [7] [] 0#128 s,
        ∃ result, run.result = .ok result ∧ ∃ t ∈ result.nativeTransfers, t.dest = bob := by
  intro s call tree
  have htree : tree = [⟨teller, [7]⟩, ⟨keeper, ascii "note"⟩] := by decide +kernel
  have hbob : loadAccount contractPlatform bob (call.run s).2 =
      .ok (some { emptyAccount bob with balance := 5#128 }) := by decide +kernel
  obtain ⟨r, s', hrun, hother, hkept, hcreated⟩ := contractCall_frame contractPlatform 1 none
    (maxCallDepth + 1) alice teller [7] [] 0#128 s (wellFormed_contractStore _) (by
      intro c hc
      rw [show callTree _ _ _ _ _ _ _ _ _ s = tree from rfl, htree] at hc
      revert c
      decide)
  have hend : (call.run s).2 = s' := congrArg Prod.snd hrun
  rw [hend] at hbob ⊢
  obtain ⟨-, -, hpaid⟩ := hcreated bob _ (by decide +kernel) hbob
  refine ⟨htree, by decide +kernel, hother, ?_, ?_, hbob, hpaid⟩
  · rw [← hend]
    decide +kernel
  · exact hkept teller { emptyAccount teller with codeHash := checksum [1], balance := 20#128 }
      (by decide +kernel)

end Solen
