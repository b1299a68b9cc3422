import Solen.Amounts
import Solen.ReadFrame
import Solen.IntentPool

/-!
# The terms of an intent

A proposer writes the transfers of a solution and the constraints of
its intent into the arguments of `fulfill`, and the contract reads them
back by hand. Custom constraints are counted but not written, so the
loop over the constraints may run past the last one; it then stops
looking. This file shows that nothing is lost on the way: the transfers
read back are those of the solution, and a settlement that succeeds has
met every constraint that the contract knows how to check.
-/

namespace Solen

open Machine Prog

/-! ## What the constraints ask for -/

/-- What a list of transfers pays to one account. -/
def paidTo (transfers : List (AccountId × U128)) (dest : AccountId) : Nat :=
  ((transfers.filter (·.1 == dest)).map (·.2.toNat)).sum

def paidTotal (transfers : List (AccountId × U128)) : Nat := (transfers.map (·.2.toNat)).sum

/-- A settlement for `sender` meets a constraint, with `s` the state after
it. All its transfers come from the sender. Calls and custom verifiers are
not checked. -/
def Constraint.Met {σ : Type} [StateStore σ] (E : Platform) (sender : AccountId)
    (transfers : List (AccountId × U128)) (tip : U128) (s : σ) : Constraint → Prop
  | .minBalance account minAmount => minAmount.toNat ≤ balanceOf E account s
  | .maxSpend account maxAmount =>
      account = sender → paidTotal transfers + tip.toNat ≤ maxAmount.toNat
  | .requireTransfer source dest minAmount =>
      minAmount.toNat ≤ if source = sender then paidTo transfers dest else 0
  | .requireCall _ _ => True
  | .crossChainSwap inputAmount _ _ _ _ =>
      inputAmount.toNat ≤ paidTo transfers System.bridgeAddress
  | .custom _ _ => True

/-! ## Sums -/

theorem toNat_foldl_satAdd (ts : List (AccountId × U128)) (t : U128) :
    (ts.foldl (fun t e => satAdd t e.2) t).toNat =
      min (t.toNat + paidTotal ts) (2 ^ 128 - 1) := by
  induction ts generalizing t with
  | nil =>
    have := t.isLt
    simp only [List.foldl_nil, paidTotal, List.map_nil, List.sum_nil]
    omega
  | cons e ts ih =>
    rw [List.foldl_cons, ih, toNat_satAdd]
    simp only [paidTotal, List.map_cons, List.sum_cons]
    omega

theorem toNat_sumTo {ts : List (AccountId × U128)} (h : paidTotal ts < 2 ^ 128)
    (dest : AccountId) : (sumTo ts dest).toNat = paidTo ts dest := by
  have hle : paidTo ts dest ≤ paidTotal ts :=
    ((List.filter_sublist).map _).sum_le_sum fun _ _ => Nat.zero_le _
  exact toNat_foldl_add (hle.trans_lt h)

/-! ## Reading back -/

/-- An account and an amount at the front of `bs`, with `rest` behind. -/
structure Entry (account : AccountId) (amount : U128) (rest bs : Bytes) : Prop where
  long : ¬ bs.length < 48
  account : readAccountId bs 0 = some account
  amount : readU128 bs 32 = some amount
  drop : bs.drop 48 = rest

theorem Entry.append (account : AccountId) (amount : U128) (rest : Bytes) :
    Entry account amount rest (account.bytes ++ (le128 amount ++ rest)) := by
  have hacct := account.length_bytes
  have hamount : (le128 amount).length = 16 := length_toLeBytes _ _
  refine ⟨?_, readAccountId_bytes_append _ _, ?_, ?_⟩
  · simp only [List.length_append]
    omega
  · rw [readU128_append_left (by omega), hacct]
    exact readU128_le128_append _ _
  · rw [← List.append_assoc]
    exact List.drop_left' (by rw [List.length_append, hacct, hamount])

section

variable {σ : Type}

theorem parseTransfers_append (ts : List (AccountId × U128)) (rest : Bytes) :
    (parseTransfers ts.length (ts.flatMap (fun t => t.1.bytes ++ le128 t.2) ++ rest) :
      SysM σ _) = pure ts := by
  induction ts with
  | nil => rfl
  | cons t ts ih =>
    rw [List.flatMap_cons, List.append_assoc, List.append_assoc, List.length_cons,
      parseTransfers]
    obtain ⟨hlong, haccount, hamount, hdrop⟩ := Entry.append t.1 t.2
      (ts.flatMap (fun t => t.1.bytes ++ le128 t.2) ++ rest)
    rw [hdrop, ih, haccount, hamount]
    simp only [stopIf, if_neg hlong]
    rfl

theorem length_flatMap_transfers (ts : List (AccountId × U128)) :
    (ts.flatMap fun t => t.1.bytes ++ le128 t.2).length = ts.length * 48 := by
  induction ts with
  | nil => rfl
  | cons t ts ih =>
    rw [List.flatMap_cons, List.length_append, ih, List.length_append, t.1.length_bytes,
      le128, length_toLeBytes, List.length_cons]
    omega

/-- What `fulfill` reads from the arguments of a settlement. -/
theorem fulfillArgs_read (intent : Intent) {sol : Solution} (h : sol.transfers.length < 2 ^ 32) :
    ¬ (fulfillArgs intent sol).length < 60 ∧
      readAccountId (fulfillArgs intent sol) 8 = some sol.solver ∧
      readU128 (fulfillArgs intent sol) 40 = some sol.claimedTip ∧
      readU32 (fulfillArgs intent sol) 56 = some sol.transfers.length ∧
      (fulfillArgs intent sol).drop 60 =
        sol.transfers.flatMap (fun t => t.1.bytes ++ le128 t.2) ++
          (toLeBytes 4 intent.constraints.length ++
            intent.constraints.flatMap Constraint.encode) := by
  have hid : (le64 intent.id).length = 8 := length_toLeBytes _ _
  have hsolver := sol.solver.length_bytes
  have htip : (le128 sol.claimedTip).length = 16 := length_toLeBytes _ _
  have hcount : (toLeBytes 4 sol.transfers.length).length = 4 := length_toLeBytes _ _
  unfold fulfillArgs
  generalize sol.transfers.flatMap (fun t => t.1.bytes ++ le128 t.2) = moves
  generalize intent.constraints.flatMap Constraint.encode = terms
  simp only [List.append_assoc]
  refine ⟨?_, ?_, ?_, ?_, ?_⟩
  · simp only [List.length_append]
    omega
  · rw [readAccountId_append_left (by omega), hid]
    exact readAccountId_bytes_append _ _
  · rw [readU128_append_left (by omega), readU128_append_left (by omega), hid, hsolver]
    exact readU128_le128_append _ _
  · rw [readU32, readUint_append_left _ (by omega), readUint_append_left _ (by omega),
      readUint_append_left _ (by omega), hid, hsolver, htip]
    exact readUint_toLeBytes_append (by omega) _
  · rw [← List.append_assoc, ← List.append_assoc, ← List.append_assoc]
    exact List.drop_left' (by simp only [List.length_append]; omega)

end

/-! ## The checks -/

section Checks

variable {σ : Type} [StateStore σ] {E : Platform} {sender : AccountId}
  {transfers : List (AccountId × U128)} {tip totalNeeded : U128} {events : List Event} {s : σ}

theorem toNat_loadedBalance (account : AccountId) (s : σ) :
    (match loadAccount E account s with
      | .ok (some a) => a.balance
      | _ => 0#128).toNat = balanceOf E account s := by
  rw [balanceOf]
  cases hacct : account? E (StateStore.entries s) account with
  | some a => rw [loadAccount_of_account? hacct]; rfl
  | none =>
    split
    · next a ha => rw [account?_of_loadAccount ha] at hacct; cases hacct
    · rfl

/-- A constraint whose fields fit their encoding. -/
def Constraint.Fits (sender : AccountId) : Constraint → Prop
  | .requireTransfer source _ _ => source = sender
  | .requireCall _ method => (asBytes method).length < 2 ^ 32
  | _ => True

variable (htotal : totalNeeded.toNat = paidTotal transfers + tip.toNat)
  (hpaid : paidTotal transfers < 2 ^ 128)

include htotal hpaid

omit htotal hpaid [StateStore σ] in
/-- A check that lets the loop go on behind it only if `P` holds. -/
theorem gives_check {c P : Prop} [Decidable c] {e : SystemCallResult} {rest : Bytes}
    (hfail : Failed e) (hP : ¬ c → P) :
    Gives (stopIf c e >>= fun _ => pure (some rest) : SysM σ _) s fun r s' =>
      s' = s ∧ (∀ o, r = .ok o → o = some rest ∧ P) ∧ ∀ e, r = .error e → Failed e := by
  refine gives_stopIf_bind.mpr ⟨fun _ => ⟨rfl, fun o ho => ?_, fun e he => ?_⟩,
    fun hc => ⟨rfl, fun o ho => ?_, fun e he => ?_⟩⟩
  · cases ho
  · cases he
    exact hfail
  · cases ho
    exact ⟨rfl, hP hc⟩
  · cases he

/-- A constraint that was written is checked, and the loop goes on behind it. -/
theorem checkConstraint_gives {c : Constraint} (hfits : c.Fits sender) (hne : c.encode ≠ [])
    (rest : Bytes) :
    Gives (checkConstraint E sender transfers totalNeeded events (c.encode ++ rest)) s
      fun r s' => s' = s ∧ (∀ o, r = .ok o → o = some rest ∧ c.Met E sender transfers tip s) ∧
        ∀ e, r = .error e → Failed e := by
  cases c with
  | minBalance account minAmount =>
    obtain ⟨hlong, haccount, hamount, hdrop⟩ := Entry.append account minAmount rest
    simp only [Constraint.encode, List.cons_append, List.append_assoc, checkConstraint,
      if_neg hlong, haccount, hdrop, Option.getD_some, reduceIte]
    refine gives_check (fun h => by cases h) fun h => ?_
    rw [hamount, Option.getD_some, BitVec.not_lt, BitVec.le_def] at h
    exact h.trans_eq (toNat_loadedBalance account s)
  | maxSpend account maxAmount =>
    obtain ⟨hlong, haccount, hamount, hdrop⟩ := Entry.append account maxAmount rest
    have hone : ¬ (1 : UInt8) = 0 := by decide
    simp only [Constraint.encode, List.cons_append, List.append_assoc, checkConstraint,
      if_neg hone, if_neg hlong, hdrop, reduceIte]
    refine gives_check (fun h => by cases h) fun h hsender => ?_
    rw [haccount, hamount, Option.getD_some, Option.getD_some] at h
    rw [← htotal]
    exact BitVec.not_lt.mp fun hlt => h ⟨hsender, hlt⟩
  | requireTransfer source dest minAmount =>
    obtain ⟨hlong, hdest, hamount, hdrop⟩ := Entry.append dest minAmount rest
    have hsource := source.length_bytes
    have htwo : ¬ (2 : UInt8) = 0 ∧ ¬ (2 : UInt8) = 1 := by decide
    have hlong' : ¬ (source.bytes ++ (dest.bytes ++ (le128 minAmount ++ rest))).length < 80 := by
      rw [List.length_append]
      omega
    have hdrop' : (source.bytes ++ (dest.bytes ++ (le128 minAmount ++ rest))).drop 80 = rest := by
      rw [List.drop_append, List.drop_of_length_le (by omega), hsource]
      exact hdrop
    simp only [Constraint.encode, List.cons_append, List.append_assoc, checkConstraint,
      if_neg htwo.1, if_neg htwo.2, if_neg hlong', hdrop', reduceIte]
    refine gives_check (fun h => by cases h) fun h => ?_
    rw [readAccountId_append_left (by omega), readU128_append_left (by omega), hsource, hdest,
      hamount, Option.getD_some, Option.getD_some, BitVec.not_lt, BitVec.le_def,
      toNat_sumTo hpaid] at h
    exact h.trans_eq (if_pos hfits).symm
  | requireCall target method =>
    have htarget := target.length_bytes
    have hmethod : (toLeBytes 4 (asBytes method).length).length = 4 := length_toLeBytes _ _
    have hthree : ¬ (3 : UInt8) = 0 ∧ ¬ (3 : UInt8) = 1 ∧ ¬ (3 : UInt8) = 2 := by decide
    have hlong : ¬ (target.bytes ++ (toLeBytes 4 (asBytes method).length ++
        (asBytes method ++ rest))).length < 36 := by
      simp only [List.length_append]
      omega
    have hlen : readU32 (target.bytes ++ (toLeBytes 4 (asBytes method).length ++
        (asBytes method ++ rest))) 32 = some (asBytes method).length := by
      rw [readU32, readUint_append_left _ (by omega), htarget]
      exact readUint_toLeBytes_append hfits _
    have hdrop : (target.bytes ++ (toLeBytes 4 (asBytes method).length ++
        (asBytes method ++ rest))).drop (36 + (asBytes method).length) = rest := by
      rw [← List.append_assoc, ← List.append_assoc]
      exact List.drop_left' (by simp only [List.length_append]; omega)
    simp only [Constraint.encode, List.cons_append, List.append_assoc, checkConstraint,
      if_neg hthree.1, if_neg hthree.2.1, if_neg hthree.2.2, if_neg hlong, hlen,
      Option.getD_some, hdrop, reduceIte]
    exact ⟨rfl, fun o ho => by cases ho; exact ⟨rfl, trivial⟩, fun e he => by cases he⟩
  | crossChainSwap inputAmount minOutput chain destination token =>
    have hfour : ¬ (4 : UInt8) = 0 ∧ ¬ (4 : UInt8) = 1 ∧ ¬ (4 : UInt8) = 2 ∧
      ¬ (4 : UInt8) = 3 := by decide
    have hlen : (le128 inputAmount ++ (le128 minOutput ++ (le64 chain ++
        (destination.bytes ++ token.bytes)))).length = 104 := by
      simp only [List.length_append, le128, le64, length_toLeBytes, Hash.length_bytes]
    have hdrop : List.drop 104 (_ ++ rest) = rest := List.drop_left' hlen
    have hlong : ¬ (le128 inputAmount ++ (le128 minOutput ++ (le64 chain ++
        (destination.bytes ++ (token.bytes ++ rest))))).length < 104 := by
      simp only [List.length_append] at hlen ⊢
      omega
    simp only [List.append_assoc] at hdrop
    simp only [Constraint.encode, List.cons_append, List.append_assoc, checkConstraint,
      if_neg hfour.1, if_neg hfour.2.1, if_neg hfour.2.2.1, if_neg hfour.2.2.2, if_neg hlong,
      hdrop, reduceIte]
    refine gives_check (fun h => by cases h) fun h => ?_
    rw [readU128_le128_append, Option.getD_some, BitVec.not_lt, BitVec.le_def,
      toNat_sumTo hpaid] at h
    exact h
  | custom verifier data => exact absurd rfl hne

variable (events) in
/-- The loop over the constraints. The count may be larger than the number
of constraints that were written. -/
theorem checkConstraints_gives {cs : List Constraint} (hfits : ∀ c ∈ cs, c.Fits sender) {n : Nat}
    (hn : cs.length ≤ n) :
    Gives (checkConstraints E sender transfers totalNeeded events n
        (cs.flatMap Constraint.encode)) s
      fun r s' => s' = s ∧ (∀ u, r = .ok u → ∀ c ∈ cs, c.Met E sender transfers tip s) ∧
        ∀ e, r = .error e → Failed e := by
  induction cs generalizing n with
  | nil =>
    have hrun : (checkConstraints E sender transfers totalNeeded events n []).run s =
        (.ok (), s) := by
      cases n <;> rfl
    rw [List.flatMap_nil, Gives, hrun]
    exact ⟨rfl, fun _ _ c hc => absurd hc List.not_mem_nil, fun e he => by cases he⟩
  | cons c cs ih =>
    rw [List.length_cons] at hn
    have hrest := fun c hc => hfits c (List.mem_cons_of_mem _ hc)
    rw [List.flatMap_cons]
    by_cases hne : c.encode = []
    · -- a custom constraint leaves no bytes and asks for nothing
      have hmet : c.Met E sender transfers tip s := by
        cases c with
        | custom verifier data => trivial
        | _ => cases hne
      rw [hne, List.nil_append]
      refine (ih hrest (n := n) (by omega)).mono fun r s' ⟨hs, hmeets, hfail⟩ => ?_
      refine ⟨hs, fun u hu => ?_, hfail⟩
      exact List.forall_mem_cons.mpr ⟨hmet, hmeets u hu⟩
    · obtain ⟨n, rfl⟩ : ∃ m, n = m + 1 := ⟨n - 1, by omega⟩
      refine (checkConstraint_gives htotal hpaid (hfits c List.mem_cons_self) hne _).bind
        (fun o s' ⟨hs, hok, _⟩ => ?_) fun e s' ⟨hs, _, hfail⟩ => ?_
      · obtain ⟨rfl, hmet⟩ := hok o rfl
        subst hs
        refine (ih hrest (n := n) (by omega)).mono fun r s' ⟨hs, hmeets, hfail⟩ => ?_
        refine ⟨hs, fun u hu => ?_, hfail⟩
        exact List.forall_mem_cons.mpr ⟨hmet, hmeets u hu⟩
      · refine ⟨hs, fun u hu => ?_, fun e' he => ?_⟩
        · cases hu
        · cases he
          exact hfail e rfl

end Checks

/-! ## Settlements -/

section Settlements

variable {σ : Type} [StateStore σ] {E : Platform}

/-- A sender who can pay for everything: no sum of the transfers wraps. -/
theorem paid_exactly {transfers : List (AccountId × U128)} {tip balance : U128}
    (hcovered : ¬ balance < satAdd (transfers.foldl (fun t e => satAdd t e.2) 0#128) tip)
    (hbalance : balance.toNat < 2 ^ 128 - 1) :
    (satAdd (transfers.foldl (fun t e => satAdd t e.2) 0#128) tip).toNat =
        paidTotal transfers + tip.toNat ∧ paidTotal transfers < 2 ^ 128 := by
  rw [BitVec.not_lt, BitVec.le_def] at hcovered
  rw [toNat_satAdd, toNat_foldl_satAdd, BitVec.toNat_ofNat] at hcovered ⊢
  omega

theorem intentFulfill_gives {intent : Intent} {sol : Solution} {s : σ}
    (htransfers : sol.transfers.length < 2 ^ 32) (hconstraints : intent.constraints.length < 2 ^ 32)
    (hfits : ∀ c ∈ intent.constraints, c.Fits intent.sender)
    (hbalances : ∀ id, balanceOf E id s < 2 ^ 128 - 1) :
    Gives (intentFulfill E intent.sender (fulfillArgs intent sol)) s fun r s' =>
      (∀ u, r = .ok u → ∀ c ∈ intent.constraints,
        c.Met E intent.sender sol.transfers sol.claimedTip s') ∧
      ∀ e, r = .error e → Failed e := by
  obtain ⟨hlong, hsolver, htip, hcount, hdrop⟩ := fulfillArgs_read intent htransfers
  have hterms : (fulfillArgs intent sol).drop (60 + sol.transfers.length * 48) =
      toLeBytes 4 intent.constraints.length ++ intent.constraints.flatMap Constraint.encode := by
    rw [← List.drop_drop, hdrop]
    exact List.drop_left' (length_flatMap_transfers _)
  have hstop : ∀ {e : SystemCallResult} {s' : σ}, Failed e →
      (∀ u : SystemCallResult, (.error e : Except SystemCallResult _) = .ok u →
        ∀ c ∈ intent.constraints, c.Met E intent.sender sol.transfers sol.claimedTip s') ∧
      ∀ e', (.error e : Except SystemCallResult SystemCallResult) = .error e' → Failed e' := by
    intro e s' hfail
    refine ⟨fun u hu => ?_, fun e' he => ?_⟩
    · cases hu
    · cases he
      exact hfail
  unfold intentFulfill
  rw [hcount, htip]
  simp only [hdrop, hterms, parseTransfers_append, Option.getD_some]
  refine gives_stopIf_bind.mpr ⟨fun h => absurd h hlong, fun _ => ?_⟩
  refine gives_orErr_bind.mpr ⟨fun h => hstop (failed_err _), fun solver _ => ?_⟩
  refine gives_reads_bind.mpr (gives_stopIf_bind.mpr ⟨fun _ => hstop (failed_err _), fun _ => ?_⟩)
  rw [gives_pure_bind, bind_assoc]
  refine gives_attemptGet_bind.mpr ?_
  split
  · next acct hload =>
      refine gives_stopIf_bind.mpr ⟨fun _ => hstop (failed_err _), fun hcovered => ?_⟩
      have hbalance : acct.balance.toNat < 2 ^ 128 - 1 := by
        have h := hbalances intent.sender
        rwa [balanceOf, account?_of_loadAccount hload] at h
      obtain ⟨htotal, hpaid⟩ := paid_exactly hcovered hbalance
      refine (((anyFrame E).intentTransfers trivial (fun _ _ _ _ _ _ => trivial) _).stops.gives s).bind (fun events s₁ _ => ?_)
        fun e _ he => hstop (he e rfl)
      refine (((anyFrame E).intentTip trivial (fun _ _ _ _ => trivial) _ _).stops.gives s₁).bind (fun events s₂ _ => ?_)
        fun e _ he => hstop (he e rfl)
      have hcount : (toLeBytes 4 intent.constraints.length).length = 4 := length_toLeBytes _ _
      rw [if_pos (by rw [List.length_append]; omega), List.take_left' hcount,
        List.drop_left' hcount, fromLeBytes_toLeBytes (by omega)]
      generalize satAdd (sol.transfers.foldl (fun t e => satAdd t e.2) 0#128) sol.claimedTip =
        totalNeeded at htotal ⊢
      have hchecks := checkConstraints_gives (E := E) (s := s₂) events htotal hpaid hfits le_rfl
      refine Gives.bind hchecks (fun u s₃ hmid => ?_) fun e _ hmid => ?_
      · obtain ⟨rfl, hmet, -⟩ := hmid
        refine ⟨fun _ _ => hmet u rfl, fun e he => ?_⟩
        cases he
      · exact hstop (hmid.2.2 e rfl)
  · exact hstop (failed_err _)

/-- A settlement built by a proposer carries the terms of its intent: the
contract reads back the transfers of the solution, and where it succeeds all
constraints are met. -/
theorem fulfill_meets_terms (s : σ) (intent : Intent) (sol : Solution)
    (hsources : ∀ source dest amount,
      Constraint.requireTransfer source dest amount ∈ intent.constraints →
        source = intent.sender)
    (htransfers : sol.transfers.length < 2 ^ 32) (hconstraints : intent.constraints.length < 2 ^ 32)
    (hmethods : ∀ target method, Constraint.requireCall target method ∈ intent.constraints →
      (asBytes method).length < 2 ^ 32)
    (hbalances : ∀ id, balanceOf E id s < 2 ^ 128 - 1) :
    (readU32 (fulfillArgs intent sol) 56 = some sol.transfers.length ∧
      (parseTransfers sol.transfers.length ((fulfillArgs intent sol).drop 60) : SysM σ _) =
        pure sol.transfers) ∧
    ∀ r s', executeSystemCall E s intent.sender System.intentAddress "fulfill"
        (fulfillArgs intent sol) = (r, s') → r.error = none →
      ∀ c ∈ intent.constraints, c.Met E intent.sender sol.transfers sol.claimedTip s' := by
  obtain ⟨-, -, -, hcount, hdrop⟩ := fulfillArgs_read intent htransfers
  refine ⟨⟨hcount, ?_⟩, fun r s' hcall hok => ?_⟩
  · rw [hdrop]
    exact parseTransfers_append _ _
  have hfits : ∀ c ∈ intent.constraints, c.Fits intent.sender := by
    intro c hc
    cases c with
    | requireTransfer source dest minAmount => exact hsources source dest minAmount hc
    | requireCall target method => exact hmethods target method hc
    | _ => trivial
  have hgives := intentFulfill_gives htransfers hconstraints hfits hbalances
  change runSystemCall (intentFulfill E intent.sender (fulfillArgs intent sol)) s = (r, s') at hcall
  rw [runSystemCall] at hcall
  rcases hrun : (intentFulfill E intent.sender (fulfillArgs intent sol)).run s with ⟨res, s₁⟩
  obtain ⟨hmet, hfail⟩ := hgives.of_run hrun
  rw [hrun] at hcall
  cases res with
  | ok u =>
      cases hcall
      exact hmet r rfl
  | error e =>
      cases hcall
      exact absurd hok (hfail r rfl)

end Settlements

/-- Alice wants Bob to be paid and something bridged; one constraint of each
kind, the custom one in between. -/
def mixedIntent : Intent where
  id := 0#64
  sender := alice
  constraints := [.minBalance alice 100#128, .custom bob [], .maxSpend alice 900#128,
    .requireCall bob "ping", .requireTransfer alice bob 500#128,
    .crossChainSwap 200#128 150#128 1#64 Hash.zero Hash.zero]
  maxFee := 0#128
  expiryHeight := 10
  tip := 20#128

def mixedSolution : Solution where
  intentId := 0#64
  solver := bob
  operations := [⟨alice, 0#64, [.transfer bob 500#128, .transfer System.bridgeAddress 200#128],
    0#128, []⟩]
  claimedTip := 10#128
  score := 1#64
  signature := []

/-- A store that holds the record of the intent. -/
def mixedStore : Store := (plainStore [(alice, 1000#128)]).insert (intentKey 0#64) alice.bytes

theorem balanceOf_mixedStore (id : AccountId) :
    balanceOf plainPlatform id mixedStore < 2 ^ 128 - 1 := by
  have hkey : NotAccountKey (intentKey 0#64) := by decide +kernel
  have hentries : account? plainPlatform (StateStore.entries mixedStore) id =
      account? plainPlatform (plainStore [(alice, 1000#128)]) id :=
    account?_insert_of_notAccountKey hkey _ _
  have hplain : account? plainPlatform (plainStore [(alice, 1000#128)]) id =
      if alice = id then some (keyAccount alice 1000#128) else none :=
    account?_putAccount (keyAccount alice 1000#128) (∅ : Store) id
  rw [balanceOf, hentries, hplain]
  split <;> decide

theorem fulfill_meets_terms_mixed :
    let call := executeSystemCall plainPlatform mixedStore mixedIntent.sender System.intentAddress
      "fulfill" (fulfillArgs mixedIntent mixedSolution)
    call.1.error = none ∧ ∀ c ∈ mixedIntent.constraints,
      c.Met plainPlatform mixedIntent.sender mixedSolution.transfers mixedSolution.claimedTip
        call.2 := by
  intro call
  have hok : call.1.error = none := by decide +kernel
  refine ⟨hok, (fulfill_meets_terms mixedStore mixedIntent mixedSolution ?_ (by decide +kernel)
    (by decide +kernel) ?_ balanceOf_mixedStore).2 call.1 call.2 Prod.mk.eta.symm hok⟩
  · intro source dest amount h
    simp only [mixedIntent, List.mem_cons, List.not_mem_nil, reduceCtorEq, false_or, or_false,
      Constraint.requireTransfer.injEq] at h
    exact h.1
  · intro target method h
    simp only [mixedIntent, List.mem_cons, List.not_mem_nil, reduceCtorEq, false_or, or_false,
      Constraint.requireCall.injEq] at h
    rw [h.2]
    decide +kernel

end Solen
