import Solen.StSolenBooks

/-!
# What the methods of the stSOLEN contract do to its books

Every call that does not trap, and in which no sum overflows, changes the
books in one of a few ways, and queues calls and transfers that fit the
change. `Booked` lists them; the properties of the contract are then
properties of this list and not of the methods' text. Loops become small
relations that have one constructor per turn.
-/

namespace Solen.StSolen

open Machine

variable {op : AccountId} {r : Except Exit Bytes} {o : Outcome} {msg : String} {tank : Tank}

variable {data input : Bytes} {ctx : HostContext} {n : Nat} {method : Option Method} {i now : U64}

/-! ## Changes of the books -/

namespace Books

/-- What came in since the balance was last seen, apart from the value of
this call. -/
def inflow (b : Books) (ctx : HostContext) : U128 :=
  satSub (satSub ctx.selfBalance b.lastSeen) ctx.msgValue

def feeSolen (b : Books) (ctx : HostContext) : U128 :=
  satMul (b.inflow ctx) (b.feeBps.setWidth 128) / 10000#128

def growth (b : Books) (ctx : HostContext) : U128 := b.inflow ctx - b.feeSolen ctx

/-- New tokens for an account. -/
def mint (b : Books) (account : AccountId) (amount : U128) : Books :=
  { b with
    balance := Function.update b.balance account (b.balance account + amount)
    supply := b.supply + amount }

structure MintFits (b : Books) (account : AccountId) (amount : U128) : Prop where
  balance : Fits (b.balance account) amount
  supply : Fits b.supply amount

theorem mint_zero (b : Books) (account : AccountId) : b.mint account 0#128 = b := by
  simp [mint]

theorem MintFits.zero (b : Books) (account : AccountId) : b.MintFits account 0#128 :=
  ⟨Fits.zero _, Fits.zero _⟩

end Books

/-- The tokens that a fee is worth, at the rate after the growth. -/
def feeMint (feeSolen poolAfter supply : U128) : U128 :=
  if 0#128 < feeSolen ∧ 0#128 < poolAfter ∧ 0#128 < supply then
    satMul feeSolen supply / poolAfter
  else 0#128

namespace Books

def rewardMint (b : Books) (ctx : HostContext) : U128 :=
  feeMint (b.feeSolen ctx) (b.pooled + b.growth ctx) b.supply

/-- The books after the rewards were taken in. -/
def sync (b : Books) (ctx : HostContext) : Books :=
  { b.mint b.treasury (b.rewardMint ctx) with
    pooled := b.pooled + b.growth ctx
    lastSeen := ctx.selfBalance }

structure SyncFits (b : Books) (ctx : HostContext) : Prop where
  pooled : Fits b.pooled (b.growth ctx)
  mint : b.MintFits b.treasury (b.rewardMint ctx)

/-- Tokens move between two accounts. -/
def move (b : Books) (source dest : AccountId) (amount : U128) : Books :=
  let taken := Function.update b.balance source (b.balance source - amount)
  { b with balance := Function.update taken dest (taken dest + amount) }

/-- The recipient's balance, read after the source's was lowered, can take
the amount. -/
def MoveFits (b : Books) (source dest : AccountId) (amount : U128) : Prop :=
  Fits (Function.update b.balance source (b.balance source - amount) dest) amount

def allow (b : Books) (owner spender : AccountId) (amount : U128) : Books :=
  { b with
    allowance := Function.update b.allowance owner
      (Function.update (b.allowance owner) spender amount) }

/-- Stake that was given to an operator, and the balance seen after it. -/
def delegate (b : Books) (op : AccountId) (amount : U128) (cursor : U64) (lastSeen : U128) :
    Books :=
  { b with
    opStake := Function.update b.opStake op (b.opStake op + amount)
    opCursor := cursor
    lastSeen := lastSeen }

/-- Tokens burned for a place in the queue. -/
def burn (b : Books) (account : AccountId) (amount owed : U128) (now : U64) : Books :=
  { b with
    balance := Function.update b.balance account (b.balance account - amount)
    supply := b.supply - amount
    pooled := b.pooled - owed
    pending := b.pending + owed
    wq := Function.update b.wq b.wqTail (some ⟨account, owed, now⟩)
    wqTail := b.wqTail + 1#64 }

/-- The head of the queue leaves it, and `paid` is paid. -/
def pay (b : Books) (owed paid : U128) : Books :=
  { b with
    buffer := b.buffer - paid
    pending := satSub b.pending owed
    lastSeen := satSub b.lastSeen paid
    wq := Function.update b.wq b.wqHead none
    wqHead := b.wqHead + 1#64 }

/-- The oldest undelegation leaves the log. -/
def pop (b : Books) (operator : AccountId) : Books :=
  { b with
    unLog := Function.update b.unLog b.unHead none
    inflight := Function.update b.inflight operator (satSub (b.inflight operator) 1#64)
    unHead := b.unHead + 1#64 }

/-- An undelegation is logged. -/
def push (b : Books) (now : U64) (operator : AccountId) (amount : U128) : Books :=
  { b with
    pendingUndelegate :=
      Function.update b.pendingUndelegate operator (b.pendingUndelegate operator - amount)
    opStake := Function.update b.opStake operator (b.opStake operator - amount)
    inflight := Function.update b.inflight operator (b.inflight operator + 1#64)
    unLog := Function.update b.unLog b.unTail (some ⟨now, amount, operator⟩)
    unTail := b.unTail + 1#64 }

/-- What matured is in the buffer. -/
def pull (b : Books) (matured : U128) : Books :=
  { b with buffer := b.buffer + matured, lastSeen := b.lastSeen + matured }

end Books

/-- Undelegations that matured leave the log in order; places without an
entry are passed over. -/
inductive Popped (now : U64) : Books → List Unbonding → Books → Prop where
  | nil {b : Books} : Popped now b [] b
  | skip {b b' : Books} {l : List Unbonding} (hlive : b.unHead < b.unTail)
      (hentry : b.unLog b.unHead = none)
      (hrest : Popped now { b with unHead := b.unHead + 1#64 } l b') : Popped now b l b'
  | cons {b b' : Books} {u : Unbonding} {l : List Unbonding} (hlive : b.unHead < b.unTail)
      (hentry : b.unLog b.unHead = some u) (hmature : u.epoch + unbondingEpochs ≤ now)
      (hrest : Popped now (b.pop u.operator) l b') : Popped now b (u :: l) b'

theorem Popped.frame {b b' : Books} {l : List Unbonding} (h : Popped now b l b') :
    b' = { b with unLog := b'.unLog, inflight := b'.inflight, unHead := b'.unHead } := by
  induction h with
  | nil => rfl
  | skip _ _ _ ih => rw [ih]
  | cons _ _ _ _ ih => rw [ih, Books.pop]

/-- Undelegations are logged one after the other. -/
inductive Pushed (now : U64) : Books → List (AccountId × U128) → Books → Prop where
  | nil {b : Books} : Pushed now b [] b
  | cons {b b' : Books} {op : AccountId} {amount : U128} {l : List (AccountId × U128)}
      (hpending : amount ≤ b.pendingUndelegate op) (hstake : amount ≤ b.opStake op)
      (hcap : b.inflight op + 1#64 < maxUndelegationsPerOp)
      (hrest : Pushed now (b.push now op amount) l b') : Pushed now b ((op, amount) :: l) b'

theorem Pushed.frame {b b' : Books} {l : List (AccountId × U128)}
    (h : Pushed now b l b') :
    b' = { b with
      pendingUndelegate := b'.pendingUndelegate
      opStake := b'.opStake
      inflight := b'.inflight
      unLog := b'.unLog
      unTail := b'.unTail } := by
  induction h with
  | nil => rfl
  | cons _ _ _ _ ih => rw [ih, Books.push]

/-! ## Operators with something to undelegate -/

/-- One of the `n` slots from slot `i` on names the operator. -/
def Books.Slotted (b : Books) (i : U64) (n : Nat) (op : AccountId) : Prop :=
  ∃ j < n, b.op (i + BitVec.ofNat 64 j) = op

theorem Books.Slotted.succ {b : Books}
    (h : b.Slotted (i + 1#64) n op) : b.Slotted i (n + 1) op := by
  obtain ⟨j, hj, hop⟩ := h
  refine ⟨j + 1, Nat.succ_lt_succ hj, ?_⟩
  rw [← hop, BitVec.ofNat_add, BitVec.add_comm (BitVec.ofNat 64 j), BitVec.add_assoc]

theorem Books.slotted_head (b : Books) (i : U64) (n : Nat) : b.Slotted i (n + 1) (b.op i) :=
  ⟨0, Nat.succ_pos n, by rw [BitVec.add_zero]⟩

/-- Something is pending with the operator, and it has stake to give. -/
def Books.Due (b : Books) (op : AccountId) : Prop :=
  op ≠ Hash.zero ∧ b.pendingUndelegate op ≠ 0#128 ∧ b.opStake op ≠ 0#128

instance (b : Books) : DecidablePred b.Due := fun _ => inferInstanceAs (Decidable (_ ∧ _ ∧ _))

/-- The operator in the first slot or one in a later slot. -/
theorem Books.Slotted.cases {b : Books}
    (h : b.Slotted i (n + 1) op) : op = b.op i ∨ b.Slotted (i + 1#64) n op := by
  obtain ⟨j, hj, hop⟩ := h
  cases j with
  | zero =>
    left
    rw [← hop, BitVec.add_zero]
  | succ j =>
    right
    refine ⟨j, Nat.lt_of_succ_lt_succ hj, ?_⟩
    rw [← hop, BitVec.ofNat_add, BitVec.add_comm (BitVec.ofNat 64 j), BitVec.add_assoc]

theorem umin_eq_zero {a b : U128} : umin a b = 0#128 ↔ a = 0#128 ∨ b = 0#128 := by
  have hmin := toNat_umin a b
  have hzero : ∀ v : U128, v = 0#128 ↔ v.toNat = 0 := fun v =>
    ⟨fun h => by rw [h]; rfl, fun h => BitVec.eq_of_toNat_eq h⟩
  rw [hzero, hzero a, hzero b, hmin]
  omega

section Push

variable {b b' : Books} {now : U64} {op : AccountId} {amount : U128}

theorem Books.pendingUndelegate_push (b : Books) (now : U64) (op x : AccountId) (amount : U128) :
    (b.push now op amount).pendingUndelegate x =
      if x = op then b.pendingUndelegate op - amount else b.pendingUndelegate x := by
  change Function.update b.pendingUndelegate op (b.pendingUndelegate op - amount) x = _
  rw [Function.update_apply]

theorem Books.opStake_push (b : Books) (now : U64) (op x : AccountId) (amount : U128) :
    (b.push now op amount).opStake x = if x = op then b.opStake op - amount else b.opStake x := by
  change Function.update b.opStake op (b.opStake op - amount) x = _
  rw [Function.update_apply]

/-- An undelegation of all that can be undelegated leaves nothing due. -/
theorem Books.not_due_push (b : Books) (now : U64) (op : AccountId) :
    ¬ (b.push now op (umin (b.pendingUndelegate op) (b.opStake op))).Due op := by
  rintro ⟨-, hpending, hstake⟩
  rw [Books.pendingUndelegate_push, if_pos rfl] at hpending
  rw [Books.opStake_push, if_pos rfl] at hstake
  unfold umin at hpending hstake
  split at hpending
  · exact hpending (BitVec.sub_self _)
  · next hle =>
      rw [if_neg hle] at hstake
      exact hstake (BitVec.sub_self _)

theorem Books.due_push_of_ne {x : AccountId} (hne : x ≠ op) :
    (b.push now op amount).Due x ↔ b.Due x := by
  unfold Books.Due
  rw [Books.pendingUndelegate_push, Books.opStake_push, if_neg hne, if_neg hne]

/-- Undelegations never make an operator due. -/
theorem Pushed.due {pushed : List (AccountId × U128)} (h : Pushed now b pushed b') {x : AccountId}
    (hx : b'.Due x) : b.Due x := by
  induction h with
  | nil => exact hx
  | @cons b b' op amount l hpending hstake _ _ ih =>
    have hdue := ih hx
    by_cases hne : x = op
    · subst hne
      obtain ⟨hnamed, hp, hs⟩ := hdue
      rw [Books.pendingUndelegate_push, if_pos rfl] at hp
      rw [Books.opStake_push, if_pos rfl] at hs
      refine ⟨hnamed, fun hzero => hp ?_, fun hzero => hs ?_⟩
      · rw [hzero] at hpending ⊢
        rw [BitVec.le_zero_iff.mp hpending]
        rfl
      · rw [hzero] at hstake ⊢
        rw [BitVec.le_zero_iff.mp hstake]
        rfl
    · exact (Books.due_push_of_ne hne).mp hdue

end Push

/-! ## What calls do -/

/-- The sum of a map of amounts over all accounts. -/
noncomputable def sumOf (f : AccountId → U128) : Nat := ∑ a, (f a).toNat

def delegateCall (op : AccountId) (amount : U128) : PendingCall :=
  Frame.stakingCall "delegate" (op.bytes ++ le128 amount)

def undelegateCall (u : AccountId × U128) : PendingCall :=
  Frame.stakingCall "undelegate" (u.1.bytes ++ le128 u.2)

/-- The call that fetches what matured, if anything did. -/
def withdrawCalls (matured : U128) : List PendingCall :=
  if 0#128 < matured then [Frame.stakingCall "withdraw" []] else []

/-- How much of a deposit is delegated. -/
def delegable (ctx : HostContext) : U128 := umin (satSub ctx.selfBalance minFeeReserve) ctx.msgValue

/-- The tokens of a deposit. The first deposit of all burns some. -/
inductive DepositMint (value : U128) (b : Books) : Books → U128 → Prop where
  | first (hsupply : b.supply = 0#128) (hvalue : minFirstDeposit ≤ value)
      (hfits : Fits (b.balance deadAddress) bootstrapBurn) :
      DepositMint value b (b.mint deadAddress bootstrapBurn) (value - bootstrapBurn)
  | later (hsupply : b.supply ≠ 0#128) (hpool : b.pooled ≠ 0#128)
      (hmint : satMul value b.supply / b.pooled ≠ 0#128) :
      DepositMint value b b (satMul value b.supply / b.pooled)

/-- A deposit that went to the operator `op`. -/
inductive Deposited (ctx : HostContext) (b : Books) (op : AccountId) : Books → Prop where
  | intro {b₁ : Books} {amount : U128} {cursor : U64} (hvalue : ctx.msgValue ≠ 0#128)
      (hdelegable : delegable ctx ≠ 0#128) (hmint : DepositMint ctx.msgValue b b₁ amount)
      (hfits : b₁.MintFits ctx.caller amount) (hpooled : Fits b.pooled ctx.msgValue) :
      Deposited ctx b op
        ({ b₁.mint ctx.caller amount with pooled := b.pooled + ctx.msgValue }.delegate op
          (delegable ctx) cursor (satSub b.lastSeen (delegable ctx)))

/-- What a method does after the rewards were taken in. -/
inductive Acted (ctx : HostContext) (b : Books) :
    Option Method → Books → List PendingCall → List NativeTransfer → Prop where
  | nothing (method : Option Method) : Acted ctx b method b [] []
  | deposited {op : AccountId} {b' : Books} (h : Deposited ctx b op b') :
      Acted ctx b (some .deposit) b' [delegateCall op (delegable ctx)] []
  | requested {burn : U128} {pendingUndelegate : AccountId → U128}
      (hburn : burn ≤ b.balance ctx.caller) (hsupply : b.supply ≠ 0#128)
      (howed : satMul burn b.pooled / b.supply ≠ 0#128)
      (hfits : Fits b.pending (satMul burn b.pooled / b.supply))
      (hsum : sumOf pendingUndelegate =
        sumOf b.pendingUndelegate + (satMul burn b.pooled / b.supply).toNat) :
      Acted ctx b (some .requestWithdrawal)
        { b.burn ctx.caller burn (satMul burn b.pooled / b.supply) (epochOf ctx) with
          pendingUndelegate := pendingUndelegate } [] []
  | cranked {b₁ b₂ : Books} {popped : List Unbonding} {matured : U128}
      {pushed : List (AccountId × U128)} (hpop : Popped (epochOf ctx) b popped b₁)
      (hmatured : matured.toNat = (popped.map (·.amount.toNat)).sum)
      (hbuffer : Fits b.buffer matured) (hseen : Fits b.lastSeen matured)
      (hpush : Pushed (epochOf ctx) (b₁.pull matured) pushed b₂)
      (hslots : pushed.length < 2 ^ 64) :
      Acted ctx b (some .crankUndelegations) b₂ (withdrawCalls matured ++ pushed.map undelegateCall)
        []
  | claimed {w : Withdrawal} (hentry : b.wq b.wqHead = some w) (howed : w.solenOwed ≠ 0#128)
      (hbuffer : w.solenOwed ≤ b.buffer) :
      Acted ctx b (some .claimWithdrawal) (b.pay w.solenOwed w.solenOwed) []
        [⟨w.account, w.solenOwed⟩]
  | settled {w : Withdrawal} (hentry : b.wq b.wqHead = some w) (howner : ctx.caller = b.owner) :
      Acted ctx b (some .settleShortfall) (b.pay w.solenOwed (umin b.buffer w.solenOwed)) []
        (if 0#128 < umin b.buffer w.solenOwed then
          [⟨w.account, umin b.buffer w.solenOwed⟩] else [])
  | recompounded {op : AccountId} {cursor : U64} {amount : U128}
      (hamount : amount = satSub (satSub ctx.selfBalance b.pending) minFeeReserve)
      (hleast : minRecompound ≤ amount) :
      Acted ctx b (some .recompoundRewards)
        { b.delegate op amount cursor (satSub ctx.selfBalance amount) with
          lastRecompound := epochOf ctx }
        [delegateCall op amount] []

/-- The settings the owner makes, apart from which nothing changed. -/
structure Books.Configured (b b' : Books) : Prop where
  eq : b' = { b with
    owner := b'.owner
    treasury := b'.treasury
    slashOracle := b'.slashOracle
    paused := b'.paused
    feeBps := b'.feeBps
    opCapBps := b'.opCapBps
    opCount := b'.opCount
    op := b'.op }
  feeBps : b'.feeBps = b.feeBps ∨ b'.feeBps ≤ feeBpsHardCap

/-- Everything a call can do to the books, and what it queues with it. -/
inductive Booked (ctx : HostContext) (b : Books) :
    Option Method → Books → List PendingCall → List NativeTransfer → Prop where
  | configured {method : Option Method} {b' : Books} (h : b.Configured b') :
      Booked ctx b method b' [] []
  | approved (spender : AccountId) (amount : U128) :
      Booked ctx b (some .approve) (b.allow ctx.caller spender amount) [] []
  | moved {dest : AccountId} {amount : U128} (hfunds : amount ≤ b.balance ctx.caller)
      (hfits : b.MoveFits ctx.caller dest amount) :
      Booked ctx b (some .transfer) (b.move ctx.caller dest amount) [] []
  | movedFrom {source dest : AccountId} {amount : U128}
      (hallowed : amount ≤ b.allowance source ctx.caller) (hfunds : amount ≤ b.balance source)
      (hfits : b.MoveFits source dest amount) :
      Booked ctx b (some .transferFrom)
        ((b.move source dest amount).allow source ctx.caller
          (b.allowance source ctx.caller - amount)) [] []
  | slashed {op : AccountId} {realized : U128} (hloss : realized < b.opStake op)
      (horacle : ctx.caller = b.slashOracle) :
      Booked ctx b (some .reportSlash)
        { b with
          opStake := Function.update b.opStake op realized
          pooled := satSub b.pooled (b.opStake op - realized) } [] []
  | synced {method : Option Method} {b' : Books} {calls : List PendingCall}
      {transfers : List NativeTransfer} (hfits : b.SyncFits ctx)
      (h : Acted ctx (b.sync ctx) method b' calls transfers) :
      Booked ctx b method b' calls transfers

/-! ## Steps that only read -/

/-- A program that ends with a value and leaves the frame as it is. -/
def ReadOnly {α : Type} (m : Code α) : Prop := ∀ s, ∃ a, m.plain.run s = (.ok a, s)

namespace ReadOnly

variable {α β : Type} {m m' : Code α}

theorem pure (a : α) : ReadOnly (pure a) := fun _ => ⟨a, rfl⟩

theorem get (k : Key) : ReadOnly (get k) := fun s => ⟨s.storage[k.bytes]?, rfl⟩

theorem bind {f : α → Code β} (hm : ReadOnly m) (hf : ∀ a, ReadOnly (f a)) :
    ReadOnly (m >>= f) := by
  intro s
  obtain ⟨a, ha⟩ := hm s
  obtain ⟨b, hb⟩ := hf a s
  refine ⟨b, ?_⟩
  rw [Code.plain_bind, Prog.run_bind_ok ha, hb]

theorem map (f : α → β) (hm : ReadOnly m) : ReadOnly (f <$> m) := hm.bind fun a => pure (f a)

theorem ite {c : Prop} [Decidable c] (hm : ReadOnly m) (hm' : ReadOnly m') :
    ReadOnly (if c then m else m') := by
  split
  · exact hm
  · exact hm'

/-- What is read changes nothing for what follows. -/
theorem gives {f : α → Code β} {s : Frame} {Post : Except Exit β → Frame → Prop}
    (hm : ReadOnly m) (h : ∀ a, Gives (f a) s Post) : Gives (m >>= f) s Post := by
  obtain ⟨a, ha⟩ := hm s
  have hpost := h a
  unfold Gives Prog.Gives at hpost ⊢
  rwa [Code.plain_bind, Prog.run_bind_ok ha]

theorem hasActivePosition (op : AccountId) : ReadOnly (hasActivePosition op) := by
  refine ((get _).map _ |>.map _).bind fun _ => ite (pure _) ?_
  refine ((get _).map _ |>.map _).bind fun _ => ite (pure _) ?_
  exact ((get _).map _ |>.map _).bind fun _ => pure _

theorem anyPosition (n : Nat) (i : U64) : ReadOnly (anyPosition n i) := by
  induction n generalizing i with
  | zero => exact pure _
  | succ n ih =>
    refine ((get _).map _ |>.map _).bind fun op => ?_
    exact (ite (hasActivePosition op) (pure _)).bind fun _ => ite (pure _) (ih _)

theorem walkOperators (amount cap : U128) (count : U64) (n : Nat) (walk : U64)
    (fallback : AccountId) : ReadOnly (walkOperators amount cap count n walk fallback) := by
  induction n generalizing walk fallback with
  | zero => exact pure _
  | succ n ih =>
    refine ((get _).map _ |>.map _).bind fun _ => ite ?_ (ih _ _)
    exact ((get _).map _ |>.map _).bind fun _ => ite (pure _) (ih _ _)

theorem selectOperator (amount : U128) : ReadOnly (selectOperator amount) := by
  refine ((get _).map _ |>.map _).bind fun _ => ?_
  refine ((get _).map _ |>.map _).bind fun _ => ite (pure _) ?_
  refine ((get _).map _ |>.map _).bind fun _ => ((get _).map _ |>.map _).bind fun _ => ?_
  refine (walkOperators _ _ _ _ _ _).bind fun r => ?_
  obtain ⟨_ | found, fallback⟩ := r
  · exact pure _
  · exact pure _

theorem countWithdrawals (target : AccountId) (n : Nat) (seq count : U64) :
    ReadOnly (countWithdrawals target n seq count) := by
  induction n generalizing seq count with
  | zero => exact pure _
  | succ n ih => exact ((get _).map _).bind fun _ => ih _ _

end ReadOnly

/-! ## Steps that queue nothing -/

/-- `s'` is `s` with the books `b`, and nothing was queued or sent. -/
structure Frame.Turned (s : Frame) (b : Books) (s' : Frame) : Prop where
  books : s'.books = b
  ctx : s'.ctx = s.ctx
  calls : s'.pendingCalls = s.pendingCalls
  transfers : s'.nativeTransfers = s.nativeTransfers
  fits : s'.overflowed = false → s.overflowed = false

theorem Frame.Turned.refl (s : Frame) : s.Turned s.books s := ⟨rfl, rfl, rfl, rfl, id⟩

theorem Frame.Turned.trans {s s₁ s₂ : Frame} {b b' : Books} (h : s.Turned b s₁)
    (h' : s₁.Turned b' s₂) : s.Turned b' s₂ where
  books := h'.books
  ctx := h'.ctx.trans h.ctx
  calls := h'.calls.trans h.calls
  transfers := h'.transfers.trans h.transfers
  fits hs := h.fits (h'.fits hs)

theorem mintFee_gives (s : Frame) (feeSolen poolAfter : U128) :
    Gives (mintFee feeSolen poolAfter) s fun r s' =>
      let amount := feeMint feeSolen poolAfter s.books.supply
      r = .ok () ∧ s.Turned (s.books.mint s.books.treasury amount) s' ∧
        (s'.overflowed = false → s.books.MintFits s.books.treasury amount) := by
  have hsame : s.Turned (s.books.mint s.books.treasury 0#128) s :=
    ⟨(Books.mint_zero _ _).symm, rfl, rfl, rfl, id⟩
  simp only [mintFee, gives_getTotalSupply_bind, gives_ite]
  refine ⟨fun hmint => ?_, fun hmint => ?_⟩
  · rw [feeMint, if_pos hmint]
    generalize satMul feeSolen s.books.supply / poolAfter = amount
    refine ⟨fun hpos => ?_, fun hpos => ?_⟩
    · simp only [setU128, gives_getTreasury_bind, gives_getBalance_bind, gives_add_bind,
        gives_set_bind, gives_emit]
      refine ⟨trivial, ⟨?_, rfl, rfl, rfl, ?_⟩, ?_⟩
      · simp [Books.put, Books.mint]
      · simp only [Frame.overflowed_emitted, Frame.overflowed_put, Frame.overflowed_noted]
        exact fun h => h.1.1
      · simp only [Frame.overflowed_emitted, Frame.overflowed_put, Frame.overflowed_noted]
        exact fun h => ⟨h.1.2, h.2⟩
    · obtain rfl : amount = 0#128 := BitVec.le_zero_iff.mp (BitVec.not_lt.mp hpos)
      exact ⟨rfl, hsame, fun _ => .zero _ _⟩
  · rw [feeMint, if_neg hmint]
    exact ⟨rfl, hsame, fun _ => .zero _ _⟩

theorem Books.feeSolen_of_inflow {b : Books} (h : b.inflow ctx = 0#128) :
    b.feeSolen ctx = 0#128 := by
  rw [Books.feeSolen, h]
  simp [satMul]

theorem Books.growth_of_inflow {b : Books} (h : b.inflow ctx = 0#128) :
    b.growth ctx = 0#128 := by
  rw [Books.growth, h, Books.feeSolen_of_inflow h]
  rfl

theorem Books.rewardMint_of_inflow {b : Books} (h : b.inflow ctx = 0#128) :
    b.rewardMint ctx = 0#128 := by
  rw [Books.rewardMint, Books.feeSolen_of_inflow h, feeMint, if_neg (by simp)]

theorem Books.sync_of_inflow {b : Books} (h : b.inflow ctx = 0#128) :
    b.sync ctx = { b with lastSeen := ctx.selfBalance } := by
  rw [Books.sync, Books.rewardMint_of_inflow h, Books.mint_zero, Books.growth_of_inflow h,
    BitVec.add_zero]

theorem Books.syncFits_of_inflow {b : Books} (h : b.inflow ctx = 0#128) :
    b.SyncFits ctx where
  pooled := by
    rw [Books.growth_of_inflow h]
    exact Fits.zero _
  mint := by
    rw [Books.rewardMint_of_inflow h]
    exact .zero _ _

theorem syncRewards_gives (s : Frame) :
    Gives syncRewards s fun r s' =>
      r = .ok () ∧ s.Turned (s.books.sync s.ctx) s' ∧
        (s'.overflowed = false → s.books.SyncFits s.ctx) := by
  unfold syncRewards
  rw [gives_selfBalance_bind, gives_getLastBalanceSeen_bind, gives_msgValue_bind]
  change Gives (Bind.bind (if 0#128 < s.books.inflow s.ctx then _ else _) _) s _
  rw [gives_ite_bind]
  refine ⟨fun _ => ?_, fun hpos => ?_⟩
  · rw [bind_assoc, gives_getProtocolFeeBps_bind, bind_assoc, gives_getTotalPooled_bind, bind_assoc, gives_add_bind, bind_assoc, gives_setU128_bind]
    refine gives_bind_ok (mintFee_gives _ _ _) fun s₁ h => ?_
    obtain ⟨hturned, hfits⟩ := h
    have hbooks := hturned.books
    simp only [Frame.books_put, Frame.books_noted, Books.put, readU128_le128, Option.getD_some]
      at hbooks hfits
    have hnoted := fun h => (Frame.overflowed_noted _ _ _).mp (hturned.fits h)
    rw [gives_setU128]
    refine ⟨rfl, ⟨?_, hturned.ctx, hturned.calls, hturned.transfers, fun h => (hnoted h).1⟩,
      fun h => ⟨(hnoted h).2, ?_⟩⟩
    · rw [Frame.books_put, hbooks]
      simp only [Books.put, readU128_le128, Option.getD_some]
      rfl
    · exact ⟨(hfits h).balance, (hfits h).supply⟩
  · have hzero : s.books.inflow s.ctx = 0#128 := BitVec.le_zero_iff.mp (BitVec.not_lt.mp hpos)
    rw [gives_pure_bind, gives_setU128, Books.sync_of_inflow hzero]
    refine ⟨rfl, ⟨?_, rfl, rfl, rfl, id⟩, fun _ => Books.syncFits_of_inflow hzero⟩
    simp [Books.put]

/-! ## The token -/

theorem move_gives (s : Frame) (source dest : AccountId) (amount : U128) :
    Gives (move source dest (s.books.balance source) amount) s fun r s' =>
      r = .ok () ∧ s.Turned (s.books.move source dest amount) s' ∧
        (s'.overflowed = false → s.books.MoveFits source dest amount) := by
  unfold move
  rw [gives_setU128_bind, gives_getBalance_bind, gives_add_bind, gives_setU128]
  have hfits := Frame.overflowed_noted
  refine ⟨rfl, ⟨?_, rfl, rfl, rfl, ?_⟩, ?_⟩
  · simp [Books.put, Books.move]
  · intro h
    exact ((hfits _ _ _).mp h).1
  · intro h
    have hsum := ((hfits _ _ _).mp h).2
    simpa [Books.put, Books.MoveFits] using hsum

/-- What a method makes of a frame: a trap, or a change from the list. -/
def Does (method : Option Method) (s : Frame) (r : Except Exit Bytes) (s' : Frame) : Prop :=
  (∃ msg, r = .error (.trapped msg)) ∨
    (s'.overflowed = false →
      Booked s.ctx s.books method s'.books s'.pendingCalls s'.nativeTransfers)

/-- A method that answers with `data`, at its end or early. -/
def Answered (r : Except Exit Bytes) (data : Bytes) : Prop :=
  r = .ok data ∨ r = .error (.returned data)

theorem not_answered_returned {msg : Bytes} (hne : (msg == data) = false) :
    ¬ Answered (.error (.returned msg)) data := by
  rintro (h | h)
  · cases h
  · cases h
    exact absurd hne (by simp)

theorem not_answered_trapped :
    ¬ Answered (.error (.trapped msg)) data := by
  rintro (h | h)
  · cases h
  · cases h

/-- A call that has queued nothing. -/
structure Frame.Fresh (s : Frame) : Prop where
  calls : s.pendingCalls = []
  transfers : s.nativeTransfers = []

section Outcomes

variable {method : Option Method} {s s₁ s' : Frame} {r : Except Exit Bytes} {b : Books}

theorem Books.Configured.refl (b : Books) : b.Configured b := ⟨rfl, .inl rfl⟩

/-- Books that were turned without queueing anything. -/
theorem Does.turned (hs : s.Fresh) (h : s.Turned b s')
    (hb : s'.overflowed = false → Booked s.ctx s.books method b [] []) : Does method s r s' := by
  refine .inr fun hfits => ?_
  rw [h.books, h.calls, h.transfers, hs.calls, hs.transfers]
  exact hb hfits

theorem Does.same (hs : s.Fresh) : Does method s r s :=
  Does.turned hs (.refl s) fun _ => .configured (.refl _)

/-! Early exits, which leave the frame as it is. -/

theorem Frame.Fresh.failIf (hs : s.Fresh) {c : Prop} [Decidable c]
    {next : Unit → Code Bytes} (h : ¬ c → Gives (next ()) s (Does method s)) :
    Gives (failIf c msg >>= next) s (Does method s) :=
  gives_failIf_bind.mpr ⟨fun _ => .same hs, h⟩

theorem Frame.Fresh.orFail (hs : s.Fresh) {α : Type} {o : Option α}
    {next : α → Code Bytes} (h : ∀ a, o = some a → Gives (next a) s (Does method s)) :
    Gives (orFail o msg >>= next) s (Does method s) :=
  gives_orFail_bind.mpr ⟨fun _ => .same hs, h⟩

theorem Does.trapped : Does method s (.error (.trapped msg)) s' := .inl ⟨msg, rfl⟩

/-- Rewards were taken in and nothing else happened. -/
theorem Does.synced (hs : s.Fresh) (h : s.Turned (s.books.sync s.ctx) s')
    (hfits : s'.overflowed = false → s.books.SyncFits s.ctx) : Does method s r s' :=
  Does.turned hs h fun hf => .synced (hfits hf) (.nothing method)

end Outcomes

theorem doTransfer_does {s : Frame} (hs : s.Fresh) (args : Bytes) :
    Gives (doTransfer args) s (Does (some .transfer) s) := by
  unfold doTransfer
  rw [gives_caller_bind]
  refine hs.orFail fun dest _ => ?_
  refine hs.orFail fun amount _ => ?_
  rw [gives_getBalance_bind]
  refine hs.failIf fun hfunds => ?_
  refine gives_bind_ok (move_gives s _ dest amount) fun s₁ h => ?_
  rw [gives_emit_bind, gives_ok]
  refine Does.turned hs ⟨h.1.books, h.1.ctx, h.1.calls, h.1.transfers, h.1.fits⟩ fun hf => ?_
  exact .moved (BitVec.not_lt.mp hfunds) (h.2 hf)

theorem doTransferFrom_does {s : Frame} (hs : s.Fresh) (args : Bytes) :
    Gives (doTransferFrom args) s (Does (some .transferFrom) s) := by
  unfold doTransferFrom
  rw [gives_caller_bind]
  refine hs.orFail fun source _ => ?_
  refine hs.orFail fun dest _ => ?_
  refine hs.orFail fun amount _ => ?_
  rw [gives_getAllowance_bind]
  refine hs.failIf fun hallowed => ?_
  rw [gives_getBalance_bind]
  refine hs.failIf fun hfunds => ?_
  refine gives_bind_ok (move_gives s source dest amount) fun s₁ h => ?_
  rw [gives_setU128_bind, gives_emit_bind, gives_ok]
  refine Does.turned hs ⟨?_, h.1.ctx, h.1.calls, h.1.transfers, h.1.fits⟩ fun hf =>
    .movedFrom (BitVec.not_lt.mp hallowed) (BitVec.not_lt.mp hfunds) (h.2 hf)
  simp [h.1.books, Books.put, Books.allow, Books.move]

theorem doApprove_does {s : Frame} (hs : s.Fresh) (args : Bytes) :
    Gives (doApprove args) s (Does (some .approve) s) := by
  unfold doApprove
  rw [gives_caller_bind]
  refine hs.orFail fun spender _ => ?_
  refine hs.orFail fun amount _ => ?_
  rw [gives_setU128_bind, gives_emit_bind, gives_ok]
  refine Does.turned hs ⟨?_, rfl, rfl, rfl, id⟩ fun _ => .approved spender amount
  simp [Books.put, Books.allow]

/-! ## Settings -/

/-- Writes that only change settings. -/
theorem Does.configured {s s' : Frame} {b : Books}
    (hs : s.Fresh) (h : s.Turned b s') (hb : s.books.Configured b) : Does method s r s' :=
  Does.turned hs h fun _ => .configured hb

theorem gives_requireOwner_bind {β : Type} {s : Frame} {next : Unit → Code β}
    {Post : Except Exit β → Frame → Prop} :
    Gives (requireOwner >>= next) s Post ↔
      (s.ctx.caller ≠ s.books.owner → Post (.error (.returned (ascii "err:unauthorized"))) s) ∧
        (s.ctx.caller = s.books.owner → Gives (next ()) s Post) := by
  unfold requireOwner
  rw [bind_assoc, gives_caller_bind, bind_assoc, gives_getOwner_bind,
    gives_failIf_bind, not_ne_iff]

theorem Frame.Fresh.requireOwner {s : Frame} (hs : s.Fresh) {next : Unit → Code Bytes}
    (h : s.ctx.caller = s.books.owner → Gives (next ()) s (Does method s)) :
    Gives (requireOwner >>= next) s (Does method s) :=
  gives_requireOwner_bind.mpr ⟨fun _ => .same hs, h⟩

theorem doInit_does {s : Frame} (hs : s.Fresh) (args : Bytes) :
    Gives (doInit args) s (Does (some .init) s) := by
  unfold doInit
  rw [gives_getOwner_bind]
  refine hs.failIf fun _ => ?_
  refine hs.orFail fun treasury _ => ?_
  refine hs.orFail fun oracle _ => ?_
  rw [gives_caller_bind, gives_set_bind, gives_set_bind, gives_set_bind, gives_setU64_bind,
    gives_setU64_bind, gives_emit_bind, gives_ok]
  refine Does.configured hs ⟨rfl, rfl, rfl, rfl, id⟩ ?_
  simp only [Frame.books_emitted, Frame.books_put, Books.put, readU64_le64, Option.getD_some]
  have hcap : defaultFeeBps ≤ feeBpsHardCap := by decide
  exact ⟨rfl, .inr hcap⟩

theorem doSetOperator_does {s : Frame} (hs : s.Fresh) (args : Bytes) :
    Gives (doSetOperator args) s (Does (some .setOperator) s) := by
  unfold doSetOperator
  refine hs.requireOwner fun _ => ?_
  refine hs.orFail fun i _ => ?_
  refine hs.orFail fun op _ => ?_
  refine hs.failIf fun _ => ?_
  rw [gives_getOp_bind]
  refine (ReadOnly.ite (.hasActivePosition _) (.pure _)).gives fun _ => ?_
  refine hs.failIf fun _ => ?_
  rw [gives_set_bind, gives_emit_bind, gives_ok]
  refine Does.configured hs ⟨rfl, rfl, rfl, rfl, id⟩ ?_
  simp only [Frame.books_emitted, Frame.books_put, Books.put]
  exact ⟨rfl, .inl rfl⟩

theorem doRemoveOperator_does {s : Frame} (hs : s.Fresh) (args : Bytes) :
    Gives (doRemoveOperator args) s (Does (some .removeOperator) s) := by
  unfold doRemoveOperator
  refine hs.requireOwner fun _ => ?_
  refine hs.orFail fun i _ => ?_
  refine ((ReadOnly.get _).map _).gives fun _ => ?_
  refine hs.orFail fun op _ => ?_
  refine (ReadOnly.hasActivePosition op).gives fun _ => ?_
  refine hs.failIf fun _ => ?_
  rw [gives_set_bind, gives_ok]
  refine Does.configured hs ⟨rfl, rfl, rfl, rfl, id⟩ ?_
  simp only [Frame.books_put, Books.put]
  exact ⟨rfl, .inl rfl⟩

theorem doAdminSetOpCount_does {s : Frame} (hs : s.Fresh) (args : Bytes) :
    Gives (doAdminSetOpCount args) s (Does (some .setOpCount) s) := by
  unfold doAdminSetOpCount
  refine hs.requireOwner fun _ => ?_
  refine hs.orFail fun n _ => ?_
  refine hs.failIf fun _ => ?_
  rw [gives_getOpCount_bind]
  refine (ReadOnly.anyPosition _ _).gives fun _ => ?_
  refine hs.failIf fun _ => ?_
  rw [gives_setU64_bind, gives_ok]
  refine Does.configured hs ⟨rfl, rfl, rfl, rfl, id⟩ ?_
  simp only [Frame.books_put, Books.put]
  exact ⟨rfl, .inl rfl⟩

/-- A limit in basis points: written only when it is within bounds. -/
theorem setBps_does {s : Frame} (hs : s.Fresh) (field : Field)
    (limit : U64) (msg : String) (args : Bytes)
    (hfield : ∀ v, v ≤ limit → s.books.Configured (s.books.put (le64 v) (.field field))) :
    Gives (setBps field limit msg args) s (Does method s) := by
  unfold setBps
  refine hs.requireOwner fun _ => ?_
  refine hs.orFail fun v _ => ?_
  refine hs.failIf fun hv => ?_
  rw [gives_setU64_bind, gives_ok]
  exact Does.configured hs ⟨Frame.books_put _ _ _, rfl, rfl, rfl, id⟩ (hfield v (BitVec.not_lt.mp hv))

theorem doSetOpCapBps_does {s : Frame} (hs : s.Fresh) (args : Bytes) :
    Gives (doSetOpCapBps args) s (Does (some .setOpCapBps) s) :=
  setBps_does hs _ _ _ args fun _ _ => ⟨rfl, .inl rfl⟩

theorem doSetProtocolFeeBps_does {s : Frame} (hs : s.Fresh) (args : Bytes) :
    Gives (doSetProtocolFeeBps args) s (Does (some .setProtocolFeeBps) s) := by
  refine setBps_does hs _ _ _ args fun v hv => ⟨rfl, .inr ?_⟩
  simp only [Books.put, readU64_le64, Option.getD_some]
  exact hv

theorem setRole_does {s : Frame} (hs : s.Fresh) (field : Field)
    (args : Bytes) (hfield : ∀ v, s.books.Configured (s.books.put v (.field field))) :
    Gives (setRole field args) s (Does method s) := by
  unfold setRole
  refine hs.requireOwner fun _ => ?_
  refine hs.orFail fun account _ => ?_
  rw [gives_set_bind, gives_ok]
  exact Does.configured hs ⟨Frame.books_put _ _ _, rfl, rfl, rfl, id⟩ (hfield _)

theorem setPaused_does {s : Frame} (hs : s.Fresh) (flag : UInt8)
    (topic : String) : Gives (setPaused flag topic) s (Does method s) := by
  unfold setPaused
  refine hs.requireOwner fun _ => ?_
  rw [gives_set_bind, gives_emit_bind, gives_ok]
  exact Does.configured hs ⟨Frame.books_put _ _ _, rfl, rfl, rfl, id⟩ ⟨rfl, .inl rfl⟩

theorem doReportSlash_does {s : Frame} (hs : s.Fresh) (args : Bytes) :
    Gives (doReportSlash args) s (Does (some .reportSlash) s) := by
  unfold doReportSlash
  rw [gives_caller_bind, gives_getSlashOracle_bind]
  refine hs.failIf fun horacle => ?_
  refine hs.orFail fun op _ => ?_
  refine hs.orFail fun realized _ => ?_
  rw [gives_getOpStake_bind]
  refine hs.failIf fun hloss => ?_
  rw [gives_setU128_bind, gives_getTotalPooled_bind, gives_setU128_bind,
    gives_emit_bind, gives_ok]
  refine Does.turned hs ⟨?_, rfl, rfl, rfl, id⟩ fun _ =>
    .slashed (BitVec.not_le.mp hloss) (not_ne_iff.mp fun h => horacle (.inr h))
  simp [Books.put]

/-! ## Taking rewards in first -/

section Synced

variable {s : Frame} {method : Option Method}

/-- A method that starts with the rewards continues from the new books. -/
theorem gives_syncRewards_bind {β : Type} {next : Unit → Code β}
    {Post : Except Exit β → Frame → Prop}
    (h : ∀ s₁, s.Turned (s.books.sync s.ctx) s₁ →
      (s₁.overflowed = false → s.books.SyncFits s.ctx) → Gives (next ()) s₁ Post) :
    Gives (syncRewards >>= next) s Post :=
  gives_bind_ok (syncRewards_gives s) fun s₁ h₁ => h s₁ h₁.1 h₁.2

theorem doPoke_does (hs : s.Fresh) : Gives doPoke s (Does (some .poke) s) := by
  unfold doPoke
  refine gives_syncRewards_bind fun s₁ hturned hfits => ?_
  rw [gives_ok]
  exact Does.synced hs hturned hfits

/-- What follows the rewards is an action. -/
theorem Does.acted {s₁ s' : Frame}
    (hfits : s₁.overflowed = false → s.books.SyncFits s.ctx)
    (h : s'.overflowed = false → s₁.overflowed = false ∧
      Acted s.ctx (s.books.sync s.ctx) method s'.books s'.pendingCalls s'.nativeTransfers) :
    Does method s r s' :=
  .inr fun hf => .synced (hfits (h hf).1) (h hf).2

/-! ## Deposits -/

theorem Books.supply_sync_zero {b : Books} (h : b.supply = 0#128) :
    (b.sync ctx).supply = 0#128 := by
  have hmint : b.rewardMint ctx = 0#128 := by
    rw [Books.rewardMint, h, feeMint, if_neg (by simp)]
  change b.supply + b.rewardMint ctx = 0#128
  rw [h, hmint]
  rfl

theorem Books.supply_sync_ne_zero {b : Books} (h : b.supply ≠ 0#128)
    (hfits : b.SyncFits ctx) : (b.sync ctx).supply ≠ 0#128 := by
  intro hzero
  have hsum : (b.sync ctx).supply.toNat = b.supply.toNat + (b.rewardMint ctx).toNat :=
    hfits.mint.supply.toNat_add
  rw [hzero] at hsum
  refine h (BitVec.eq_of_toNat_eq ?_)
  change b.supply.toNat = 0
  have : (0#128).toNat = 0 := rfl
  omega

theorem pickOperator_gives (s : Frame) (amount : U128) :
    Gives (pickOperator amount) s fun r s' =>
      ∃ op cursor, r = .ok op ∧ s.Turned { s.books with opCursor := cursor } s' := by
  unfold pickOperator
  refine (ReadOnly.selectOperator amount).gives fun chosen => ?_
  dsimp only
  rw [gives_ite_bind]
  refine ⟨fun _ => ?_, fun _ => ?_⟩
  · rw [gives_setU64_bind, gives_pure]
    refine ⟨_, chosen.2, rfl, ⟨?_, rfl, rfl, rfl, id⟩⟩
    simp [Books.put]
  · rw [gives_pure_bind, gives_pure]
    exact ⟨_, _, rfl, .refl s⟩

/-- Tokens for a deposit, the first one of all or a later one. -/
theorem depositMint_gives (s : Frame) (value : U128) (first : Bool)
    (hfirst : first = true → s.books.supply = 0#128 ∧ minFirstDeposit ≤ value) :
    Gives (depositMint value s.books.supply s.books.pooled first) s fun r s' =>
      (∃ msg, r = .error (.trapped msg)) ∨
        ∃ b₁ amount, r = .ok amount ∧ s.Turned b₁ s' ∧ (first = false → b₁ = s.books) ∧
          (s'.overflowed = false → (first = true ∨ s.books.supply ≠ 0#128 ∧ amount ≠ 0#128) →
            DepositMint value s.books b₁ amount) := by
  cases first with
  | true =>
    obtain ⟨hsupply, hvalue⟩ := hfirst rfl
    unfold depositMint
    rw [if_pos rfl, gives_getBalance_bind, gives_add_bind, gives_setU128_bind,
      gives_setU128_bind, gives_emit_bind, gives_pure]
    refine .inr ⟨s.books.mint deadAddress bootstrapBurn, _, rfl, ⟨?_, rfl, rfl, rfl, ?_⟩, nofun, ?_⟩
    · simp only [Frame.books_emitted, Frame.books_put, Frame.books_noted, Books.put, Books.mint,
        readU128_le128, Option.getD_some, hsupply, BitVec.zero_add]
    · intro h
      exact ((Frame.overflowed_noted _ _ _).mp h).1
    · intro h _
      exact .first hsupply hvalue ((Frame.overflowed_noted _ _ _).mp h).2
  | false =>
    unfold depositMint
    rw [if_neg Bool.false_ne_true, gives_trapIf_bind]
    refine ⟨fun _ => .inl ⟨_, rfl⟩, fun hpool => ?_⟩
    rw [gives_pure]
    refine .inr ⟨s.books, _, rfl, .refl s, fun _ => rfl, fun _ h => ?_⟩
    obtain h | ⟨hsupply, hmint⟩ := h
    · cases h
    · exact .later hsupply hpool hmint

theorem DepositMint.lastSeen {value amount : U128} {b b₁ : Books}
    (h : DepositMint value b b₁ amount) : b₁.lastSeen = b.lastSeen := by
  cases h with
  | first => rw [Books.mint]
  | later => exact Eq.refl _

/-- A deposit that answers `ok` was made. -/
theorem doDeposit_gives (hs : s.Fresh) :
    Gives doDeposit s fun r s' =>
      Does (some .deposit) s r s' ∧
        (Answered r (ascii "ok") → s'.overflowed = false →
          ∃ op, s.books.SyncFits s.ctx ∧ Deposited s.ctx (s.books.sync s.ctx) op s'.books) := by
  have hrefused : ∀ {msg data : Bytes} {P : Prop}, (msg == data) = false →
      Answered (.error (.returned msg)) data → P :=
    fun hne h => absurd h (not_answered_returned hne)
  have htrapped : ∀ {msg : String} {data : Bytes} {P : Prop},
      Answered (.error (.trapped msg)) data → P :=
    fun h => absurd h not_answered_trapped
  unfold doDeposit
  rw [gives_isPaused_bind, gives_failIf_bind]
  refine ⟨fun _ => ⟨.same hs, hrefused (by decide)⟩, fun _ => ?_⟩
  rw [gives_msgValue_bind, gives_failIf_bind]
  refine ⟨fun _ => ⟨.same hs, hrefused (by decide)⟩, fun hvalue => ?_⟩
  rw [gives_selfBalance_bind]
  dsimp only
  rw [gives_failIf_bind]
  refine ⟨fun _ => ⟨.same hs, hrefused (by decide)⟩, fun hdelegable => ?_⟩
  rw [gives_getTotalSupply_bind, gives_failIf_bind]
  refine ⟨fun _ => ⟨.same hs, hrefused (by decide)⟩, fun hleast => ?_⟩
  rw [gives_getOpCount_bind, gives_failIf_bind]
  refine ⟨fun _ => ⟨.same hs, hrefused (by decide)⟩, fun _ => ?_⟩
  refine ((ReadOnly.selectOperator _).map _).gives fun _ => ?_
  rw [gives_failIf_bind]
  refine ⟨fun _ => ⟨.same hs, hrefused (by decide)⟩, fun _ => ?_⟩
  refine gives_syncRewards_bind fun s₁ hturned hfits => ?_
  rw [gives_getTotalSupply_bind, gives_getTotalPooled_bind]
  have hfirst : decide (s.books.supply = 0#128) = true →
      s₁.books.supply = 0#128 ∧ minFirstDeposit ≤ s.ctx.msgValue := by
    intro h
    refine ⟨?_, BitVec.not_lt.mp fun hlt => hleast ⟨h, hlt⟩⟩
    rw [hturned.books]
    exact Books.supply_sync_zero (of_decide_eq_true h)
  refine (depositMint_gives s₁ _ _ hfirst).bind (fun amount s₂ hmid => ?_) (fun e s₂ hmid => ?_)
  case refine_2 =>
    obtain ⟨msg, htrap⟩ | ⟨_, _, hok, _⟩ := hmid
    · cases htrap
      exact ⟨.trapped, htrapped⟩
    · cases hok
  obtain ⟨_, htrap⟩ | ⟨b₁, amount', hok, hturned₂, hlater, hmint⟩ := hmid
  · cases htrap
  cases hok
  rw [gives_failIf_bind]
  refine ⟨fun hzero => ⟨?_, hrefused (by decide)⟩, fun hzero => ?_⟩
  · have hsame := hlater hzero.2
    rw [hsame, hturned.books] at hturned₂
    exact Does.synced hs (hturned.trans hturned₂) fun h => hfits (hturned₂.fits h)
  refine (pickOperator_gives s₂ _).bind (fun op s₃ hmid => ?_) (fun e s₃ hmid => ?_)
  case refine_2 =>
    obtain ⟨_, _, hok, _⟩ := hmid
    cases hok
  obtain ⟨op', cursor, hok, hturned₃⟩ := hmid
  cases hok
  simp only [gives_caller_bind, gives_getBalance_bind, gives_add_bind, gives_setU128_bind,
    gives_getTotalSupply_bind, gives_getOpStake_bind, gives_queueStaking_bind]
  refine ⟨fun _ => ⟨.trapped, htrapped⟩, fun _ => ?_⟩
  unfold lowerLastSeen
  rw [bind_assoc, gives_getLastBalanceSeen_bind, gives_setU128_bind, gives_emit_bind,
    gives_emit_bind, gives_ok]
  have hctx : s₃.ctx = s.ctx := hturned₃.ctx.trans (hturned₂.ctx.trans hturned.ctx)
  simp only [Frame.books_put, Frame.books_noted, Frame.books_queueing, hturned₃.books,
    hturned₂.books, Books.put, readU128_le128, Option.getD_some, hctx, hturned.books]
  generalize hs' : Frame.emitted _ _ _ = s'
  -- The sums of the last part fit, and with them the deposit is as listed.
  have hdone : s'.overflowed = false →
      s₁.overflowed = false ∧ Deposited s.ctx (s.books.sync s.ctx) op s'.books := by
    intro hf
    simp only [← hs', Frame.overflowed_emitted, Frame.overflowed_put, Frame.overflowed_queueing,
      Frame.overflowed_noted] at hf
    obtain ⟨⟨⟨⟨hf₃, hheld⟩, hsupply⟩, hpooled⟩, -⟩ := hf
    have hf₂ := hturned₃.fits hf₃
    have hf₁ := hturned₂.fits hf₂
    have hdeposit : DepositMint s.ctx.msgValue (s.books.sync s.ctx) b₁ amount := by
      rw [← hturned.books]
      refine hmint hf₂ ?_
      by_cases hzero' : s.books.supply = 0#128
      · exact .inl (decide_eq_true hzero')
      · refine .inr ⟨?_, fun h => hzero ⟨h, decide_eq_false hzero'⟩⟩
        rw [hturned.books]
        exact Books.supply_sync_ne_zero hzero' (hfits hf₁)
    have hbooks := @Deposited.intro s.ctx _ op b₁ amount cursor hvalue hdelegable hdeposit
      ⟨hheld, hsupply⟩ hpooled
    refine ⟨hf₁, ?_⟩
    convert hbooks using 1
    simp only [← hs', Frame.books_emitted, Frame.books_put, Frame.books_noted,
      Frame.books_queueing, hturned₃.books, hturned₂.books, Books.put, readU128_le128,
      Option.getD_some, hdeposit.lastSeen]
    rfl
  refine ⟨Does.acted hfits fun hf => ⟨(hdone hf).1, ?_⟩, fun _ hf => ⟨op, hfits (hdone hf).1, (hdone hf).2⟩⟩
  have hcalls : s'.pendingCalls = [delegateCall op (delegable s.ctx)] := by
    simp only [← hs', Frame.pendingCalls_emitted, Frame.pendingCalls_put,
      Frame.pendingCalls_noted, Frame.pendingCalls_queueing, hturned₃.calls, hturned₂.calls,
      hturned.calls, hs.calls]
    rfl
  have htransfers : s'.nativeTransfers = [] := by
    simp only [← hs', Frame.nativeTransfers_emitted, Frame.nativeTransfers_put,
      Frame.nativeTransfers_noted, Frame.nativeTransfers_queueing, hturned₃.transfers,
      hturned₂.transfers, hturned.transfers, hs.transfers]
  rw [hcalls, htransfers]
  exact .deposited (hdone hf).2

/-! ## Withdrawal requests -/

omit s method in
/-- One term of a sum is replaced. -/
theorem sum_update {ι α : Type} [Fintype ι] [DecidableEq ι] (g : α → Nat) (f : ι → α) (i : ι)
    (v : α) : ∑ x, g (Function.update f i v x) + g (f i) = ∑ x, g (f x) + g v := by
  have hupdate : (fun x => g (Function.update f i v x)) =
      Function.update (fun x => g (f x)) i (g v) :=
    (Function.comp_update g f i v)
  have herase := Finset.sum_erase_add Finset.univ (fun x => g (f x)) (Finset.mem_univ i)
  rw [hupdate, Finset.sum_update_of_mem (Finset.mem_univ i), Finset.sdiff_singleton_eq_erase]
  omega

omit s method in
theorem sumOf_update (f : AccountId → U128) (a : AccountId) (v : U128) :
    sumOf (Function.update f a v) + (f a).toNat = sumOf f + v.toNat :=
  sum_update BitVec.toNat f a v

omit s method in
/-- The stake behind `n` slots from slot `i` on; an operator in two slots
counts twice. -/
def slotStake (op : U64 → AccountId) (stake : AccountId → U128) : Nat → U64 → Nat
  | 0, _ => 0
  | n + 1, i =>
      (if op i = Hash.zero then 0 else (stake (op i)).toNat) + slotStake op stake n (i + 1#64)

theorem totalOpStake_gives (n : Nat) : ∀ (s : Frame) (i : U64) (total : U128),
    Gives (totalOpStake n i total) s fun r s' =>
      ∃ total', r = .ok total' ∧ s.Turned s.books s' ∧
        (s'.overflowed = false →
          total'.toNat = total.toNat + slotStake s.books.op s.books.opStake n i) := by
  induction n with
  | zero => exact fun s i total => ⟨total, rfl, .refl s, fun _ => rfl⟩
  | succ n ih =>
    intro s i total
    unfold totalOpStake
    rw [gives_getOp_bind, gives_ite]
    refine ⟨fun hop => ?_, fun hop => ?_⟩
    · refine (ih s (i + 1#64) total).mono fun r s' h => ?_
      rwa [slotStake, if_pos hop, Nat.zero_add]
    · rw [gives_getOpStake_bind, gives_saturatingAdd_bind]
      refine (ih _ (i + 1#64) _).mono fun r s' h => ?_
      obtain ⟨total', hr, hturned, hsum⟩ := h
      have hfits := fun hf => (Frame.overflowed_noted _ _ _).mp (hturned.fits hf)
      refine ⟨total', hr, ⟨hturned.books, hturned.ctx, hturned.calls, hturned.transfers,
        fun hf => (hfits hf).1⟩, fun hf => ?_⟩
      rw [hsum hf, (hfits hf).2.toNat_satAdd, slotStake, if_neg hop, Nat.add_assoc]
      rfl

theorem raisePending_gives (s : Frame) (op : AccountId) (amount : U128) :
    Gives (raisePending op amount) s fun r s' =>
      ∃ pendingUndelegate, r = .ok () ∧
        s.Turned { s.books with pendingUndelegate := pendingUndelegate } s' ∧
        (s'.overflowed = false →
          sumOf pendingUndelegate = sumOf s.books.pendingUndelegate + amount.toNat) := by
  unfold raisePending
  rw [gives_getPendingUndelegate_bind, gives_add_bind, gives_setU128]
  have hfits := Frame.overflowed_noted s (s.books.pendingUndelegate op) amount
  refine ⟨Function.update s.books.pendingUndelegate op (s.books.pendingUndelegate op + amount), rfl,
    ⟨?_, rfl, rfl, rfl, fun hf => (hfits.mp hf).1⟩, fun hf => ?_⟩
  · simp only [Frame.books_put, Frame.books_noted, Books.put, readU128_le128, Option.getD_some]
  · have hsum := sumOf_update s.books.pendingUndelegate op
      (s.books.pendingUndelegate op + amount)
    have hadd := (hfits.mp hf).2.toNat_add
    omega

/-- Shares of `owed` by stake: what is allocated is entered, stays within
the part of `owed` that the slots stand for, and has a last operator as soon
as there is stake. -/
theorem allocate_gives (owed total : U128) (n : Nat) :
    ∀ (s : Frame) (i : U64) (allocated : U128) (lastOp : AccountId),
    Gives (allocate owed total n i allocated lastOp) s fun r s' =>
      ∃ allocated' lastOp' pendingUndelegate, r = .ok (allocated', lastOp') ∧
        s.Turned { s.books with pendingUndelegate := pendingUndelegate } s' ∧
        (s'.overflowed = false →
          sumOf pendingUndelegate + allocated.toNat =
              sumOf s.books.pendingUndelegate + allocated'.toNat ∧
            allocated'.toNat * total.toNat ≤ allocated.toNat * total.toNat +
              owed.toNat * slotStake s.books.op s.books.opStake n i) ∧
        (lastOp ≠ Hash.zero ∨ 0 < slotStake s.books.op s.books.opStake n i →
          lastOp' ≠ Hash.zero) := by
  induction n with
  | zero =>
    intro s i allocated lastOp
    refine ⟨allocated, lastOp, _, rfl, .refl s, fun _ => ⟨rfl, Nat.le_refl _⟩, fun h => ?_⟩
    obtain h | h := h
    · exact h
    · exact absurd h (Nat.lt_irrefl 0)
  | succ n ih =>
    intro s i allocated lastOp
    unfold allocate
    rw [gives_getOp_bind, gives_ite]
    refine ⟨fun hop => ?_, fun hop => ?_⟩
    · refine (ih s (i + 1#64) allocated lastOp).mono fun r s' h => ?_
      rwa [slotStake, if_pos hop, Nat.zero_add]
    rw [gives_getOpStake_bind, gives_ite, slotStake, if_neg hop]
    refine ⟨fun hstake => ?_, fun hstake => ?_⟩
    · refine (ih s (i + 1#64) allocated lastOp).mono fun r s' h => ?_
      rw [hstake]
      rwa [show (0#128).toNat = 0 from rfl, Nat.zero_add]
    dsimp only
    have hshare : (satMul owed (s.books.opStake (s.books.op i)) / total).toNat * total.toNat ≤
        owed.toNat * (s.books.opStake (s.books.op i)).toNat := by
      rw [BitVec.toNat_udiv, toNat_satMul]
      exact (Nat.div_mul_le_self _ _).trans (Nat.min_le_left _ _)
    generalize satMul owed (s.books.opStake (s.books.op i)) / total = share at hshare ⊢
    generalize s.books.opStake (s.books.op i) = stake at hshare ⊢
    rw [gives_ite]
    refine ⟨fun hpos => ?_, fun hpos => ?_⟩
    · refine (raisePending_gives s _ share).bind (fun _ s₁ hmid => ?_) (fun e s₁ hmid => ?_)
      case refine_2 =>
        obtain ⟨_, hok, _⟩ := hmid
        cases hok
      obtain ⟨pending₁, -, hturned₁, hsum₁⟩ := hmid
      rw [gives_saturatingAdd_bind]
      refine (ih _ (i + 1#64) _ _).mono fun r s' h => ?_
      obtain ⟨allocated', lastOp', pending₂, hr, hturned₂, hsum₂, hlast⟩ := h
      have hfits := fun hf => (Frame.overflowed_noted _ _ _).mp (hturned₂.fits hf)
      simp only [Frame.books_noted, hturned₁.books] at hsum₂ hlast
      refine ⟨allocated', lastOp', pending₂, hr, ⟨?_, hturned₂.ctx.trans hturned₁.ctx,
        hturned₂.calls.trans hturned₁.calls, hturned₂.transfers.trans hturned₁.transfers,
        fun hf => hturned₁.fits (hfits hf).1⟩, fun hf => ?_, fun _ => hlast (.inl hop)⟩
      · rw [hturned₂.books, Frame.books_noted, hturned₁.books]
      · obtain ⟨heq, hle⟩ := hsum₂ hf
        have hadd := (hfits hf).2.toNat_satAdd
        rw [hadd] at heq hle
        refine ⟨?_, ?_⟩
        · have := hsum₁ (hfits hf).1
          omega
        · calc allocated'.toNat * total.toNat
              ≤ (allocated.toNat + share.toNat) * total.toNat + owed.toNat *
                  slotStake s.books.op s.books.opStake n (i + 1#64) := hle
            _ ≤ _ := by
                rw [Nat.add_mul, Nat.mul_add]
                omega
    · refine (ih s (i + 1#64) allocated _).mono fun r s' h => ?_
      obtain ⟨allocated', lastOp', pending₁, hr, hturned, hsum, hlast⟩ := h
      refine ⟨allocated', lastOp', pending₁, hr, hturned, fun hf => ⟨(hsum hf).1, ?_⟩,
        fun _ => hlast (.inl hop)⟩
      refine (hsum hf).2.trans ?_
      rw [Nat.mul_add]
      omega

/-- The whole of `owed` is allocated when `total` is the stake behind the
slots, and not zero. -/
theorem allocateAll_gives (s : Frame) (owed total : U128) (count : U64) (hpos : total ≠ 0#128) :
    Gives (allocateAll owed total count) s fun r s' =>
      ∃ pendingUndelegate, r = .ok () ∧
        s.Turned { s.books with pendingUndelegate := pendingUndelegate } s' ∧
        (s'.overflowed = false →
          total.toNat = slotStake s.books.op s.books.opStake count.toNat 0#64 →
          sumOf pendingUndelegate = sumOf s.books.pendingUndelegate + owed.toNat) := by
  have hstake : 0 < total.toNat := by
    refine Nat.pos_of_ne_zero fun h => hpos (BitVec.eq_of_toNat_eq ?_)
    rw [h]
    rfl
  unfold allocateAll
  refine (allocate_gives owed total _ s 0#64 0#128 Hash.zero).bind (fun res s₁ hmid => ?_)
    (fun e s₁ hmid => ?_)
  case refine_2 =>
    obtain ⟨_, _, _, hok, _⟩ := hmid
    cases hok
  obtain ⟨allocated, lastOp, pending₁, hok, hturned₁, hsum₁, hlast⟩ := hmid
  cases hok
  have hle : s₁.overflowed = false →
      total.toNat = slotStake s.books.op s.books.opStake count.toNat 0#64 →
      allocated.toNat ≤ owed.toNat ∧
        sumOf pending₁ = sumOf s.books.pendingUndelegate + allocated.toNat := by
    intro hf htotal
    obtain ⟨heq, hmul⟩ := hsum₁ hf
    rw [← htotal, show (0#128).toNat = 0 from rfl, Nat.zero_mul, Nat.zero_add] at hmul
    exact ⟨Nat.le_of_mul_le_mul_right hmul hstake, heq⟩
  dsimp only
  rw [gives_ite]
  refine ⟨fun hrest => ?_, fun hrest => ?_⟩
  · refine (raisePending_gives s₁ lastOp (owed - allocated)).mono fun r s' h => ?_
    obtain ⟨pending₂, hr, hturned₂, hsum₂⟩ := h
    rw [hturned₁.books] at hturned₂ hsum₂
    refine ⟨pending₂, hr, hturned₁.trans hturned₂, fun hf htotal => ?_⟩
    obtain ⟨hle₁, heq⟩ := hle (hturned₂.fits hf) htotal
    rw [hsum₂ hf, heq, BitVec.toNat_sub_of_le (BitVec.le_of_lt hrest.1)]
    omega
  · rw [gives_pure]
    refine ⟨pending₁, rfl, hturned₁, fun hf htotal => ?_⟩
    obtain ⟨hle₁, heq⟩ := hle hf htotal
    have hlast' : lastOp ≠ Hash.zero := by
      refine hlast (.inr ?_)
      rw [← htotal]
      exact hstake
    have hge : owed ≤ allocated := BitVec.not_lt.mp fun hlt => hrest ⟨hlt, hlast'⟩
    rw [heq, Nat.le_antisymm hle₁ (BitVec.le_def.mp hge)]

theorem Books.balance_sync_le (b : Books) (ctx : HostContext) (hfits : b.SyncFits ctx)
    (a : AccountId) : (b.balance a).toNat ≤ ((b.sync ctx).balance a).toNat := by
  change _ ≤ (Function.update b.balance b.treasury (b.balance b.treasury + b.rewardMint ctx) a).toNat
  by_cases ha : a = b.treasury
  · subst ha
    rw [Function.update_self, hfits.mint.balance.toNat_add]
    exact Nat.le_add_right _ _
  · rw [Function.update_of_ne ha]

theorem doRequestWithdrawal_does (hs : s.Fresh) (args : Bytes) :
    Gives (doRequestWithdrawal args) s (Does (some .requestWithdrawal) s) := by
  unfold doRequestWithdrawal
  rw [gives_isPaused_bind]
  refine hs.failIf fun _ => ?_
  refine hs.orFail fun burn _ => ?_
  refine hs.failIf fun _ => ?_
  rw [gives_caller_bind, gives_getBalance_bind]
  refine hs.failIf fun hfunds => ?_
  rw [gives_getTotalSupply_bind, gives_getTotalPooled_bind]
  refine hs.failIf fun hempty => ?_
  refine hs.failIf fun _ => ?_
  rw [gives_getOpCount_bind]
  refine (totalOpStake_gives _ s 0#64 0#128).bind (fun stake s₀ hmid => ?_) (fun e s₀ hmid => ?_)
  case refine_2 =>
    obtain ⟨_, hok, _⟩ := hmid
    cases hok
  obtain ⟨_, hok, hturned₀, hstake⟩ := hmid
  cases hok
  rw [gives_failIf_bind]
  refine ⟨fun _ => Does.turned hs hturned₀ fun _ => .configured (.refl _), fun hpos => ?_⟩
  refine gives_syncRewards_bind fun s₁ hturned₁ hfits₁ => ?_
  rw [hturned₀.books, hturned₀.ctx] at hturned₁ hfits₁
  have hturned := hturned₀.trans hturned₁
  rw [gives_getTotalSupply_bind, gives_getTotalPooled_bind, gives_trapIf_bind]
  refine ⟨fun _ => .trapped, fun hsupply => ?_⟩
  rw [gives_failIf_bind]
  refine ⟨fun _ => Does.synced hs hturned hfits₁, fun howed => ?_⟩
  rw [gives_getBalance_bind, gives_setU128_bind, gives_setU128_bind, gives_setU128_bind,
    gives_getPendingWithdrawalsSolen_bind, gives_add_bind, gives_setU128_bind]
  simp only [Frame.books_put, hturned.books, Books.put, readU128_le128, Option.getD_some]
    at hsupply howed ⊢
  generalize hs₂ : Frame.put (.field .pendingWithdrawalSolen) _ _ = s₂
  have hturned₂ : s₁.Turned { s.books.sync s.ctx with
      balance := Function.update (s.books.sync s.ctx).balance s.ctx.caller
        ((s.books.sync s.ctx).balance s.ctx.caller - burn)
      supply := (s.books.sync s.ctx).supply - burn
      pooled := (s.books.sync s.ctx).pooled -
        satMul burn (s.books.sync s.ctx).pooled / (s.books.sync s.ctx).supply
      pending := (s.books.sync s.ctx).pending +
        satMul burn (s.books.sync s.ctx).pooled / (s.books.sync s.ctx).supply } s₂ := by
    rw [← hs₂]
    refine ⟨?_, rfl, rfl, rfl, fun hf => ((Frame.overflowed_noted _ _ _).mp hf).1⟩
    simp only [Frame.books_put, Frame.books_noted, hturned.books, Books.put, readU128_le128,
      Option.getD_some]
  have hraised : s₂.overflowed = false → Fits (s.books.sync s.ctx).pending
      (satMul burn (s.books.sync s.ctx).pooled / (s.books.sync s.ctx).supply) := by
    rw [← hs₂]
    exact fun hf => ((Frame.overflowed_noted _ _ _).mp hf).2
  refine (allocateAll_gives s₂ _ stake _ hpos).bind (fun _ s₃ hmid => ?_) (fun e s₃ hmid => ?_)
  case refine_2 =>
    obtain ⟨_, hok, _⟩ := hmid
    cases hok
  obtain ⟨pending, -, hturned₃, hsum⟩ := hmid
  unfold enqueue
  simp only [bind_assoc, gives_getWqTail_bind, gives_currentEpoch_bind, gives_set_bind,
    gives_setU64_bind, gives_pure_bind, gives_emit_bind, gives_ok]
  generalize hs' : Frame.emitted _ _ _ = s'
  have hf₃ : s'.overflowed = s₃.overflowed := by
    rw [← hs']
    rfl
  refine Does.acted hfits₁ fun hf => ?_
  rw [hf₃] at hf
  have hf₂ := hturned₃.fits hf
  have hf₁ := hturned₂.fits hf₂
  refine ⟨hf₁, ?_⟩
  rw [hturned₂.books] at hturned₃ hsum
  have hburn : burn ≤ (s.books.sync s.ctx).balance s.ctx.caller :=
    BitVec.le_def.mpr ((BitVec.le_def.mp (BitVec.not_lt.mp hfunds)).trans
      (Books.balance_sync_le _ _ (hfits₁ hf₁) _))
  have hstake' := hstake (hturned₁.fits hf₁)
  rw [show (0#128).toNat = 0 from rfl, Nat.zero_add] at hstake'
  have hact := @Acted.requested s.ctx _ burn pending hburn hsupply howed (hraised hf₂)
    (hsum hf hstake')
  have hctx : s₃.ctx = s.ctx := hturned₃.ctx.trans (hturned₂.ctx.trans hturned.ctx)
  have hbooks := hturned₃.books
  convert hact using 1
  · rw [← hs']
    simp only [Frame.books_emitted, Frame.books_put, hbooks, Books.put, hctx, readU64_le64,
      Option.getD_some, Withdrawal.decode_encode]
    rfl
  · rw [← hs']
    simp only [Frame.pendingCalls_emitted, Frame.pendingCalls_put, hturned₃.calls, hturned₂.calls,
      hturned.calls, hs.calls]
  · rw [← hs']
    simp only [Frame.nativeTransfers_emitted, Frame.nativeTransfers_put, hturned₃.transfers,
      hturned₂.transfers, hturned.transfers, hs.transfers]

/-! ## Undelegations -/

omit s method in
/-- The walk ends behind the log, or at an entry whose time has not come. -/
def Books.Stopped (b : Books) (now : U64) : Prop :=
  b.unTail.toNat ≤ b.unHead.toNat ∨
    ∃ u, b.unLog b.unHead = some u ∧ now < u.epoch + unbondingEpochs

/-- A walk that commits takes the matured entries out of the log; the head
itself is written after it. -/
theorem walkLog_gives (now : U64) (n : Nat) : ∀ (s : Frame) (seq : U64) (matured : U128),
    n = s.books.unTail.toNat - seq.toNat →
    Gives (walkLog now true n seq matured seq) s fun r s' =>
      ∃ matured' newHead popped, r = .ok (matured', newHead) ∧ s.Turned s'.books s' ∧
        s'.books = { s.books with unLog := s'.books.unLog, inflight := s'.books.inflight } ∧
        Popped now { s.books with unHead := seq } popped { s'.books with unHead := newHead } ∧
        { s'.books with unHead := newHead }.Stopped now ∧
        matured'.toNat = min (matured.toNat + (popped.map (·.amount.toNat)).sum) (2 ^ 128 - 1) ∧
        (s'.overflowed = false →
          matured'.toNat = matured.toNat + (popped.map (·.amount.toNat)).sum) := by
  induction n with
  | zero =>
    intro s seq matured hn
    have hlt := matured.isLt
    refine ⟨matured, seq, [], rfl, .refl s, rfl, .nil, .inl ?_, ?_, fun _ => rfl⟩
    · change s.books.unTail.toNat ≤ seq.toNat
      omega
    · rw [List.map_nil, List.sum_nil]
      omega
  | succ n ih =>
    intro s seq matured hn
    have hlive : seq < s.books.unTail := BitVec.lt_def.mpr (by omega)
    have hnext : n = s.books.unTail.toNat - (seq + 1#64).toNat := by
      have := s.books.unTail.isLt
      rw [BitVec.toNat_add_of_lt (by change seq.toNat + 1 < _; omega)]
      change n = s.books.unTail.toNat - (seq.toNat + 1)
      omega
    unfold walkLog
    rw [gives_readUnLog_bind]
    cases hentry : s.books.unLog seq with
    | none =>
      refine (ih s (seq + 1#64) matured hnext).mono fun r s' h => ?_
      obtain ⟨matured', newHead, popped, hr, hturned, hframe, hpopped, hrest⟩ := h
      exact ⟨matured', newHead, popped, hr, hturned, hframe, .skip hlive hentry hpopped, hrest⟩
    | some u =>
      dsimp only
      rw [gives_ite]
      refine ⟨fun hearly => ?_, fun hmature => ?_⟩
      · have hlt := matured.isLt
        refine ⟨matured, seq, [], rfl, .refl s, rfl, .nil, .inr ⟨u, hentry, hearly⟩, ?_,
          fun _ => rfl⟩
        rw [List.map_nil, List.sum_nil]
        omega
      rw [gives_saturatingAdd_bind, if_pos rfl, gives_set_bind, gives_getInflightUndelegations_bind, gives_setU64_bind]
      generalize hs₁ : Frame.put (.inflightUndelegations u.operator) _ _ = s₁
      have hbooks₁ : { s₁.books with unHead := seq + 1#64 } =
          Books.pop { s.books with unHead := seq } u.operator := by
        rw [← hs₁]
        simp only [Frame.books_put, Frame.books_noted, Books.put, readU64_le64,
          Option.getD_some, Unbonding.decode_nil]
        rfl
      have htail : s₁.books.unTail = s.books.unTail := by
        rw [← hs₁]
        simp only [Frame.books_put, Frame.books_noted, Books.put]
      refine (ih s₁ (seq + 1#64) _ (by rw [htail]; exact hnext)).mono fun r s' h => ?_
      obtain ⟨matured', newHead, popped, hr, hturned, hframe, hpopped, hstopped, hmin, hsum⟩ := h
      have hfits : s'.overflowed = false → s.overflowed = false ∧ Fits matured u.amount := by
        intro hf
        have hf₁ := hturned.fits hf
        rw [← hs₁] at hf₁
        exact (Frame.overflowed_noted _ _ _).mp hf₁
      refine ⟨matured', newHead, u :: popped, hr, ⟨rfl, ?_, ?_, ?_, fun hf => (hfits hf).1⟩,
        ?_, ?_, hstopped, ?_, fun hf => ?_⟩
      · rw [hturned.ctx, ← hs₁]
        rfl
      · rw [hturned.calls, ← hs₁]
        rfl
      · rw [hturned.transfers, ← hs₁]
        rfl
      · rw [hframe, ← hs₁]
        simp only [Frame.books_put, Frame.books_noted, Books.put]
      · rw [hbooks₁] at hpopped
        exact .cons hlive hentry (BitVec.not_lt.mp hmature) hpopped
      · rw [hmin, toNat_satAdd, List.map_cons, List.sum_cons]
        omega
      · rw [hsum hf, (hfits hf).2.toNat_satAdd, List.map_cons, List.sum_cons, Nat.add_assoc]

theorem walkMaturedLog_gives (s : Frame) (now : U64) :
    Gives (walkMaturedLog now true) s fun r s' =>
      ∃ matured popped, r = .ok matured ∧ s.Turned s'.books s' ∧
        Popped now s.books popped s'.books ∧ s'.books.Stopped now ∧
        matured.toNat = min (popped.map (·.amount.toNat)).sum (2 ^ 128 - 1) ∧
        (s'.overflowed = false → matured.toNat = (popped.map (·.amount.toNat)).sum) := by
  unfold walkMaturedLog
  rw [gives_getUnLogHead_bind, gives_getUnLogTail_bind]
  refine (walkLog_gives now _ s s.books.unHead 0#128 rfl).bind (fun res s₁ hmid => ?_)
    (fun e s₁ hmid => ?_)
  case refine_2 =>
    obtain ⟨_, _, _, hok, _⟩ := hmid
    cases hok
  obtain ⟨matured, newHead, popped, hok, hturned, hframe, hpopped, hstopped, hmin, hsum⟩ := hmid
  cases hok
  dsimp only
  rw [if_pos rfl, gives_setU64_bind, gives_pure]
  have hbooks : (s₁.put (.field .unLogHead) (le64 newHead)).books =
      { s₁.books with unHead := newHead } := by
    simp only [Frame.books_put, Books.put, readU64_le64, Option.getD_some]
  have hzero : (0#128).toNat = 0 := rfl
  rw [hzero, Nat.zero_add] at hmin
  refine ⟨matured, popped, rfl, ⟨rfl, hturned.ctx, hturned.calls, hturned.transfers,
    hturned.fits⟩, ?_, ?_, hmin, fun hf => ?_⟩
  · rw [hbooks]
    exact hpopped
  · rw [hbooks]
    exact hstopped
  · rw [hsum hf, hzero, Nat.zero_add]

theorem pullMatured_gives (s : Frame) (matured : U128) :
    Gives (pullMatured matured) s fun r s' =>
      ((0#128 < matured ∧ 16 ≤ s.pendingCalls.length) ∧ ∃ msg, r = .error (.trapped msg)) ∨
        r = .ok () ∧ s'.books = s.books.pull matured ∧ s'.ctx = s.ctx ∧
          s'.pendingCalls = s.pendingCalls ++ withdrawCalls matured ∧
          s'.nativeTransfers = s.nativeTransfers ∧
          (s'.overflowed = false → s.overflowed = false ∧ Fits s.books.buffer matured ∧
            Fits s.books.lastSeen matured) := by
  unfold pullMatured
  rw [gives_ite]
  refine ⟨fun hpos => ?_, fun hpos => ?_⟩
  · rw [gives_queueStaking_bind]
    refine ⟨fun hfull => .inl ⟨⟨hpos, Nat.not_lt.mp hfull⟩, _, rfl⟩, fun _ => ?_⟩
    rw [gives_getWithdrawalBuffer_bind, gives_add_bind, gives_setU128_bind,
      gives_getLastBalanceSeen_bind, gives_add_bind, gives_setU128]
    refine .inr ⟨rfl, ?_, rfl, ?_, rfl, fun hf => ?_⟩
    · simp only [Frame.books_put, Frame.books_noted, Frame.books_queueing, Books.put,
        readU128_le128, Option.getD_some, Books.pull]
    · rw [withdrawCalls, if_pos hpos]
      rfl
    · simp only [Frame.overflowed_put, Frame.overflowed_noted, Frame.overflowed_queueing,
        Frame.books_put, Frame.books_noted, Frame.books_queueing, Books.put] at hf
      exact ⟨hf.1.1, hf.1.2, hf.2⟩
  · obtain rfl : matured = 0#128 := BitVec.le_zero_iff.mp (BitVec.not_lt.mp hpos)
    rw [gives_pure]
    refine .inr ⟨rfl, ?_, rfl, ?_, rfl, fun hf => ⟨hf, Fits.zero _, Fits.zero _⟩⟩
    · simp [Books.pull]
    · rw [withdrawCalls, if_neg hpos, List.append_nil]

/-- The accounts in the `n` slots from slot `i` on. -/
def Books.slots (b : Books) (i : U64) (n : Nat) : Finset AccountId :=
  (Finset.range n).image fun j => b.op (i + BitVec.ofNat 64 j)

theorem Books.mem_slots {b : Books} :
    op ∈ b.slots i n ↔ b.Slotted i n op := by
  simp only [Books.slots, Finset.mem_image, Finset.mem_range, Books.Slotted]

def Books.dueFrom (b : Books) (i : U64) (n : Nat) : Finset AccountId := (b.slots i n).filter b.Due

theorem Books.mem_dueFrom {b : Books} :
    op ∈ b.dueFrom i n ↔ b.Slotted i n op ∧ b.Due op := by
  rw [Books.dueFrom, Finset.mem_filter, Books.mem_slots]

theorem Books.dueFrom_succ (b : Books) (i : U64) (n : Nat) :
    b.dueFrom (i + 1#64) n ⊆ b.dueFrom i (n + 1) := by
  intro op hop
  rw [Books.mem_dueFrom] at hop ⊢
  exact ⟨hop.1.succ, hop.2⟩

/-- What a pass over the `n` slots from slot `i` on does: every undelegation
is logged and queued, and only operators at the limit are still due. It traps
only for want of room for one call for each operator that is due. -/
def CrankPass (now : U64) (i : U64) (n : Nat) (s : Frame) (r : Except Exit (U64 × U128))
    (s' : Frame) : Prop :=
  (∃ msg, r = .error (.trapped msg) ∧
      16 < s.pendingCalls.length + (s.books.dueFrom i n).card) ∨
    ∃ res pushed, r = .ok res ∧ Pushed now s.books pushed s'.books ∧ pushed.length ≤ n ∧
      (∀ u ∈ pushed, u.1 ≠ Hash.zero ∧ s.books.Slotted i n u.1) ∧
      (∀ op, s.books.Slotted i n op → s'.books.Due op →
        maxUndelegationsPerOp ≤ s.books.inflight op + 1#64) ∧
      s'.ctx = s.ctx ∧
      s'.pendingCalls = s.pendingCalls ++ pushed.map undelegateCall ∧
      s'.nativeTransfers = s.nativeTransfers ∧ (s'.overflowed = false → s.overflowed = false)

/-- A slot that is passed over: its operator is not due, or at the limit. -/
theorem CrankPass.succ {s s' : Frame} {r : Except Exit (U64 × U128)}
    (h : CrankPass now (i + 1#64) n s r s') (hhead : s.books.Due (s.books.op i) →
      maxUndelegationsPerOp ≤ s.books.inflight (s.books.op i) + 1#64) :
    CrankPass now i (n + 1) s r s' := by
  obtain ⟨msg, htrap, hroom⟩ | ⟨res, pushed, hr, hpushed, hlen, hslots, hdone, hrest⟩ := h
  · have hcard := Finset.card_le_card (s.books.dueFrom_succ i n)
    exact .inl ⟨msg, htrap, by omega⟩
  refine .inr ⟨res, pushed, hr, hpushed, Nat.le_succ_of_le hlen,
    fun u hu => ⟨(hslots u hu).1, (hslots u hu).2.succ⟩, fun op hslot hdue => ?_, hrest⟩
  obtain rfl | hslot := hslot.cases
  · exact hhead (hpushed.due hdue)
  · exact hdone op hslot hdue

theorem crankOperators_gives (now : U64) (n : Nat) :
    ∀ (s : Frame) (i processed : U64) (total : U128),
    Gives (crankOperators now n i processed total) s (CrankPass now i n s) := by
  induction n with
  | zero =>
    intro s i processed total
    refine .inr ⟨_, [], rfl, .nil, Nat.le_refl _, nofun, fun op hslot _ => ?_, rfl,
      (List.append_nil _).symm, rfl, id⟩
    obtain ⟨j, hj, -⟩ := hslot
    exact absurd hj (Nat.not_lt_zero j)
  | succ n ih =>
    intro s i processed total
    unfold crankOperators
    rw [gives_getOp_bind, gives_ite]
    refine ⟨fun hempty => (ih s _ _ _).mono fun _ _ h => h.succ fun hdue => absurd hempty hdue.1,
      fun hnamed => ?_⟩
    rw [gives_getPendingUndelegate_bind, gives_ite]
    refine ⟨fun hzero => (ih s _ _ _).mono fun _ _ h => h.succ fun hdue => absurd hzero hdue.2.1,
      fun hpending => ?_⟩
    rw [gives_getInflightUndelegations_bind, gives_ite]
    refine ⟨fun hfull => (ih s _ _ _).mono fun _ _ h => h.succ fun _ => hfull, fun hcap => ?_⟩
    rw [gives_getOpStake_bind]
    dsimp only
    rw [gives_ite]
    refine ⟨fun hzero => (ih s _ _ _).mono fun _ _ h => h.succ fun hdue => ?_, fun hsome => ?_⟩
    · exact (umin_eq_zero.mp hzero).elim (absurd · hdue.2.1) (absurd · hdue.2.2)
    replace hcap := BitVec.not_le.mp hcap
    have hhead : s.books.op i ∈ s.books.dueFrom i (n + 1) := by
      refine Books.mem_dueFrom.mpr ⟨s.books.slotted_head i n, hnamed, hpending, fun hz => ?_⟩
      exact hsome (umin_eq_zero.mpr (.inr hz))
    have hpositive := Finset.card_pos.mpr ⟨_, hhead⟩
    have hnot := s.books.not_due_push now (s.books.op i)
    have hle := toNat_umin (s.books.pendingUndelegate (s.books.op i))
      (s.books.opStake (s.books.op i))
    generalize umin (s.books.pendingUndelegate (s.books.op i))
      (s.books.opStake (s.books.op i)) = amount at hle hnot ⊢
    unfold undelegateFrom
    simp only [bind_assoc, gives_setU128_bind, gives_setU64_bind, gives_getUnLogTail_bind, gives_set_bind, gives_queueStaking_bind]
    refine ⟨fun hfull => .inl ⟨_, rfl, ?_⟩, fun _ => ?_⟩
    · replace hfull : 16 ≤ s.pendingCalls.length := Nat.not_lt.mp hfull
      omega
    rw [gives_saturatingAdd_bind]
    generalize hs₁ : Frame.noted _ _ _ = s₁
    have hbooks₁ : s₁.books = s.books.push now (s.books.op i) amount := by
      rw [← hs₁]
      simp only [Frame.books_noted, Frame.books_queueing, Frame.books_put, Books.put,
        readU128_le128, readU64_le64, Option.getD_some, Unbonding.decode_encode, Books.push]
    have hcalls₁ : s₁.pendingCalls =
        s.pendingCalls ++ [undelegateCall (s.books.op i, amount)] := by
      rw [← hs₁]
      rfl
    have hfits₁ : s₁.overflowed = false → s.overflowed = false := by
      rw [← hs₁]
      exact fun hf => ((Frame.overflowed_noted _ _ _).mp hf).1
    have hctx₁ : s₁.ctx = s.ctx := by rw [← hs₁]; rfl
    have htransfers₁ : s₁.nativeTransfers = s.nativeTransfers := by rw [← hs₁]; rfl
    have hslot₁ : ∀ op, s₁.books.Slotted (i + 1#64) n op ↔ s.books.Slotted (i + 1#64) n op := by
      intro op
      rw [hbooks₁]
      exact Iff.rfl
    refine (ih s₁ _ _ _).mono fun r s' h => ?_
    obtain ⟨msg, htrap, hroom⟩ | ⟨res, pushed, hr, hpushed, hlen, hslots, hdone, hctx, hcalls,
      htransfers, hfits⟩ := h
    · -- The operator is due no more, so that the later slots have one less.
      have hfewer : s₁.books.dueFrom (i + 1#64) n ⊆
          (s.books.dueFrom i (n + 1)).erase (s.books.op i) := by
        intro op hop
        obtain ⟨hslot, hdue⟩ := Books.mem_dueFrom.mp hop
        rw [hbooks₁] at hdue
        have hne : op ≠ s.books.op i := by
          rintro rfl
          exact hnot hdue
        exact Finset.mem_erase.mpr ⟨hne, Books.mem_dueFrom.mpr
          ⟨((hslot₁ op).mp hslot).succ, (Books.due_push_of_ne hne).mp hdue⟩⟩
      have hcard := Finset.card_le_card hfewer
      rw [Finset.card_erase_of_mem hhead] at hcard
      rw [hcalls₁, List.length_append, List.length_singleton] at hroom
      exact .inl ⟨msg, htrap, by omega⟩
    rw [hbooks₁] at hpushed
    refine .inr ⟨res, (s.books.op i, amount) :: pushed, hr, .cons ?_ ?_ hcap hpushed,
      Nat.succ_le_succ hlen, fun u hu => ?_, fun op hslot hstill => ?_, hctx.trans hctx₁, ?_,
      htransfers.trans htransfers₁, fun hf => hfits₁ (hfits hf)⟩
    · exact BitVec.le_def.mpr (by omega)
    · exact BitVec.le_def.mpr (by omega)
    · obtain rfl | hu := List.mem_cons.mp hu
      · exact ⟨hnamed, s.books.slotted_head i n⟩
      · exact ⟨(hslots u hu).1, ((hslot₁ _).mp (hslots u hu).2).succ⟩
    · have hne : op ≠ s.books.op i := by
        rintro rfl
        exact hnot (hpushed.due hstill)
      have hcapped := hdone op ((hslot₁ op).mpr (hslot.cases.resolve_left hne)) hstill
      rw [hbooks₁] at hcapped
      change _ ≤ Function.update s.books.inflight (s.books.op i) _ op + 1#64 at hcapped
      rw [Function.update_of_ne hne] at hcapped
      exact hcapped
    · rw [hcalls, hcalls₁, List.map_cons, List.append_assoc, List.singleton_append]

/-- A crank that does not trap: what matured leaves the log for the buffer,
and what is pending is logged. -/
structure CrankDone (s : Frame) (s' : Frame) (popped : List Unbonding) (matured : U128)
    (pushed : List (AccountId × U128)) (b₁ : Books) : Prop where
  pop : Popped (epochOf s.ctx) (s.books.sync s.ctx) popped b₁
  stopped : b₁.Stopped (epochOf s.ctx)
  sum : matured.toNat = min (popped.map (·.amount.toNat)).sum (2 ^ 128 - 1)
  push : Pushed (epochOf s.ctx) (b₁.pull matured) pushed s'.books
  slots : pushed.length ≤ s.books.opCount.toNat
  named : ∀ u ∈ pushed, u.1 ≠ Hash.zero ∧ s.books.Slotted 0#64 s.books.opCount.toNat u.1
  left : ∀ op, s.books.Slotted 0#64 s.books.opCount.toNat op → s'.books.Due op →
    maxUndelegationsPerOp ≤ b₁.inflight op + 1#64
  calls : s'.pendingCalls = s.pendingCalls ++ withdrawCalls matured ++ pushed.map undelegateCall
  transfers : s'.nativeTransfers = s.nativeTransfers
  fits : s'.overflowed = false → s.books.SyncFits s.ctx ∧
    matured.toNat = (popped.map (·.amount.toNat)).sum ∧
    Fits (s.books.sync s.ctx).buffer matured ∧ Fits (s.books.sync s.ctx).lastSeen matured

/-- A crank traps only for want of room for its calls: one to pull what has
matured, when there is something, and one for each operator that is due. -/
structure CrankFull (s : Frame) (popped : List Unbonding) (matured : U128) (b₁ : Books) :
    Prop where
  pop : Popped (epochOf s.ctx) (s.books.sync s.ctx) popped b₁
  sum : matured.toNat = min (popped.map (·.amount.toNat)).sum (2 ^ 128 - 1)
  room : 16 < s.pendingCalls.length + (withdrawCalls matured).length +
    (s.books.dueFrom 0#64 s.books.opCount.toNat).card

theorem doCrankUndelegations_gives (s : Frame) :
    Gives doCrankUndelegations s fun r s' =>
      (∃ msg, r = .error (.trapped msg) ∧ ∃ popped matured b₁, CrankFull s popped matured b₁) ∨
        r = .ok (ascii "ok") ∧
          ∃ popped matured pushed b₁, CrankDone s s' popped matured pushed b₁ := by
  unfold doCrankUndelegations
  refine gives_syncRewards_bind fun s₁ hturned hfits₁ => ?_
  rw [gives_currentEpoch_bind]
  refine (walkMaturedLog_gives s₁ _).bind (fun matured s₂ hmid => ?_) (fun e s₂ hmid => ?_)
  case refine_2 =>
    obtain ⟨_, _, hok, _⟩ := hmid
    cases hok
  obtain ⟨_, popped, hok, hturned₂, hpopped, hstopped, hmin, hsum⟩ := hmid
  cases hok
  have hctx₁ : s₁.ctx = s.ctx := hturned.ctx
  rw [hctx₁] at hpopped hstopped
  rw [hturned.books] at hpopped
  refine (pullMatured_gives s₂ matured).bind (fun _ s₃ hmid => ?_) (fun e s₃ hmid => ?_)
  case refine_2 =>
    obtain ⟨⟨hpos, hfull⟩, _, htrap⟩ | ⟨hok, _⟩ := hmid
    · cases htrap
      rw [hturned₂.calls, hturned.calls] at hfull
      refine .inl ⟨_, rfl, popped, matured, s₂.books, hpopped, hmin, ?_⟩
      rw [withdrawCalls, if_pos hpos, List.length_singleton]
      omega
    · cases hok
  obtain ⟨-, _, htrap⟩ | ⟨-, hbooks₃, hctx₃, hcalls₃, htransfers₃, hfits₃⟩ := hmid
  · cases htrap
  rw [gives_getOpCount_bind]
  refine (crankOperators_gives _ _ s₃ _ _ _).bind (fun res s₄ hmid => ?_) (fun e s₄ hmid => ?_)
  case refine_2 =>
    obtain ⟨_, htrap, hroom⟩ | ⟨_, _, hok, _⟩ := hmid
    · cases htrap
      rw [hcalls₃, hturned₂.calls, hturned.calls, List.length_append, hbooks₃,
        hpopped.frame] at hroom
      exact .inl ⟨_, rfl, popped, matured, s₂.books, hpopped, hmin, hroom⟩
    · cases hok
  obtain ⟨_, htrap, -⟩ | ⟨_, pushed, hok, hpushed, hlen, hnamed, hleft, hctx₄, hcalls₄, htransfers₄,
    hfits₄⟩ := hmid
  · cases htrap
  cases hok
  rw [gives_emit_bind, gives_ok]
  rw [hctx₁] at hpushed
  rw [hbooks₃] at hpushed hnamed hleft
  have hframe := hpopped.frame
  have hslotted : ∀ op, (s₂.books.pull matured).Slotted 0#64
      (s₂.books.pull matured).opCount.toNat op ↔
        s.books.Slotted 0#64 s.books.opCount.toNat op := by
    intro op
    have hcount : (s₂.books.pull matured).opCount = s.books.opCount := by
      rw [hframe]
      rfl
    have hop : (s₂.books.pull matured).op = s.books.op := by
      rw [hframe]
      rfl
    unfold Books.Slotted
    rw [hcount, hop]
  have hcount : s₃.books.opCount = s.books.opCount := by
    rw [hbooks₃, hframe]
    rfl
  rw [hcount] at hlen
  refine .inr ⟨rfl, popped, matured, pushed, s₂.books, hpopped, hstopped, hmin, hpushed,
    hlen, fun u hu => ⟨(hnamed u hu).1, (hslotted _).mp (hnamed u hu).2⟩,
    fun op hslot hdue => hleft op ((hslotted op).mpr hslot) hdue, ?_, ?_, fun hf => ?_⟩
  · simp only [Frame.pendingCalls_emitted, hcalls₄, hcalls₃, hturned₂.calls, hturned.calls]
  · simp only [Frame.nativeTransfers_emitted, htransfers₄, htransfers₃, hturned₂.transfers,
      hturned.transfers]
  · obtain ⟨hf₂, hbuffer, hseen⟩ := hfits₃ (hfits₄ hf)
    rw [hframe] at hbuffer hseen
    exact ⟨hfits₁ (hturned₂.fits hf₂), hsum hf₂, hbuffer, hseen⟩

theorem doCrankUndelegations_does (hs : s.Fresh) :
    Gives doCrankUndelegations s (Does (some .crankUndelegations) s) := by
  refine (doCrankUndelegations_gives s).mono fun r s' h => ?_
  obtain ⟨msg, htrap, -⟩ | ⟨-, popped, matured, pushed, b₁, hdone⟩ := h
  · exact .inl ⟨msg, htrap⟩
  refine .inr fun hf => ?_
  obtain ⟨hsync, hsum, hbuffer, hseen⟩ := hdone.fits hf
  rw [hdone.calls, hdone.transfers, hs.calls, hs.transfers, List.nil_append]
  exact .synced hsync (.cranked hdone.pop hsum hbuffer hseen hdone.push
    (Nat.lt_of_le_of_lt hdone.slots (BitVec.isLt _)))

/-! ## Paying -/

omit s method in
theorem satSub_zero (a : U128) : satSub a 0#128 = a := by
  refine BitVec.eq_of_toNat_eq ?_
  rw [toNat_satSub]
  exact Nat.sub_zero _

theorem headRequest_gives (s : Frame) (args : Bytes) :
    Gives (headRequest args) s fun r s' =>
      s = s' ∧ ((∃ msg, r = .error (.returned msg)) ∨
        ∃ w, r = .ok (s.books.wqHead, w) ∧ s.books.wq s.books.wqHead = some w ∧
          ¬ epochOf s.ctx < w.requestedEpoch + unbondingEpochs + 1#64) := by
  unfold headRequest
  rw [gives_orFail_bind]
  refine ⟨fun _ => ⟨rfl, .inl ⟨_, rfl⟩⟩, fun seq _ => ?_⟩
  rw [gives_getWqHead_bind, gives_failIf_bind]
  refine ⟨fun _ => ⟨rfl, .inl ⟨_, rfl⟩⟩, fun hhead => ?_⟩
  obtain rfl := not_ne_iff.mp hhead
  rw [gives_readWq_bind, gives_orFail_bind]
  refine ⟨fun _ => ⟨rfl, .inl ⟨_, rfl⟩⟩, fun w hw => ?_⟩
  rw [gives_currentEpoch_bind, gives_failIf_bind]
  refine ⟨fun _ => ⟨rfl, .inl ⟨_, rfl⟩⟩, fun htime => ?_⟩
  exact ⟨rfl, .inr ⟨w, rfl, hw, htime⟩⟩

theorem doClaimWithdrawal_does (hs : s.Fresh) (args : Bytes) :
    Gives (doClaimWithdrawal args) s (Does (some .claimWithdrawal) s) := by
  unfold doClaimWithdrawal
  refine (headRequest_gives s args).bind (fun res s₀ hmid => ?_) (fun e s₀ hmid => ?_)
  case refine_2 =>
    obtain ⟨rfl, _⟩ := hmid
    exact .same hs
  obtain ⟨rfl, ⟨_, herror⟩ | ⟨w, hok, hentry, -⟩⟩ := hmid
  · cases herror
  cases hok
  dsimp only
  rw [gives_getWithdrawalBuffer_bind]
  refine hs.failIf fun hbuffer => ?_
  refine gives_syncRewards_bind fun s₁ hturned hfits => ?_
  rw [gives_transferNative_bind]
  refine ⟨fun _ => .trapped, fun howed => ?_⟩
  unfold lowerPending lowerLastSeen dequeue
  simp only [bind_assoc, gives_setU128_bind, gives_getPendingWithdrawalsSolen_bind,
    gives_getLastBalanceSeen_bind, gives_set_bind, gives_setU64_bind, gives_emit_bind, gives_ok]
  refine Does.acted hfits fun hf => ⟨hf, ?_⟩
  have hact := @Acted.claimed s.ctx (s.books.sync s.ctx) w hentry howed.1
    (BitVec.not_lt.mp hbuffer)
  convert hact using 1
  · simp only [Frame.books_emitted, Frame.books_put, Frame.books_sending, hturned.books, Books.put,
      readU128_le128, readU64_le64, Option.getD_some, Withdrawal.decode_nil]
    rfl
  · simp only [Frame.pendingCalls_emitted, Frame.pendingCalls_put, Frame.pendingCalls_sending,
      hturned.calls, hs.calls]
  · simp only [Frame.nativeTransfers_emitted, Frame.nativeTransfers_put,
      Frame.nativeTransfers_sending, hturned.transfers, hs.transfers, List.nil_append]

theorem doSettleShortfall_does (hs : s.Fresh) (args : Bytes) :
    Gives (doSettleShortfall args) s (Does (some .settleShortfall) s) := by
  unfold doSettleShortfall
  refine hs.requireOwner fun howner => ?_
  refine (headRequest_gives s args).bind (fun res s₀ hmid => ?_) (fun e s₀ hmid => ?_)
  case refine_2 =>
    obtain ⟨rfl, _⟩ := hmid
    exact .same hs
  obtain ⟨rfl, ⟨_, herror⟩ | ⟨w, hok, hentry, -⟩⟩ := hmid
  · cases herror
  cases hok
  dsimp only
  rw [gives_getWithdrawalBuffer_bind]
  refine gives_syncRewards_bind fun s₁ hturned hfits => ?_
  have hact := @Acted.settled s.ctx (s.books.sync s.ctx) w hentry howner
  have hbuffer : (s.books.sync s.ctx).buffer = s.books.buffer := rfl
  rw [hbuffer] at hact
  generalize umin s.books.buffer w.solenOwed = paid at hact ⊢
  unfold lowerPending lowerLastSeen dequeue
  rw [gives_ite_bind]
  refine ⟨fun hpos => ?_, fun hpos => ?_⟩
  · rw [bind_assoc, gives_transferNative_bind]
    refine ⟨fun _ => .trapped, fun _ => ?_⟩
    simp only [bind_assoc, gives_setU128_bind, gives_getPendingWithdrawalsSolen_bind,
      gives_getLastBalanceSeen_bind, gives_set_bind, gives_setU64_bind, gives_emit_bind, gives_ok]
    refine Does.acted hfits fun hf => ⟨hf, ?_⟩
    rw [if_pos hpos] at hact
    convert hact using 1
    · simp only [Frame.books_emitted, Frame.books_put, Frame.books_sending, hturned.books,
        Books.put, readU128_le128, readU64_le64, Option.getD_some, Withdrawal.decode_nil]
      rfl
    · simp only [Frame.pendingCalls_emitted, Frame.pendingCalls_put, Frame.pendingCalls_sending,
        hturned.calls, hs.calls]
    · simp only [Frame.nativeTransfers_emitted, Frame.nativeTransfers_put,
        Frame.nativeTransfers_sending, hturned.transfers, hs.transfers, List.nil_append]
  · obtain rfl : paid = 0#128 := BitVec.le_zero_iff.mp (BitVec.not_lt.mp hpos)
    simp only [bind_assoc, gives_pure_bind, gives_setU128_bind, gives_getPendingWithdrawalsSolen_bind, gives_set_bind, gives_setU64_bind, gives_emit_bind, gives_ok]
    refine Does.acted hfits fun hf => ⟨hf, ?_⟩
    rw [if_neg hpos] at hact
    convert hact using 1
    · simp only [Frame.books_emitted, Frame.books_put, hturned.books, Books.put, readU128_le128,
        readU64_le64, Option.getD_some, Withdrawal.decode_nil, Books.pay, BitVec.sub_zero,
        satSub_zero]
      rfl
    · simp only [Frame.pendingCalls_emitted, Frame.pendingCalls_put, hturned.calls, hs.calls]
    · simp only [Frame.nativeTransfers_emitted, Frame.nativeTransfers_put, hturned.transfers,
        hs.transfers]

theorem doRecompoundRewards_does (hs : s.Fresh) :
    Gives doRecompoundRewards s (Does (some .recompoundRewards) s) := by
  unfold doRecompoundRewards
  rw [gives_currentEpoch_bind, gives_getLastRecompoundEpoch_bind]
  refine hs.failIf fun _ => ?_
  rw [gives_getOpCount_bind]
  refine hs.failIf fun _ => ?_
  refine ((ReadOnly.selectOperator _).map _).gives fun _ => ?_
  refine hs.failIf fun _ => ?_
  refine gives_syncRewards_bind fun s₁ hturned hfits => ?_
  rw [gives_selfBalance_bind, gives_getPendingWithdrawalsSolen_bind, gives_failIf_bind,
    hturned.ctx, hturned.books]
  refine ⟨fun _ => Does.synced hs hturned hfits, fun hleast => ?_⟩
  refine (pickOperator_gives s₁ _).bind (fun op s₂ hmid => ?_) (fun e s₂ hmid => ?_)
  case refine_2 =>
    obtain ⟨_, _, hok, _⟩ := hmid
    cases hok
  obtain ⟨op', cursor, hok, hturned₂⟩ := hmid
  cases hok
  simp only [gives_getOpStake_bind, gives_add_bind, gives_setU128_bind,
    gives_queueStaking_bind, gives_setU64_bind, gives_emit_bind, gives_ok]
  refine ⟨fun _ => .trapped, fun _ => Does.acted hfits fun hf => ?_⟩
  have hf₂ := ((Frame.overflowed_noted _ _ _).mp hf).1
  refine ⟨hturned₂.fits hf₂, ?_⟩
  have hact := @Acted.recompounded s.ctx (s.books.sync s.ctx) op cursor _ rfl
    (BitVec.not_lt.mp hleast)
  convert hact using 1
  · simp only [Frame.books_emitted, Frame.books_put, Frame.books_noted, Frame.books_queueing,
      hturned₂.books, hturned.books, Books.put, readU128_le128, readU64_le64, Option.getD_some]
    rfl
  · simp only [Frame.pendingCalls_emitted, Frame.pendingCalls_put, Frame.pendingCalls_noted,
      Frame.pendingCalls_queueing, hturned₂.calls, hturned.calls, hs.calls]
    rfl
  · simp only [Frame.nativeTransfers_emitted, Frame.nativeTransfers_put,
      Frame.nativeTransfers_noted, Frame.nativeTransfers_queueing, hturned₂.transfers,
      hturned.transfers, hs.transfers]

end Synced

/-! ## Calls -/

theorem Method.run_does {s : Frame} (hs : s.Fresh) (args : Bytes) (method : Method) :
    Gives (method.run args) s (Does (some method) s) := by
  have hread : ∀ {m : Option Method} {c : Code Bytes}, ReadOnly c → Gives c s (Does m s) := by
    intro m c hc
    obtain ⟨data, hrun⟩ := hc s
    unfold Gives Prog.Gives
    rw [hrun]
    exact .same hs
  have harg : ∀ {m : Option Method} {α : Type} {o : Option α} {msg : String} {f : α → Code Bytes},
      (∀ a, Gives (f a) s (Does m s)) → Gives (orFail o msg >>= f) s (Does m s) :=
    fun h => hs.orFail fun a _ => h a
  cases method with
  | init => exact doInit_does hs args
  | transfer => exact doTransfer_does hs args
  | transferFrom => exact doTransferFrom_does hs args
  | approve => exact doApprove_does hs args
  | balanceOf => exact harg fun _ => hread (((ReadOnly.get _).map _ |>.map _).map _)
  | allowance =>
    exact harg fun _ => harg fun _ => hread (((ReadOnly.get _).map _ |>.map _).map _)
  | deposit => exact (doDeposit_gives hs).mono fun _ _ h => h.1
  | requestWithdrawal => exact doRequestWithdrawal_does hs args
  | claimWithdrawal => exact doClaimWithdrawal_does hs args
  | crankUndelegations => exact doCrankUndelegations_does hs
  | recompoundRewards => exact doRecompoundRewards_does hs
  | poke => exact doPoke_does hs
  | reportSlash => exact doReportSlash_does hs args
  | setOperator => exact doSetOperator_does hs args
  | removeOperator => exact doRemoveOperator_does hs args
  | setOpCount => exact doAdminSetOpCount_does hs args
  | setOpCapBps => exact doSetOpCapBps_does hs args
  | setProtocolFeeBps => exact doSetProtocolFeeBps_does hs args
  | setTreasury => exact setRole_does hs _ args fun _ => ⟨rfl, .inl rfl⟩
  | setSlashOracle => exact setRole_does hs _ args fun _ => ⟨rfl, .inl rfl⟩
  | pause => exact setPaused_does hs _ _
  | unpause => exact setPaused_does hs _ _
  | settleShortfall => exact doSettleShortfall_does hs args
  | pendingUndelegateOpOf | opStakeOf =>
    exact harg fun _ => hread (((ReadOnly.get _).map _ |>.map _).map _)
  | withdrawalAt => exact harg fun _ => hread (((ReadOnly.get _).map _).map _)
  | pendingWithdrawalsOf =>
    refine harg fun _ => hread (((ReadOnly.get _).map _ |>.map _).bind fun _ => ?_)
    exact ((ReadOnly.get _).map _ |>.map _).bind fun _ => (ReadOnly.countWithdrawals _ _ _ _).map _
  | exchangeRate =>
    refine hread (((ReadOnly.get _).map _ |>.map _).bind fun _ => ?_)
    exact ((ReadOnly.get _).map _ |>.map _).bind fun _ => .pure _
  | totalSupply | owner | treasury | slashOracle =>
    exact hread (((ReadOnly.get _).map _ |>.map _).map _)
  | paused => exact hread (((ReadOnly.get _).map _).map _)
  | name | symbol | decimals => exact hread (.pure _)

/-- The method an input calls. -/
def methodOf (input : Bytes) : Option Method := Method.ofBytes? (splitInput input).1

/-- A call in its first moment. -/
def Frame.start (ctx : HostContext) : Frame := { ctx := ctx, storage := ctx.storage }

theorem Frame.fresh_start (ctx : HostContext) : (Frame.start ctx).Fresh := ⟨rfl, rfl⟩

theorem Outcome.finish_eq_ok {s : Frame} {t : Tank}
    (h : Outcome.finish data s t = .ok o) : o = ⟨data, s, t.refused⟩ := by
  let Ends (r : Except String Outcome) : Prop := r = .ok o → o = ⟨data, s, t.refused⟩
  have hout : ∀ msg, Ends (.error msg) := fun _ => nofun
  have hdone : Ends (.ok ⟨data, s, t.refused⟩) := fun h => (Except.ok.inj h).symm
  have hends : Ends (Outcome.finish data s t) := by
    unfold Outcome.finish
    refine t.ask_cases Ends (hout _) (fun _ => ?_) (fun _ => ?_)
    · exact Tank.ask_cases _ Ends (hout _) (fun _ => hdone) fun _ => hdone
    · exact Tank.ask_cases _ Ends (hout _) (fun _ => hdone) fun _ => hdone
  exact hends h

/-- A call is its metered run, when that does not trap, and the end. -/
theorem call_eq_finish {s : Frame} {t : Tank}
    (hrun : (callBody input).metered (Frame.start ctx) tank = (r, s, t))
    (hanswer : Answered r data) : call ctx tank input = Outcome.finish data s t := by
  unfold call
  rw [show (callBody input).metered { ctx := ctx, storage := ctx.storage } tank = (r, s, t)
    from hrun]
  obtain rfl | rfl := hanswer
  · rfl
  · rfl

theorem call_metered (h : call ctx tank input = .ok o) :
    ∃ r t, (callBody input).metered (Frame.start ctx) tank = (r, o.frame, t) ∧
      Answered r o.data ∧ o.refused = t.refused ∧
      Outcome.finish o.data o.frame t = .ok o := by
  rcases hrun : (callBody input).metered (Frame.start ctx) tank with ⟨r, s, t⟩
  have hanswer : ∃ data, Answered r data := by
    rcases r with (_ | msg) | data
    · exact ⟨_, .inr rfl⟩
    · unfold call at h
      rw [show (callBody input).metered { ctx := ctx, storage := ctx.storage } tank =
        (.error (.trapped msg), s, t) from hrun] at h
      cases h
    · exact ⟨_, .inl rfl⟩
  obtain ⟨data, hanswer⟩ := hanswer
  rw [call_eq_finish hrun hanswer] at h
  have ho := Outcome.finish_eq_ok h
  subst ho
  exact ⟨r, t, rfl, hanswer, rfl, h⟩

/-- A call in which nothing is refused answers as the plain run does, and
leaves the same frame apart from events. -/
theorem call_eq_ok (h : call ctx tank input = .ok o)
    (hrefused : o.refused = false) :
    ∃ r s', (callBody input).plain.run (Frame.start ctx) = (r, s') ∧ Answered r o.data ∧
      o.frame.Alike s' := by
  have hagrees := (callBody input).metered_agrees (Frame.start ctx) (Frame.start ctx) tank
    ⟨rfl, rfl, rfl, rfl, rfl⟩
  obtain ⟨r, t, hrun, hanswer, ht, -⟩ := call_metered h
  rw [hrun] at hagrees
  obtain hout | ⟨hr, hs⟩ := hagrees (ht.symm.trans hrefused)
  · rw [show r = .error outOfFuel from hout] at hanswer
    exact absurd hanswer not_answered_trapped
  · exact ⟨r, _, Prod.ext hr.symm rfl, hanswer, hs⟩

/-- The fuel is enough for a call: no request is refused, and the
instructions can be paid to the end. -/
structure Fueled (ctx : HostContext) (tank : Tank) (input : Bytes) : Prop where
  paid : ((callBody input).metered (Frame.start ctx) tank).2.2.refused = false
  work : ((callBody input).metered (Frame.start ctx) tank).1 ≠ .error outOfFuel
  finish : ∀ data, Answered ((callBody input).metered (Frame.start ctx) tank).1 data →
    ∃ o, call ctx tank input = .ok o

theorem Fueled.of_call (h : call ctx tank input = .ok o)
    (hrefused : o.refused = false) : Fueled ctx tank input := by
  obtain ⟨r, t, hrun, hanswer, ht, -⟩ := call_metered h
  refine ⟨?_, ?_, fun _ _ => ⟨o, h⟩⟩
  · rw [hrun]
    exact ht.symm.trans hrefused
  · rw [hrun]
    rintro rfl
    exact not_answered_trapped hanswer

/-- With fuel enough, a call answers as the plain run does. -/
theorem Fueled.call_eq_ok (h : Fueled ctx tank input)
    (hplain : ((callBody input).plain.run (Frame.start ctx)).1 = .ok data) :
    ∃ o, call ctx tank input = .ok o ∧ o.data = data ∧ o.refused = false := by
  have hagrees := (callBody input).metered_agrees (Frame.start ctx) (Frame.start ctx) tank
    ⟨rfl, rfl, rfl, rfl, rfl⟩ h.paid
  obtain hout | ⟨hr, -⟩ := hagrees
  · exact absurd hout h.work
  have hok := hr.trans hplain
  obtain ⟨o, ho⟩ := h.finish data (.inl hok)
  obtain ⟨r, t, hrun, hanswer, ht, -⟩ := call_metered ho
  have hpaid := h.paid
  rw [hrun] at hok hpaid
  obtain rfl : r = .ok data := hok
  obtain hdata | hdata := hanswer
  · exact ⟨o, ho, (Except.ok.inj hdata).symm, ht.trans hpaid⟩
  · cases hdata

theorem Frame.Alike.books_eq {s s' : Frame} (h : s.Alike s') : s.books = s'.books := by
  rw [Frame.books, h.storage, Frame.books]

/-- Everything a call can do in which nothing is refused. -/
theorem call_booked (h : call ctx tank input = .ok o)
    (hrefused : o.refused = false) (hf : o.frame.overflowed = false) :
    Booked ctx (books ctx.storage) (methodOf input) o.frame.books o.frame.pendingCalls
      o.frame.nativeTransfers := by
  obtain ⟨r, s', hrun, hanswer, halike⟩ := call_eq_ok h hrefused
  have hdoes : Gives (callBody input) (Frame.start ctx) (Does (methodOf input) (Frame.start ctx)) := by
    unfold callBody methodOf
    split
    · next method hmethod =>
        rw [hmethod]
        exact method.run_does (Frame.fresh_start ctx) _
    · exact Does.same (Frame.fresh_start ctx)
  rw [halike.books_eq, halike.pendingCalls, halike.nativeTransfers]
  obtain ⟨msg, rfl⟩ | hbooked := hdoes.of_run hrun
  · exact absurd hanswer not_answered_trapped
  · exact hbooked (halike.overflowed.symm.trans hf)

theorem call_deposited (h : call ctx tank input = .ok o)
    (hrefused : o.refused = false) (hdata : o.data = ascii "ok")
    (hmethod : methodOf input = some .deposit) (hf : o.frame.overflowed = false) :
    ∃ op, (books ctx.storage).SyncFits ctx ∧
      Deposited ctx ((books ctx.storage).sync ctx) op o.frame.books := by
  obtain ⟨r, s', hrun, hanswer, halike⟩ := call_eq_ok h hrefused
  have hbody : callBody input = doDeposit := by
    unfold callBody
    unfold methodOf at hmethod
    rw [hmethod]
    rfl
  rw [hbody] at hrun
  rw [hdata] at hanswer
  rw [halike.books_eq]
  exact ((doDeposit_gives (Frame.fresh_start ctx)).of_run hrun).2 hanswer
    (halike.overflowed.symm.trans hf)

end Solen.StSolen
