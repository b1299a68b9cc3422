import Solen.StSolenLedger

/-!
# The withdrawal queue of the stSOLEN contract

A request is in the queue until it is paid, and what it asks for is first
pending with the operators, then in the log of undelegations, then in the
buffer. Two numbers therefore agree with `pending_withdrawal_solen`: what
the queue owes, and what is on its way to it.

Queue and log are tables with a head and a tail, counted in `u64`. A tail
that has come around is indistinguishable from an empty queue; the results
are about runs in which no tail does, and in which no request to the host
is refused: a withdrawal short of fuel can lose its entry in the queue and
still be counted as pending.
-/

namespace Solen.StSolen

open Machine

variable {pushed : List (AccountId × U128)} {now : U64}

/-! ## Tables with a head and a tail -/

theorem toNat_add_one {v : U64} (h : v.toNat + 1 < 2 ^ 64) : (v + 1#64).toNat = v.toNat + 1 :=
  BitVec.toNat_add_of_lt h

/-- A counter that has not come around. -/
theorem toNat_add_one_of_le {v : U64} (h : v.toNat ≤ (v + 1#64).toNat) :
    (v + 1#64).toNat = v.toNat + 1 := by
  have hlt := v.isLt
  rw [BitVec.toNat_add] at h ⊢
  change v.toNat ≤ (v.toNat + 1) % 2 ^ 64 at h
  change (v.toNat + 1) % 2 ^ 64 = v.toNat + 1
  omega

/-- A table whose entries all lie from the head on and before the tail. -/
structure Window {α : Type} (f : U64 → Option α) (head tail : U64) : Prop where
  order : head.toNat ≤ tail.toNat
  live : ∀ i, f i ≠ none → head.toNat ≤ i.toNat ∧ i.toNat < tail.toNat

namespace Window

variable {α : Type} {f : U64 → Option α} {head tail : U64}

theorem empty : Window (fun _ => (none : Option α)) 0#64 0#64 :=
  ⟨Nat.le_refl _, fun _ h => absurd rfl h⟩

theorem tail_none (h : Window f head tail) : f tail = none := by
  by_contra hsome
  exact Nat.lt_irrefl _ (h.live tail hsome).2

theorem lt_of_some (h : Window f head tail) {v : α} (hv : f head = some v) :
    head.toNat < tail.toNat :=
  (h.live head (by rw [hv]; exact Option.some_ne_none v)).2

theorem push (h : Window f head tail) (v : α) (hroom : (tail + 1#64).toNat = tail.toNat + 1) :
    Window (Function.update f tail (some v)) head (tail + 1#64) where
  order := by
    have := h.order
    omega
  live i hi := by
    rw [hroom]
    by_cases heq : i = tail
    · subst heq
      exact ⟨h.order, Nat.lt_succ_self _⟩
    · rw [Function.update_of_ne heq] at hi
      have hlive := h.live i hi
      exact ⟨hlive.1, Nat.lt_succ_of_lt hlive.2⟩

/-- The place after the head, when the head is before the tail. -/
theorem toNat_succ (hlt : head.toNat < tail.toNat) : (head + 1#64).toNat = head.toNat + 1 :=
  toNat_add_one (Nat.lt_of_le_of_lt hlt tail.isLt)

theorem skip (h : Window f head tail) (hlt : head.toNat < tail.toNat) (hnone : f head = none) :
    Window f (head + 1#64) tail where
  order := by
    rw [toNat_succ hlt]
    exact hlt
  live i hi := by
    obtain ⟨hle, hlt'⟩ := h.live i hi
    have hne : i.toNat ≠ head.toNat := by
      intro heq
      rw [BitVec.eq_of_toNat_eq heq] at hi
      exact hi hnone
    rw [toNat_succ hlt]
    omega

theorem pop (h : Window f head tail) (hlt : head.toNat < tail.toNat) :
    Window (Function.update f head none) (head + 1#64) tail := by
  have hcleared : Window (Function.update f head none) head tail := by
    refine ⟨h.order, fun i hi => h.live i fun hnone => hi ?_⟩
    by_cases heq : i = head
    · rw [heq, Function.update_self]
    · rw [Function.update_of_ne heq, hnone]
  exact hcleared.skip hlt (Function.update_self _ _ _)

/-- From head to tail lies all there is. -/
theorem sum_eq (h : Window f head tail) {g : Option α → Nat} (hg : g none = 0) :
    ∑ i ∈ Finset.Ico head.toNat tail.toNat, g (f (BitVec.ofNat 64 i)) = ∑ i, g (f i) := by
  have hinside : ∀ i ∈ Finset.Ico head.toNat tail.toNat, (BitVec.ofNat 64 i).toNat = i := by
    intro i hi
    have := tail.isLt
    rw [Finset.mem_Ico] at hi
    exact Nat.mod_eq_of_lt (by omega)
  have houtside : ∀ i ∈ Finset.univ, i ∉ Finset.univ.filter (fun i : U64 =>
      head.toNat ≤ i.toNat ∧ i.toNat < tail.toNat) → g (f i) = 0 := by
    intro i _ hi
    have hnone : f i = none := by
      by_contra hsome
      exact hi (Finset.mem_filter.mpr ⟨Finset.mem_univ i, h.live i hsome⟩)
    rw [hnone, hg]
  rw [← Finset.sum_subset (Finset.filter_subset _ _) houtside]
  refine Finset.sum_nbij' (fun i => BitVec.ofNat 64 i) (fun i => i.toNat) ?_ ?_ hinside ?_ ?_
  · intro i hi
    have hto := hinside i hi
    rw [Finset.mem_Ico] at hi
    rw [Finset.mem_filter]
    refine ⟨Finset.mem_univ _, ?_⟩
    rw [hto]
    exact hi
  · intro i hi
    rw [Finset.mem_filter] at hi
    exact Finset.mem_Ico.mpr hi.2
  · intro i _
    exact BitVec.eq_of_toNat_eq (Nat.mod_eq_of_lt i.isLt)
  · intro i _
    rfl

end Window

/-! ## What is owed and what is on its way -/

def owedBy : Option Withdrawal → Nat
  | none => 0
  | some w => w.solenOwed.toNat

def amountOf : Option Unbonding → Nat
  | none => 0
  | some u => u.amount.toNat

/-- What the queue owes, from its head to its tail. -/
def queueSum (m : Store) : Nat :=
  ∑ i ∈ Finset.Ico (books m).wqHead.toNat (books m).wqTail.toNat,
    owedBy ((books m).wq (BitVec.ofNat 64 i))

/-- What the live part of the log holds. -/
def logSum (m : Store) : Nat :=
  ∑ i ∈ Finset.Ico (books m).unHead.toNat (books m).unTail.toNat,
    amountOf ((books m).unLog (BitVec.ofNat 64 i))

/-- The books of the queue are in order. -/
structure Books.Queued (b : Books) : Prop where
  queue : Window b.wq b.wqHead b.wqTail
  log : Window b.unLog b.unHead b.unTail
  owed : b.pending.toNat = ∑ i, owedBy (b.wq i)
  onTheWay : b.pending.toNat =
    sumOf b.pendingUndelegate + ∑ i, amountOf (b.unLog i) + b.buffer.toNat

namespace Books.Queued

theorem empty : (books ∅).Queued where
  queue := Window.empty
  log := Window.empty
  owed := (Finset.sum_eq_zero fun _ _ => rfl).symm
  onTheWay := by
    have hundelegate : sumOf (books ∅).pendingUndelegate = 0 := by
      unfold sumOf
      exact Finset.sum_eq_zero fun _ _ => rfl
    have hlog : ∑ i, amountOf ((books ∅).unLog i) = 0 := Finset.sum_eq_zero fun _ _ => rfl
    rw [hundelegate, hlog]
    rfl

variable {b b' : Books} {now : U64}

theorem congr (h : b.Queued) (hwq : b'.wq = b.wq) (hhead : b'.wqHead = b.wqHead)
    (htail : b'.wqTail = b.wqTail) (hlog : b'.unLog = b.unLog) (hunHead : b'.unHead = b.unHead)
    (hunTail : b'.unTail = b.unTail) (hpending : b'.pending = b.pending)
    (hundelegate : b'.pendingUndelegate = b.pendingUndelegate) (hbuffer : b'.buffer = b.buffer) :
    b'.Queued where
  queue := by
    rw [hwq, hhead, htail]
    exact h.queue
  log := by
    rw [hlog, hunHead, hunTail]
    exact h.log
  owed := by
    rw [hpending, hwq]
    exact h.owed
  onTheWay := by
    rw [hpending, hundelegate, hlog, hbuffer]
    exact h.onTheWay

theorem mint (h : b.Queued) (account : AccountId) (amount : U128) :
    (b.mint account amount).Queued :=
  h.congr rfl rfl rfl rfl rfl rfl rfl rfl rfl

end Books.Queued

/-- Taking matured entries out of the log. -/
theorem Popped.log {b b' : Books} {popped : List Unbonding}
    (h : Popped now b popped b') (hlog : Window b.unLog b.unHead b.unTail) :
    Window b'.unLog b'.unHead b'.unTail ∧
      ∑ i, amountOf (b'.unLog i) + (popped.map (·.amount.toNat)).sum = ∑ i, amountOf (b.unLog i) := by
  induction h with
  | nil => exact ⟨hlog, Nat.add_zero _⟩
  | skip hlive hentry _ ih => exact ih (hlog.skip (BitVec.lt_def.mp hlive) hentry)
  | @cons b b' u l hlive hentry _ _ ih =>
    obtain ⟨hwindow, hsum⟩ := ih (hlog.pop (BitVec.lt_def.mp hlive))
    have hupdate := sum_update amountOf b.unLog b.unHead none
    rw [hentry] at hupdate
    change _ + u.amount.toNat = _ + 0 at hupdate
    refine ⟨hwindow, ?_⟩
    rw [List.map_cons, List.sum_cons]
    change _ = ∑ i, amountOf (Function.update b.unLog b.unHead none i) at hsum
    omega

theorem Pushed.unTail {b b' : Books}
    (h : Pushed now b pushed b') : b'.unTail = b.unTail + BitVec.ofNat 64 pushed.length := by
  induction h with
  | nil => simp
  | @cons b b' op amount l _ _ _ _ ih =>
    rw [ih]
    change b.unTail + 1#64 + BitVec.ofNat 64 l.length = b.unTail + BitVec.ofNat 64 (l.length + 1)
    rw [BitVec.add_assoc, BitVec.ofNat_add, BitVec.add_comm 1#64]

/-- When the tail has not come around, there were places enough. -/
theorem Pushed.room {b b' : Books}
    (h : Pushed now b pushed b') (hslots : pushed.length < 2 ^ 64)
    (honward : b.unTail.toNat ≤ b'.unTail.toNat) :
    b.unTail.toNat + pushed.length < 2 ^ 64 := by
  have hwrapped := congrArg BitVec.toNat h.unTail
  have hlt := b.unTail.isLt
  rw [BitVec.toNat_add, BitVec.toNat_ofNat, Nat.mod_eq_of_lt hslots] at hwrapped
  omega

/-- Logging undelegations, when the places do not run out. -/
theorem Pushed.log {b b' : Books}
    (h : Pushed now b pushed b') (hlog : Window b.unLog b.unHead b.unTail)
    (hroom : b.unTail.toNat + pushed.length < 2 ^ 64) :
    Window b'.unLog b'.unHead b'.unTail ∧
      sumOf b'.pendingUndelegate + ∑ i, amountOf (b'.unLog i) =
        sumOf b.pendingUndelegate + ∑ i, amountOf (b.unLog i) := by
  induction h with
  | nil => exact ⟨hlog, Eq.refl _⟩
  | @cons b b' op amount l hpending _ _ _ ih =>
    rw [List.length_cons] at hroom
    have hnext : (b.unTail + 1#64).toNat = b.unTail.toNat + 1 := toNat_add_one (by omega)
    have hpush := hlog.push (Unbonding.mk now amount op) hnext
    obtain ⟨hwindow, hsum⟩ := ih hpush (by
      change (b.unTail + 1#64).toNat + l.length < 2 ^ 64
      omega)
    have htaken := sumOf_sub hpending
    have hadded := sum_update amountOf b.unLog b.unTail (some ⟨now, amount, op⟩)
    rw [hlog.tail_none] at hadded
    change _ + 0 = _ + amount.toNat at hadded
    refine ⟨hwindow, ?_⟩
    change _ = sumOf (Function.update b.pendingUndelegate op (b.pendingUndelegate op - amount)) +
      ∑ i, amountOf (Function.update b.unLog b.unTail (some ⟨now, amount, op⟩) i) at hsum
    omega

/-! ## What a call does to the queue -/

variable {ctx : HostContext} {b b' : Books} {method : Option Method} {calls : List PendingCall}
  {transfers : List NativeTransfer} {op : AccountId}

/-- No tail has come around. -/
structure Books.Onward (b b' : Books) : Prop where
  queue : b.wqTail.toNat ≤ b'.wqTail.toNat
  log : b.unTail.toNat ≤ b'.unTail.toNat

theorem DepositMint.queued {value amount : U128} (h : DepositMint value b b' amount)
    (hb : b.Queued) : b'.Queued := by
  cases h with
  | first => exact hb.mint _ _
  | later => exact hb

theorem Deposited.queued (h : Deposited ctx b op b') (hb : b.Queued) : b'.Queued := by
  cases h with
  | intro _ _ hmint _ _ =>
    exact (hmint.queued hb).congr rfl rfl rfl rfl rfl rfl rfl rfl rfl

theorem Books.Queued.burn (hb : b.Queued) {account : AccountId} {amount owed : U128}
    {pendingUndelegate : AccountId → U128} (hfits : Fits b.pending owed)
    (hsum : sumOf pendingUndelegate = sumOf b.pendingUndelegate + owed.toNat)
    (htail : b.wqTail.toNat ≤ (b.wqTail + 1#64).toNat) :
    { b.burn account amount owed now with pendingUndelegate := pendingUndelegate }.Queued where
  queue := hb.queue.push _ (toNat_add_one_of_le htail)
  log := hb.log
  owed := by
    have hadded := sum_update owedBy b.wq b.wqTail (some ⟨account, owed, now⟩)
    rw [hb.queue.tail_none] at hadded
    change _ + 0 = _ + owed.toNat at hadded
    change (b.pending + owed).toNat =
      ∑ i, owedBy (Function.update b.wq b.wqTail (some ⟨account, owed, now⟩) i)
    have := hb.owed
    rw [hfits.toNat_add]
    omega
  onTheWay := by
    change (b.pending + owed).toNat =
      sumOf pendingUndelegate + ∑ i, amountOf (b.unLog i) + b.buffer.toNat
    have := hb.onTheWay
    rw [hfits.toNat_add, hsum]
    omega

/-- The head of the queue is paid in full from the buffer. -/
theorem Books.Queued.pay (hb : b.Queued) {w : Withdrawal} (hentry : b.wq b.wqHead = some w)
    (hbuffer : w.solenOwed ≤ b.buffer) : (b.pay w.solenOwed w.solenOwed).Queued where
  queue := hb.queue.pop (hb.queue.lt_of_some hentry)
  log := hb.log
  owed := by
    have htaken := sum_update owedBy b.wq b.wqHead none
    rw [hentry] at htaken
    change _ + w.solenOwed.toNat = _ + 0 at htaken
    change (satSub b.pending w.solenOwed).toNat =
      ∑ i, owedBy (Function.update b.wq b.wqHead none i)
    have := hb.owed
    rw [toNat_satSub]
    omega
  onTheWay := by
    change (satSub b.pending w.solenOwed).toNat = sumOf b.pendingUndelegate +
      ∑ i, amountOf (b.unLog i) + (b.buffer - w.solenOwed).toNat
    have := hb.onTheWay
    have hle := BitVec.le_def.mp hbuffer
    rw [toNat_satSub, BitVec.toNat_sub_of_le hbuffer]
    omega

/-- What left the log is in the buffer, what was pending is logged. -/
theorem Books.Queued.crank (hb : b.Queued) {b₁ : Books} {matured : U128}
    (hframe₁ : b₁ = { b with unLog := b₁.unLog, inflight := b₁.inflight, unHead := b₁.unHead })
    (hlog₁ : Window b₁.unLog b₁.unHead b₁.unTail)
    (hsum₁ : ∑ i, amountOf (b₁.unLog i) + matured.toNat = ∑ i, amountOf (b.unLog i))
    (hbuffer : Fits b.buffer matured) (hpush : Pushed now (b₁.pull matured) pushed b')
    (hslots : pushed.length < 2 ^ 64) (honward : b.Onward b') : b'.Queued := by
  have htail : (b₁.pull matured).unTail = b.unTail := by
    rw [hframe₁]
    rfl
  obtain ⟨hlog, hsum⟩ := hpush.log hlog₁ (hpush.room hslots (by rw [htail]; exact honward.log))
  have hframe := hpush.frame
  have hwq : b'.wq = b.wq := by rw [hframe, hframe₁]; rfl
  have hhead : b'.wqHead = b.wqHead := by rw [hframe, hframe₁]; rfl
  have hwqTail : b'.wqTail = b.wqTail := by rw [hframe, hframe₁]; rfl
  have hpending : b'.pending = b.pending := by rw [hframe, hframe₁]; rfl
  have hbuffer' : b'.buffer = b.buffer + matured := by rw [hframe, hframe₁]; rfl
  refine ⟨?_, hlog, ?_, ?_⟩
  · rw [hwq, hhead, hwqTail]
    exact hb.queue
  · rw [hpending, hwq]
    exact hb.owed
  · have hundelegate : (b₁.pull matured).pendingUndelegate = b.pendingUndelegate := by
      rw [hframe₁]
      rfl
    have := hb.onTheWay
    rw [hundelegate] at hsum
    change _ = _ + ∑ i, amountOf (b₁.unLog i) at hsum
    rw [hpending, hbuffer', hbuffer.toNat_add]
    omega

theorem Acted.queued (h : Acted ctx b method b' calls transfers)
    (hmethod : method ≠ some .settleShortfall) (honward : b.Onward b') (hb : b.Queued) :
    b'.Queued := by
  cases h with
  | nothing => exact hb
  | deposited h => exact h.queued hb
  | requested _ _ _ hfits hsum => exact hb.burn hfits hsum honward.queue
  | @cranked b₁ _ popped matured pushed hpop hmatured hbuffer hseen hpush hslots =>
    obtain ⟨hlog₁, hsum₁⟩ := hpop.log hb.log
    exact hb.crank hpop.frame hlog₁ (by omega) hbuffer hpush hslots honward
  | claimed hentry _ hbuffer => exact hb.pay hentry hbuffer
  | settled => exact absurd rfl hmethod
  | recompounded => exact hb.congr rfl rfl rfl rfl rfl rfl rfl rfl rfl

theorem Booked.queued (h : Booked ctx b method b' calls transfers)
    (hmethod : method ≠ some .settleShortfall) (honward : b.Onward b') (hb : b.Queued) :
    b'.Queued := by
  cases h with
  | configured h =>
    rw [h.eq]
    exact hb.congr rfl rfl rfl rfl rfl rfl rfl rfl rfl
  | approved => exact hb.congr rfl rfl rfl rfl rfl rfl rfl rfl rfl
  | moved => exact hb.congr rfl rfl rfl rfl rfl rfl rfl rfl rfl
  | movedFrom => exact hb.congr rfl rfl rfl rfl rfl rfl rfl rfl rfl
  | slashed => exact hb.congr rfl rfl rfl rfl rfl rfl rfl rfl rfl
  | synced _ h =>
    exact h.queued hmethod ⟨honward.queue, honward.log⟩
      (hb.congr rfl rfl rfl rfl rfl rfl rfl rfl rfl)

/-! ## Runs -/

/-- The queue and the way to it, in every state of a run that does not use
`settle_shortfall` and has the fuel for its requests, as long as neither
tail comes around. -/
theorem pending_withdrawals_accounted {m : Store}
    (hrun : Relation.ReflTransGen (CallStep fun ctx input o =>
      methodOf input ≠ some .settleShortfall ∧ o.refused = false ∧
        (books ctx.storage).wqTail.toNat ≤ (books o.frame.storage).wqTail.toNat ∧
        (books ctx.storage).unTail.toNat ≤ (books o.frame.storage).unTail.toNat) ∅ m) :
    (books m).pending.toNat = queueSum m ∧
      (books m).pending.toNat =
        ∑ op, ((books m).pendingUndelegate op).toNat + logSum m + (books m).buffer.toNat := by
  have hqueued : (books m).Queued := by
    induction hrun with
    | refl => exact Books.Queued.empty
    | tail _ hstep ih =>
        cases hstep with
        | undone => exact ih
        | kept hcall hfits hallowed =>
            have hbooked := call_booked hcall hallowed.2.1 hfits
            exact hbooked.queued hallowed.1 ⟨hallowed.2.2.1, hallowed.2.2.2⟩ ih
  refine ⟨hqueued.owed.trans ?_, hqueued.onTheWay.trans ?_⟩
  · exact (hqueued.queue.sum_eq rfl).symm
  · rw [← hqueued.log.sum_eq rfl]
    rfl

/-- A request for five hundred is owed and pending with the operator. -/
theorem pending_withdrawals_accounted_request :
    ∃ m, Relation.ReflTransGen (CallStep fun ctx input o =>
        methodOf input ≠ some .settleShortfall ∧ o.refused = false ∧
          (books ctx.storage).wqTail.toNat ≤ (books o.frame.storage).wqTail.toNat ∧
          (books ctx.storage).unTail.toNat ≤ (books o.frame.storage).unTail.toNat) ∅ m ∧
      (books m).pending.toNat = 500 ∧ (books m).pending.toNat = queueSum m ∧
      (books m).pending.toNat =
        ∑ op, ((books m).pendingUndelegate op).toNat + logSum m + (books m).buffer.toNat := by
  obtain ⟨m, hplay, hpending⟩ := exists_play (a := 500)
    (fun ctx input o => methodOf input ≠ some .settleShortfall ∧ o.refused = false ∧
      (books ctx.storage).wqTail.toNat ≤ (books o.frame.storage).wqTail.toNat ∧
      (books ctx.storage).unTail.toNat ≤ (books o.frame.storage).unTail.toNat)
    (opening 20000#128 ++ [asking 500#128 1000000]) ∅ (fun m => (books m).pending.toNat)
    (by decide +kernel)
  exact ⟨m, play_run hplay, hpending, pending_withdrawals_accounted (play_run hplay)⟩

/-- A request whose fuel covers the new tail of the queue but not the entry:
five hundred are pending, and the queue owes nothing. -/
theorem pending_withdrawals_lost :
    ¬ ∀ m : Store, Relation.ReflTransGen (CallStep fun ctx input o =>
        methodOf input ≠ some .settleShortfall ∧
          (books ctx.storage).wqTail.toNat ≤ (books o.frame.storage).wqTail.toNat ∧
          (books ctx.storage).unTail.toNat ≤ (books o.frame.storage).unTail.toNat) ∅ m →
      (books m).pending.toNat = queueSum m ∧
        (books m).pending.toNat =
          ∑ op, ((books m).pendingUndelegate op).toNat + logSum m + (books m).buffer.toNat := by
  intro h
  obtain ⟨m, hplay, hview⟩ := exists_play (a := (500, 0))
    (fun ctx input o => methodOf input ≠ some .settleShortfall ∧
      (books ctx.storage).wqTail.toNat ≤ (books o.frame.storage).wqTail.toNat ∧
      (books ctx.storage).unTail.toNat ≤ (books o.frame.storage).unTail.toNat)
    (opening 20000#128 ++ [asking 500#128 28300]) ∅
    (fun m => ((books m).pending.toNat, queueSum m)) (by decide +kernel)
  obtain ⟨hpending, howed⟩ := Prod.mk.inj hview
  have hsum := (h m (play_run hplay)).1
  omega

end Solen.StSolen
