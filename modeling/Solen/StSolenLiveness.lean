import Solen.StSolenQueue

/-!
# Whether the head of the withdrawal queue gets paid

What cranks can bring into the buffer is bounded: the buffer, the live log,
and for each operator in an active slot the smaller of what is pending with
it and what it has of the pool's stake. No crank raises this sum. Two
cranks, each after everything in the log has matured, bring all of it into
the buffer, provided the first one has room for its calls, the fuel is
enough and the staking contract takes the calls. The head of the queue is
then paid exactly when the sum covers it.

The sum need not cover it. The reserve for fees stays with the contract
when a deposit is delegated but belongs to the pool, so that it can be owed
and is never undelegated.
-/

namespace Solen.StSolen

open Machine

variable {op : AccountId} {S : Finset AccountId} {pushed : List (AccountId × U128)}
  {amount : U128} {now : U64} {w : Withdrawal}

/-! ## What cranks can bring into the buffer -/

/-- The operators in the active slots. -/
def Books.operators (b : Books) : Finset AccountId :=
  (b.slots 0#64 b.opCount.toNat).erase Hash.zero

/-- What can be undelegated from the operator. -/
def Books.payable (b : Books) (op : AccountId) : Nat :=
  min (b.pendingUndelegate op).toNat (b.opStake op).toNat

theorem Books.payable_eq_zero {b : Books} (hop : op ≠ Hash.zero)
    (h : ¬ b.Due op) : b.payable op = 0 := by
  have hor : b.pendingUndelegate op = 0#128 ∨ b.opStake op = 0#128 := by
    by_contra hboth
    rw [not_or] at hboth
    exact h ⟨hop, hboth⟩
  unfold Books.payable
  obtain hzero | hzero := hor
  · rw [hzero]
    exact Nat.min_eq_left (Nat.zero_le _)
  · rw [hzero]
    exact Nat.min_eq_right (Nat.zero_le _)

/-- An undelegation takes its amount from what the operator can pay. -/
theorem Books.sum_payable_push {b : Books}
    (hpending : amount ≤ b.pendingUndelegate op) (hstake : amount ≤ b.opStake op) (hop : op ∈ S) :
    ∑ x ∈ S, (b.push now op amount).payable x + amount.toNat = ∑ x ∈ S, b.payable x := by
  have hupdate : (b.push now op amount).payable =
      Function.update b.payable op (b.payable op - amount.toNat) := by
    funext x
    unfold Books.payable
    rw [Books.pendingUndelegate_push, Books.opStake_push, Function.update_apply]
    split
    · rw [BitVec.toNat_sub_of_le hpending, BitVec.toNat_sub_of_le hstake]
      omega
    · rfl
  have hle : amount.toNat ≤ b.payable op :=
    Nat.le_min.mpr ⟨BitVec.le_def.mp hpending, BitVec.le_def.mp hstake⟩
  have herase := Finset.sum_erase_add S b.payable hop
  rw [hupdate, Finset.sum_update_of_mem hop, Finset.sdiff_singleton_eq_erase]
  omega

/-- The log and what the operators in `S` can pay. -/
def Books.onCall (b : Books) (S : Finset AccountId) : Nat :=
  ∑ i, amountOf (b.unLog i) + ∑ op ∈ S, b.payable op

theorem Books.onCall_congr {b b' : Books} (hlog : b'.unLog = b.unLog)
    (hpending : b'.pendingUndelegate = b.pendingUndelegate) (hstake : b'.opStake = b.opStake)
    (S : Finset AccountId) : b'.onCall S = b.onCall S := by
  unfold Books.onCall Books.payable
  rw [hlog, hpending, hstake]

/-- An undelegation is in the log, in place of what was there. -/
theorem Books.onCall_push {b : Books}
    (hpending : amount ≤ b.pendingUndelegate op) (hstake : amount ≤ b.opStake op) (hop : op ∈ S) :
    (b.push now op amount).onCall S + amountOf (b.unLog b.unTail) = b.onCall S := by
  have hlog := sum_update amountOf b.unLog b.unTail (some ⟨now, amount, op⟩)
  have hpaid : ∑ x ∈ S, (b.push now op amount).payable x + amount.toNat = ∑ x ∈ S, b.payable x :=
    Books.sum_payable_push hpending hstake hop
  change ∑ i, amountOf (Function.update b.unLog b.unTail (some ⟨now, amount, op⟩) i) +
    ∑ x ∈ S, (b.push now op amount).payable x + _ = ∑ i, amountOf (b.unLog i) + ∑ x ∈ S, b.payable x
  change _ = _ + amount.toNat at hlog
  omega

theorem Pushed.onCall_le {b b' : Books}
    (h : Pushed now b pushed b') (hS : ∀ u ∈ pushed, u.1 ∈ S) :
    b'.onCall S ≤ b.onCall S := by
  induction h with
  | nil => exact Nat.le_refl _
  | @cons b b' op amount l hpending hstake _ _ ih =>
    refine (ih fun u hu => hS u (List.mem_cons_of_mem _ hu)).trans ?_
    have hpush : (b.push now op amount).onCall S + amountOf (b.unLog b.unTail) = b.onCall S :=
      Books.onCall_push hpending hstake (hS _ (List.mem_cons_self ..))
    omega

theorem Pushed.onCall_eq {b b' : Books}
    (h : Pushed now b pushed b') (hlog : Window b.unLog b.unHead b.unTail)
    (hroom : b.unTail.toNat + pushed.length < 2 ^ 64)
    (hS : ∀ u ∈ pushed, u.1 ∈ S) : b'.onCall S = b.onCall S := by
  induction h with
  | nil => rfl
  | @cons b b' op amount l hpending hstake _ _ ih =>
    rw [List.length_cons] at hroom
    have hnext : (b.unTail + 1#64).toNat = b.unTail.toNat + 1 := toNat_add_one (by omega)
    have hpush : (b.push now op amount).onCall S + amountOf (b.unLog b.unTail) = b.onCall S :=
      Books.onCall_push hpending hstake (hS _ (List.mem_cons_self ..))
    rw [hlog.tail_none, amountOf, Nat.add_zero] at hpush
    rw [← hpush]
    refine ih (hlog.push _ hnext) ?_ fun u hu => hS u (List.mem_cons_of_mem _ hu)
    change (b.unTail + 1#64).toNat + l.length < 2 ^ 64
    omega

theorem Popped.onCall {b b' : Books} {popped : List Unbonding}
    (h : Popped now b popped b') (S : Finset AccountId) :
    b'.onCall S + (popped.map (·.amount.toNat)).sum = b.onCall S := by
  induction h with
  | nil => exact Nat.add_zero _
  | @skip b b' l _ _ _ ih =>
    rw [ih]
    exact Books.onCall_congr rfl rfl rfl S
  | @cons b b' u l _ hentry _ _ ih =>
    have hupdate := sum_update amountOf b.unLog b.unHead none
    rw [hentry] at hupdate
    change _ + u.amount.toNat = _ + 0 at hupdate
    change b'.onCall S + _ = ∑ i, amountOf (Function.update b.unLog b.unHead none i) +
      ∑ x ∈ S, b.payable x at ih
    rw [List.map_cons, List.sum_cons]
    change _ = ∑ i, amountOf (b.unLog i) + ∑ x ∈ S, b.payable x
    omega

/-- The calls of a crank that undelegates all that is due and pulls what is
in the log. -/
def Books.crankCalls (b : Books) : Nat :=
  (b.dueFrom 0#64 b.opCount.toNat).card + if ∑ i, amountOf (b.unLog i) = 0 then 0 else 1

/-- With room for these calls, a crank goes through. -/
theorem doCrankUndelegations_passes {s : Frame} (hcalls : s.pendingCalls = [])
    (hroom : s.books.crankCalls ≤ 16) :
    Gives doCrankUndelegations s fun r _ => r = .ok (ascii "ok") := by
  refine (doCrankUndelegations_gives s).mono fun r s' h => ?_
  obtain ⟨_, -, popped, matured, b₁, hfull⟩ | ⟨hok, _⟩ := h
  · have hover := hfull.room
    have hpop := hfull.pop.onCall ∅
    have hsum := hfull.sum
    have hlog : (popped.map (·.amount.toNat)).sum ≤ ∑ i, amountOf (s.books.unLog i) := by
      unfold Books.onCall at hpop
      rw [Finset.sum_empty, Finset.sum_empty] at hpop
      change _ = ∑ i, amountOf (s.books.unLog i) + 0 at hpop
      omega
    rw [hcalls, List.length_nil] at hover
    unfold Books.crankCalls at hroom
    unfold withdrawCalls at hover
    by_cases hempty : ∑ i, amountOf (s.books.unLog i) = 0
    · have hzero : matured = 0#128 := BitVec.eq_of_toNat_eq (by
        change matured.toNat = 0
        omega)
      rw [if_neg (by rw [hzero]; decide), List.length_nil] at hover
      omega
    · rw [if_neg hempty] at hroom
      have hone : (if 0#128 < matured then [Frame.stakingCall "withdraw" []] else []).length ≤ 1 := by
        split
        · exact Nat.le_refl _
        · exact Nat.zero_le _
      omega
  · exact hok

/-- All that cranks can bring into the buffer. -/
def Books.available (b : Books) : Nat := b.buffer.toNat + b.onCall b.operators

section Crank

variable {s s' : Frame} {popped : List Unbonding} {matured : U128}
  {pushed : List (AccountId × U128)} {b₁ : Books}

/-- A crank does not touch the queue or the slots. -/
theorem CrankDone.frame (h : CrankDone s s' popped matured pushed b₁) :
    s'.books.wq = s.books.wq ∧ s'.books.wqHead = s.books.wqHead ∧
      s'.books.wqTail = s.books.wqTail ∧ s'.books.operators = s.books.operators ∧
      s'.books.buffer = s.books.buffer + matured ∧ s'.books.op = s.books.op ∧
      s'.books.opCount = s.books.opCount := by
  have hpush := h.push.frame
  have hpop := h.pop.frame
  rw [hpush, hpop]
  exact ⟨rfl, rfl, rfl, rfl, rfl, rfl, rfl⟩

theorem CrankDone.mem_operators (h : CrankDone s s' popped matured pushed b₁) :
    ∀ u ∈ pushed, u.1 ∈ s.books.operators := by
  intro u hu
  obtain ⟨hnamed, hslot⟩ := h.named u hu
  exact Finset.mem_erase.mpr ⟨hnamed, Books.mem_slots.mpr hslot⟩

theorem CrankDone.onCall_pop (h : CrankDone s s' popped matured pushed b₁) (S : Finset AccountId) :
    (b₁.pull matured).onCall S + (popped.map (·.amount.toNat)).sum = s.books.onCall S := by
  have hpop := h.pop.onCall S
  have hpull : (b₁.pull matured).onCall S = b₁.onCall S := Books.onCall_congr rfl rfl rfl S
  have hsync : (s.books.sync s.ctx).onCall S = s.books.onCall S := Books.onCall_congr rfl rfl rfl S
  rw [hpull, hpop, hsync]

/-- Events are not part of it. -/
theorem CrankDone.alike {s₁ : Frame} (h : CrankDone s s' popped matured pushed b₁)
    (halike : s₁.Alike s') : CrankDone s s₁ popped matured pushed b₁ where
  pop := h.pop
  stopped := h.stopped
  sum := h.sum
  push := halike.books_eq ▸ h.push
  slots := h.slots
  named := h.named
  left := halike.books_eq ▸ h.left
  calls := halike.pendingCalls.trans h.calls
  transfers := halike.nativeTransfers.trans h.transfers
  fits hf := h.fits (halike.overflowed.symm.trans hf)

theorem CrankDone.unTail_pull (h : CrankDone s s' popped matured pushed b₁) :
    (b₁.pull matured).unTail = s.books.unTail := by
  rw [h.pop.frame]
  rfl

/-- No crank raises what can be brought into the buffer. -/
theorem CrankDone.available_le (h : CrankDone s s' popped matured pushed b₁) :
    s'.books.available ≤ s.books.available := by
  obtain ⟨-, -, -, hoperators, hbuffer, -⟩ := h.frame
  have hpop := h.onCall_pop s.books.operators
  have hpush := h.push.onCall_le h.mem_operators
  have hsum := h.sum
  have hwrap : (s.books.buffer + matured).toNat ≤ s.books.buffer.toNat + matured.toNat := by
    rw [BitVec.toNat_add]
    exact Nat.mod_le _ _
  unfold Books.available
  rw [hoperators, hbuffer]
  omega

end Crank

/-! ## Books in order -/

/-- One for an entry of the operator. -/
def countOf (op : AccountId) : Option Unbonding → Nat
  | none => 0
  | some u => if u.operator = op then 1 else 0

/-- The queue has an entry in each place, written up to the epoch. -/
structure Books.Lined (b : Books) (epoch : Nat) : Prop where
  queue : Window b.wq b.wqHead b.wqTail
  full : ∀ i, b.wqHead.toNat ≤ i.toNat → i.toNat < b.wqTail.toNat → b.wq i ≠ none
  requests : ∀ i w, b.wq i = some w → w.solenOwed ≠ 0#128 ∧ w.requestedEpoch.toNat ≤ epoch

/-- The log was written up to the epoch, and the operators' undelegations
are counted. -/
structure Books.Logged (b : Books) (epoch : Nat) : Prop where
  log : Window b.unLog b.unHead b.unTail
  entries : ∀ i u, b.unLog i = some u → u.epoch.toNat ≤ epoch
  inflight : ∀ op, (b.inflight op).toNat = ∑ i, countOf op (b.unLog i)
  limit : ∀ op, (b.inflight op).toNat < 7

structure Books.Alive (b : Books) (epoch : Nat) : Prop where
  lined : b.Lined epoch
  logged : b.Logged epoch

variable {b b' : Books} {epoch : Nat} {now : U64}

namespace Books.Lined

theorem congr (h : b.Lined epoch) (hwq : b'.wq = b.wq) (hhead : b'.wqHead = b.wqHead)
    (htail : b'.wqTail = b.wqTail) : b'.Lined epoch where
  queue := by
    rw [hwq, hhead, htail]
    exact h.queue
  full := by
    rw [hwq, hhead, htail]
    exact h.full
  requests := by
    rw [hwq]
    exact h.requests

theorem mono {epoch' : Nat} (h : b.Lined epoch) (hle : epoch ≤ epoch') : b.Lined epoch' where
  queue := h.queue
  full := h.full
  requests i w hw := ⟨(h.requests i w hw).1, (h.requests i w hw).2.trans hle⟩

theorem burn (h : b.Lined epoch) (account : AccountId) (amount : U128) {owed : U128}
    (howed : owed ≠ 0#128) (hnow : now.toNat ≤ epoch)
    (hroom : (b.wqTail + 1#64).toNat = b.wqTail.toNat + 1) :
    (b.burn account amount owed now).Lined epoch where
  queue := h.queue.push _ hroom
  full i hle hlt := by
    change b.wqHead.toNat ≤ i.toNat at hle
    change i.toNat < (b.wqTail + 1#64).toNat at hlt
    change Function.update b.wq b.wqTail (some ⟨account, owed, now⟩) i ≠ none
    by_cases heq : i = b.wqTail
    · rw [heq, Function.update_self]
      exact Option.some_ne_none _
    · have hne : i.toNat ≠ b.wqTail.toNat := fun hnat => heq (BitVec.eq_of_toNat_eq hnat)
      rw [Function.update_of_ne heq]
      exact h.full i hle (by omega)
  requests i w hw := by
    change Function.update b.wq b.wqTail (some ⟨account, owed, now⟩) i = some w at hw
    by_cases heq : i = b.wqTail
    · rw [heq, Function.update_self] at hw
      cases hw
      exact ⟨howed, hnow⟩
    · rw [Function.update_of_ne heq] at hw
      exact h.requests i w hw

theorem pay (h : b.Lined epoch) (hentry : b.wq b.wqHead = some w)
    (owed paid : U128) : (b.pay owed paid).Lined epoch := by
  have hlt := h.queue.lt_of_some hentry
  have hnext := Window.toNat_succ hlt
  refine ⟨h.queue.pop hlt, fun i hle hlt' => ?_, fun i w hw => ?_⟩
  · change (b.wqHead + 1#64).toNat ≤ i.toNat at hle
    change Function.update b.wq b.wqHead none i ≠ none
    have hne : i ≠ b.wqHead := by
      rintro rfl
      omega
    rw [Function.update_of_ne hne]
    exact h.full i (by omega) hlt'
  · change Function.update b.wq b.wqHead none i = some w at hw
    by_cases heq : i = b.wqHead
    · rw [heq, Function.update_self] at hw
      cases hw
    · rw [Function.update_of_ne heq] at hw
      exact h.requests i w hw

end Books.Lined

namespace Books.Logged

theorem congr (h : b.Logged epoch) (hlog : b'.unLog = b.unLog) (hhead : b'.unHead = b.unHead)
    (htail : b'.unTail = b.unTail) (hinflight : b'.inflight = b.inflight) : b'.Logged epoch where
  log := by
    rw [hlog, hhead, htail]
    exact h.log
  entries := by
    rw [hlog]
    exact h.entries
  inflight := by
    rw [hlog, hinflight]
    exact h.inflight
  limit := by
    rw [hinflight]
    exact h.limit

theorem mono {epoch' : Nat} (h : b.Logged epoch) (hle : epoch ≤ epoch') : b.Logged epoch' :=
  ⟨h.log, fun i u hu => (h.entries i u hu).trans hle, h.inflight, h.limit⟩

theorem skip (h : b.Logged epoch) (hlt : b.unHead.toNat < b.unTail.toNat)
    (hentry : b.unLog b.unHead = none) : { b with unHead := b.unHead + 1#64 }.Logged epoch :=
  ⟨h.log.skip hlt hentry, h.entries, h.inflight, h.limit⟩

theorem pop (h : b.Logged epoch) (hlt : b.unHead.toNat < b.unTail.toNat) {u : Unbonding}
    (hentry : b.unLog b.unHead = some u) : (b.pop u.operator).Logged epoch := by
  have hcount : ∀ op, ((b.pop u.operator).inflight op).toNat =
      (b.inflight op).toNat - if u.operator = op then 1 else 0 := by
    intro op
    change (Function.update b.inflight u.operator (satSub (b.inflight u.operator) 1#64) op).toNat = _
    rw [Function.update_apply]
    by_cases heq : op = u.operator
    · rw [if_pos heq, if_pos heq.symm, toNat_satSub, heq]
      rfl
    · rw [if_neg heq, if_neg (Ne.symm heq), Nat.sub_zero]
  refine ⟨h.log.pop hlt, fun i v hv => ?_, fun op => ?_, fun op => ?_⟩
  · change Function.update b.unLog b.unHead none i = some v at hv
    by_cases heq : i = b.unHead
    · rw [heq, Function.update_self] at hv
      cases hv
    · rw [Function.update_of_ne heq] at hv
      exact h.entries i v hv
  · have hupdate := sum_update (countOf op) b.unLog b.unHead none
    rw [hentry] at hupdate
    change _ + (if u.operator = op then 1 else 0) = _ + 0 at hupdate
    rw [hcount, h.inflight]
    change _ = ∑ i, countOf op (Function.update b.unLog b.unHead none i)
    omega
  · have := h.limit op
    rw [hcount]
    omega

theorem push (h : b.Logged epoch) (hnow : now.toNat ≤ epoch)
    (hroom : (b.unTail + 1#64).toNat = b.unTail.toNat + 1)
    (hcap : b.inflight op + 1#64 < maxUndelegationsPerOp) : (b.push now op amount).Logged epoch := by
  have hlimit := h.limit op
  have hnext : (b.inflight op + 1#64).toNat = (b.inflight op).toNat + 1 := toNat_add_one (by omega)
  have hcount : ∀ x, ((b.push now op amount).inflight x).toNat =
      (b.inflight x).toNat + if op = x then 1 else 0 := by
    intro x
    change (Function.update b.inflight op (b.inflight op + 1#64) x).toNat = _
    rw [Function.update_apply]
    by_cases heq : x = op
    · rw [if_pos heq, if_pos heq.symm, hnext, heq]
    · rw [if_neg heq, if_neg (Ne.symm heq), Nat.add_zero]
  refine ⟨h.log.push _ hroom, fun i v hv => ?_, fun x => ?_, fun x => ?_⟩
  · change Function.update b.unLog b.unTail (some ⟨now, amount, op⟩) i = some v at hv
    by_cases heq : i = b.unTail
    · rw [heq, Function.update_self] at hv
      cases hv
      exact hnow
    · rw [Function.update_of_ne heq] at hv
      exact h.entries i v hv
  · have hupdate := sum_update (countOf x) b.unLog b.unTail (some ⟨now, amount, op⟩)
    rw [h.log.tail_none] at hupdate
    change _ + 0 = _ + (if op = x then 1 else 0) at hupdate
    rw [hcount, h.inflight]
    change _ = ∑ i, countOf x (Function.update b.unLog b.unTail (some ⟨now, amount, op⟩) i)
    omega
  · have hlt := BitVec.lt_def.mp hcap
    change _ < 7 at hlt
    have := h.limit x
    rw [hcount]
    by_cases heq : op = x
    · subst heq
      rw [if_pos rfl]
      omega
    · rw [if_neg heq]
      omega

end Books.Logged

theorem Popped.logged {popped : List Unbonding} (h : Popped now b popped b')
    (hb : b.Logged epoch) : b'.Logged epoch := by
  induction h with
  | nil => exact hb
  | skip hlive hentry _ ih => exact ih (hb.skip (BitVec.lt_def.mp hlive) hentry)
  | cons hlive hentry _ _ ih => exact ih (hb.pop (BitVec.lt_def.mp hlive) hentry)

theorem Pushed.logged (h : Pushed now b pushed b')
    (hb : b.Logged epoch) (hnow : now.toNat ≤ epoch)
    (hroom : b.unTail.toNat + pushed.length < 2 ^ 64) : b'.Logged epoch := by
  induction h with
  | nil => exact hb
  | @cons b b' op amount l _ _ hcap _ ih =>
    rw [List.length_cons] at hroom
    have hnext : (b.unTail + 1#64).toNat = b.unTail.toNat + 1 := toNat_add_one (by omega)
    refine ih (hb.push hnow hnext hcap) ?_
    change (b.unTail + 1#64).toNat + l.length < 2 ^ 64
    omega

/-! ## What a call does to queue and log -/

theorem Books.Alive.congr (h : b.Alive epoch) (hwq : b'.wq = b.wq) (hhead : b'.wqHead = b.wqHead)
    (htail : b'.wqTail = b.wqTail) (hlog : b'.unLog = b.unLog) (hunHead : b'.unHead = b.unHead)
    (hunTail : b'.unTail = b.unTail) (hinflight : b'.inflight = b.inflight) : b'.Alive epoch :=
  ⟨h.lined.congr hwq hhead htail, h.logged.congr hlog hunHead hunTail hinflight⟩

theorem Books.Alive.mint (h : b.Alive epoch) (account : AccountId) (amount : U128) :
    (b.mint account amount).Alive epoch :=
  h.congr rfl rfl rfl rfl rfl rfl rfl

variable {ctx : HostContext} {method : Option Method} {calls : List PendingCall}
  {transfers : List NativeTransfer} {op : AccountId}

theorem DepositMint.alive {value : U128} (h : DepositMint value b b' amount)
    (hb : b.Alive epoch) : b'.Alive epoch := by
  cases h with
  | first => exact hb.mint _ _
  | later => exact hb

theorem Deposited.alive (h : Deposited ctx b op b') (hb : b.Alive epoch) : b'.Alive epoch := by
  cases h with
  | intro _ _ hmint _ _ => exact (hmint.alive hb).congr rfl rfl rfl rfl rfl rfl rfl

theorem Acted.alive (h : Acted ctx b method b' calls transfers) (honward : b.Onward b')
    (hepoch : (epochOf ctx).toNat ≤ epoch) (hb : b.Alive epoch) : b'.Alive epoch := by
  cases h with
  | nothing => exact hb
  | deposited h => exact h.alive hb
  | @requested burn _ _ _ howed _ _ =>
    have hroom := toNat_add_one_of_le honward.queue
    exact ⟨(hb.lined.burn ctx.caller burn howed hepoch hroom).congr rfl rfl rfl,
      hb.logged.congr rfl rfl rfl rfl⟩
  | @cranked b₁ _ popped matured pushed hpop hmatured hbuffer hseen hpush hslots =>
    have hframe₁ := hpop.frame
    have hframe := hpush.frame
    have htail : (b₁.pull matured).unTail = b.unTail := by
      rw [hframe₁]
      rfl
    have hlogged : (b₁.pull matured).Logged epoch :=
      (hpop.logged hb.logged).congr rfl rfl rfl rfl
    refine ⟨hb.lined.congr ?_ ?_ ?_, hpush.logged hlogged hepoch (hpush.room hslots ?_)⟩
    · rw [hframe, hframe₁]
      rfl
    · rw [hframe, hframe₁]
      rfl
    · rw [hframe, hframe₁]
      rfl
    · rw [htail]
      exact honward.log
  | claimed hentry => exact ⟨hb.lined.pay hentry _ _, hb.logged.congr rfl rfl rfl rfl⟩
  | settled hentry => exact ⟨hb.lined.pay hentry _ _, hb.logged.congr rfl rfl rfl rfl⟩
  | recompounded => exact hb.congr rfl rfl rfl rfl rfl rfl rfl

theorem Booked.alive (h : Booked ctx b method b' calls transfers) (honward : b.Onward b')
    (hepoch : (epochOf ctx).toNat ≤ epoch) (hb : b.Alive epoch) : b'.Alive epoch := by
  cases h with
  | configured h =>
    rw [h.eq]
    exact hb.congr rfl rfl rfl rfl rfl rfl rfl
  | approved => exact hb.congr rfl rfl rfl rfl rfl rfl rfl
  | moved => exact hb.congr rfl rfl rfl rfl rfl rfl rfl
  | movedFrom => exact hb.congr rfl rfl rfl rfl rfl rfl rfl
  | slashed => exact hb.congr rfl rfl rfl rfl rfl rfl rfl
  | synced _ h =>
    exact h.alive ⟨honward.queue, honward.log⟩ hepoch (hb.congr rfl rfl rfl rfl rfl rfl rfl)

theorem Books.Alive.empty (epoch : Nat) : (books ∅).Alive epoch where
  lined := by
    refine ⟨Window.empty, fun i _ hlt => absurd hlt (Nat.not_lt_zero _), fun i w hw => ?_⟩
    cases hw
  logged := by
    refine ⟨Window.empty, fun i u hu => ?_, fun op => ?_, fun op => ?_⟩
    · cases hu
    · exact (Finset.sum_eq_zero fun _ _ => rfl).symm
    · change 0 < 7
      decide

/-! ## Cranks after everything has matured -/

section Late

variable {s s' : Frame} {popped : List Unbonding} {matured : U128}
  {pushed : List (AccountId × U128)} {b₁ : Books}

/-- Late enough, a crank empties the log. -/
theorem CrankDone.log_empty (h : CrankDone s s' popped matured pushed b₁)
    (hlogged : s.books.Logged epoch) (hlate : epoch + 7 ≤ (epochOf s.ctx).toNat) :
    b₁.Logged epoch ∧ ∀ i, b₁.unLog i = none := by
  have hpopped : b₁.Logged epoch := h.pop.logged (hlogged.congr rfl rfl rfl rfl)
  refine ⟨hpopped, fun i => ?_⟩
  obtain hend | ⟨u, hu, hearly⟩ := h.stopped
  · by_contra hsome
    have hlive := hpopped.log.live i hsome
    omega
  · have hentry := hpopped.entries _ u hu
    have hlt := BitVec.lt_def.mp hearly
    have hwrap : (u.epoch + unbondingEpochs).toNat ≤ u.epoch.toNat + 7 := by
      rw [BitVec.toNat_add]
      exact Nat.mod_le _ _
    omega

theorem CrankDone.popped_eq (h : CrankDone s s' popped matured pushed b₁)
    (hempty : ∀ i, b₁.unLog i = none) :
    (popped.map (·.amount.toNat)).sum = ∑ i, amountOf (s.books.unLog i) := by
  have hpop := h.onCall_pop ∅
  have hzero : ∑ i, amountOf ((b₁.pull matured).unLog i) = 0 := by
    refine Finset.sum_eq_zero fun i _ => ?_
    change amountOf (b₁.unLog i) = 0
    rw [hempty i, amountOf]
  unfold Books.onCall at hpop
  rw [hzero, Finset.sum_empty, Finset.sum_empty, Nat.add_zero, Nat.add_zero, Nat.zero_add] at hpop
  exact hpop

/-- What was in the log is in the buffer. -/
theorem CrankDone.buffer_eq (h : CrankDone s s' popped matured pushed b₁)
    (hempty : ∀ i, b₁.unLog i = none)
    (hfits : s.books.buffer.toNat + ∑ i, amountOf (s.books.unLog i) < 2 ^ 128) :
    s'.books.buffer.toNat = s.books.buffer.toNat + ∑ i, amountOf (s.books.unLog i) := by
  obtain ⟨-, -, -, -, hbuffer, -⟩ := h.frame
  have hsum := h.sum
  rw [h.popped_eq hempty, Nat.min_eq_left (by omega)] at hsum
  rw [hbuffer, BitVec.toNat_add_of_lt (by omega), hsum]

/-- What could be undelegated is in the log. -/
theorem CrankDone.log_eq (h : CrankDone s s' popped matured pushed b₁)
    (hpopped : b₁.Logged epoch) (hempty : ∀ i, b₁.unLog i = none)
    (hroom : s.books.unTail.toNat + s.books.opCount.toNat < 2 ^ 64) :
    ∑ i, amountOf (s'.books.unLog i) = ∑ op ∈ s.books.operators, s.books.payable op := by
  have hslots := h.slots
  have hpush := h.push.onCall_eq hpopped.log (by rw [h.unTail_pull]; omega) h.mem_operators
  have hpop := h.onCall_pop s.books.operators
  rw [h.popped_eq hempty] at hpop
  have hnone : ∑ op ∈ s.books.operators, s'.books.payable op = 0 := by
    refine Finset.sum_eq_zero fun op hop => ?_
    obtain ⟨hnamed, hslot⟩ := Finset.mem_erase.mp hop
    refine Books.payable_eq_zero hnamed fun hdue => ?_
    have hcapped := BitVec.le_def.mp (h.left op (Books.mem_slots.mp hslot) hdue)
    have hinflight : (b₁.inflight op).toNat = 0 := by
      rw [hpopped.inflight]
      refine Finset.sum_eq_zero fun i _ => ?_
      rw [hempty i, countOf]
    rw [toNat_add_one (by omega), hinflight] at hcapped
    exact absurd hcapped (by decide)
  unfold Books.onCall at hpush hpop
  omega

theorem CrankDone.logged (h : CrankDone s s' popped matured pushed b₁)
    (hpopped : b₁.Logged epoch) (hlate : epoch ≤ (epochOf s.ctx).toNat)
    (hroom : s.books.unTail.toNat + s.books.opCount.toNat < 2 ^ 64) :
    s'.books.Logged (epochOf s.ctx).toNat := by
  have hslots := h.slots
  exact h.push.logged ((hpopped.mono hlate).congr rfl rfl rfl rfl) (Nat.le_refl _)
    (by rw [h.unTail_pull]; omega)

/-- A crank after which the tail has not come around keeps the books in
order, and all that can be brought into the buffer. -/
theorem CrankDone.orderly (h : CrankDone s s' popped matured pushed b₁)
    (hb : s.books.Alive epoch) (hlate : epoch ≤ (epochOf s.ctx).toNat)
    (honward : s.books.unTail.toNat ≤ s'.books.unTail.toNat)
    (hfits : s.books.available < 2 ^ 128) :
    s'.books.Alive (epochOf s.ctx).toNat ∧ s'.books.available = s.books.available := by
  have hslots : pushed.length < 2 ^ 64 := Nat.lt_of_le_of_lt h.slots s.books.opCount.isLt
  have hpopped : (b₁.pull matured).Logged epoch :=
    (h.pop.logged (hb.logged.congr rfl rfl rfl rfl)).congr rfl rfl rfl rfl
  have hroom := h.push.room hslots (by rw [h.unTail_pull]; exact honward)
  obtain ⟨hwq, hhead, htail, hoperators, hbuffer, -⟩ := h.frame
  refine ⟨⟨(hb.lined.mono hlate).congr hwq hhead htail,
    h.push.logged (hpopped.mono hlate) (Nat.le_refl _) hroom⟩, ?_⟩
  have hpush := h.push.onCall_eq hpopped.log hroom h.mem_operators
  have hpop := h.onCall_pop s.books.operators
  have hsum := h.sum
  unfold Books.available at hfits ⊢
  rw [Nat.min_eq_left (by omega)] at hsum
  rw [hoperators, hbuffer, BitVec.toNat_add_of_lt (by omega), hpush]
  omega

/-- No operator is left with something to undelegate. -/
theorem CrankDone.dueFrom_empty (h : CrankDone s s' popped matured pushed b₁)
    (hpopped : b₁.Logged epoch) (hempty : ∀ i, b₁.unLog i = none) :
    s'.books.dueFrom 0#64 s'.books.opCount.toNat = ∅ := by
  obtain ⟨-, -, -, -, -, hop, hcount⟩ := h.frame
  refine Finset.eq_empty_of_forall_notMem fun op hdue => ?_
  obtain ⟨hslot, hdue⟩ := Books.mem_dueFrom.mp hdue
  unfold Books.Slotted at hslot
  rw [hop, hcount] at hslot
  have hcapped := BitVec.le_def.mp (h.left op hslot hdue)
  have hinflight : (b₁.inflight op).toNat = 0 := by
    rw [hpopped.inflight]
    refine Finset.sum_eq_zero fun i _ => ?_
    rw [hempty i, countOf]
  rw [toNat_add_one (by omega), hinflight] at hcapped
  exact absurd hcapped (by decide)

end Late

/-! ## Claims -/

theorem doClaimWithdrawal_passes {s : Frame}
    (hentry : s.books.wq s.books.wqHead = some w) (howed : w.solenOwed ≠ 0#128)
    (htime : w.requestedEpoch.toNat + 8 ≤ (epochOf s.ctx).toNat)
    (hbuffer : w.solenOwed ≤ s.books.buffer) (htransfers : s.nativeTransfers = []) :
    Gives (doClaimWithdrawal (le64 s.books.wqHead)) s fun r _ => r = .ok (ascii "ok") := by
  have hlate : ¬ epochOf s.ctx < w.requestedEpoch + unbondingEpochs + 1#64 := by
    rw [BitVec.not_lt, BitVec.le_def]
    have hlt := (epochOf s.ctx).isLt
    have hwait : (w.requestedEpoch + unbondingEpochs).toNat = w.requestedEpoch.toNat + 7 :=
      BitVec.toNat_add_of_lt (by change w.requestedEpoch.toNat + 7 < _; omega)
    rw [toNat_add_one (by omega), hwait]
    omega
  unfold doClaimWithdrawal headRequest
  simp only [bind_assoc]
  rw [readU64_le64]
  refine gives_orFail_bind.mpr ⟨nofun, fun seq hseq => ?_⟩
  cases hseq
  rw [gives_getWqHead_bind, gives_failIf_bind]
  refine ⟨fun h => absurd rfl h, fun _ => ?_⟩
  rw [gives_readWq_bind, hentry]
  refine gives_orFail_bind.mpr ⟨nofun, fun w' hw => ?_⟩
  cases hw
  rw [gives_currentEpoch_bind, gives_failIf_bind]
  refine ⟨fun h => absurd h hlate, fun _ => ?_⟩
  rw [gives_pure_bind]
  dsimp only
  rw [gives_getWithdrawalBuffer_bind, gives_failIf_bind]
  refine ⟨fun h => absurd h (BitVec.not_lt.mpr hbuffer), fun _ => ?_⟩
  refine gives_syncRewards_bind fun s₁ hturned _ => ?_
  rw [gives_transferNative_bind]
  refine ⟨fun hfull => ?_, fun _ => rfl⟩
  rw [Frame.CanSend, hturned.transfers, htransfers] at hfull
  exact absurd ⟨howed, by decide⟩ hfull

theorem doClaimWithdrawal_answered (s : Frame) (args : Bytes) :
    Gives (doClaimWithdrawal args) s fun r _ => Answered r (ascii "ok") →
      ∃ w, s.books.wq s.books.wqHead = some w ∧ w.solenOwed ≤ s.books.buffer := by
  unfold doClaimWithdrawal headRequest
  simp only [bind_assoc]
  rw [gives_orFail_bind]
  refine ⟨fun _ h => absurd h (not_answered_returned (by decide)), fun seq _ => ?_⟩
  rw [gives_getWqHead_bind, gives_failIf_bind]
  refine ⟨fun _ h => absurd h (not_answered_returned (by decide)), fun hhead => ?_⟩
  obtain rfl := not_ne_iff.mp hhead
  rw [gives_readWq_bind, gives_orFail_bind]
  refine ⟨fun _ h => absurd h (not_answered_returned (by decide)), fun w hw => ?_⟩
  rw [gives_currentEpoch_bind, gives_failIf_bind]
  refine ⟨fun _ h => absurd h (not_answered_returned (by decide)), fun _ => ?_⟩
  rw [gives_pure_bind]
  dsimp only
  rw [gives_getWithdrawalBuffer_bind, gives_failIf_bind]
  refine ⟨fun _ h => absurd h (not_answered_returned (by decide)), fun hbuffer => ?_⟩
  exact fun _ => ⟨w, hw, BitVec.not_lt.mp hbuffer⟩

/-! ## Paying the head of the queue -/

/-- What a call finds at each height: who calls with what value, balance and
fuel, and whether the transfers and calls that it queues go through. -/
structure Surroundings where
  caller : Nat → AccountId
  contractId : AccountId
  value : Nat → U128
  balance : Nat → U128
  fuel : Nat → Nat
  work : Nat → Nat → Nat
  settles : Nat → List NativeTransfer → List PendingCall → Bool

namespace Surroundings

def context (env : Surroundings) (m : Store) (height : Nat) : HostContext :=
  ⟨env.caller height, env.contractId, height, m, env.value height, env.balance height⟩

def tank (env : Surroundings) (height : Nat) : Tank :=
  { fuel := env.fuel height, work := env.work height }

def call (env : Surroundings) (m : Store) (height : Nat) (input : Bytes) :
    Except String Outcome :=
  StSolen.call (env.context m height) (env.tank height) input

/-- The call answers `ok`, had the fuel for its requests, and what it queued
went through. -/
structure Makes (env : Surroundings) (m : Store) (height : Nat) (input : Bytes) (o : Outcome) :
    Prop where
  call : env.call m height input = .ok o
  data : o.data = ascii "ok"
  paid : o.refused = false
  settled : env.settles height o.frame.nativeTransfers o.frame.pendingCalls = true

/-- The storage after a call. -/
def after (env : Surroundings) (m : Store) (height : Nat) (input : Bytes) : Store :=
  match env.call m height input with
  | .ok o => o.frame.storage
  | .error _ => m

/-- Nothing but the contract itself stands in the way of a call: the fuel is
enough, and what it queues goes through. -/
structure Bears (env : Surroundings) (m : Store) (height : Nat) (input : Bytes) : Prop where
  fueled : Fueled (env.context m height) (env.tank height) input
  settled : ∀ o, env.call m height input = .ok o →
    env.settles height o.frame.nativeTransfers o.frame.pendingCalls = true

variable {env : Surroundings} {m : Store} {height : Nat} {input : Bytes} {o : Outcome}

theorem Makes.after_eq (h : env.Makes m height input o) :
    env.after m height input = o.frame.storage := by
  unfold after
  rw [h.call]

theorem Makes.bears (h : env.Makes m height input o) : env.Bears m height input := by
  refine ⟨.of_call h.call h.paid, fun o' ho' => ?_⟩
  cases h.call.symm.trans ho'
  exact h.settled

/-- A call that the contract answers with `ok`. -/
theorem Bears.makes {name : String} {method : Method} {args : Bytes}
    (h : env.Bears m height (inputOf name args)) (hname : (ascii name).all (· != 0) = true)
    (hmethod : Method.ofBytes? (ascii name) = some method)
    (hpasses : Gives (method.run args) (Frame.start (env.context m height))
      fun r _ => r = .ok (ascii "ok")) :
    ∃ o, env.Makes m height (inputOf name args) o := by
  obtain ⟨o, hcall, hdata, hpaid⟩ := h.fueled.answers hname hmethod hpasses
  exact ⟨o, hcall, hdata, hpaid, h.settled o hcall⟩

end Surroundings

def crankInput : Bytes := inputOf "crank_undelegations" []

def claimInput (seq : U64) : Bytes := inputOf "claim_withdrawal" (le64 seq)

/-- A crank at the same height or a later one. -/
inductive CrankStep (env : Surroundings) : Store × Nat → Store × Nat → Prop where
  | intro {m : Store} {height height' : Nat} {o : Outcome} (hlater : height ≤ height')
      (hheight : height' < 2 ^ 64) (hcrank : env.Makes m height' crankInput o) :
      CrankStep env (m, height) (o.frame.storage, height')

/-- Cranks and time are enough for a claim of the queue's head. -/
def Payable (env : Surroundings) (m : Store) (height : Nat) : Prop :=
  ∃ m' height', Relation.ReflTransGen (CrankStep env) (m, height) (m', height') ∧
    ∃ claimed o, height' ≤ claimed ∧ claimed < 2 ^ 64 ∧
      env.Makes m' claimed (claimInput (books m).wqHead) o

/-- What cranks can bring into the buffer, read off the storage: the buffer,
the live log, and what the operators in active slots can undelegate. -/
def payout (m : Store) : Nat :=
  (books m).buffer.toNat + logSum m + ∑ op ∈ (books m).operators,
    min ((books m).pendingUndelegate op).toNat ((books m).opStake op).toNat

theorem Books.Logged.logSum_eq {m : Store} (h : (books m).Logged epoch) :
    logSum m = ∑ i, amountOf ((books m).unLog i) := h.log.sum_eq rfl

theorem Books.Logged.available_eq {m : Store} (h : (books m).Logged epoch) :
    (books m).available = payout m := by
  unfold Books.available Books.onCall Books.payable payout
  rw [h.logSum_eq, Nat.add_assoc]

variable {env : Surroundings} {m : Store} {height : Nat}

theorem Surroundings.Makes.crank_done {o : Outcome} (h : env.Makes m height crankInput o) :
    ∃ popped matured pushed b₁,
      CrankDone (Frame.start (env.context m height)) o.frame popped matured pushed b₁ := by
  obtain ⟨r, s', hanswer, hpost, halike⟩ :=
    @gives_of_call _ _ _ .crankUndelegations _ _ _ h.call h.paid (by decide) (by decide)
      (doCrankUndelegations_gives (Frame.start (env.context m height)))
  obtain ⟨msg, rfl, -⟩ | ⟨-, popped, matured, pushed, b₁, hdone⟩ := hpost
  · exact absurd hanswer not_answered_trapped
  · exact ⟨popped, matured, pushed, b₁, hdone.alike halike⟩

/-- Cranks keep the head of the queue and raise nothing. -/
theorem cranks_bounded {p : Store × Nat} (h : Relation.ReflTransGen (CrankStep env) (m, height) p) :
    height ≤ p.2 ∧ (books p.1).wq = (books m).wq ∧ (books p.1).wqHead = (books m).wqHead ∧
      (books p.1).available ≤ (books m).available := by
  induction h with
  | refl => exact ⟨Nat.le_refl _, rfl, rfl, Nat.le_refl _⟩
  | tail _ hstep ih =>
    obtain ⟨htime, hwq, hhead, hle⟩ := ih
    cases hstep with
    | intro hlater _ hcrank =>
      obtain ⟨popped, matured, pushed, b₁, hdone⟩ := hcrank.crank_done
      obtain ⟨hwq', hhead', -⟩ := hdone.frame
      exact ⟨htime.trans hlater, hwq'.trans hwq, hhead'.trans hhead,
        hdone.available_le.trans hle⟩

/-- A head that gets paid is covered by what cranks can bring. -/
theorem Payable.le_available (h : Payable env m height) :
    ∃ w, (books m).wq (books m).wqHead = some w ∧ w.solenOwed.toNat ≤ (books m).available := by
  obtain ⟨m', height', hcranks, claimed, o, -, -, hclaim⟩ := h
  obtain ⟨-, hwq, hhead, hle⟩ := cranks_bounded hcranks
  obtain ⟨r, s', hanswer, hpost, -⟩ :=
    @gives_of_call _ _ _ .claimWithdrawal _ _ _ hclaim.call hclaim.paid (by decide) (by decide)
      (doClaimWithdrawal_answered (Frame.start (env.context m' claimed)) _)
  rw [hclaim.data] at hanswer
  obtain ⟨w, hw, hbuffer⟩ := hpost hanswer
  change (books m').wq (books m').wqHead = some w at hw
  rw [hwq, hhead] at hw
  refine ⟨w, hw, (BitVec.le_def.mp hbuffer).trans (Nat.le_trans ?_ hle)⟩
  exact Nat.le_add_right _ _

theorem toNat_epochOf {ctx : HostContext} (h : ctx.blockHeight < 2 ^ 64) :
    (epochOf ctx).toNat = ctx.blockHeight / 100 := by
  unfold epochOf
  rw [BitVec.toNat_udiv, BitVec.toNat_ofNat, Nat.mod_eq_of_lt h]
  rfl

theorem toNat_epochOf_context (env : Surroundings) (m : Store) (h : height < 2 ^ 64) :
    (epochOf (Frame.start (env.context m height)).ctx).toNat = height / 100 := toNat_epochOf h

/-- A crank that does not let the tail of the log come around. -/
def OrderlyCrank (env : Surroundings) (p q : Store × Nat) : Prop :=
  CrankStep env p q ∧ (books p.1).unTail.toNat ≤ (books q.1).unTail.toNat

theorem cranks_orderly {p : Store × Nat}
    (h : Relation.ReflTransGen (OrderlyCrank env) (m, height) p)
    (hb : (books m).Alive (height / 100)) (hfits : (books m).available < 2 ^ 128) :
    (books p.1).Alive (p.2 / 100) ∧ (books p.1).available = (books m).available := by
  induction h with
  | refl => exact ⟨hb, rfl⟩
  | tail _ hstep ih =>
    obtain ⟨hb, havailable⟩ := ih
    obtain ⟨hstep, honward⟩ := hstep
    cases hstep with
    | @intro m height height' o hlater hheight hcrank =>
      obtain ⟨popped, matured, pushed, b₁, hdone⟩ := hcrank.crank_done
      have hepoch := toNat_epochOf_context env m hheight
      obtain ⟨hb', havailable'⟩ := hdone.orderly hb
        (by rw [hepoch]; exact Nat.div_le_div_right hlater) honward
        (by rw [← havailable] at hfits; exact hfits)
      rw [hepoch] at hb'
      exact ⟨hb', havailable'.trans havailable⟩

/-- A crank with room for its calls, after all that is in the log has
matured. -/
theorem crank_late {H : Nat} (hb : (books m).Logged (H / 100)) (hlate : H + 700 ≤ height)
    (hheight : height < 2 ^ 64) (hcalls : (books m).crankCalls ≤ 16)
    (hbears : env.Bears m height crankInput) :
    ∃ o popped matured pushed b₁, env.Makes m height crankInput o ∧
      CrankDone (Frame.start (env.context m height)) o.frame popped matured pushed b₁ ∧
      b₁.Logged (H / 100) ∧ ∀ i, b₁.unLog i = none := by
  obtain ⟨o, hmakes⟩ := @Surroundings.Bears.makes _ _ _ "crank_undelegations" .crankUndelegations
    [] hbears (by decide) (by decide)
    (doCrankUndelegations_passes (s := Frame.start (env.context m height)) rfl hcalls)
  obtain ⟨popped, matured, pushed, b₁, hdone⟩ := hmakes.crank_done
  have hepoch := toNat_epochOf_context env m hheight
  obtain ⟨hpopped, hempty⟩ := hdone.log_empty hb (by omega)
  exact ⟨o, popped, matured, pushed, b₁, hmakes, hdone, hpopped, hempty⟩

theorem claim_passes {claimed : Nat} (hentry : (books m).wq (books m).wqHead = some w)
    (howed : w.solenOwed ≠ 0#128)
    (htime : w.requestedEpoch.toNat + 8 ≤ (epochOf (env.context m claimed)).toNat)
    (hbuffer : w.solenOwed ≤ (books m).buffer)
    (hbears : env.Bears m claimed (claimInput (books m).wqHead)) :
    ∃ o, env.Makes m claimed (claimInput (books m).wqHead) o :=
  @Surroundings.Bears.makes _ _ _ "claim_withdrawal" .claimWithdrawal _ hbears (by decide)
    (by decide) (doClaimWithdrawal_passes (s := Frame.start (env.context m claimed)) hentry howed
      htime hbuffer rfl)

/-- Two cranks pay a head that is covered. -/
theorem payable_of_le {H₁ H₂ : Nat} (hb : (books m).Alive (height / 100))
    (hentry : (books m).wq (books m).wqHead = some w)
    (hcalls : (books m).crankCalls ≤ 16)
    (hroom : (books m).unTail.toNat + (books m).opCount.toNat < 2 ^ 64)
    (hfits : (books m).available < 2 ^ 128) (hcovered : w.solenOwed.toNat ≤ (books m).available)
    (h₁ : height + 700 ≤ H₁) (h₂ : H₁ + 700 ≤ H₂) (hlast : H₂ < 2 ^ 64)
    (hfirst : env.Bears m H₁ crankInput)
    (hsecond : env.Bears (env.after m H₁ crankInput) H₂ crankInput)
    (hclaim : env.Bears (env.after (env.after m H₁ crankInput) H₂ crankInput) H₂
      (claimInput (books m).wqHead)) : Payable env m height := by
  have hsum : (books m).available = (books m).buffer.toNat +
      (∑ i, amountOf ((books m).unLog i) +
        ∑ op ∈ (books m).operators, (books m).payable op) := rfl
  obtain ⟨howed, hrequested⟩ := hb.lined.requests _ w hentry
  -- The first crank, when all that is in the log now has matured.
  obtain ⟨o₁, popped₁, matured₁, pushed₁, b₁, hmakes₁, hdone₁, hpopped₁, hempty₁⟩ :=
    crank_late hb.logged h₁ (by omega) hcalls hfirst
  have hepoch₁ := toNat_epochOf_context env m (show H₁ < 2 ^ 64 by omega)
  have hbuffer₁ : o₁.frame.books.buffer.toNat =
      (books m).buffer.toNat + ∑ i, amountOf ((books m).unLog i) :=
    hdone₁.buffer_eq hempty₁ (by
      change (books m).buffer.toNat + ∑ i, amountOf ((books m).unLog i) < 2 ^ 128
      omega)
  have hlog₁ : ∑ i, amountOf (o₁.frame.books.unLog i) =
      ∑ op ∈ (books m).operators, (books m).payable op := hdone₁.log_eq hpopped₁ hempty₁ hroom
  have hlogged₁ := hdone₁.logged hpopped₁ (by omega) hroom
  have hnone := hdone₁.dueFrom_empty hpopped₁ hempty₁
  obtain ⟨hwq₁, hhead₁, -⟩ := hdone₁.frame
  rw [hepoch₁] at hlogged₁
  rw [hmakes₁.after_eq] at hsecond hclaim
  -- The second one, when what the first has logged has matured too.
  obtain ⟨o₂, popped₂, matured₂, pushed₂, b₂, hmakes₂, hdone₂, -, hempty₂⟩ :=
    crank_late hlogged₁ h₂ hlast (by
      unfold Books.crankCalls
      change (o₁.frame.books.dueFrom 0#64 o₁.frame.books.opCount.toNat).card + _ ≤ 16
      rw [hnone, Finset.card_empty]
      split
      · decide
      · decide) hsecond
  have hbuffer₂ : o₂.frame.books.buffer.toNat =
      o₁.frame.books.buffer.toNat + ∑ i, amountOf (o₁.frame.books.unLog i) :=
    hdone₂.buffer_eq hempty₂ (by
      change o₁.frame.books.buffer.toNat + ∑ i, amountOf (o₁.frame.books.unLog i) < 2 ^ 128
      omega)
  obtain ⟨hwq₂, hhead₂, -⟩ := hdone₂.frame
  have hwq : (books o₂.frame.storage).wq = (books m).wq := hwq₂.trans hwq₁
  have hhead : (books o₂.frame.storage).wqHead = (books m).wqHead := hhead₂.trans hhead₁
  rw [hmakes₂.after_eq, ← hhead] at hclaim
  obtain ⟨o₃, hmakes₃⟩ := claim_passes (by rw [hwq, hhead]; exact hentry) howed (by
      rw [toNat_epochOf hlast]
      change w.requestedEpoch.toNat + 8 ≤ H₂ / 100
      omega) (by
      refine BitVec.le_def.mpr ?_
      change w.solenOwed.toNat ≤ o₂.frame.books.buffer.toNat
      omega) hclaim
  rw [hhead] at hmakes₃
  have hcranks := (Relation.ReflTransGen.single
    (CrankStep.intro (by omega : height ≤ H₁) (by omega) hmakes₁)).tail
    (CrankStep.intro (by omega) hlast hmakes₂)
  exact ⟨o₂.frame.storage, H₂, hcranks, H₂, o₃, Nat.le_refl _, hlast, hmakes₃⟩

/-! ## Runs -/

/-- The calls of a run up to height `H` that does not slash, with fuel for
every request, in which neither tail comes around. -/
def Quiet (H : Nat) (ctx : HostContext) (input : Bytes) (o : Outcome) : Prop :=
  ctx.blockHeight ≤ H ∧ methodOf input ≠ some .reportSlash ∧ o.refused = false ∧
    (books ctx.storage).wqTail.toNat ≤ (books o.frame.storage).wqTail.toNat ∧
    (books ctx.storage).unTail.toNat ≤ (books o.frame.storage).unTail.toNat

theorem alive_of_run {H : Nat} (hH : H < 2 ^ 64)
    (hrun : Relation.ReflTransGen (CallStep (Quiet H)) ∅ m) :
    (books m).Alive (H / 100) := by
  induction hrun with
  | refl => exact Books.Alive.empty _
  | tail _ hstep ih =>
    cases hstep with
    | undone => exact ih
    | @kept ctx tank input o hcall hfits hallowed =>
      obtain ⟨hheight, -, hpaid, hqueue, hlog⟩ := hallowed
      refine (call_booked hcall hpaid hfits).alive ⟨hqueue, hlog⟩ ?_ ih
      rw [toNat_epochOf (Nat.lt_of_le_of_lt hheight hH)]
      exact Nat.div_le_div_right hheight

/-- The head of a queue that is not empty gets paid by cranks exactly when
the buffer, the log and what can be undelegated cover it. Cranks may be made
until there is room for the calls of the last two. -/
theorem withdrawals_live_iff {H H₀ H₁ H₂ : Nat} {m₀ : Store} (env : Surroundings)
    (hrun : Relation.ReflTransGen (CallStep (Quiet H)) ∅ m)
    (hqueue : (books m).wqHead.toNat < (books m).wqTail.toNat) (hfits : payout m < 2 ^ 128)
    (hcranks : Relation.ReflTransGen (OrderlyCrank env) (m, H) (m₀, H₀))
    (hcalls : ((books m₀).dueFrom 0#64 (books m₀).opCount.toNat).card +
      (if logSum m₀ = 0 then 0 else 1) ≤ 16)
    (hroom : (books m₀).unTail.toNat + (books m₀).opCount.toNat < 2 ^ 64)
    (h₁ : H₀ + 700 ≤ H₁) (h₂ : H₁ + 700 ≤ H₂) (hlast : H₂ < 2 ^ 64)
    (hfirst : env.Bears m₀ H₁ crankInput)
    (hsecond : env.Bears (env.after m₀ H₁ crankInput) H₂ crankInput)
    (hclaim : env.Bears (env.after (env.after m₀ H₁ crankInput) H₂ crankInput) H₂
      (claimInput (books m).wqHead)) :
    ∃ w, (books m).wq (books m).wqHead = some w ∧
      (Payable env m H ↔ w.solenOwed.toNat ≤ payout m) := by
  have hsteps : Relation.ReflTransGen (CrankStep env) (m, H) (m₀, H₀) :=
    Relation.ReflTransGen.mono (fun _ _ hstep => hstep.1) _ _ hcranks
  obtain ⟨htime, hwq, hhead, -⟩ := cranks_bounded hsteps
  change H ≤ H₀ at htime
  have halive := alive_of_run (by omega) hrun
  have hpayout := halive.logged.available_eq
  obtain ⟨w, hw⟩ := Option.ne_none_iff_exists'.mp
    (halive.lined.full (books m).wqHead (Nat.le_refl _) hqueue)
  refine ⟨w, hw, fun hpayable => ?_, fun hcovered => ?_⟩
  · obtain ⟨w', hw', hle⟩ := hpayable.le_available
    cases hw.symm.trans hw'
    rw [← hpayout]
    exact hle
  · rw [← hpayout] at hcovered hfits
    obtain ⟨halive₀, havailable⟩ := cranks_orderly hcranks halive hfits
    rw [← hhead] at hclaim
    have hpaid := @payable_of_le w env m₀ H₀ H₁ H₂ halive₀ (by rw [hwq, hhead]; exact hw)
      (by rw [Books.crankCalls, ← halive₀.logged.logSum_eq]; exact hcalls) hroom
      (by rw [havailable]; exact hfits) (by rw [havailable]; exact hcovered) h₁ h₂ hlast hfirst
      hsecond hclaim
    obtain ⟨m', height', hmore, claimed, o, hlater, hclaimed, hmakes⟩ := hpaid
    rw [hhead] at hmakes
    exact ⟨m', height', hsteps.trans hmore, claimed, o, hlater, hclaimed, hmakes⟩

instance (H : Nat) (ctx : HostContext) (input : Bytes) (o : Outcome) :
    Decidable (Quiet H ctx input o) := inferInstanceAs (Decidable (_ ∧ _ ∧ _ ∧ _ ∧ _))

/-- Calls by one account with the usual fuel. All that is queued goes
through. -/
def calm : Surroundings where
  caller _ := Hash.repeated 9
  contractId := Hash.zero
  value _ := 0#128
  balance _ := 40000#128
  fuel _ := Vm.defaultFuelLimit.toNat
  work _ _ := 10
  settles _ _ _ := true

/-- The storage after a call that is made. -/
def Surroundings.made? (env : Surroundings) (m : Store) (height : Nat) (input : Bytes) :
    Option Store :=
  match env.call m height input with
  | .ok o =>
      if o.data = ascii "ok" ∧ o.refused = false ∧
          env.settles height o.frame.nativeTransfers o.frame.pendingCalls = true then
        some o.frame.storage
      else none
  | .error _ => none

theorem Surroundings.makes_of_made {m' : Store} {input : Bytes}
    (h : env.made? m height input = some m') :
    ∃ o, env.Makes m height input o ∧ o.frame.storage = m' := by
  unfold Surroundings.made? at h
  split at h
  · next o hcall =>
      split at h
      · next hok => exact ⟨o, ⟨hcall, hok.1, hok.2.1, hok.2.2⟩, Option.some.inj h⟩
      · cases h
  · cases h

/-- A request for five hundred of thirty thousand is paid. -/
theorem withdrawals_live_iff_paid :
    ∃ m w, Relation.ReflTransGen (CallStep (Quiet 0)) ∅ m ∧
      (books m).wq (books m).wqHead = some w ∧ w.solenOwed = 500#128 ∧ payout m = 500 ∧
      Payable calm m 0 := by
  obtain ⟨m, hplay, hfacts⟩ := exists_play (a := true) (Quiet 0)
    (opening 30000#128 ++ [asking 500#128 1000000]) ∅ (fun m => decide
      ((books m).wqHead.toNat < (books m).wqTail.toNat ∧ (books m).opCount = 1#64 ∧
        (books m).unTail = 0#64 ∧ logSum m = 0 ∧ payout m = 500 ∧
        ((books m).wq (books m).wqHead).map (·.solenOwed) = some 500#128 ∧
        (((calm.made? m 700 crankInput).bind fun m₁ => (calm.made? m₁ 1400 crankInput).bind
          fun m₂ => calm.made? m₂ 1400 (claimInput (books m).wqHead)).isSome) = true))
    (by decide +kernel)
  obtain ⟨hwaiting, hcount, htail, hlog, hpayout, howed, hmade⟩ := of_decide_eq_true hfacts
  obtain ⟨m₃, hmade⟩ := Option.isSome_iff_exists.mp hmade
  obtain ⟨m₁, hfirst, hmade⟩ := Option.bind_eq_some_iff.mp hmade
  obtain ⟨m₂, hsecond, hclaim⟩ := Option.bind_eq_some_iff.mp hmade
  obtain ⟨o₁, hmakes₁, rfl⟩ := Surroundings.makes_of_made hfirst
  obtain ⟨o₂, hmakes₂, rfl⟩ := Surroundings.makes_of_made hsecond
  obtain ⟨o₃, hmakes₃, -⟩ := Surroundings.makes_of_made hclaim
  have hrun := play_run hplay
  obtain ⟨w, hw, hlive⟩ := withdrawals_live_iff calm hrun
    hwaiting (by rw [hpayout]; decide) .refl
    (by
      rw [hlog, if_pos rfl, Nat.add_zero]
      refine (Finset.card_filter_le _ _).trans (Finset.card_image_le.trans ?_)
      rw [Finset.card_range, hcount]
      decide)
    (by rw [htail, hcount]; decide) (by decide) (show 700 + 700 ≤ 1400 by decide) (by decide)
    hmakes₁.bears
    (by rw [hmakes₁.after_eq]; exact hmakes₂.bears)
    (by rw [hmakes₁.after_eq, hmakes₂.after_eq]; exact hmakes₃.bears)
  rw [hw, Option.map_some, Option.some.injEq] at howed
  refine ⟨m, w, hrun, hw, howed, hpayout, hlive.mpr ?_⟩
  rw [hpayout, howed]
  decide

/-- The least first deposit, and a request for all of it that the depositor
holds: the reserve for fees is owed but cannot be undelegated, and no cranks
in any surroundings help. -/
theorem withdrawal_stuck :
    ∃ m, Relation.ReflTransGen (CallStep (Quiet 0)) ∅ m ∧
      (books m).wqHead.toNat < (books m).wqTail.toNat ∧
      ∀ env height, ¬ Payable env m height := by
  obtain ⟨m, hplay, hfacts⟩ := exists_play (a := true) (Quiet 0)
    (opening 11100#128 ++ [asking 10100#128 1000000]) ∅ (fun m => decide
      ((books m).wqHead.toNat < (books m).wqTail.toNat ∧ payout m = 1100 ∧
        ((books m).wq (books m).wqHead).map (·.solenOwed) = some 10100#128)) (by decide +kernel)
  obtain ⟨hwaiting, hpayout, howed⟩ := of_decide_eq_true hfacts
  have hrun := play_run hplay
  refine ⟨m, hrun, hwaiting, fun env height hpayable => ?_⟩
  obtain ⟨w, hw, hle⟩ := hpayable.le_available
  rw [hw, Option.map_some, Option.some.injEq] at howed
  rw [(alive_of_run (by decide) hrun).logged.available_eq, hpayout, howed] at hle
  exact absurd hle (by decide)

end Solen.StSolen
