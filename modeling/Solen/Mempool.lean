import Solen.Types

/-!
# The mempool

Pending operations, kept three times: the operations themselves in fee
order, the (sender, nonce) pairs that were seen, and a counter per
sender. The three are updated one after the other and an operation can
leave in three ways (evicted by a higher fee, drained into a block, or
removed because some block has it), so that they agree is an invariant
of every call (`Mempool.Sound`).

The ordered set is its list of elements in order. Two entries are the
same for the set if fee, sender and nonce are; the duplicate check
compares sender and nonce only.
-/

namespace Solen

open Machine

def maxOpsPerSender : Nat := 64

/-- `MAX_OP_SIZE`, 8 MB. -/
def maxOpSize : Nat := 8 * 1024 * 1024

/-! ## Entries in fee order -/

namespace UserOperation

def dedupKey (op : UserOperation) : AccountId × U64 := (op.sender, op.nonce)

/-- Higher fee first, ties by sender and nonce. -/
def feeCmp (a b : UserOperation) : Ordering :=
  (compare b.maxFee a.maxFee).then ((compare a.sender b.sender).then (compare a.nonce b.nonce))

theorem fee_le_of_compare_ne_gt {a b : U128} (h : compare a b ≠ .gt) : a.toNat ≤ b.toNat := by
  have hnot : ¬ compare b a = .lt := fun hlt => h (Std.OrientedCmp.gt_of_lt hlt)
  have hlt : ¬ b < a := fun hlt => hnot (by simp [compare, compareOfLessAndEq, hlt])
  exact BitVec.le_def.mp (BitVec.not_lt.mp hlt)

theorem fee_le_of_feeCmp_lt {a b : UserOperation} (h : a.feeCmp b = .lt) :
    b.maxFee.toNat ≤ a.maxFee.toNat := by
  refine fee_le_of_compare_ne_gt fun hgt => ?_
  rw [feeCmp, hgt] at h
  cases h

theorem fee_le_of_feeCmp_gt {a b : UserOperation} (h : a.feeCmp b = .gt) :
    a.maxFee.toNat ≤ b.maxFee.toNat := by
  refine fee_le_of_compare_ne_gt fun hgt => ?_
  rw [feeCmp, Std.OrientedCmp.lt_of_gt hgt] at h
  cases h

theorem dedupKey_eq_of_feeCmp {a b : UserOperation} (h : a.feeCmp b = .eq) :
    a.dedupKey = b.dedupKey := by
  simp only [feeCmp, Ordering.then_eq_eq, Std.compare_eq_iff_eq] at h
  rw [dedupKey, dedupKey, h.2.1, h.2.2]

theorem feeCmp_self (a : UserOperation) : a.feeCmp a = .eq := by
  simp [feeCmp]

instance transCmpFeeCmp : Std.TransCmp feeCmp :=
  inferInstanceAs (Std.TransCmp (compareLex (fun a b => compareOn maxFee b a)
    (compareLex (compareOn sender) (compareOn nonce))))

/-- Of two operations of one sender the later one in the order pays less, or
pays the same and has the larger nonce. -/
theorem feeCmp_lt_of_sender {a b : UserOperation} (hs : a.sender = b.sender)
    (h : a.feeCmp b = .lt) :
    b.maxFee.toNat < a.maxFee.toNat ∨ b.maxFee = a.maxFee ∧ a.nonce.toNat < b.nonce.toNat := by
  have hlt : ∀ {w : Nat} {x y : BitVec w}, compare x y = .lt → x.toNat < y.toNat := by
    intro w x y hxy
    by_contra hle
    have hnot : ¬ x < y := fun hlt => hle (BitVec.lt_def.mp hlt)
    simp only [compare, compareOfLessAndEq, hnot, if_false] at hxy
    split at hxy <;> cases hxy
  rw [feeCmp, hs] at h
  cases hfee : compare b.maxFee a.maxFee with
  | lt => exact .inl (hlt hfee)
  | gt =>
    rw [hfee] at h
    cases h
  | eq =>
    rw [hfee, Std.compare_self] at h
    exact .inr ⟨Std.compare_eq_iff_eq.mp hfee, hlt h⟩

/-- Bytes an operation is charged for when it is submitted. -/
def submittedSize (op : UserOperation) : Nat :=
  op.signature.length + (op.actions.map fun
    | .deploy code _ => code.length + 32
    | .call _ method args => args.length + method.utf8ByteSize + 32
    | _ => 64).sum

end UserOperation

/-- The entries of the ordered set, first one first. -/
abbrev FeeOrder := List UserOperation

namespace FeeOrder

/-- Insertion into the ordered set; an entry that is there already stays. -/
def insert (op : UserOperation) : FeeOrder → FeeOrder
  | [] => [op]
  | e :: es =>
      match op.feeCmp e with
      | .lt => op :: e :: es
      | .eq => e :: es
      | .gt => e :: insert op es

def remove (op : UserOperation) (es : FeeOrder) : FeeOrder := es.eraseP fun e => op.feeCmp e == .eq

def Sorted (es : FeeOrder) : Prop := es.Pairwise fun e e' => e'.maxFee.toNat ≤ e.maxFee.toNat

variable {op : UserOperation} {es : FeeOrder}

theorem insert_perm (hnew : ∀ e ∈ es, e.dedupKey ≠ op.dedupKey) :
    (insert op es).Perm (op :: es) := by
  induction es with
  | nil => exact .refl _
  | cons e es ih =>
    obtain ⟨he, hes⟩ := List.forall_mem_cons.mp hnew
    rw [insert]
    cases hcmp : op.feeCmp e with
    | lt => exact .refl _
    | eq => exact absurd (UserOperation.dedupKey_eq_of_feeCmp hcmp).symm he
    | gt => exact ((ih hes).cons e).trans (.swap op e es)

theorem mem_insert {e : UserOperation} (h : e ∈ insert op es) : e = op ∨ e ∈ es := by
  induction es with
  | nil => exact Or.inl (List.mem_singleton.mp h)
  | cons e' es ih =>
    rw [insert] at h
    cases hcmp : op.feeCmp e' with
    | lt =>
      rw [hcmp] at h
      exact List.mem_cons.mp h
    | eq =>
      rw [hcmp] at h
      exact Or.inr h
    | gt =>
      rw [hcmp] at h
      rcases List.mem_cons.mp h with rfl | htail
      · exact Or.inr List.mem_cons_self
      · exact (ih htail).imp_right (List.mem_cons_of_mem _)

/-- An order that agrees with the comparison survives an insertion. -/
theorem pairwise_insert {R : UserOperation → UserOperation → Prop}
    (hlt : ∀ e, op.feeCmp e = .lt → R op e ∧ ∀ e', R e e' → R op e')
    (hgt : ∀ e, op.feeCmp e = .gt → R e op) (h : es.Pairwise R) : (insert op es).Pairwise R := by
  induction es with
  | nil => exact List.pairwise_singleton _ _
  | cons e es ih =>
    obtain ⟨he, hes⟩ := List.pairwise_cons.mp h
    rw [FeeOrder.insert]
    cases hcmp : op.feeCmp e with
    | lt =>
      obtain ⟨hhead, htrans⟩ := hlt e hcmp
      exact List.pairwise_cons.mpr
        ⟨List.forall_mem_cons.mpr ⟨hhead, fun e' he' => htrans e' (he e' he')⟩, h⟩
    | eq => exact h
    | gt =>
      refine List.pairwise_cons.mpr ⟨fun e' he' => ?_, ih hes⟩
      rcases mem_insert he' with rfl | htail
      · exact hgt e hcmp
      · exact he e' htail

theorem Sorted.insert (h : Sorted es) : Sorted (insert op es) := by
  refine pairwise_insert (fun e hcmp => ?_) (fun e => UserOperation.fee_le_of_feeCmp_gt) h
  have hle := UserOperation.fee_le_of_feeCmp_lt hcmp
  exact ⟨hle, fun e' he' => he'.trans hle⟩

/-- No two entries are the same for the set, and they stand in its order. -/
def Strict (es : FeeOrder) : Prop := es.Pairwise fun e e' => e.feeCmp e' = .lt

theorem Strict.insert (h : Strict es) : Strict (insert op es) :=
  pairwise_insert (fun _ hcmp => ⟨hcmp, fun _ he' => Std.TransCmp.lt_trans hcmp he'⟩)
    (fun _ => Std.OrientedCmp.lt_of_gt) h

/-- With distinct keys the set removes exactly the entry it is asked for. -/
theorem perm_remove (hnodup : (es.map UserOperation.dedupKey).Nodup) (hmem : op ∈ es) :
    es.Perm (op :: remove op es) := by
  have hself : (op.feeCmp op == .eq) = true := by simp [op.feeCmp_self]
  obtain ⟨e, l₁, l₂, -, he, hes, hremove⟩ :=
    List.exists_of_eraseP (p := fun e => op.feeCmp e == .eq) hmem hself
  have hkey : e = op := by
    have heq := UserOperation.dedupKey_eq_of_feeCmp (by simpa using he)
    have hme : e ∈ es := hes ▸ (by simp)
    exact (List.inj_on_of_nodup_map hnodup hmem hme heq).symm
  rw [remove, hremove, hes, hkey]
  exact List.perm_middle

end FeeOrder

/-! ## The pool -/

/-- A pool for up to `maxSize` operations. -/
structure Mempool (maxSize : Nat) where
  entries : FeeOrder
  seen : Finset (AccountId × U64)
  senderCounts : Std.ExtTreeMap AccountId Nat

namespace Mempool

variable {maxSize : Nat}

def new (maxSize : Nat) : Mempool maxSize := ⟨[], ∅, ∅⟩

/-- One operation of this sender less; a counter at zero is dropped. -/
def uncount (counts : Std.ExtTreeMap AccountId Nat) (sender : AccountId) :
    Std.ExtTreeMap AccountId Nat :=
  match counts[sender]? with
  | some count => if count - 1 = 0 then counts.erase sender else counts.insert sender (count - 1)
  | none => counts

/-- Take an operation that left the ordered set out of the other two. -/
def forget (pool : Mempool maxSize) (op : UserOperation) : Mempool maxSize :=
  { pool with
    seen := pool.seen.erase op.dedupKey
    senderCounts := uncount pool.senderCounts op.sender }

/-- Make room for an operation, by evicting the last entry if that pays
less; `none` if the pool stays full. -/
def makeRoom (pool : Mempool maxSize) (op : UserOperation) : Option (Mempool maxSize) :=
  if maxSize ≤ pool.entries.length then
    match pool.entries.getLast? with
    | some lowest =>
        if lowest.maxFee < op.maxFee then
          some (({ pool with entries := pool.entries.dropLast } : Mempool maxSize).forget lowest)
        else none
    | none => none
  else some pool

def senderCount (pool : Mempool maxSize) (sender : AccountId) : Nat := pool.senderCounts[sender]?.getD 0

/-- The answer to a submission and the pool after it. An entry evicted on
the way is gone even if the operation is then refused. -/
def submit (pool : Mempool maxSize) (op : UserOperation) : Bool × Mempool maxSize :=
  if op.signature = [0xFF] then (false, pool)
  else if maxOpSize < op.submittedSize then (false, pool)
  else
    match pool.makeRoom op with
    | none => (false, pool)
    | some pool =>
        if maxOpsPerSender ≤ pool.senderCount op.sender then (false, pool)
        else if op.dedupKey ∈ pool.seen then (false, pool)
        else
          (true, { pool with
            seen := Insert.insert op.dedupKey pool.seen
            entries := pool.entries.insert op
            senderCounts := pool.senderCounts.insert op.sender (pool.senderCount op.sender + 1) })

def clear (pool : Mempool maxSize) : Mempool maxSize := { pool with entries := [], seen := ∅, senderCounts := ∅ }

def drainLoop : Nat → Mempool maxSize → List UserOperation × Mempool maxSize
  | 0, pool => ([], pool)
  | n + 1, pool =>
      match pool.entries with
      | [] => drainLoop n pool
      | op :: entries =>
          let rest := drainLoop n (({ pool with entries } : Mempool maxSize).forget op)
          (op :: rest.1, rest.2)

/-- Up to `limit` operations, highest fee first. -/
def drain (pool : Mempool maxSize) (limit : Nat) : List UserOperation × Mempool maxSize :=
  drainLoop (min limit pool.entries.length) pool

/-- Remove what a finalized operation names, whatever fee it was pending with. -/
def removeOne (pool : Mempool maxSize) (op : UserOperation) : Mempool maxSize :=
  if op.dedupKey ∈ pool.seen then
    let pool := { pool with seen := pool.seen.erase op.dedupKey }
    match pool.entries.find? fun e => e.sender = op.sender ∧ e.nonce = op.nonce with
    | some entry =>
        { pool with
          entries := pool.entries.remove entry
          senderCounts := uncount pool.senderCounts op.sender }
    | none => pool
  else pool

def removeFinalized (pool : Mempool maxSize) (ops : List UserOperation) : Mempool maxSize :=
  ops.foldl removeOne pool

/-! ## The invariant -/

def fromSender (pool : Mempool maxSize) (sender : AccountId) : Nat :=
  pool.entries.countP fun e => e.sender = sender

structure Sound (pool : Mempool maxSize) : Prop where
  seen : ∀ key, key ∈ pool.seen ↔ key ∈ pool.entries.map UserOperation.dedupKey
  nodup : (pool.entries.map UserOperation.dedupKey).Nodup
  counts : ∀ sender, pool.senderCount sender = pool.fromSender sender
  perSender : ∀ sender, pool.fromSender sender ≤ maxOpsPerSender
  size : pool.entries.length ≤ maxSize
  sorted : pool.entries.Sorted

theorem getD_uncount (counts : Std.ExtTreeMap AccountId Nat) (sender sender' : AccountId) :
    (uncount counts sender)[sender']?.getD 0 =
      counts[sender']?.getD 0 - if sender = sender' then 1 else 0 := by
  rw [uncount]
  cases hcount : counts[sender]? with
  | none =>
    by_cases hs : sender = sender'
    · rw [← hs, hcount]
      simp
    · simp [hs]
  | some count =>
    dsimp only
    by_cases hs : sender = sender'
    · subst hs
      split <;> simp_all
    · split <;> simp [hs, Std.ExtTreeMap.getElem?_insert, Std.ExtTreeMap.getElem?_erase]

namespace Sound

variable {pool : Mempool maxSize}

theorem new (maxSize : Nat) : Sound (Mempool.new maxSize) := by
  refine ⟨?_, ?_, ?_, ?_, ?_, ?_⟩ <;> simp [Mempool.new, senderCount, fromSender, FeeOrder.Sorted]

/-- An entry leaves: what is left is in order, and the other two
structures drop its pair and its count. -/
theorem forget (h : Sound pool) {op : UserOperation} {rest : FeeOrder}
    (hperm : pool.entries.Perm (op :: rest)) (hsub : rest.Sublist pool.entries) :
    Sound (({ pool with entries := rest } : Mempool maxSize).forget op) := by
  have hkeys := (hperm.map UserOperation.dedupKey).nodup_iff.mp h.nodup
  rw [List.map_cons, List.nodup_cons] at hkeys
  have hcount : ∀ sender, pool.fromSender sender =
      rest.countP (fun e => e.sender = sender) + if op.sender = sender then 1 else 0 := by
    intro sender
    rw [fromSender, hperm.countP_eq, List.countP_cons]
    simp
  refine ⟨fun key => ?_, hkeys.2, fun sender => ?_, fun sender => ?_, ?_, h.sorted.sublist hsub⟩
  · have hmem : key ∈ pool.entries.map UserOperation.dedupKey ↔
        key = op.dedupKey ∨ key ∈ rest.map UserOperation.dedupKey := by
      rw [(hperm.map UserOperation.dedupKey).mem_iff, List.map_cons, List.mem_cons]
    change key ∈ pool.seen.erase op.dedupKey ↔ key ∈ rest.map UserOperation.dedupKey
    rw [Finset.mem_erase, h.seen, hmem]
    refine ⟨fun ⟨hne, hor⟩ => hor.resolve_left hne, fun hrest => ⟨?_, Or.inr hrest⟩⟩
    exact fun heq => hkeys.1 (heq ▸ hrest)
  · have hold : pool.senderCount sender = _ := (h.counts sender).trans (hcount sender)
    change (uncount pool.senderCounts op.sender)[sender]?.getD 0 = rest.countP _
    rw [getD_uncount]
    change pool.senderCount sender - _ = _
    rw [hold, Nat.add_sub_cancel]
  · exact (Nat.le_add_right _ _).trans ((hcount sender).symm.trans_le (h.perSender sender))
  · exact hsub.length_le.trans h.size

theorem clear (pool : Mempool maxSize) : Sound pool.clear := by
  refine ⟨?_, ?_, ?_, ?_, ?_, ?_⟩ <;> simp [Mempool.clear, senderCount, fromSender, FeeOrder.Sorted]

theorem makeRoom (h : Sound pool) {op : UserOperation} {pool' : Mempool maxSize}
    (hroom : pool.makeRoom op = some pool') :
    Sound pool' ∧ pool'.entries.length < maxSize := by
  rw [Mempool.makeRoom] at hroom
  split at hroom
  · next hfull =>
      cases hlast : pool.entries.getLast? with
      | none => simp [hlast] at hroom
      | some lowest =>
        simp only [hlast, Option.ite_none_right_eq_some, Option.some.injEq] at hroom
        obtain ⟨-, rfl⟩ := hroom
        have hsplit := List.dropLast_append_getLast? lowest hlast
        have hperm : pool.entries.Perm (lowest :: pool.entries.dropLast) := by
          conv_lhs => rw [← hsplit]
          exact List.perm_append_singleton lowest _
        refine ⟨h.forget hperm (List.dropLast_sublist _), ?_⟩
        have hlength := hperm.length_eq
        have hsize := h.size
        change pool.entries.dropLast.length < maxSize
        rw [List.length_cons] at hlength
        omega
  · next hroomy =>
      cases hroom
      exact ⟨h, Nat.lt_of_not_le hroomy⟩

theorem submit (h : Sound pool) (op : UserOperation) : Sound (pool.submit op).2 := by
  rw [Mempool.submit]
  split
  · exact h
  split
  · exact h
  cases hroom : pool.makeRoom op with
  | none => exact h
  | some pool' =>
    obtain ⟨h', hlength⟩ := h.makeRoom hroom
    dsimp only
    split
    · exact h'
    next hfew =>
    split
    · exact h'
    next hunseen =>
    have hnew : ∀ e ∈ pool'.entries, e.dedupKey ≠ op.dedupKey := fun e he heq =>
      hunseen ((h'.seen _).mpr (heq ▸ List.mem_map_of_mem he))
    have hperm := FeeOrder.insert_perm hnew
    have hcount : ∀ sender, (pool'.entries.insert op).countP (fun e => e.sender = sender) =
        pool'.fromSender sender + if op.sender = sender then 1 else 0 := fun sender => by
      rw [hperm.countP_eq, List.countP_cons, fromSender]
      simp
    refine ⟨fun key => ?_, ?_, fun sender => ?_, fun sender => ?_, ?_, h'.sorted.insert⟩
    · change key ∈ Insert.insert op.dedupKey pool'.seen ↔ _
      rw [Finset.mem_insert, h'.seen, (hperm.map UserOperation.dedupKey).mem_iff, List.map_cons,
        List.mem_cons]
    · rw [(hperm.map UserOperation.dedupKey).nodup_iff, List.map_cons, List.nodup_cons, ← h'.seen]
      exact ⟨hunseen, h'.nodup⟩
    · refine Eq.trans ?_ (hcount sender).symm
      rw [← h'.counts]
      change (pool'.senderCounts.insert op.sender _)[sender]?.getD 0 = _
      simp only [Std.ExtTreeMap.getElem?_insert, Std.compare_eq_iff_eq]
      split
      · next hs => rw [← hs, Option.getD_some]
      · rfl
    · refine (hcount sender).trans_le ?_
      split
      · next hs =>
          rw [← hs, ← h'.counts]
          omega
      · exact h'.perSender sender
    · change (pool'.entries.insert op).length ≤ maxSize
      rw [hperm.length_eq]
      exact hlength

theorem drainLoop (h : Sound pool) (n : Nat) : Sound (Mempool.drainLoop n pool).2 := by
  induction n generalizing pool with
  | zero => exact h
  | succ n ih =>
    rw [Mempool.drainLoop]
    split
    · exact ih h
    · next op entries hentries =>
        refine ih (h.forget ?_ ?_)
        · rw [hentries]
        · rw [hentries]
          exact List.sublist_cons_self op entries

theorem removeOne (h : Sound pool) (op : UserOperation) : Sound (pool.removeOne op) := by
  rw [Mempool.removeOne]
  split
  · next hseen =>
      dsimp only
      cases hfind : pool.entries.find? fun e => e.sender = op.sender ∧ e.nonce = op.nonce with
      | none =>
        obtain ⟨e, he, hkey⟩ := List.mem_map.mp ((h.seen _).mp hseen)
        obtain ⟨hs, hn⟩ := Prod.mk.inj hkey
        have hno := List.find?_eq_none.mp hfind e he
        simp [hs, hn] at hno
      | some entry =>
        have hmem := List.mem_of_find?_eq_some hfind
        obtain ⟨hs, hn⟩ : entry.sender = op.sender ∧ entry.nonce = op.nonce := by
          simpa using List.find?_some hfind
        have hleft := h.forget (FeeOrder.perm_remove h.nodup hmem) List.eraseP_sublist
        rw [Mempool.forget, UserOperation.dedupKey, hs, hn] at hleft
        exact hleft
  · exact h

theorem removeFinalized (h : Sound pool) (ops : List UserOperation) :
    Sound (pool.removeFinalized ops) := by
  induction ops generalizing pool with
  | nil => exact h
  | cons op ops ih => exact ih (h.removeOne op)

end Sound

theorem drainLoop_fst (n : Nat) (pool : Mempool maxSize) :
    (drainLoop n pool).1 = pool.entries.take n := by
  induction n generalizing pool with
  | zero => rfl
  | succ n ih =>
    rw [drainLoop]
    split
    · next hentries => rw [ih, hentries, List.take_nil, List.take_nil]
    · next op entries hentries =>
        rw [hentries, List.take_succ_cons]
        exact congrArg (op :: ·) (ih _)

/-! ## Runs -/

inductive Call where
  | submit (op : UserOperation)
  | drain (limit : Nat)
  | removeFinalized (ops : List UserOperation)
  | clear

def step (pool : Mempool maxSize) : Call → Mempool maxSize
  | .submit op => (pool.submit op).2
  | .drain limit => (pool.drain limit).2
  | .removeFinalized ops => pool.removeFinalized ops
  | .clear => pool.clear

def run (pool : Mempool maxSize) (calls : List Call) : Mempool maxSize := calls.foldl step pool

theorem Sound.step {pool : Mempool maxSize} (h : Sound pool) (call : Call) : Sound (pool.step call) := by
  cases call with
  | submit op => exact h.submit op
  | drain limit => exact h.drainLoop _
  | removeFinalized ops => exact h.removeFinalized ops
  | clear => exact Sound.clear pool

theorem Sound.run {pool : Mempool maxSize} (h : Sound pool) (calls : List Call) : Sound (pool.run calls) := by
  induction calls generalizing pool with
  | nil => exact h
  | cons call calls ih => exact ih (h.step call)

/-! Entries come in by submission only; every other way of changing the pool
takes entries out. -/

theorem makeRoom_sublist {pool pool' : Mempool maxSize} {op : UserOperation}
    (h : pool.makeRoom op = some pool') : pool'.entries.Sublist pool.entries := by
  rw [makeRoom] at h
  split at h
  · cases hlast : pool.entries.getLast? with
    | none => simp [hlast] at h
    | some lowest =>
      simp only [hlast, Option.ite_none_right_eq_some, Option.some.injEq] at h
      obtain ⟨-, rfl⟩ := h
      exact List.dropLast_sublist _
  · cases h
    exact List.Sublist.refl _

theorem submit_entries (pool : Mempool maxSize) (op : UserOperation) :
    (pool.submit op).2.entries.Sublist pool.entries ∨
      ∃ es, es.Sublist pool.entries ∧ op.signature ≠ [0xFF] ∧
        (pool.submit op).2.entries = FeeOrder.insert op es := by
  rw [submit]
  split
  · exact .inl (List.Sublist.refl _)
  next hsig =>
  split
  · exact .inl (List.Sublist.refl _)
  cases hroom : pool.makeRoom op with
  | none => exact .inl (List.Sublist.refl _)
  | some pool' =>
    have hsub := makeRoom_sublist hroom
    dsimp only
    split
    · exact .inl hsub
    split
    · exact .inl hsub
    · exact .inr ⟨pool'.entries, hsub, hsig, rfl⟩

theorem drainLoop_sublist (n : Nat) (pool : Mempool maxSize) :
    (drainLoop n pool).2.entries.Sublist pool.entries := by
  induction n generalizing pool with
  | zero => exact List.Sublist.refl _
  | succ n ih =>
    rw [drainLoop]
    split
    · exact ih pool
    · next op entries hentries =>
        rw [hentries]
        exact (ih _).trans (List.sublist_cons_self op entries)

theorem removeOne_sublist (pool : Mempool maxSize) (op : UserOperation) :
    (pool.removeOne op).entries.Sublist pool.entries := by
  rw [removeOne]
  split
  · dsimp only
    split
    · exact List.eraseP_sublist
    · exact List.Sublist.refl _
  · exact List.Sublist.refl _

theorem removeFinalized_sublist (pool : Mempool maxSize) (ops : List UserOperation) :
    (pool.removeFinalized ops).entries.Sublist pool.entries := by
  induction ops generalizing pool with
  | nil => exact List.Sublist.refl _
  | cons op ops ih => exact (ih _).trans (removeOne_sublist pool op)

/-- The entries stand in the order of the set, and none of them carries the
marker of an injected operation. -/
structure Ordered (pool : Mempool maxSize) : Prop where
  strict : pool.entries.Strict
  signed : ∀ op ∈ pool.entries, op.signature ≠ [0xFF]

theorem Ordered.sublist {pool pool' : Mempool maxSize} (h : Ordered pool)
    (hsub : pool'.entries.Sublist pool.entries) : Ordered pool' :=
  ⟨h.strict.sublist hsub, fun op hop => h.signed op (hsub.subset hop)⟩

theorem Ordered.step {pool : Mempool maxSize} (h : Ordered pool) (call : Call) :
    Ordered (pool.step call) := by
  cases call with
  | submit op =>
    rcases submit_entries pool op with hsub | ⟨es, hsub, hsig, heq⟩
    · exact h.sublist hsub
    · constructor
      · change (pool.submit op).2.entries.Strict
        rw [heq]
        exact FeeOrder.Strict.insert (h.strict.sublist hsub)
      · intro e he
        change e ∈ (pool.submit op).2.entries at he
        rw [heq] at he
        rcases FeeOrder.mem_insert he with rfl | hmem
        · exact hsig
        · exact h.signed e (hsub.subset hmem)
  | drain limit => exact h.sublist (drainLoop_sublist _ _)
  | removeFinalized ops => exact h.sublist (removeFinalized_sublist _ _)
  | clear => exact h.sublist (List.nil_sublist _)

theorem Ordered.run {pool : Mempool maxSize} (h : Ordered pool) (calls : List Call) :
    Ordered (pool.run calls) := by
  induction calls generalizing pool with
  | nil => exact h
  | cons call calls ih => exact ih (h.step call)

theorem Ordered.new (maxSize : Nat) : Ordered (Mempool.new maxSize) :=
  ⟨List.Pairwise.nil, fun _ h => nomatch h⟩

/-- After any calls the pairs seen are those of the entries, none of them
twice, every counter is right and at most 64, the pool is not over its
size, and whatever is drained next comes out by falling fee. -/
theorem mempool_invariant (maxSize : Nat) (calls : List Call) :
    let pool := (Mempool.new maxSize).run calls
    (∀ key, key ∈ pool.seen ↔ ∃ e ∈ pool.entries, (e.sender, e.nonce) = key) ∧
      (pool.entries.map fun e => (e.sender, e.nonce)).Nodup ∧
      (∀ sender, pool.senderCounts[sender]?.getD 0 = pool.entries.countP (·.sender = sender) ∧
        pool.entries.countP (·.sender = sender) ≤ 64) ∧
      pool.entries.length ≤ maxSize ∧
      ∀ limit, (pool.drain limit).1.Pairwise fun e e' => e'.maxFee.toNat ≤ e.maxFee.toNat := by
  intro pool
  have hsound : Sound pool := (Sound.new maxSize).run calls
  refine ⟨fun key => ?_, hsound.nodup, fun sender => ?_, hsound.size, fun limit => ?_⟩
  · rw [hsound.seen, List.mem_map]
    rfl
  · exact ⟨hsound.counts sender, hsound.perSender sender⟩
  · rw [drain, drainLoop_fst]
    exact hsound.sorted.sublist (List.take_sublist _ _)

end Mempool

end Solen
