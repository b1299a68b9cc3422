import Solen.Ballot
import Solen.Consensus
import Solen.Proposers

/-!
# Fork choice

Above its activation height a node keeps every block that competes for
the next height and the current vote of every validator. It moves its
own vote to the leader: the block with the most stake behind it, of
equal ones the block of the earlier proposer, of those the one with
the smaller hash.

Votes and candidates are hash maps, so nothing may depend on the order
in which they are gone through. The comparison is a strict total order
on the contenders, and a block with a quorum outweighs all others.
-/

namespace Solen

open Machine

variable {hash : Hash} {b : HashOrder} {proposers : List ValidatorId}

/-! ## Votes and candidates -/

/-- Competing blocks, current votes and blocks that failed to execute, by
height, and our own votes that are still to be sent. -/
structure ForkChoice where
  v2Blocks : Std.ExtTreeMap Nat (Std.ExtTreeMap Hash PendingBlock)
  v2Votes : Std.ExtTreeMap Nat (Std.ExtTreeMap ValidatorId Hash)
  v2Revotes : List (Nat × Hash)
  v2Invalid : Std.ExtTreeMap Nat (Std.ExtTreeSet Hash)

/-- The voters of each hash. -/
abbrev Tally := Std.ExtTreeMap Hash (List ValidatorId)

def Tally.voters (t : Tally) (hash : Hash) : List ValidatorId := t[hash]?.getD []

/-- One more vote. -/
def Tally.count (t : Tally) (vote : ValidatorId × Hash) : Tally :=
  t.insert vote.2 (t.voters vote.2 ++ [vote.1])

/-- A contender for the lead. -/
structure Contender where
  hash : Hash
  stake : U128
  rank : Nat
deriving DecidableEq

def Contender.better (c best : Contender) : Bool :=
  best.stake < c.stake ∨ (c.stake = best.stake ∧ c.rank < best.rank) ∨
    (c.stake = best.stake ∧ c.rank = best.rank ∧ compare c.hash best.hash = .lt)

def usizeMax : Nat := 2 ^ 64 - 1

namespace ForkChoice

def votesAt (fc : ForkChoice) (height : Nat) : Std.ExtTreeMap ValidatorId Hash :=
  fc.v2Votes[height]?.getD ∅

def candidatesAt (fc : ForkChoice) (height : Nat) : Std.ExtTreeMap Hash PendingBlock :=
  fc.v2Blocks[height]?.getD ∅

def isInvalid (fc : ForkChoice) (height : Nat) (hash : Hash) : Bool :=
  fc.v2Invalid[height]?.any fun s => s.contains hash

def v2Tally (order : HashOrder) (fc : ForkChoice) (height : Nat) : Tally :=
  (order.iter (fc.votesAt height).toList).foldl Tally.count ∅

/-- A voted hash takes part if its block is here and not known to be bad. -/
def contender (fc : ForkChoice) (vs : ValidatorSet) (proposers : List ValidatorId) (height : Nat)
    (entry : Hash × List ValidatorId) : Option Contender :=
  if fc.isInvalid height entry.1 then none
  else (fc.candidatesAt height)[entry.1]?.map fun pb =>
    { hash := entry.1
      stake := vs.stakeOf entry.2
      rank := (proposers.findIdx? (· = pb.header.proposer)).getD usizeMax }

def v2Leader (E : Platform) (order : HashOrder) (fc : ForkChoice) (vs : ValidatorSet)
    (epochSeed : Hash) (height : Nat) (tally : Tally) : Option Hash :=
  let proposers := vs.proposerOrderForHeight E height epochSeed
  let contenders := (order.iter tally.toList).filterMap (fc.contender vs proposers height)
  (Ballot.elect Contender.better contenders).map (·.hash)

end ForkChoice

/-! ## The tally -/

namespace Tally

theorem voters_count (t : Tally) (vote : ValidatorId × Hash) (hash : Hash) :
    (t.count vote).voters hash =
      if vote.2 = hash then t.voters hash ++ [vote.1] else t.voters hash := by
  simp only [count, voters, Std.ExtTreeMap.getElem?_insert, Std.compare_eq_iff_eq]
  split
  · next h => rw [← h, Option.getD_some]
  · rfl

theorem mem_voters_foldl (l : List (ValidatorId × Hash)) (t : Tally) (id : ValidatorId)
    (hash : Hash) :
    id ∈ (l.foldl count t).voters hash ↔ id ∈ t.voters hash ∨ (id, hash) ∈ l := by
  induction l generalizing t with
  | nil => simp
  | cons vote l ih =>
    rw [List.foldl_cons, ih, voters_count]
    split
    · next h =>
        subst h
        simp [Prod.ext_iff, or_assoc]
    · next h =>
        have hne : (id, hash) ≠ vote := fun heq => h (heq ▸ rfl)
        simp [hne]

/-- No hash is listed without a voter. -/
def Listed (t : Tally) : Prop :=
  ∀ (hash : Hash) (ids : List ValidatorId), t[hash]? = some ids → ids ≠ []

theorem Listed.foldl (l : List (ValidatorId × Hash)) {t : Tally} (h : t.Listed) :
    (l.foldl count t).Listed := by
  induction l generalizing t with
  | nil => exact h
  | cons vote l ih =>
    refine ih fun hash ids hget => ?_
    rw [count, Std.ExtTreeMap.getElem?_insert] at hget
    split at hget
    · cases hget
      simp
    · exact h hash ids hget

theorem Listed.getElem?_eq_some_iff {t : Tally} (h : t.Listed)
    {ids : List ValidatorId} : t[hash]? = some ids ↔ t.voters hash = ids ∧ ids ≠ [] := by
  constructor
  · intro hget
    exact ⟨by rw [voters, hget, Option.getD_some], h hash ids hget⟩
  · rintro ⟨rfl, hne⟩
    cases hget : t[hash]? with
    | none =>
      rw [voters, hget] at hne
      exact absurd rfl hne
    | some ids => rw [voters, hget, Option.getD_some]

end Tally

namespace ForkChoice

variable {fc : ForkChoice} {vs : ValidatorSet} {height : Nat}

theorem listed_v2Tally (order : HashOrder) (fc : ForkChoice) (height : Nat) :
    (v2Tally order fc height).Listed :=
  Tally.Listed.foldl _ fun hash ids h => by simp at h

/-- The voters of a hash are the validators whose current vote it is. -/
theorem mem_voters_v2Tally {order : HashOrder} {id : ValidatorId} :
    id ∈ (v2Tally order fc height).voters hash ↔ (fc.votesAt height)[id]? = some hash := by
  rw [v2Tally, Tally.mem_voters_foldl, (order.perm _).mem_iff,
    Std.ExtTreeMap.mem_toList_iff_getElem?_eq_some]
  simp [Tally.voters]

theorem stakeOf_congr {l l' : List ValidatorId} (h : ∀ id, id ∈ l ↔ id ∈ l') :
    vs.stakeOf l = vs.stakeOf l' := by
  simp only [ValidatorSet.stakeOf, h]

theorem stakeOf_v2Tally (a b : HashOrder) (hash : Hash) :
    vs.stakeOf ((v2Tally a fc height).voters hash) =
      vs.stakeOf ((v2Tally b fc height).voters hash) :=
  stakeOf_congr fun id => by rw [mem_voters_v2Tally, mem_voters_v2Tally]

/-! ## The leader -/

/-- A contender is a voted hash whose block is here and not known to be
bad, with the stake of its voters. -/
theorem mem_contenders {order : HashOrder} {t : Tally} (ht : t.Listed) {c : Contender} :
    c ∈ (order.iter t.toList).filterMap (fc.contender vs proposers height) ↔
      t.voters c.hash ≠ [] ∧ fc.contender vs proposers height (c.hash, t.voters c.hash) = some c := by
  have hhash : ∀ {e : Hash × List ValidatorId},
      fc.contender vs proposers height e = some c → e.1 = c.hash := by
    intro e he
    rw [contender] at he
    split at he
    · cases he
    · obtain ⟨pb, -, rfl⟩ := Option.map_eq_some_iff.mp he
      rfl
  rw [List.mem_filterMap]
  constructor
  · rintro ⟨⟨hash, ids⟩, hmem, hc⟩
    rw [(order.perm _).mem_iff, Std.ExtTreeMap.mem_toList_iff_getElem?_eq_some] at hmem
    obtain ⟨rfl, hne⟩ := ht.getElem?_eq_some_iff.mp hmem
    obtain rfl : hash = c.hash := hhash hc
    exact ⟨hne, hc⟩
  · rintro ⟨hne, hc⟩
    refine ⟨(c.hash, t.voters c.hash), ?_, hc⟩
    rw [(order.perm _).mem_iff, Std.ExtTreeMap.mem_toList_iff_getElem?_eq_some]
    exact ht.getElem?_eq_some_iff.mpr ⟨rfl, hne⟩

theorem contender_congr {ids ids' : List ValidatorId}
    (h : vs.stakeOf ids = vs.stakeOf ids') :
    fc.contender vs proposers height (hash, ids) = fc.contender vs proposers height (hash, ids') := by
  simp only [contender, h]

end ForkChoice

namespace Contender

theorem better_iff {a b : Contender} :
    a.better b = true ↔ b.stake < a.stake ∨ (a.stake = b.stake ∧ a.rank < b.rank) ∨
      (a.stake = b.stake ∧ a.rank = b.rank ∧ compare a.hash b.hash = .lt) := by
  simp [better]

/-- Stake, rank and hash order the contenders completely. -/
theorem decisive : Ballot.Decisive better where
  irrefl a := by simp [better]
  trans a b c hab hbc := by
    rw [better_iff] at hab hbc ⊢
    simp only [BitVec.lt_def, BitVec.toNat_eq] at hab hbc ⊢
    have hlt := fun (h : compare a.hash b.hash = .lt) (h' : compare b.hash c.hash = .lt) =>
      Std.TransCmp.lt_trans h h'
    rcases hab with hab | ⟨hab, hr⟩ | ⟨hab, hr, hh⟩ <;>
      rcases hbc with hbc | ⟨hbc, hr'⟩ | ⟨hbc, hr', hh'⟩
    · exact .inl (by omega)
    · exact .inl (by omega)
    · exact .inl (by omega)
    · exact .inl (by omega)
    · exact .inr (.inl ⟨by omega, by omega⟩)
    · exact .inr (.inl ⟨by omega, by omega⟩)
    · exact .inl (by omega)
    · exact .inr (.inl ⟨by omega, by omega⟩)
    · exact .inr (.inr ⟨by omega, by omega, hlt hh hh'⟩)
  total a b hne := by
    rw [better_iff, better_iff]
    rcases lt_trichotomy a.stake.toNat b.stake.toNat with hs | hs | hs
    · exact .inr (.inl hs)
    · rw [← BitVec.toNat_eq] at hs
      rcases Nat.lt_trichotomy a.rank b.rank with hr | hr | hr
      · exact .inl (.inr (.inl ⟨hs, hr⟩))
      · cases hh : compare a.hash b.hash with
        | lt => exact .inl (.inr (.inr ⟨hs, hr, rfl⟩))
        | eq =>
          have heq := Std.LawfulEqOrd.eq_of_compare hh
          cases a
          cases b
          simp_all
        | gt => exact .inr (.inr (.inr ⟨hs.symm, hr.symm, Std.OrientedCmp.lt_of_gt hh⟩))
      · exact .inr (.inr (.inl ⟨hs.symm, hr⟩))
    · exact .inl (.inl hs)

end Contender

/-! ## Quorums -/

namespace ValidatorSet

variable {vs : ValidatorSet} {ids ids' : List ValidatorId}

/-- The voters of a set, among the validators. -/
def among (ids : List ValidatorId) (v : ValidatorInfo) : Bool := v.id ∈ ids

def stakeWeight (vs : ValidatorSet) (ids : List ValidatorId) : Nat :=
  Ballot.weight (fun v => v.stake.toNat) vs.validators (among ids)

theorem toNat_stakeOf (h : natStake vs.validators < 2 ^ 128) (ids : List ValidatorId) :
    (vs.stakeOf ids).toNat = vs.stakeWeight ids := by
  refine toNat_sumStake (Nat.lt_of_le_of_lt ?_ h)
  exact (List.filter_sublist.map _).sum_le_sum fun _ _ => Nat.zero_le _

/-- As long as three times the stake fits into 128 bits, the check counts
two thirds. -/
theorem hasQuorum_iff (h : natStake vs.validators < 2 ^ 126) :
    vs.hasQuorum ids = true ↔
      Ballot.Quorum (fun v => v.stake.toNat) vs.validators (among ids) := by
  have htotal : (sumStake vs.validators).toNat = natStake vs.validators :=
    toNat_sumStake (by omega)
  have hstake : (vs.stakeOf ids).toNat = vs.stakeWeight ids := toNat_stakeOf (by omega) ids
  have hle : vs.stakeWeight ids ≤ natStake vs.validators :=
    (List.filter_sublist.map _).sum_le_sum fun _ _ => Nat.zero_le _
  change _ ↔ 2 * natStake vs.validators < 3 * vs.stakeWeight ids
  rw [hasQuorum]
  split
  · next hzero =>
      rw [hzero] at htotal
      have hzero' : natStake vs.validators = 0 := htotal.symm
      simp only [Bool.false_eq_true, false_iff]
      omega
  · rw [decide_eq_true_iff, BitVec.lt_def, BitVec.toNat_mul, BitVec.toNat_mul, htotal, hstake,
      Nat.mod_eq_of_lt (by simp; omega), Nat.mod_eq_of_lt (by simp; omega)]
    simp only [BitVec.toNat_ofNat]
    omega

/-- The check looks only at which validators are on the list. -/
theorem hasQuorum_congr (h : ∀ v ∈ vs.validators, v.id ∈ ids ↔ v.id ∈ ids') :
    vs.hasQuorum ids = vs.hasQuorum ids' := by
  have hsame : vs.validators.filter (fun v => v.id ∈ ids) =
      vs.validators.filter (fun v => v.id ∈ ids') :=
    List.filter_congr fun v hv => by rw [decide_eq_decide]; exact h v hv
  rw [hasQuorum, hasQuorum, stakeOf, stakeOf, hsame]

/-- Two quorums share validators with more than a third of the stake, and
neither repeats nor unknown identifiers count. -/
theorem quorums_share_third (vs : ValidatorSet) (hstake : natStake vs.validators < 2 ^ 126) :
    (∀ ids ids', vs.hasQuorum ids = true → vs.hasQuorum ids' = true →
        natStake vs.validators < 3 * vs.stakeWeight (ids.filter (· ∈ ids'))) ∧
      ∀ ids ids', (∀ v ∈ vs.validators, v.id ∈ ids ↔ v.id ∈ ids') →
        vs.hasQuorum ids = vs.hasQuorum ids' := by
  refine ⟨fun ids ids' h h' => ?_, fun ids ids' => hasQuorum_congr⟩
  have hshared := ((hasQuorum_iff hstake).mp h).weight_inter ((hasQuorum_iff hstake).mp h')
  have hamong : (fun v => among ids v && among ids' v) = among (ids.filter (· ∈ ids')) := by
    funext v
    simp [among]
  rw [hamong] at hshared
  exact hshared

theorem quorums_share_third_alice :
    natStake aliceAndBob.validators < 3 * aliceAndBob.stakeWeight [alice, bob, alice] ∧
      aliceAndBob.hasQuorum [alice, bob, alice, Hash.zero] = aliceAndBob.hasQuorum [bob, alice] :=
  ⟨(quorums_share_third aliceAndBob (by decide)).1 [alice, bob, alice] [bob, Hash.zero, alice]
      (by decide +kernel) (by decide +kernel),
    (quorums_share_third aliceAndBob (by decide)).2 _ _ (by decide)⟩

end ValidatorSet

namespace ForkChoice

variable {fc : ForkChoice} {vs : ValidatorSet} {height : Nat}

/-- No validator votes for two hashes. -/
theorem voters_disjoint {a : HashOrder} {hash' : Hash} (hne : hash ≠ hash') :
    ∀ v ∈ vs.validators,
      ValidatorSet.among ((v2Tally a fc height).voters hash) v = true →
        ValidatorSet.among ((v2Tally b fc height).voters hash') v = false := by
  intro v _ hv
  simp only [ValidatorSet.among, decide_eq_true_eq, decide_eq_false_iff_not,
    mem_voters_v2Tally] at hv ⊢
  rw [hv]
  exact fun h => hne (Option.some.inj h)

theorem v2Leader_order_free (E : Platform) (fc : ForkChoice) (vs : ValidatorSet) (seed : Hash)
    (height : Nat) (a b a' b' : HashOrder) :
    v2Leader E a fc vs seed height (v2Tally b fc height) =
      v2Leader E a' fc vs seed height (v2Tally b' fc height) := by
  refine congrArg (Option.map Contender.hash) (Ballot.elect_congr Contender.decisive fun c => ?_)
  rw [mem_contenders (listed_v2Tally b fc height), mem_contenders (listed_v2Tally b' fc height),
    contender_congr (stakeOf_v2Tally b b' c.hash)]
  refine and_congr_left' (not_congr ?_)
  simp only [List.eq_nil_iff_forall_not_mem, mem_voters_v2Tally]

theorem quorum_unique (htotal : ValidatorSet.natStake vs.validators < 2 ^ 126) {a : HashOrder}
    {hash' : Hash} (hq : vs.hasQuorum ((v2Tally a fc height).voters hash) = true)
    (hq' : vs.hasQuorum ((v2Tally b fc height).voters hash') = true) : hash = hash' := by
  by_contra hne
  obtain ⟨v, hv, hp, hp'⟩ := ((ValidatorSet.hasQuorum_iff htotal).mp hq).meets
    ((ValidatorSet.hasQuorum_iff htotal).mp hq')
  rw [voters_disjoint hne v hv hp] at hp'
  cases hp'

theorem stake_of_contender {entry : Hash × List ValidatorId}
    {c : Contender} (h : fc.contender vs proposers height entry = some c) :
    c.stake = vs.stakeOf entry.2 := by
  rw [contender] at h
  split at h
  · cases h
  · obtain ⟨pb, -, rfl⟩ := Option.map_eq_some_iff.mp h
    rfl

/-- Whoever has a quorum has more stake than any other contender. -/
theorem better_of_quorum (htotal : ValidatorSet.natStake vs.validators < 2 ^ 126)
    {best c : Contender} (hbest : best.stake = vs.stakeOf ((v2Tally b fc height).voters best.hash))
    (hc : c.stake = vs.stakeOf ((v2Tally b fc height).voters c.hash))
    (hq : vs.hasQuorum ((v2Tally b fc height).voters best.hash) = true)
    (hne : best.hash ≠ c.hash) : best.better c = true := by
  have hdisjoint : ∀ v ∈ vs.validators,
      ValidatorSet.among ((v2Tally b fc height).voters best.hash) v = true →
        ValidatorSet.among ((v2Tally b fc height).voters c.hash) v = false :=
    voters_disjoint hne
  have hlt := ((ValidatorSet.hasQuorum_iff htotal).mp hq).weight_lt hdisjoint
  refine Contender.better_iff.mpr (.inl ?_)
  rw [BitVec.lt_def, hbest, hc, ValidatorSet.toNat_stakeOf (by omega),
    ValidatorSet.toNat_stakeOf (by omega)]
  exact hlt

theorem v2Leader_of_quorum (htotal : ValidatorSet.natStake vs.validators < 2 ^ 126)
    (E : Platform) (seed : Hash) (a : HashOrder)
    (hheld : hash ∈ fc.candidatesAt height) (hok : fc.isInvalid height hash = false)
    (hq : vs.hasQuorum ((v2Tally b fc height).voters hash) = true) :
    v2Leader E a fc vs seed height (v2Tally b fc height) = some hash := by
  have hlisted := listed_v2Tally b fc height
  have hvoted : (v2Tally b fc height).voters hash ≠ [] := by
    intro hnil
    obtain ⟨v, -, hp, -⟩ := ((ValidatorSet.hasQuorum_iff htotal).mp hq).meets
      ((ValidatorSet.hasQuorum_iff htotal).mp hq)
    simp [ValidatorSet.among, hnil] at hp
  obtain ⟨best, hbest, rfl⟩ : ∃ best,
      fc.contender vs (vs.proposerOrderForHeight E height seed) height
        (hash, (v2Tally b fc height).voters hash) = some best ∧ best.hash = hash := by
    rw [contender, if_neg (by simp [hok]), Std.ExtTreeMap.getElem?_eq_some_getElem hheld]
    exact ⟨_, rfl, rfl⟩
  refine Option.map_eq_some_iff.mpr ⟨best, ?_, rfl⟩
  refine (Ballot.elect_eq_some_iff Contender.decisive _ _).mpr ⟨?_, fun c hc hne => ?_⟩
  · exact (mem_contenders hlisted).mpr ⟨hvoted, hbest⟩
  · obtain ⟨-, hc⟩ := (mem_contenders hlisted).mp hc
    refine better_of_quorum htotal (stake_of_contender hbest) (stake_of_contender hc) hq
      fun heq => hne ?_
    rw [← heq, hbest] at hc
    exact (Option.some.inj hc).symm

/-- Leader choice converges: it does not depend on the order of the maps,
no two hashes have a quorum, and a quorum for a block that is here and
not known to be bad makes it the leader. -/
theorem v2Leader_converges (E : Platform) (fc : ForkChoice) (vs : ValidatorSet) (seed : Hash)
    (height : Nat) (htotal : ValidatorSet.natStake vs.validators < 2 ^ 126) :
    (∀ a b a' b' : HashOrder,
        v2Leader E a fc vs seed height (v2Tally b fc height) =
          v2Leader E a' fc vs seed height (v2Tally b' fc height)) ∧
      (∀ (a b : HashOrder) (hash hash' : Hash),
        vs.hasQuorum ((v2Tally a fc height).voters hash) = true →
          vs.hasQuorum ((v2Tally b fc height).voters hash') = true → hash = hash') ∧
      ∀ (a b : HashOrder) (hash : Hash), hash ∈ fc.candidatesAt height →
        fc.isInvalid height hash = false →
          vs.hasQuorum ((v2Tally b fc height).voters hash) = true →
            v2Leader E a fc vs seed height (v2Tally b fc height) = some hash := by
  refine ⟨v2Leader_order_free E fc vs seed height, fun a b hash hash' => ?_,
    fun a b hash => ?_⟩
  · exact quorum_unique htotal
  · exact v2Leader_of_quorum htotal E seed a

/-- A block of bob's for height 1. -/
def bobsBlock : PendingBlock where
  header := ⟨1, 0, Hash.zero, Hash.zero, Hash.zero, Hash.zero, bob, 0, []⟩
  operations := []
  proposedAt := 0
  executed := none

/-- Both validators vote for it. -/
def bobLeads : ForkChoice where
  v2Blocks := Std.ExtTreeMap.ofList
    [(1, Std.ExtTreeMap.ofList [(Hash.repeated 7, bobsBlock)])]
  v2Votes := Std.ExtTreeMap.ofList
    [(1, Std.ExtTreeMap.ofList [(alice, Hash.repeated 7), (bob, Hash.repeated 7)])]
  v2Revotes := []
  v2Invalid := ∅

theorem v2Leader_converges_bob :
    v2Leader concretePlatform .sorted bobLeads ValidatorSet.aliceAndBob Hash.zero 1
      (v2Tally .sorted bobLeads 1) = some (Hash.repeated 7) :=
  (v2Leader_converges concretePlatform bobLeads ValidatorSet.aliceAndBob Hash.zero 1
    (by decide)).2.2 _ _ _ (by decide +kernel) (by decide +kernel) (by decide +kernel)

end ForkChoice

end Solen
