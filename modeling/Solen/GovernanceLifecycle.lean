import Solen.ReadFrame
import Solen.Concrete

/-!
# The life of a proposal

A run of the governance contract is a sequence of calls, each kept only
if it succeeds, between which the rest of the chain may do anything
that leaves the proposals alone. Proposals are named by their position
in the record: positions never move, while identifiers come from a
counter that wraps.

A call changes the list of proposals in one of five ways (`ProposalMove`);
everything below is read off from these. The emergency fast track never
applies, because its activation epoch is the value that means "off".
-/

namespace Solen

open Machine Prog

/-! ## Transitions of the record -/

/-- What a new proposal starts with. -/
structure Proposal.Fresh (p : Proposal) : Prop where
  active : p.status = .active
  noVotes : p.votes = []
  noFor : p.totalFor = 0#128
  noAgainst : p.totalAgainst = 0#128
  deposit : p.deposit = proposalDeposit

/-- The proposal with one more vote. -/
def Proposal.withVote (p : Proposal) (v : Vote) : Proposal :=
  { p with
    totalFor := if v.support then p.totalFor + v.stakeWeight else p.totalFor
    totalAgainst := if v.support then p.totalAgainst else p.totalAgainst + v.stakeWeight
    votes := p.votes ++ [v] }

/-- The entry a successful call leaves in the history. -/
inductive GovernanceEntry where
  | created (proposal : Nat)
  | voted (proposal : Nat)
  | finalized (proposal : Nat)
  | executed (proposal : Nat) (epoch : U64)
deriving DecidableEq

/-- The ways in which a call changes the list of proposals. -/
inductive ProposalMove (ps : List Proposal) (stake : U128) (epoch : U64) :
    List Proposal → GovernanceEntry → Prop
  | create {p : Proposal} (fresh : p.Fresh) :
      ProposalMove ps stake epoch (ps ++ [p]) (.created ps.length)
  | vote {i : Nat} {p : Proposal} {v : Vote} (get : ps[i]? = some p)
      (active : p.status = .active) (first : v.voter ∉ p.votes.map (·.voter)) :
      ProposalMove ps stake epoch (ps.set i (p.withVote v)) (.voted i)
  | pass {i : Nat} {p : Proposal} (get : ps[i]? = some p) (active : p.status = .active)
      (ended : p.votingEndEpoch < epoch)
      (quorum : GovernanceContract.quorumMet p stake = true)
      (threshold : GovernanceContract.thresholdMet p = true) :
      ProposalMove ps stake epoch (ps.set i { p with status := .passed }) (.finalized i)
  | reject {i : Nat} {p : Proposal} (get : ps[i]? = some p) (active : p.status = .active)
      (ended : p.votingEndEpoch < epoch) :
      ProposalMove ps stake epoch (ps.set i { p with status := .rejected }) (.finalized i)
  | again {i : Nat} {p : Proposal} (get : ps[i]? = some p) (decided : p.status ≠ .active)
      (ended : p.votingEndEpoch < epoch) :
      ProposalMove ps stake epoch ps (.finalized i)
  | execute {i : Nat} {p : Proposal} (get : ps[i]? = some p) (passed : p.status = .passed)
      (timelock : p.executeAfterEpoch ≤ epoch) :
      ProposalMove ps stake epoch (ps.set i { p with status := .executed }) (.executed i epoch)

namespace GovernanceContract

variable {c c' : GovernanceContract} {id : U64} {stake : U128} {epoch : U64}

/-- The position a call with this identifier works on. -/
def position (c : GovernanceContract) (id : U64) : Option Nat :=
  c.proposals.findIdx? (·.id == id)

theorem updateProposal_eq_set {p : Proposal} (h : c.getProposal id = some p) :
    ∃ i, c.position id = some i ∧ c.proposals[i]? = some p ∧
      ∀ f, (c.updateProposal id f).proposals = c.proposals.set i (f p) :=
  List.updateFirst_eq_set h

theorem createProposal_move (proposer : AccountId) (action : ProposalAction)
    (description : String) :
    ProposalMove c.proposals stake epoch
      (c.createProposal proposer action description epoch).1.proposals
      (.created c.proposals.length) :=
  .create ⟨rfl, rfl, rfl, rfl, rfl⟩

/-- A vote that is accepted is the first of its voter on an active proposal. -/
theorem vote_set {voter : AccountId} {support : Bool} {weight : U128}
    (h : c.vote id voter support weight epoch = .ok c') :
    ∃ i p, c.position id = some i ∧ c.proposals[i]? = some p ∧ p.status = .active ∧
      voter ∉ p.votes.map (·.voter) ∧
      c'.proposals = c.proposals.set i (p.withVote ⟨voter, support, weight⟩) := by
  unfold vote at h
  cases hget : c.getProposal id with
  | none => rw [hget] at h; cases h
  | some p =>
    rw [hget] at h
    dsimp only at h
    split at h
    · cases h
    · next hactive =>
        split at h
        · cases h
        · split at h
          · cases h
          · next hfirst =>
              cases h
              obtain ⟨i, hpos, hp, hset⟩ := updateProposal_eq_set hget
              exact ⟨i, p, hpos, hp, not_not.mp hactive, by simpa using hfirst,
                hset fun p => p.withVote ⟨voter, support, weight⟩⟩

theorem vote_move {voter : AccountId} {support : Bool} {weight : U128}
    (h : c.vote id voter support weight epoch = .ok c') :
    ∃ i, c.position id = some i ∧
      ProposalMove c.proposals stake epoch c'.proposals (.voted i) := by
  obtain ⟨i, p, hpos, hget, hactive, hfirst, hset⟩ := vote_set h
  rw [hset]
  exact ⟨i, hpos, .vote hget hactive hfirst⟩

theorem finalize_move {status : ProposalStatus}
    (h : c.finalize id stake epoch false = .ok (c', status)) :
    ∃ i, c.position id = some i ∧
      ProposalMove c.proposals stake epoch c'.proposals (.finalized i) := by
  unfold finalize at h
  cases hget : c.getProposal id with
  | none => rw [hget] at h; cases h
  | some p =>
    rw [hget] at h
    simp only [Bool.false_and, Bool.not_false, Bool.true_and, decide_eq_true_eq,
      Bool.false_eq_true, if_false] at h
    obtain ⟨i, hpos, hp, hset⟩ := updateProposal_eq_set hget
    refine ⟨i, hpos, ?_⟩
    split at h
    · cases h
    · next hended =>
        have hended' : p.votingEndEpoch < epoch := BitVec.not_le.mp hended
        split at h
        · next hdecided =>
            cases h
            exact .again hp hdecided hended'
        · next hactive =>
            split at h
            · next hmet =>
                cases h
                rw [Bool.and_eq_true] at hmet
                rw [hset]
                exact .pass hp (not_not.mp hactive) hended' hmet.1 hmet.2
            · cases h
              rw [hset]
              exact .reject hp (not_not.mp hactive) hended'

theorem execute_move (stake : U128) {action : ProposalAction}
    (h : c.execute id epoch false = .ok (c', action)) :
    ∃ i, c.position id = some i ∧
      ProposalMove c.proposals stake epoch c'.proposals (.executed i epoch) := by
  unfold execute at h
  cases hget : c.getProposal id with
  | none => rw [hget] at h; cases h
  | some p =>
    rw [hget] at h
    simp only [Bool.false_and, Bool.not_false, Bool.true_and, decide_eq_true_eq] at h
    obtain ⟨i, hpos, hp, hset⟩ := updateProposal_eq_set hget
    refine ⟨i, hpos, ?_⟩
    split at h
    · cases h
    · next hpassed =>
        split at h
        · cases h
        · next htimelock =>
            have hprops : c'.proposals = c.proposals.set i { p with status := .executed } := by
              split at h <;> (cases h; exact hset _)
            rw [hprops]
            exact .execute hp (not_not.mp hpassed) (BitVec.not_lt.mp htimelock)

end GovernanceContract

theorem emergencyFasttrackActive_eq (epoch : U64) : emergencyFasttrackActive epoch = false :=
  if_pos rfl

/-! ## What a call can do -/

section

variable {σ : Type} [StateStore σ] {E : Platform} {s₀ s s' : σ} {sender : AccountId}
  {method : String} {args : Bytes}

/-- The position the first argument of a call points to. -/
def proposalPosition (E : Platform) (s : σ) (args : Bytes) : Option Nat :=
  (readU64 args 0).bind (loadGovernance E s).position

/-- The entry that a successful call adds to the history. -/
def governanceEntry (E : Platform) (s : σ) (method : String) (args : Bytes) :
    Option GovernanceEntry :=
  match method with
  | "vote" => (proposalPosition E s args).map .voted
  | "finalize" => (proposalPosition E s args).map .finalized
  | "execute" => (proposalPosition E s args).map fun i => .executed i (readCurrentEpoch s)
  | _ => some (.created (loadGovernance E s).proposals.length)

/-- The move a call makes from the record in `s` to the one it leaves. -/
def GovernanceMoves (E : Platform) (s : σ) (method : String) (args : Bytes)
    (record : GovernanceContract) : Prop :=
  ∃ e, governanceEntry E s method args = some e ∧
    ProposalMove (loadGovernance E s).proposals (loadStaking E s).totalActiveStake
      (readCurrentEpoch s) record.proposals e

theorem loadGovernance_sameElsewhere (h : SameElsewhere s₀ s) :
    loadGovernance E s = loadGovernance E s₀ :=
  h.loadRecord E.governance (by decide) {}

theorem loadStaking_sameElsewhere (h : SameElsewhere s₀ s) :
    loadStaking E s = loadStaking E s₀ :=
  h.loadRecord E.staking (by decide) {}

theorem loadGovernance_saveGovernance (c : GovernanceContract) (s : σ) :
    loadGovernance E (saveRecord E.governance GovernanceContract.storageKey c s) = c :=
  loadRecord_saveRecord _ _ _ _ _

theorem loadGovernance_keeps {ε : Type} :
    Keeps (· = s₀) (reads (loadGovernance E) : Prog σ ε GovernanceContract)
      (· = loadGovernance E s₀) :=
  Keeps.reads fun _ hs => congrArg _ hs

theorem readCurrentEpoch_keeps {ε : Type} :
    Keeps (· = s₀) (reads readCurrentEpoch : Prog σ ε U64) (· = readCurrentEpoch s₀) :=
  Keeps.reads fun _ hs => congrArg _ hs

/-! ### Proposals -/

/-- The outcome of a method that appends a proposal. -/
def Creates (E : Platform) (s : σ) (o : CallOutcome GovernanceContract) : Prop :=
  ∃ stake, ProposalMove (loadGovernance E s).proposals stake (readCurrentEpoch s)
    o.record.proposals (.created (loadGovernance E s).proposals.length)

theorem propose_creates (action : ProposalAction) (description : Bytes) :
    Keeps (· = s₀) (propose E sender action description) (Creates E s₀) := by
  refine Keeps.bind loadGovernance_keeps fun c hc => ?_
  refine Keeps.bind readCurrentEpoch_keeps fun epoch hepoch => ?_
  subst hc hepoch
  exact Keeps.pure ⟨0#128, GovernanceContract.createProposal_move _ _ _⟩

theorem proposeAmount_creates (action : U128 → ProposalAction) (msg : String) :
    Keeps (· = s₀) (proposeAmount E sender args action msg) (Creates E s₀) :=
  Keeps.seq (orErr_keeps _ _) fun _ => propose_creates _ _

theorem proposeValue_creates (action : U64 → ProposalAction) (msg : String)
    (bad : U64 → Option String) :
    Keeps (· = s₀) (proposeValue E sender args action msg bad) (Creates E s₀) := by
  refine Keeps.seq (orErr_keeps _ _) fun value => ?_
  split
  · exact Keeps.stop
  · exact propose_creates _ _

theorem proposeAccount_creates (action : AccountId → ProposalAction) (msg : String) :
    Keeps (· = s₀) (proposeAccount E sender args action msg) (Creates E s₀) :=
  Keeps.seq (orErr_keeps _ _) fun _ => propose_creates _ _

/-- A method that is none of the three others creates a proposal or fails,
and writes nothing. -/
theorem governanceMethod_creates (hvote : method ≠ "vote") (hfin : method ≠ "finalize")
    (hexec : method ≠ "execute") :
    Keeps (· = s₀) (governanceMethod E sender method args)
      fun o => o.result = .ok () → Creates E s₀ o := by
  have weaken : ∀ {m : SysM σ (CallOutcome GovernanceContract)},
      Keeps (· = s₀) m (Creates E s₀) →
      Keeps (· = s₀) m fun o => o.result = .ok () → Creates E s₀ o :=
    fun h => h.mono fun _ ho _ => ho
  unfold governanceMethod
  split
  · exact weaken (proposeAmount_creates _ _)
  · exact weaken (proposeValue_creates _ _ _)
  · exact weaken (proposeValue_creates _ _ _)
  · exact weaken (proposeAmount_creates _ _)
  · exact weaken (proposeAmount_creates _ _)
  · exact weaken (proposeValue_creates _ _ _)
  · exact weaken (proposeAccount_creates _ _)
  · exact weaken (proposeAccount_creates _ _)
  · exact weaken (propose_creates _ _)
  · exact weaken (proposeValue_creates _ _ _)
  · exact absurd rfl hvote
  · exact absurd rfl hfin
  · exact absurd rfl hexec
  · exact Keeps.seq Keeps.ask fun c => Keeps.pure nofun

/-- Only a finalisation and the application of an action write. -/
theorem governanceMethod_keeps {I : σ → Prop} (hfin : method ≠ "finalize")
    (happly : ∀ c action, Keeps I (applyAction E c action) fun _ => True) :
    Keeps I (governanceMethod E sender method args) fun _ => True := by
  by_cases hvote : method = "vote"
  · subst hvote
    refine Keeps.seq (orErr_keeps _ _) fun id => Keeps.seq Keeps.ask fun gov => ?_
    refine Keeps.seq Keeps.ask fun epoch => Keeps.seq Keeps.ask fun staking => ?_
    refine Keeps.seq Keeps.guard fun _ => ?_
    dsimp only
    split <;> exact Keeps.pure trivial
  by_cases hexec : method = "execute"
  · subst hexec
    refine Keeps.seq (orErr_keeps _ _) fun id => Keeps.seq Keeps.ask fun gov => ?_
    refine Keeps.seq Keeps.ask fun epoch => ?_
    split
    · exact Keeps.done (happly _ _)
    · exact Keeps.pure trivial
  exact .of_still fun _ => (governanceMethod_creates hvote hfin hexec).triv

/-! ### Votes, finalisation and execution -/

theorem governanceVote_moves {o : CallOutcome GovernanceContract}
    (h : (governanceVote E sender args).run s = (.ok o, s')) (hok : o.result = .ok ()) :
    GovernanceMoves E s "vote" args o.record := by
  obtain ⟨id, s₁, hread, h₁⟩ := run_bind_eq_ok.mp h
  obtain ⟨hid, rfl⟩ := orErr_eq_ok hread
  dsimp only at h₁
  rw [run_reads_bind, run_reads_bind, run_reads_bind] at h₁
  obtain ⟨⟨⟩, s₂, hstake, h₂⟩ := run_bind_eq_ok.mp h₁
  obtain ⟨-, rfl⟩ := run_stopIf_eq_ok hstake
  split at h₂
  · next c' hvote =>
      cases h₂
      obtain ⟨i, hpos, hmove⟩ := GovernanceContract.vote_move hvote
      refine ⟨.voted i, ?_, hmove⟩
      simp only [governanceEntry, proposalPosition, hid, Option.bind_some, hpos, Option.map_some]
  · cases h₂
    cases hok

theorem settleDeposit_sameElsewhere (deposit : U128) (recipient : AccountId) :
    Keeps (SameElsewhere s₀) (if 0#128 < deposit then creditExisting E recipient deposit
      else pure () : SysM σ Unit) fun _ => True :=
  Keeps.ite (fun _ => creditExisting_sameElsewhere _ _) fun _ => Keeps.pure trivial

theorem governanceFinalize_moves {o : CallOutcome GovernanceContract}
    (h : (governanceFinalize E args).run s = (.ok o, s')) (hok : o.result = .ok ()) :
    GovernanceMoves E s "finalize" args o.record := by
  obtain ⟨id, s₁, hread, h₁⟩ := run_bind_eq_ok.mp h
  obtain ⟨hid, rfl⟩ := orErr_eq_ok hread
  dsimp only at h₁
  rw [run_reads_bind, run_reads_bind, run_reads_bind,
    emergencyFasttrackActive_eq] at h₁
  split at h₁
  · next c' status hfin =>
      obtain ⟨⟨⟩, s₂, hsave, h₂⟩ := run_bind_eq_ok.mp h₁
      cases hsave
      obtain ⟨⟨⟩, s₃, hcredit, h₃⟩ := run_bind_eq_ok.mp h₂
      cases h₃
      have hsame := (settleDeposit_sameElsewhere _ _).after (fun _ _ => rfl) hcredit
      have hrec : loadGovernance E s' = c' :=
        (loadGovernance_sameElsewhere hsame).trans (loadGovernance_saveGovernance _ _)
      obtain ⟨i, hpos, hmove⟩ := GovernanceContract.finalize_move hfin
      refine ⟨.finalized i, ?_, hrec ▸ hmove⟩
      simp only [governanceEntry, proposalPosition, hid, Option.bind_some, hpos, Option.map_some]
  · cases h₁
    cases hok

theorem applyAction_proposals (c : GovernanceContract) (action : ProposalAction) :
    Keeps (fun _ : σ => True) (applyAction E c action) fun r => r.1.proposals = c.proposals := by
  unfold applyAction
  split
  all_goals first
    | exact Keeps.pure rfl
    | exact Keeps.seq (Keeps.modify fun _ _ => trivial) fun _ => Keeps.pure rfl
    | exact Keeps.seq (Keeps.modify fun _ _ => trivial) fun _ => Keeps.seq Keeps.ask fun _ =>
      Keeps.seq (Keeps.modify fun _ _ => trivial) fun _ => Keeps.pure rfl
    | exact Keeps.seq Keeps.ask fun _ =>
      Keeps.seq (Keeps.modify fun _ _ => trivial) fun _ => Keeps.pure rfl
    | exact Keeps.seq (fun _ _ => ⟨trivial, fun _ _ => trivial⟩) fun _ => Keeps.pure rfl

theorem governanceExecute_moves {o : CallOutcome GovernanceContract}
    (h : (governanceExecute E args).run s = (.ok o, s')) (hok : o.result = .ok ()) :
    GovernanceMoves E s "execute" args o.record := by
  obtain ⟨id, s₁, hread, h₁⟩ := run_bind_eq_ok.mp h
  obtain ⟨hid, rfl⟩ := orErr_eq_ok hread
  rw [run_reads_bind, run_reads_bind,
    emergencyFasttrackActive_eq] at h₁
  split at h₁
  · next c' action hexec =>
      obtain ⟨applied, s₂, happly, h₂⟩ := run_bind_eq_ok.mp h₁
      cases h₂
      have hprops := (applyAction_proposals c' action).value trivial happly
      obtain ⟨i, hpos, hmove⟩ :=
        GovernanceContract.execute_move (loadStaking E s₁).totalActiveStake hexec
      refine ⟨.executed i (readCurrentEpoch s₁), ?_, hprops ▸ hmove⟩
      simp only [governanceEntry, proposalPosition, hid, Option.bind_some, hpos, Option.map_some]
  · cases h₁
    cases hok

/-! ### Whole calls -/

theorem GovernanceMoves.sameElsewhere {record : GovernanceContract}
    (h : GovernanceMoves E s method args record) (hsame : SameElsewhere s₀ s) :
    GovernanceMoves E s₀ method args record := by
  obtain ⟨e, he, hmove⟩ := h
  rw [loadGovernance_sameElsewhere hsame, loadStaking_sameElsewhere hsame,
    hsame.readCurrentEpoch] at hmove
  refine ⟨e, ?_, hmove⟩
  simpa only [governanceEntry, proposalPosition, loadGovernance_sameElsewhere hsame,
    hsame.readCurrentEpoch] using he

theorem governanceMethod_moves {o : CallOutcome GovernanceContract}
    (h : (governanceMethod E sender method args).run s = (.ok o, s')) (hok : o.result = .ok ()) :
    GovernanceMoves E s method args o.record := by
  by_cases hvote : method = "vote"
  · subst hvote
    exact governanceVote_moves h hok
  by_cases hfin : method = "finalize"
  · subst hfin
    exact governanceFinalize_moves h hok
  by_cases hexec : method = "execute"
  · subst hexec
    exact governanceExecute_moves h hok
  have hcreates : Creates E s o :=
    (governanceMethod_creates hvote hfin hexec).value rfl h hok
  obtain ⟨stake, hmove⟩ := hcreates
  refine ⟨.created (loadGovernance E s).proposals.length, ?_, ?_⟩
  · unfold governanceEntry
    split
    · exact absurd rfl hvote
    · exact absurd rfl hfin
    · exact absurd rfl hexec
    · rfl
  · generalize o.record.proposals = ps' at hmove ⊢
    cases hmove with
    | create fresh => exact .create fresh

/-- A successful call: a deposit is taken at most, the method succeeds and its
record is saved. -/
theorem governanceCall_ok {r : SystemCallResult}
    (h : executeSystemCall E s sender System.governanceAddress method args = (r, s'))
    (hok : r.error = none) :
    ∃ s₁ o s₂, SameElsewhere s s₁ ∧ (∃ msg, (if isProposalMethod method then
        debitWithReserve E sender proposalDeposit msg else pure ()).run s = (.ok (), s₁)) ∧
      (governanceMethod E sender method args).run s₁ = (.ok o, s₂) ∧ o.result = .ok () ∧
      s' = saveRecord E.governance GovernanceContract.storageKey o.record s₂ := by
  have hrun : (executeGovernanceCall E sender method args).run s = (.ok r, s') :=
    run_of_executeSystemCall h hok
  obtain ⟨⟨⟩, s₁, hdebit, h₁⟩ := run_bind_eq_ok.mp hrun
  have hsame : SameElsewhere s s₁ := by
    refine Keeps.after (P := fun _ => True) ?_ (fun _ _ => rfl) hdebit
    exact Keeps.ite (fun _ => debitWithReserve_sameElsewhere _ _ _) fun _ => Keeps.pure trivial
  obtain ⟨o, s₂, hmethod, h₂⟩ := run_bind_eq_ok.mp h₁
  obtain ⟨⟨⟩, s₃, hsave, h₃⟩ := run_bind_eq_ok.mp h₂
  cases hsave
  refine ⟨s₁, o, s₂, hsame, ⟨_, hdebit⟩, hmethod, ?_⟩
  split at h₃
  · next hres =>
      cases h₃
      exact ⟨hres, rfl⟩
  · next e hres =>
      obtain ⟨⟨⟩, s₄, -, h₄⟩ := run_bind_eq_ok.mp h₃
      cases h₄
      rw [CallOutcome.result_of_toResult hok] at hres
      cases hres

/-- A successful call makes one of the moves. -/
theorem executeSystemCall_governance {r : SystemCallResult}
    (h : executeSystemCall E s sender System.governanceAddress method args = (r, s'))
    (hok : r.error = none) : GovernanceMoves E s method args (loadGovernance E s') := by
  obtain ⟨s₁, o, s₂, hsame, -, hmethod, hres, rfl⟩ := governanceCall_ok h hok
  rw [loadGovernance_saveGovernance]
  exact (governanceMethod_moves hmethod hres).sameElsewhere hsame

end

/-! ## The history accounts for the record -/

/-- The entry is an execution of the proposal at position `i`. -/
def GovernanceEntry.executes (i : Nat) : GovernanceEntry → Bool
  | executed j _ => j == i
  | _ => false

/-- The weight of the recorded votes on one side. -/
def votedWeight (support : Bool) (votes : List Vote) : Nat :=
  ((votes.filter (·.support == support)).map (·.stakeWeight.toNat)).sum

theorem votedWeight_append (support : Bool) (votes : List Vote) (v : Vote) :
    votedWeight support (votes ++ [v]) =
      votedWeight support votes + if v.support = support then v.stakeWeight.toNat else 0 := by
  unfold votedWeight
  by_cases h : v.support = support <;> simp [List.filter_append, h]

/-- Every voter is counted once, and the totals are the sums of the recorded
weights as far as 128 bits hold them. -/
structure Proposal.Counted (p : Proposal) : Prop where
  voters : (p.votes.map (·.voter)).Nodup
  totalFor : p.totalFor = BitVec.ofNat 128 (votedWeight true p.votes)
  totalAgainst : p.totalAgainst = BitVec.ofNat 128 (votedWeight false p.votes)

theorem Proposal.Fresh.counted {p : Proposal} (h : p.Fresh) : p.Counted := by
  refine ⟨?_, ?_, ?_⟩
  · rw [h.noVotes]
    exact List.nodup_nil
  · rw [h.noVotes, h.noFor]
    rfl
  · rw [h.noVotes, h.noAgainst]
    rfl

theorem Proposal.Counted.withVote {p : Proposal} {v : Vote} (h : p.Counted)
    (hfirst : v.voter ∉ p.votes.map (·.voter)) : (p.withVote v).Counted := by
  refine ⟨?_, ?_, ?_⟩
  · simp only [Proposal.withVote, List.map_append, List.map_cons, List.map_nil]
    refine List.nodup_append.mpr ⟨h.voters, List.nodup_singleton _, ?_⟩
    rintro a ha b hb rfl
    exact hfirst (List.mem_singleton.mp hb ▸ ha)
  · simp only [Proposal.withVote, votedWeight_append]
    cases v.support <;> simp [h.totalFor, BitVec.ofNat_add]
  · simp only [Proposal.withVote, votedWeight_append]
    cases v.support <;> simp [h.totalAgainst, BitVec.ofNat_add]

/-- How the history and the proposal at position `i` fit together. -/
structure Accounted (history : List GovernanceEntry) (i : Nat) (p : Proposal) : Prop where
  counted : p.Counted
  executions : history.countP (·.executes i) = if p.status = .executed then 1 else 0
  timelock : ∀ epoch, .executed i epoch ∈ history → p.executeAfterEpoch ≤ epoch

structure GovernanceConsistent (ps : List Proposal) (history : List GovernanceEntry) : Prop where
  accounted : ∀ (i : Nat) (p : Proposal), ps[i]? = some p → Accounted history i p
  known : ∀ i epoch, .executed i epoch ∈ history → i < ps.length

section

variable {ps ps' : List Proposal} {history : List GovernanceEntry} {e : GovernanceEntry}
  {i : Nat} {p p' : Proposal} {stake : U128} {epoch : U64}

theorem Accounted.other (h : Accounted history i p) (he : e.executes i = false) :
    Accounted (e :: history) i p := by
  refine ⟨h.counted, ?_, fun k hk => ?_⟩
  · rw [List.countP_cons_of_neg (by simp [he])]
    exact h.executions
  · rcases List.mem_cons.mp hk with rfl | hk
    · simp [GovernanceEntry.executes] at he
    · exact h.timelock k hk

theorem executes_eq_false (h : ∀ k, e ≠ .executed i k) : e.executes i = false := by
  cases e with
  | executed j k =>
    simp only [GovernanceEntry.executes, beq_eq_false_iff_ne]
    rintro rfl
    exact h k rfl
  | created j => rfl
  | voted j => rfl
  | finalized j => rfl

/-- A proposal changes and an entry is added. -/
theorem GovernanceConsistent.set (h : GovernanceConsistent ps history) (hget : ps[i]? = some p)
    (hother : ∀ j, j ≠ i → e.executes j = false)
    (hacc : Accounted history i p → Accounted (e :: history) i p') :
    GovernanceConsistent (ps.set i p') (e :: history) := by
  have hi : i < ps.length := (List.getElem?_eq_some_iff.mp hget).1
  refine ⟨fun j q hj => ?_, fun j k hk => ?_⟩
  · by_cases hij : j = i
    · subst hij
      rw [List.getElem?_set_self hi] at hj
      cases hj
      exact hacc (h.accounted j p hget)
    · rw [List.getElem?_set_ne (Ne.symm hij)] at hj
      exact (h.accounted j q hj).other (hother j hij)
  · rw [List.length_set]
    rcases List.mem_cons.mp hk with rfl | hk
    · by_contra hlt
      have hji : j ≠ i := fun hji => hlt (hji ▸ hi)
      simpa [GovernanceEntry.executes] using hother j hji
    · exact h.known j k hk

/-- A proposal that is passed after a move was passed before, or is being
finalised. -/
theorem ProposalMove.passed (h : ProposalMove ps stake epoch ps' e) (hget' : ps'[i]? = some p')
    (hp' : p'.status = .passed) :
    ∃ p, ps[i]? = some p ∧ (p.status = .passed ∨ p.status = .active ∧
      p.votingEndEpoch < epoch ∧ GovernanceContract.quorumMet p stake = true ∧
        GovernanceContract.thresholdMet p = true) := by
  -- an update that does not end in `passed` leaves the passed proposals as they are
  have hset : ∀ {j : Nat} {q q' : Proposal}, (ps.set j q')[i]? = some p' → ps[j]? = some q →
      (i = j ∧ p' = q') ∨ ps[i]? = some p' := by
    intro j q q' hi hj
    by_cases hij : i = j
    · subst hij
      rw [List.getElem?_set_self (List.getElem?_eq_some_iff.mp hj).1] at hi
      exact .inl ⟨rfl, (Option.some.inj hi).symm⟩
    · rw [List.getElem?_set_ne (Ne.symm hij)] at hi
      exact .inr hi
  cases h with
  | @create q hfresh =>
    rcases Nat.lt_or_ge i ps.length with hlt | hge
    · rw [List.getElem?_append_left hlt] at hget'
      exact ⟨p', hget', .inl hp'⟩
    · rw [List.getElem?_append_right hge] at hget'
      have hmem := List.mem_of_getElem? hget'
      rw [List.mem_singleton.mp hmem, hfresh.active] at hp'
      cases hp'
  | vote hget hactive =>
    rcases hset hget' hget with ⟨rfl, rfl⟩ | hi
    · exact absurd (hactive.symm.trans hp') nofun
    · exact ⟨p', hi, .inl hp'⟩
  | pass hget hactive hended hquorum hthreshold =>
    rcases hset hget' hget with ⟨rfl, rfl⟩ | hi
    · exact ⟨_, hget, .inr ⟨hactive, hended, hquorum, hthreshold⟩⟩
    · exact ⟨p', hi, .inl hp'⟩
  | reject hget =>
    rcases hset hget' hget with ⟨rfl, rfl⟩ | hi
    · cases hp'
    · exact ⟨p', hi, .inl hp'⟩
  | again hget => exact ⟨p', hget', .inl hp'⟩
  | execute hget =>
    rcases hset hget' hget with ⟨rfl, rfl⟩ | hi
    · cases hp'
    · exact ⟨p', hi, .inl hp'⟩

/-- Every move keeps the history in step with the record. -/
theorem GovernanceConsistent.move (h : GovernanceConsistent ps history)
    (hmove : ProposalMove ps stake epoch ps' e) : GovernanceConsistent ps' (e :: history) := by
  cases hmove with
  | @create p hfresh =>
    refine ⟨fun j q hj => ?_, fun j k hk => ?_⟩
    · rcases Nat.lt_trichotomy j ps.length with hlt | rfl | hgt
      · rw [List.getElem?_append_left hlt] at hj
        exact (h.accounted j q hj).other rfl
      · rw [List.getElem?_concat_length] at hj
        cases hj
        -- no entry speaks of the new position yet
        have hnone : ∀ e ∈ history, e.executes ps.length = false := by
          intro e he
          refine executes_eq_false fun k hk => ?_
          exact lt_irrefl _ (h.known _ k (hk ▸ he))
        have hcount : history.countP (·.executes ps.length) = 0 :=
          List.countP_eq_zero.mpr fun e he => by simp [hnone e he]
        refine Accounted.other ⟨hfresh.counted, ?_, fun k hk => ?_⟩ rfl
        · rw [hcount, hfresh.active]
          rfl
        · exact absurd (h.known _ k hk) (lt_irrefl _)
      · rw [List.getElem?_eq_none (by simp; omega)] at hj
        cases hj
    · rcases List.mem_cons.mp hk with heq | hk
      · cases heq
      · exact (h.known j k hk).trans_le (by simp)
  | @vote i p v hget hactive hfirst =>
    refine h.set hget (fun _ _ => rfl) fun ha => Accounted.other ⟨?_, ?_, ha.timelock⟩ rfl
    · exact ha.counted.withVote hfirst
    · exact ha.executions
  | @pass i p hget hactive =>
    refine h.set hget (fun _ _ => rfl) fun ha => Accounted.other ⟨?_, ?_, ha.timelock⟩ rfl
    · exact ⟨ha.counted.voters, ha.counted.totalFor, ha.counted.totalAgainst⟩
    · rw [ha.executions, hactive]
      rfl
  | @reject i p hget hactive =>
    refine h.set hget (fun _ _ => rfl) fun ha => Accounted.other ⟨?_, ?_, ha.timelock⟩ rfl
    · exact ⟨ha.counted.voters, ha.counted.totalFor, ha.counted.totalAgainst⟩
    · rw [ha.executions, hactive]
      rfl
  | again hget =>
    refine ⟨fun j q hj => (h.accounted j q hj).other rfl, fun j k hk => ?_⟩
    rcases List.mem_cons.mp hk with heq | hk
    · cases heq
    · exact h.known j k hk
  | @execute i p hget hpassed htimelock =>
    refine h.set hget (fun j hj => ?_) fun ha => ⟨?_, ?_, fun k hk => ?_⟩
    · simpa [GovernanceEntry.executes] using Ne.symm hj
    · exact ⟨ha.counted.voters, ha.counted.totalFor, ha.counted.totalAgainst⟩
    · have hzero : history.countP (·.executes i) = 0 := by
        rw [ha.executions, hpassed]
        rfl
      rw [List.countP_cons_of_pos (by simp [GovernanceEntry.executes]), hzero]
      rfl
    · rcases List.mem_cons.mp hk with heq | hk
      · cases heq
        exact htimelock
      · exact ha.timelock k hk

theorem governanceConsistent_nil : GovernanceConsistent [] [] :=
  ⟨by simp, by simp⟩

end

/-! ## Quorum and threshold -/

/-- The stake of the active validators, without a bound on its size. -/
def activeStake (c : StakingContract) : Nat :=
  (c.activeValidators.map fun v => v.selfStake.toNat + v.totalDelegated.toNat).sum

/-- The recorded votes of `p` meet the quorum of `stake` and the approval
threshold. -/
structure Approved (p : Proposal) (stake : Nat) : Prop where
  staked : 0 < stake
  quorum : stake * 3000 ≤ (votedWeight true p.votes + votedWeight false p.votes) * 10000
  voted : 0 < votedWeight true p.votes + votedWeight false p.votes
  threshold : (votedWeight true p.votes + votedWeight false p.votes) * 6667 ≤
    votedWeight true p.votes * 10000

theorem toNat_totalActiveStake {c : StakingContract} (h : activeStake c < 2 ^ 128) :
    c.totalActiveStake.toNat = activeStake c := by
  have hterm : ∀ v ∈ c.activeValidators,
      v.totalStake.toNat = v.selfStake.toNat + v.totalDelegated.toNat := by
    intro v hv
    refine toNat_add_of_lt (lt_of_le_of_lt ?_ h)
    exact List.single_le_sum (fun _ _ => Nat.zero_le _) _
      (List.mem_map_of_mem (f := fun v : StakingValidator =>
        v.selfStake.toNat + v.totalDelegated.toNat) hv)
  have hsum : (c.activeValidators.map fun v => v.totalStake.toNat).sum = activeStake c :=
    congrArg List.sum (List.map_congr_left hterm)
  rw [StakingContract.totalActiveStake, toNat_foldl_add, hsum]
  rw [hsum]
  exact h

theorem Proposal.Counted.toNat_totals {p : Proposal} (h : p.Counted)
    (hb : votedWeight true p.votes + votedWeight false p.votes < 2 ^ 128) :
    p.totalFor.toNat = votedWeight true p.votes ∧
      p.totalAgainst.toNat = votedWeight false p.votes := by
  rw [h.totalFor, h.totalAgainst, BitVec.toNat_ofNat, BitVec.toNat_ofNat]
  constructor <;> rw [Nat.mod_eq_of_lt] <;> omega

/-- Within the bound the two checks of the contract do not saturate. -/
theorem approved_of_met {p : Proposal} {c : StakingContract} (hp : p.Counted)
    (hb : votedWeight true p.votes + votedWeight false p.votes < 2 ^ 110)
    (hs : activeStake c < 2 ^ 110)
    (hquorum : GovernanceContract.quorumMet p c.totalActiveStake = true)
    (hthreshold : GovernanceContract.thresholdMet p = true) : Approved p (activeStake c) := by
  obtain ⟨hfor, hagainst⟩ := hp.toNat_totals (hb.trans (by decide))
  have hstake := toNat_totalActiveStake (hs.trans (by decide))
  have hvoted : (p.totalFor + p.totalAgainst).toNat =
      votedWeight true p.votes + votedWeight false p.votes := by
    rw [toNat_add_of_lt, hfor, hagainst]
    omega
  simp only [GovernanceContract.quorumMet, GovernanceContract.thresholdMet, Bool.and_eq_true,
    decide_eq_true_eq, BitVec.lt_def, BitVec.le_def, toNat_satMul, hvoted, hstake, hfor,
    BitVec.toNat_zero] at hquorum hthreshold
  have hq : (quorumBps.setWidth 128 : U128).toNat = 3000 := by decide
  have ht : (passThresholdBps.setWidth 128 : U128).toNat = 6667 := by decide
  have hten : (10000#128).toNat = 10000 := by decide
  rw [hq, hten] at hquorum
  rw [ht, hten] at hthreshold
  exact ⟨by omega, by omega, by omega, by omega⟩

/-! ## Runs -/

section

variable {σ : Type} [StateStore σ] {E : Platform}

/-- A store, and the history of the calls that succeeded, newest first. -/
structure GovernanceRun (σ : Type) where
  store : σ
  history : List GovernanceEntry

/-- A call through the executor, which undoes a call that fails. -/
def GovernanceRun.call (E : Platform) (s : GovernanceRun σ) (sender : AccountId)
    (method : String) (args : Bytes) : GovernanceRun σ :=
  let r := executeSystemCall E s.store sender System.governanceAddress method args
  if r.1.error = none then
    ⟨r.2, (governanceEntry E s.store method args).toList ++ s.history⟩
  else s

/-- The steps of a run: a call by anyone, or anything else that leaves the
proposals alone. Stakes may change in between. -/
inductive GovernanceStep (E : Platform) : GovernanceRun σ → GovernanceRun σ → Prop
  | call {s : GovernanceRun σ} (sender : AccountId) (method : String) (args : Bytes) :
      GovernanceStep E s (s.call E sender method args)
  | between {s : GovernanceRun σ} (store : σ)
      (proposals : (loadGovernance E store).proposals = (loadGovernance E s.store).proposals) :
      GovernanceStep E s ⟨store, s.history⟩

/-- A step keeps the proposals and the history, or makes one move. -/
theorem governanceStep_cases {s s' : GovernanceRun σ} (h : GovernanceStep E s s') :
    (loadGovernance E s'.store).proposals = (loadGovernance E s.store).proposals ∧
        s'.history = s.history ∨
      ∃ e, s'.history = e :: s.history ∧
        ProposalMove (loadGovernance E s.store).proposals (loadStaking E s.store).totalActiveStake
          (readCurrentEpoch s.store) (loadGovernance E s'.store).proposals e := by
  cases h with
  | call sender method args =>
    unfold GovernanceRun.call
    rcases hcall : executeSystemCall E s.store sender System.governanceAddress method args with
      ⟨r, store⟩
    dsimp only
    split
    · next hok =>
        obtain ⟨e, he, hmove⟩ := executeSystemCall_governance hcall hok
        refine .inr ⟨e, ?_, hmove⟩
        rw [he]
        rfl
    · exact .inl ⟨rfl, rfl⟩
  | between store proposals => exact .inl ⟨proposals, rfl⟩

/-- The proposals and the stakes are far from what 128 bits hold. -/
structure VotesBounded (E : Platform) (s : σ) : Prop where
  votes : ∀ p ∈ (loadGovernance E s).proposals,
    votedWeight true p.votes + votedWeight false p.votes < 2 ^ 110
  stake : activeStake (loadStaking E s) < 2 ^ 110

/-- Every proposal was executed at most once and not before its timelock ran
out, every voter is counted once, and the totals are the sums of the votes. -/
structure LifecycleSound (ps : List Proposal) (history : List GovernanceEntry) : Prop where
  executedOnce : ∀ i, history.countP (·.executes i) ≤ 1
  timelock : ∀ i epoch, .executed i epoch ∈ history →
    ∃ p, ps[i]? = some p ∧ p.executeAfterEpoch ≤ epoch
  votedOnce : ∀ p ∈ ps, (p.votes.map (·.voter)).Nodup
  totals : ∀ p ∈ ps, p.totalFor.toNat = votedWeight true p.votes ∧
    p.totalAgainst.toNat = votedWeight false p.votes

/-- What makes a proposal pass in a step from `s`. -/
structure Passes (E : Platform) (s : σ) (p : Proposal) : Prop where
  ended : p.votingEndEpoch < readCurrentEpoch s
  approved : Approved p (activeStake (loadStaking E s))

theorem GovernanceConsistent.step {s s' : GovernanceRun σ}
    (hs : GovernanceConsistent (loadGovernance E s.store).proposals s.history)
    (h : GovernanceStep E s s') :
    GovernanceConsistent (loadGovernance E s'.store).proposals s'.history := by
  rcases governanceStep_cases h with ⟨hprops, hhist⟩ | ⟨e, hhist, hmove⟩
  · rw [hprops, hhist]
    exact hs
  · rw [hhist]
    exact hs.move hmove

theorem GovernanceConsistent.sound {s : GovernanceRun σ}
    (hs : GovernanceConsistent (loadGovernance E s.store).proposals s.history)
    (hb : VotesBounded E s.store) :
    LifecycleSound (loadGovernance E s.store).proposals s.history := by
  refine ⟨fun i => ?_, fun i epoch hmem => ?_, fun p hp => ?_, fun p hp => ?_⟩
  · cases hget : (loadGovernance E s.store).proposals[i]? with
    | none =>
      have hnone : s.history.countP (·.executes i) = 0 := by
        refine List.countP_eq_zero.mpr fun e he => ?_
        have hfalse : e.executes i = false := executes_eq_false fun k hk => by
          have hlt := hs.known i k (hk ▸ he)
          exact absurd (List.getElem?_eq_none_iff.mp hget) (Nat.not_le.mpr hlt)
        simp [hfalse]
      rw [hnone]
      exact Nat.zero_le _
    | some p =>
      rw [(hs.accounted i p hget).executions]
      split <;> omega
  · have hlt := hs.known i epoch hmem
    have hget := List.getElem?_eq_getElem hlt
    exact ⟨_, hget, (hs.accounted i _ hget).timelock epoch hmem⟩
  · obtain ⟨i, hget⟩ := List.mem_iff_getElem?.mp hp
    exact (hs.accounted i p hget).counted.voters
  · obtain ⟨i, hget⟩ := List.mem_iff_getElem?.mp hp
    exact (hs.accounted i p hget).counted.toNat_totals ((hb.votes p hp).trans (by decide))

end

/-! ## A ballot -/

/-- Alice's proposal to move the team pool, made at epoch 0. -/
def teamProposal (status : ProposalStatus) (votes : List Vote) (totalFor : U128) : Proposal where
  id := 0#64
  proposer := alice
  action := .migrateTeamPoolToVesting
  description := ""
  createdEpoch := 0#64
  votingEndEpoch := 2016#64
  executeAfterEpoch := 2019#64
  status := status
  votes := votes
  totalFor := totalFor
  totalAgainst := 0#128
  deposit := proposalDeposit

def teamRecord (status : ProposalStatus) (votes : List Vote) (totalFor : U128) :
    GovernanceContract where
  proposals := [teamProposal status votes totalFor]
  nextProposalId := 1#64

def aliceVote : Vote := ⟨alice, true, 500#128⟩

/-- Alice is the only validator. -/
def ballotStaking : StakingContract where
  validators := [{
    id := alice
    selfStake := 500#128
    totalDelegated := 0#128
    accumulatedRewardPerToken := 0#128
    isActive := true
    isGenesis := false
    genesisLockUntil := 0#64
    commissionRateBps := 0#64
    eligibleFromEpoch := 0#64
    pendingNewKey := none
    keyRotationEpoch := 0#64 }]

/-- Alice can pay for a proposal, and there is something in the team pool. -/
def ballotStore : Store :=
  saveRecord concretePlatform.staking StakingContract.storageKey ballotStaking
    (accountStore concretePlatform [{ emptyAccount System.teamPoolAddress with balance := 700#128 },
      emptyAccount System.treasuryAddress, keyAccount alice 200000000000#128])

/-- The store in another epoch. -/
def inEpoch (epoch : U64) (s : Store) : Store :=
  s.insert chainMetaKey (le64 (epoch * 100#64) ++ le64 0#64)

namespace Ballot

def voted : GovernanceRun Store :=
  ((⟨ballotStore, []⟩ : GovernanceRun Store).call concretePlatform alice
    "propose_migrate_team_pool_to_vesting" []).call concretePlatform alice "vote"
      (le64 0#64 ++ [1] ++ le128 500#128)

/-- After the end of the vote. -/
def ended : GovernanceRun Store := { voted with store := inEpoch 2017#64 voted.store }

def passed : GovernanceRun Store := ended.call concretePlatform bob "finalize" (le64 0#64)

def executed : GovernanceRun Store :=
  GovernanceRun.call concretePlatform { passed with store := inEpoch 2020#64 passed.store } bob
    "execute" (le64 0#64)

theorem ended_run :
    Relation.ReflTransGen (GovernanceStep concretePlatform) ⟨ballotStore, []⟩ ended :=
  .tail (.tail (.single (.call _ _ _)) (.call _ _ _)) (.between _ (by decide +kernel))

theorem executed_run :
    Relation.ReflTransGen (GovernanceStep concretePlatform) ⟨ballotStore, []⟩ executed :=
  .tail (.tail (.tail ended_run (.call _ _ _)) (.between _ (by decide +kernel))) (.call _ _ _)

theorem bounded {s : Store} {status : ProposalStatus}
    (hgov : loadGovernance concretePlatform s = teamRecord status [aliceVote] 500#128)
    (hstaking : loadStaking concretePlatform s = ballotStaking) : VotesBounded concretePlatform s := by
  refine ⟨fun p hp => ?_, ?_⟩
  · rw [hgov, teamRecord, List.mem_singleton] at hp
    rw [hp]
    change votedWeight true [aliceVote] + votedWeight false [aliceVote] < 2 ^ 110
    decide
  · rw [hstaking]
    decide

end Ballot

/-! ## Safety -/

/-- In every run from a store without proposals, as long as votes and stakes
are bounded: every proposal is executed at most once and not before its
timelock ends, voters are counted once, totals are sums of votes, and a
proposal that passes in the next step has ended its vote with a quorum and
enough approval. -/
theorem governance_sound {σ : Type} [StateStore σ] {E : Platform} {s₀ s : GovernanceRun σ}
    (h₀ : (loadGovernance E s₀.store).proposals = [] ∧ s₀.history = [])
    (h : Relation.ReflTransGen (GovernanceStep E) s₀ s) (hb : VotesBounded E s.store) :
    LifecycleSound (loadGovernance E s.store).proposals s.history ∧
      ∀ s', GovernanceStep E s s' → ∀ (i : Nat) (p' : Proposal),
        (loadGovernance E s'.store).proposals[i]? = some p' → p'.status = .passed →
        ∃ p, (loadGovernance E s.store).proposals[i]? = some p ∧
          (p.status = .passed ∨ p.status = .active ∧ Passes E s.store p) := by
  have hcons : GovernanceConsistent (loadGovernance E s.store).proposals s.history := by
    clear hb
    induction h with
    | refl =>
        rw [h₀.1, h₀.2]
        exact governanceConsistent_nil
    | tail _ hstep ih => exact ih.step hstep
  refine ⟨hcons.sound hb, fun s' hstep i p' hget' hp' => ?_⟩
  rcases governanceStep_cases hstep with ⟨hprops, -⟩ | ⟨e, -, hmove⟩
  · rw [hprops] at hget'
    exact ⟨p', hget', .inl hp'⟩
  · obtain ⟨p, hget, hpassed | ⟨hactive, hended, hquorum, hthreshold⟩⟩ :=
      hmove.passed hget' hp'
    · exact ⟨p, hget, .inl hpassed⟩
    · refine ⟨p, hget, .inr ⟨hactive, hended, ?_⟩⟩
      exact approved_of_met (hcons.accounted i p hget).counted
        (hb.votes p (List.mem_of_getElem? hget)) hb.stake hquorum hthreshold

/-- Alice proposes and votes; the proposal passes after the end of the vote
and is executed after its timelock. -/
theorem governance_sound_ballot :
    Ballot.executed.history = [.executed 0 2020#64, .finalized 0, .voted 0, .created 0] ∧
      (loadGovernance concretePlatform Ballot.executed.store).proposals =
        [teamProposal .executed [aliceVote] 500#128] ∧
      LifecycleSound (loadGovernance concretePlatform Ballot.executed.store).proposals
        Ballot.executed.history ∧
      (loadGovernance concretePlatform Ballot.passed.store).proposals[0]? =
        some (teamProposal .passed [aliceVote] 500#128) ∧
      Passes concretePlatform Ballot.ended.store (teamProposal .active [aliceVote] 500#128) := by
  have hstart : (loadGovernance concretePlatform ballotStore).proposals = [] := by decide +kernel
  have hended : loadGovernance concretePlatform Ballot.ended.store =
      teamRecord .active [aliceVote] 500#128 := by decide +kernel
  have hpassed : (loadGovernance concretePlatform Ballot.passed.store).proposals[0]? =
      some (teamProposal .passed [aliceVote] 500#128) := by decide +kernel
  have hexecuted : loadGovernance concretePlatform Ballot.executed.store =
      teamRecord .executed [aliceVote] 500#128 := by decide +kernel
  obtain ⟨p, hp, hpasses⟩ := (governance_sound ⟨hstart, rfl⟩ Ballot.ended_run
    (Ballot.bounded hended (by decide +kernel))).2 _ (.call _ _ _) 0 _ hpassed rfl
  rw [hended] at hp
  cases hp
  refine ⟨by decide +kernel, congrArg _ hexecuted, ?_, hpassed, ?_⟩
  · exact (governance_sound ⟨hstart, rfl⟩ Ballot.executed_run
      (Ballot.bounded hexecuted (by decide +kernel))).1
  · exact (hpasses.resolve_left nofun).2

end Solen
