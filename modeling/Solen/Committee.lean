import Solen.CallRules
import Solen.Concrete

/-!
# Committee proofs

A batch of a committee rollup is accepted with signatures of at least
`threshold` attestors. Attestors are counted by their position in the
registered list, and a position counts once; but registration does not
look whether a key stands at two positions. Such a key counts twice with
one signature. A committee is safe from this exactly when its keys are
distinct or a single signature is enough.
-/

namespace Solen

open Machine Prog

/-! ## The entries of a proof -/

/-- Index and signature of the entries `collectSigners` reads. -/
def proofEntries : Nat → Bytes → List (Nat × Bytes)
  | 0, _ => []
  | count + 1, proof =>
      if proof.length < 68 then []
      else
        (fromLeBytes (proof.take 4), (proof.drop 4).take 64) :: proofEntries count (proof.drop 68)

/-- `key` has a valid signature over `msg` in the proof. -/
def SignedIn (E : Platform) (msg proof : Bytes) (key : Hash) : Prop :=
  ∃ e ∈ proofEntries (fromLeBytes (proof.take 4)) (proof.drop 4),
    E.ed25519Verify key msg e.2 = true

/-- At least `threshold` distinct keys of the committee have signed. -/
def DistinctSigners (E : Platform) (attestors : List Hash) (threshold : Nat)
    (msg proof : Bytes) : Prop :=
  ∃ keys : List Hash, keys.Nodup ∧ threshold ≤ keys.length ∧
    ∀ key ∈ keys, key ∈ attestors ∧ SignedIn E msg proof key

section

variable {E : Platform} {msg : Bytes} {attestors : List Hash}

/-- The positions that are collected are distinct, and each comes with an
entry that its key has signed. -/
theorem collectSigners_eq_some {count : Nat} {proof : Bytes} {acc signers : List Nat}
    (hacc : acc.Nodup)
    (h : collectSigners E msg attestors count proof acc = some signers) :
    signers.Nodup ∧ ∀ i ∈ signers, i ∈ acc ∨ ∃ key, attestors[i]? = some key ∧
      ∃ e ∈ proofEntries count proof, E.ed25519Verify key msg e.2 = true := by
  induction count generalizing proof acc with
  | zero =>
    cases h
    exact ⟨hacc, fun i hi => .inl hi⟩
  | succ count ih =>
    unfold collectSigners at h
    split at h
    · cases h
    · next hlen =>
        have hentries : proofEntries (count + 1) proof =
            (fromLeBytes (proof.take 4), (proof.drop 4).take 64) ::
              proofEntries count (proof.drop 68) := if_neg hlen
        -- what the rest of the proof shows also holds of the whole proof
        have hlater : ∀ {acc' : List Nat}, acc'.Nodup →
            collectSigners E msg attestors count (proof.drop 68) acc' = some signers →
            signers.Nodup ∧ ∀ i ∈ signers, i ∈ acc' ∨ ∃ key, attestors[i]? = some key ∧
              ∃ e ∈ proofEntries (count + 1) proof, E.ed25519Verify key msg e.2 = true := by
          intro acc' hacc' hrest
          obtain ⟨hnodup, hall⟩ := ih hacc' hrest
          refine ⟨hnodup, fun i hi => (hall i hi).imp_right ?_⟩
          rintro ⟨key, hkey, e, he, hver⟩
          exact ⟨key, hkey, e, hentries ▸ List.mem_cons_of_mem _ he, hver⟩
        dsimp only at h
        split at h
        · exact hlater hacc h
        · next key hkey =>
            split at h
            · next hnew =>
                obtain ⟨hnodup, hall⟩ := hlater (List.nodup_cons.mpr ⟨hnew.1, hacc⟩) h
                refine ⟨hnodup, fun i hi => ?_⟩
                rcases hall i hi with hmem | hsigned
                · rcases List.mem_cons.mp hmem with rfl | hmem
                  · exact .inr ⟨key, hkey, _, hentries ▸ List.mem_cons_self, hnew.2⟩
                  · exact .inl hmem
                · exact .inr hsigned
            · exact hlater hacc h

variable {rollupId batchIndex : U64} {pre post dataHash : Hash} {threshold : Nat} {proof : Bytes}

/-- An accepted proof has enough positions with a signature. -/
theorem verifyCommitteeAttestation_eq_true
    (h : verifyCommitteeAttestation E rollupId batchIndex pre post dataHash attestors threshold
      proof = some true) :
    ∃ signers : List Nat, signers.Nodup ∧ threshold ≤ signers.length ∧
      ∀ i ∈ signers, ∃ key, attestors[i]? = some key ∧ SignedIn E
        (committeeAttestationMessage rollupId batchIndex pre post dataHash) proof key := by
  unfold verifyCommitteeAttestation at h
  split at h
  · cases h
  · split at h
    · cases h
    · obtain ⟨signers, hcollect, henough⟩ := Option.map_eq_some_iff.mp h
      obtain ⟨hnodup, hall⟩ := collectSigners_eq_some List.nodup_nil hcollect
      refine ⟨signers, hnodup, of_decide_eq_true henough, fun i hi => ?_⟩
      rcases hall i hi with hmem | hsigned
      · cases hmem
      · exact hsigned

/-- Distinct keys, or one signature: then positions are as good as keys. -/
theorem distinctSigners_of_verify (hcond : threshold < 2 ∨ attestors.Nodup)
    (h : verifyCommitteeAttestation E rollupId batchIndex pre post dataHash attestors threshold
      proof = some true) :
    DistinctSigners E attestors threshold
      (committeeAttestationMessage rollupId batchIndex pre post dataHash) proof := by
  obtain ⟨signers, hnodup, henough, hall⟩ := verifyCommitteeAttestation_eq_true h
  rcases hcond with hsmall | hdistinct
  · cases signers with
    | nil => exact ⟨[], List.nodup_nil, henough, nofun⟩
    | cons i rest =>
      obtain ⟨key, hkey, hsigned⟩ := hall i List.mem_cons_self
      refine ⟨[key], List.nodup_singleton key, Nat.le_of_lt_succ hsmall, fun k hk => ?_⟩
      rw [List.mem_singleton.mp hk]
      exact ⟨List.mem_of_getElem? hkey, hsigned⟩
  · refine ⟨signers.map fun i => attestors[i]?.getD Hash.zero, ?_, by simpa using henough, ?_⟩
    · refine List.Nodup.map_on (fun i hi j hj heq => ?_) hnodup
      obtain ⟨key, hkey, -⟩ := hall i hi
      obtain ⟨key', hkey', -⟩ := hall j hj
      rw [hkey, hkey', Option.getD_some, Option.getD_some] at heq
      have hi := (List.getElem?_eq_some_iff.mp hkey).1
      exact (List.getElem?_inj hi hdistinct).mp (by rw [hkey, hkey', heq])
    · intro k hk
      obtain ⟨i, hi, rfl⟩ := List.mem_map.mp hk
      obtain ⟨key, hkey, hsigned⟩ := hall i hi
      rw [hkey, Option.getD_some]
      exact ⟨List.mem_of_getElem? hkey, hsigned⟩

end

/-! ## Registration -/

theorem isSome_readAccountId {args : Bytes} {offset : Nat} (h : offset + 32 ≤ args.length) :
    (readAccountId args offset).isSome = true := by
  rw [readAccountId, Hash.ofSlice?, dif_pos (by simp; omega)]
  rfl

/-- A committee that registration accepts has between 1 and 100 keys, and a
threshold that it can reach. -/
theorem parseCommittee_eq_ok {σ : Type} {args : Bytes} {off : Nat} {s s' : σ}
    {committee : Nat × List Hash}
    (h : (parseCommittee args off : SysM σ _).run s = (.ok committee, s')) :
    0 < committee.1 ∧ committee.1 ≤ committee.2.length ∧ committee.2.length ≤ 100 := by
  obtain ⟨⟨⟩, s₁, hlen, h₁⟩ := run_bind_eq_ok.mp h
  obtain ⟨⟨⟩, s₂, hnum, h₂⟩ := run_bind_eq_ok.mp h₁
  obtain ⟨⟨⟩, s₃, hthreshold, h₃⟩ := run_bind_eq_ok.mp h₂
  obtain ⟨⟨⟩, s₄, hlist, h₄⟩ := run_bind_eq_ok.mp h₃
  obtain ⟨hnum, -⟩ := run_stopIf_eq_ok hnum
  obtain ⟨hthreshold, -⟩ := run_stopIf_eq_ok hthreshold
  obtain ⟨hlist, -⟩ := run_stopIf_eq_ok hlist
  cases h₄
  have hcount : ((List.range (fromLeBytes (slice args (off + 4) (off + 8)))).filterMap
      fun i => readAccountId args (off + 8 + i * 32)).length =
        fromLeBytes (slice args (off + 4) (off + 8)) := by
    rw [List.length_filterMap_eq_countP, List.countP_eq_length.mpr, List.length_range]
    intro i hi
    refine isSome_readAccountId ?_
    have hi := List.mem_range.mp hi
    omega
  dsimp only
  omega

theorem parseRollupArgs_committee {σ : Type} [StateStore σ] {args : Bytes} {s s' : σ}
    {a : RollupArgs} (h : (parseRollupArgs args : SysM σ _).run s = (.ok a, s'))
    (hc : a.proofType = "committee") :
    0 < a.threshold ∧ a.threshold ≤ a.attestors.length ∧ a.attestors.length ≤ 100 := by
  obtain ⟨rollupId, s₁, -, h₁⟩ := run_bind_eq_ok.mp h
  obtain ⟨⟨⟩, s₂, -, h₂⟩ := run_bind_eq_ok.mp h₁
  obtain ⟨⟨⟩, s₃, -, h₃⟩ := run_bind_eq_ok.mp h₂
  obtain ⟨⟨⟩, s₄, -, h₄⟩ := run_bind_eq_ok.mp h₃
  obtain ⟨chainId, s₅, -, h₅⟩ := run_bind_eq_ok.mp h₄
  obtain ⟨⟨⟩, s₆, -, h₆⟩ := run_bind_eq_ok.mp h₅
  obtain ⟨sequencer, s₇, -, h₇⟩ := run_bind_eq_ok.mp h₆
  obtain ⟨genesis, s₈, -, h₈⟩ := run_bind_eq_ok.mp h₇
  obtain ⟨committee, s₉, hcommittee, h₉⟩ := run_bind_eq_ok.mp h₈
  cases h₉
  rw [if_pos hc] at hcommittee
  exact parseCommittee_eq_ok hcommittee

/-! ## A key that counts twice -/

section

variable (attestors : List Hash) (msg : Bytes)

def attestorAt (i : Nat) : Hash := attestors[i]?.getD Hash.zero

/-- The signature of the attestor at position `i` on the concrete platform. -/
def attestorSignature (i : Nat) : Bytes := (attestorAt attestors i).bytes ++ (checksum msg).bytes

/-- The entries of a proof that the attestors at `positions` have signed. -/
def signedEntries (positions : List Nat) : Bytes :=
  positions.flatMap fun i => toLeBytes 4 i ++ attestorSignature attestors msg i

/-- A proof signed by the attestors at `positions`. -/
def signedProof (positions : List Nat) : Bytes :=
  toLeBytes 4 positions.length ++ signedEntries attestors msg positions

theorem length_attestorSignature (i : Nat) :
    (attestorSignature attestors msg i).length = 64 := by
  simp [attestorSignature, Hash.length_bytes]

/-- The first entry, and what is left when it has been read. -/
theorem signedEntries_cons (i : Nat) (positions : List Nat) :
    let entries := signedEntries attestors msg (i :: positions)
    ¬ entries.length < 68 ∧ entries.take 4 = toLeBytes 4 i ∧
      (entries.drop 4).take 64 = attestorSignature attestors msg i ∧
      entries.drop 68 = signedEntries attestors msg positions := by
  have hsig := length_attestorSignature attestors msg i
  have hidx : (toLeBytes 4 i).length = 4 := length_toLeBytes 4 i
  have heq : signedEntries attestors msg (i :: positions) = toLeBytes 4 i ++
      (attestorSignature attestors msg i ++ signedEntries attestors msg positions) := by
    simp [signedEntries]
  dsimp only
  rw [heq]
  refine ⟨?_, ?_, ?_, ?_⟩
  · simp only [List.length_append, hsig, hidx]
    omega
  · rw [List.take_left' hidx]
  · rw [List.drop_left' hidx, List.take_left' hsig]
  · rw [show 68 = 4 + 64 from rfl, ← List.drop_drop, List.drop_left' hidx, List.drop_left' hsig]

theorem fromLeBytes_index {i : Nat} (h : i < 2 ^ 32) : fromLeBytes (toLeBytes 4 i) = i :=
  fromLeBytes_toLeBytes (by omega)

theorem take_signedProof {positions : List Nat} (hlt : positions.length < 2 ^ 32) :
    fromLeBytes ((signedProof attestors msg positions).take 4) = positions.length ∧
      (signedProof attestors msg positions).drop 4 = signedEntries attestors msg positions := by
  have hlen : (toLeBytes 4 positions.length).length = 4 := length_toLeBytes _ _
  rw [signedProof, List.take_left' hlen, List.drop_left' hlen, fromLeBytes_index hlt]
  exact ⟨rfl, rfl⟩

variable {attestors msg} {i : Nat} {positions acc : List Nat}

theorem proofEntries_signed (hlt : ∀ i ∈ positions, i < 2 ^ 32) :
    proofEntries positions.length (signedEntries attestors msg positions) =
      positions.map fun i => (i, attestorSignature attestors msg i) := by
  induction positions with
  | nil => rfl
  | cons i rest ih =>
    obtain ⟨hlen, hidx, hsig, hrest⟩ := signedEntries_cons attestors msg i rest
    rw [List.length_cons, proofEntries, if_neg hlen, hidx, hsig, hrest,
      fromLeBytes_index (hlt i List.mem_cons_self),
      ih fun j hj => hlt j (List.mem_cons_of_mem _ hj), List.map_cons]

/-- Every listed position is counted. -/
theorem collectSigners_signed (hlt : ∀ i ∈ positions, i < 2 ^ 32 ∧ i < attestors.length)
    (hnodup : positions.Nodup) (hacc : ∀ i ∈ positions, i ∉ acc) :
    ∃ signers, collectSigners concretePlatform msg attestors positions.length
        (signedEntries attestors msg positions) acc = some signers ∧
      signers.length = positions.length + acc.length := by
  induction positions generalizing acc with
  | nil => exact ⟨acc, rfl, by simp⟩
  | cons i rest ih =>
    obtain ⟨hlen, hidx, hsig, hrest⟩ := signedEntries_cons attestors msg i rest
    obtain ⟨hsmall, hi⟩ := hlt i List.mem_cons_self
    obtain ⟨hout, hnodup⟩ := List.nodup_cons.mp hnodup
    have hkey : attestors[i]? = some (attestorAt attestors i) := by
      rw [attestorAt, List.getElem?_eq_getElem hi]
      rfl
    have hver : concretePlatform.ed25519Verify (attestorAt attestors i) msg
        (attestorSignature attestors msg i) = true := beq_self_eq_true _
    have hacc' : ∀ j ∈ rest, j ∉ i :: acc := by
      intro j hj hmem
      rcases List.mem_cons.mp hmem with rfl | hmem
      · exact hout hj
      · exact hacc j (List.mem_cons_of_mem _ hj) hmem
    obtain ⟨signers, hcollect, hcount⟩ :=
      ih (fun j hj => hlt j (List.mem_cons_of_mem _ hj)) hnodup hacc'
    refine ⟨signers, ?_, ?_⟩
    · rw [List.length_cons, collectSigners, if_neg hlen]
      simp only [hidx, hsig, hrest, fromLeBytes_index hsmall, hkey]
      rw [if_pos ⟨hacc i List.mem_cons_self, hver⟩, hcollect]
    · simp only [hcount, List.length_cons]
      omega

/-- Only the attestors at the listed positions have signed. -/
theorem signedIn_signedProof {key : Hash} (hcount : positions.length < 2 ^ 32)
    (hlt : ∀ i ∈ positions, i < 2 ^ 32)
    (h : SignedIn concretePlatform msg (signedProof attestors msg positions) key) :
    key ∈ positions.map (attestorAt attestors) := by
  obtain ⟨hlen, hentries⟩ := take_signedProof attestors msg hcount
  obtain ⟨e, he, hver⟩ := h
  rw [hlen, hentries, proofEntries_signed hlt] at he
  obtain ⟨i, hi, rfl⟩ := List.mem_map.mp he
  have hsig : attestorSignature attestors msg i = key.bytes ++ (checksum msg).bytes :=
    beq_iff_eq.mp hver
  have hkey : attestorAt attestors i = key :=
    Hash.ext_bytes (List.append_cancel_right hsig)
  exact hkey ▸ List.mem_map_of_mem hi

/-- A list with a repeated key has `n` positions with fewer than `n` keys, for
every `n` from 2 on. -/
theorem exists_repeated_positions {n : Nat} (hn : 2 ≤ n) (hle : n ≤ attestors.length)
    (hrep : ¬ attestors.Nodup) :
    ∃ i j rest, attestorAt attestors i = attestorAt attestors j ∧ (i :: j :: rest).Nodup ∧
      (∀ k ∈ i :: j :: rest, k < attestors.length) ∧ (i :: j :: rest).length = n := by
  have hinj : ¬ Function.Injective attestors.get := fun h =>
    hrep (List.nodup_iff_injective_get.mpr h)
  simp only [Function.Injective, not_forall] at hinj
  obtain ⟨⟨i, hi⟩, ⟨j, hj⟩, heq, hne⟩ := hinj
  have hij : i ≠ j := fun h => hne (by simp [h])
  let others := ((List.range attestors.length).erase i).erase j
  have hothers : others.length = attestors.length - 2 := by
    rw [List.length_erase_of_mem, List.length_erase_of_mem, List.length_range]
    · omega
    · exact List.mem_range.mpr hi
    · exact (List.mem_erase_of_ne hij.symm).mpr (List.mem_range.mpr hj)
  have hnodup : others.Nodup := (List.nodup_range.erase i).erase j
  have hsub : ∀ k ∈ others.take (n - 2), k ∈ others := fun k => List.mem_of_mem_take
  have hother : ∀ k ∈ others, k ≠ i ∧ k ≠ j ∧ k < attestors.length := by
    intro k hk
    have hj' := (List.nodup_range.erase i).mem_erase_iff.mp hk
    have hi' := List.nodup_range.mem_erase_iff.mp hj'.2
    exact ⟨hi'.1, hj'.1, List.mem_range.mp hi'.2⟩
  refine ⟨i, j, others.take (n - 2), ?_, ?_, ?_, ?_⟩
  · rw [attestorAt, attestorAt, List.getElem?_eq_getElem hi, List.getElem?_eq_getElem hj]
    exact heq
  · refine List.nodup_cons.mpr ⟨?_, List.nodup_cons.mpr ⟨?_, ?_⟩⟩
    · intro hmem
      rcases List.mem_cons.mp hmem with h | hmem
      · exact hij h
      · exact (hother i (hsub i hmem)).1 rfl
    · exact fun hmem => (hother j (hsub j hmem)).2.1 rfl
    · exact hnodup.sublist (List.take_sublist _ _)
  · intro k hk
    rcases List.mem_cons.mp hk with rfl | hk
    · exact hi
    · rcases List.mem_cons.mp hk with rfl | hk
      · exact hj
      · exact (hother k (hsub k hk)).2.2
  · simp only [List.length_cons, List.length_take, hothers]
    omega

/-- A committee with a repeated key accepts a proof of too few signers. -/
theorem not_distinctSigners_of_repeated {threshold : Nat} (rollupId batchIndex : U64)
    (pre post dataHash : Hash) (htwo : 2 ≤ threshold) (hle : threshold ≤ attestors.length)
    (hmax : attestors.length ≤ 100) (hrep : ¬ attestors.Nodup) :
    ∃ proof, verifyCommitteeAttestation concretePlatform rollupId batchIndex pre post dataHash
        attestors threshold proof = some true ∧
      ¬ DistinctSigners concretePlatform attestors threshold
        (committeeAttestationMessage rollupId batchIndex pre post dataHash) proof := by
  obtain ⟨i, j, rest, hsame, hnodup, hlt, hlen⟩ := exists_repeated_positions htwo hle hrep
  let msg := committeeAttestationMessage rollupId batchIndex pre post dataHash
  have hlt' : ∀ k ∈ i :: j :: rest, k < 2 ^ 32 ∧ k < attestors.length := by
    intro k hk
    have hk := hlt k hk
    exact ⟨by omega, hk⟩
  have hcount : (i :: j :: rest).length < 2 ^ 32 := by omega
  obtain ⟨hfirst, hentries⟩ := take_signedProof attestors msg hcount
  refine ⟨signedProof attestors msg (i :: j :: rest), ?_, ?_⟩
  · obtain ⟨signers, hcollect, hsigners⟩ : ∃ signers, collectSigners concretePlatform msg attestors
        (i :: j :: rest).length (signedEntries attestors msg (i :: j :: rest)) [] = some signers ∧
          signers.length = (i :: j :: rest).length + 0 :=
      collectSigners_signed hlt' hnodup fun _ _ => List.not_mem_nil
    have hgood : ¬ (threshold = 0 ∨ attestors = [] ∨ attestors.length < threshold) := by
      rintro (h | h | h)
      · omega
      · rw [h, List.length_nil] at hle
        omega
      · omega
    have hproof : ¬ (signedProof attestors msg (i :: j :: rest)).length < 4 := by
      simp [signedProof]
    rw [verifyCommitteeAttestation, if_neg hgood, if_neg hproof, hfirst,
      hentries, hcollect, Option.map_some, hsigners, hlen]
    simp
  · rintro ⟨keys, hkeys, henough, hall⟩
    -- every signer is one of the keys at `j` and the later positions
    have hsub : keys ⊆ (j :: rest).map (attestorAt attestors) := by
      intro key hkey
      have hmem := signedIn_signedProof hcount (fun k hk => (hlt' k hk).1) (hall key hkey).2
      rw [List.map_cons, hsame] at hmem
      rcases List.mem_cons.mp hmem with rfl | hmem
      · exact List.mem_cons_self
      · exact hmem
    have hfew := (hkeys.subperm hsub).length_le
    simp only [List.length_map, List.length_cons] at hfew hlen
    omega

end

/-! ## Exactly the safe committees -/

/-- The arguments that register a committee rollup with the given threshold
and attestors. -/
def committeeArgs (threshold : Nat) (attestors : List Hash) : Bytes :=
  le64 7#64 ++ toLeBytes 4 0 ++ toLeBytes 4 9 ++ ascii "committee" ++ alice.bytes ++
    Hash.zero.bytes ++ toLeBytes 4 threshold ++ toLeBytes 4 attestors.length ++
    attestors.flatMap (·.bytes)

def committeeRollup (threshold : Nat) (attestors : List Hash) : RollupArgs :=
  ⟨7#64, "", "committee", alice, Hash.zero, threshold, attestors⟩

set_option maxRecDepth 20000 in
theorem run_parseRollupArgs_distinct :
    (parseRollupArgs (committeeArgs 2 [alice, bob]) : SysM Store RollupArgs).run ∅ =
      (.ok (committeeRollup 2 [alice, bob]), ∅) := rfl

set_option maxRecDepth 20000 in
theorem run_parseRollupArgs_repeated :
    (parseRollupArgs (committeeArgs 2 [alice, alice]) : SysM Store RollupArgs).run ∅ =
      (.ok (committeeRollup 2 [alice, alice]), ∅) := rfl

/-- For a committee that registration accepts: whatever signatures are, every
accepted proof is signed by a threshold of distinct keys, if and only if no
key is repeated or one signature is enough. -/
theorem distinctSigners_iff {σ : Type} [StateStore σ] {args : Bytes} {s s' : σ} {a : RollupArgs}
    (h : (parseRollupArgs args : SysM σ _).run s = (.ok a, s'))
    (hc : a.proofType = "committee") :
    (∀ (E : Platform) (batchIndex : U64) (pre post dataHash : Hash) (proof : Bytes),
        verifyCommitteeAttestation E a.rollupId batchIndex pre post dataHash a.attestors
          a.threshold proof = some true →
        DistinctSigners E a.attestors a.threshold
          (committeeAttestationMessage a.rollupId batchIndex pre post dataHash) proof) ↔
      a.threshold < 2 ∨ a.attestors.Nodup := by
  obtain ⟨-, hle, hmax⟩ := parseRollupArgs_committee h hc
  constructor
  · intro hall
    by_contra hcond
    rw [not_or, Nat.not_lt] at hcond
    obtain ⟨proof, haccept, hnot⟩ := not_distinctSigners_of_repeated a.rollupId 0#64 Hash.zero
      Hash.zero Hash.zero hcond.1 hle hmax hcond.2
    exact hnot (hall concretePlatform 0#64 Hash.zero Hash.zero Hash.zero proof haccept)
  · intro hcond E batchIndex pre post dataHash proof haccept
    exact distinctSigners_of_verify hcond haccept

/-- Two keys and a threshold of two. -/
theorem distinctSigners_iff_distinct :
    [alice, bob].Nodup ∧ ∀ (E : Platform) (batchIndex : U64) (pre post dataHash : Hash) (proof : Bytes),
      verifyCommitteeAttestation E 7#64 batchIndex pre post dataHash [alice, bob] 2 proof =
        some true →
      DistinctSigners E [alice, bob] 2
        (committeeAttestationMessage 7#64 batchIndex pre post dataHash) proof :=
  ⟨by decide, (distinctSigners_iff run_parseRollupArgs_distinct rfl).mpr (.inr (by decide))⟩

/-- The same key twice, and a threshold of two: registration accepts this
committee, and one signer is enough for a proof. -/
theorem not_distinctSigners_repeated :
    (parseRollupArgs (committeeArgs 2 [alice, alice]) : SysM Store RollupArgs).run ∅ =
        (.ok (committeeRollup 2 [alice, alice]), ∅) ∧
      ∃ proof, verifyCommitteeAttestation concretePlatform 7#64 0#64 Hash.zero Hash.zero Hash.zero
          [alice, alice] 2 proof = some true ∧
        ¬ DistinctSigners concretePlatform [alice, alice] 2
          (committeeAttestationMessage 7#64 0#64 Hash.zero Hash.zero Hash.zero) proof :=
  ⟨run_parseRollupArgs_repeated, not_distinctSigners_of_repeated 7#64 0#64 Hash.zero Hash.zero
    Hash.zero (le_refl 2) (le_refl 2) (by decide) (by decide)⟩

end Solen
