import Solen.Bridge

/-!
# Solvency of the bridge vaults

A withdrawal is only requested against funds no other pending withdrawal
needs. A disputed withdrawal is not pending, so its funds can be requested
again while the dispute is open; if the dispute is then rejected, it comes
back and the vault owes both. The vaults stay solvent in the runs where a
rejected dispute always finds its withdrawal still covered, and outside of
these the rejection itself makes the vault insolvent.
-/

namespace Solen

open Machine Relation

variable {v : BridgeVault} {refund : Option AccountId × U128}

/-! ## What the withdrawals of a rollup add up to -/

/-- What a withdrawal adds to the total of `status` of rollup `r`. -/
def PendingWithdrawal.amountIn (w : PendingWithdrawal) (status : WithdrawalStatus) (r : U64) :
    Nat :=
  if w.rollupId = r ∧ w.status = status then w.amount.toNat else 0

namespace BridgeContract

def totalIn (c : BridgeContract) (status : WithdrawalStatus) (r : U64) : Nat :=
  (c.pendingWithdrawals.map fun w => w.amountIn status r).sum

variable {c : BridgeContract} {status : WithdrawalStatus} {r id : U64}

theorem totalIn_updateWithdrawal {w : PendingWithdrawal} (h : c.getWithdrawal id = some w)
    (f : PendingWithdrawal → PendingWithdrawal) (status : WithdrawalStatus) (r : U64) :
    (c.updateWithdrawal id f).totalIn status r + w.amountIn status r =
      c.totalIn status r + (f w).amountIn status r :=
  List.sum_map_updateFirst f (fun w => w.amountIn status r) h

theorem totalIn_push {c' : BridgeContract} {w : PendingWithdrawal}
    (h : c'.pendingWithdrawals = c.pendingWithdrawals ++ [w]) :
    c'.totalIn status r = c.totalIn status r + w.amountIn status r := by
  simp [totalIn, h]

/-- The sum the contract computes is the total, as long as it fits. -/
theorem toNat_pendingAmount (h : c.totalIn .pending r < 2 ^ 128) :
    (c.pendingAmount r).toNat = c.totalIn .pending r := by
  have hsum : ((c.pendingWithdrawals.filter
      fun w => w.rollupId == r && w.status == .pending).map fun w => w.amount.toNat).sum =
      c.totalIn .pending r := by
    unfold totalIn
    induction c.pendingWithdrawals with
    | nil => rfl
    | cons w l ih =>
      by_cases hw : w.rollupId = r ∧ w.status = .pending
      · simp [PendingWithdrawal.amountIn, hw, ih]
      · rw [List.filter_cons_of_neg (by simpa using hw), ih]
        simp [PendingWithdrawal.amountIn, hw]
  rw [← hsum] at h ⊢
  exact toNat_foldl_add h

theorem totalIn_eq_zero (h : ∀ w ∈ c.pendingWithdrawals, w.rollupId ≠ r) :
    c.totalIn status r = 0 := by
  refine List.sum_eq_zero ?_
  intro n hn
  obtain ⟨w, hw, rfl⟩ := List.mem_map.mp hn
  exact if_neg fun hw' => h w hw hw'.1

/-! ## Looking up a vault after an update -/

theorem getVault_updateVault {f : BridgeVault → BridgeVault}
    (hf : ∀ v, (f v).rollupId = v.rollupId) (id r : U64) :
    (c.updateVault id f).getVault r = if r = id then (c.getVault r).map f else c.getVault r := by
  split
  · next h =>
      subst h
      exact List.find?_updateFirst (fun v hv => by rw [hf]; exact hv) _
  · next h =>
      refine List.find?_updateFirst_of_ne (fun v hv => ?_) _
      have hid : v.rollupId = id := by simpa using hv
      simp [hf, hid, Ne.symm h]

theorem getVault_append_newVault (h : c.getVault id = none) :
    BridgeContract.getVault { c with vaults := c.vaults ++ [newVault id] } r =
      if r = id then some (newVault id) else c.getVault r := by
  unfold getVault at *
  rw [List.find?_append]
  split
  · next hr =>
      subst hr
      rw [h]
      simp [newVault]
  · next hr => simp [newVault, Ne.symm hr]

theorem getVault_eq_none_of_hasVault (h : c.hasVault id = false) : c.getVault id = none := by
  rw [hasVault, List.any_eq_false] at h
  exact List.find?_eq_none.mpr h

/-- An update of a withdrawal that keeps its rollup keeps the rollups named. -/
theorem rollupId_of_mem_updateWithdrawal {f : PendingWithdrawal → PendingWithdrawal}
    (hf : ∀ w, (f w).rollupId = w.rollupId) {w : PendingWithdrawal}
    (hw : w ∈ (c.updateWithdrawal id f).pendingWithdrawals) :
    ∃ w' ∈ c.pendingWithdrawals, w'.rollupId = w.rollupId := by
  rcases List.mem_updateFirst hw with hw | ⟨w', hw', -, rfl⟩
  · exact ⟨w, hw, rfl⟩
  · exact ⟨w', hw', (hf w').symm⟩

end BridgeContract

/-! ## Runs of the bridge contract -/

/-- The contract with what has been deposited in each vault and what
disputers have lost to it. -/
structure VaultRun where
  contract : BridgeContract
  deposited : U64 → Nat
  slashed : U64 → Nat

/-- All that has been paid into a vault. -/
def VaultRun.paidIn (s : VaultRun) (r : U64) : Nat := s.deposited r + s.slashed r

def VaultRun.init : VaultRun := ⟨{}, fun _ => 0, fun _ => 0⟩

/-- The accepted calls of a run with sums below `2 ^ 128`, in which `allowed`
says when a dispute may be rejected. -/
inductive VaultStep (allowed : BridgeContract → U64 → Prop) : VaultRun → VaultRun → Prop
  | registerVault {s : VaultRun} {c : BridgeContract} (r : U64)
      (h : s.contract.registerVault r = .ok c) :
      VaultStep allowed s { s with contract := c }
  | registerRollup {s : VaultRun} {c : BridgeContract} (r : U64) (name proofType : String)
      (sequencer : AccountId) (genesisStateRoot : Hash) (height : U64)
      (h : s.contract.registerRollup r name proofType sequencer genesisStateRoot height = .ok c) :
      VaultStep allowed s { s with contract := c }
  | deposit {s : VaultRun} {c : BridgeContract} (r : U64) (amount : U128)
      (h : s.contract.deposit r amount = .ok c) (sum : s.paidIn r + amount.toNat < 2 ^ 128) :
      VaultStep allowed s
        { s with
          contract := c
          deposited := Function.update s.deposited r (s.deposited r + amount.toNat) }
  | initiate {s : VaultRun} {c : BridgeContract} (id r : U64) (recipient : AccountId)
      (amount : U128) (currentBlock : U64) (proofHash : Hash)
      (h : s.contract.initiateWithdrawal r recipient amount currentBlock proofHash =
        .ok (c, id)) :
      VaultStep allowed s { s with contract := c }
  | dispute {s : VaultRun} {c : BridgeContract} (bond : U128) (id : U64) (disputer : AccountId)
      (h : s.contract.disputeWithdrawal id disputer = .ok (c, bond)) :
      VaultStep allowed s { s with contract := c }
  | uphold {s : VaultRun} {c : BridgeContract} {refund : Option AccountId × U128} (id : U64)
      (h : s.contract.resolveDispute id true = .ok (c, refund)) :
      VaultStep allowed s { s with contract := c }
  | reject {s : VaultRun} {c : BridgeContract} {refund : Option AccountId × U128}
      {w : PendingWithdrawal} (id : U64) (h : s.contract.resolveDispute id false = .ok (c, refund))
      (hw : s.contract.getWithdrawal id = some w)
      (sum : s.paidIn w.rollupId + w.disputeBond.toNat < 2 ^ 128)
      (ok : allowed s.contract id) :
      VaultStep allowed s
        { s with
          contract := c
          slashed := Function.update s.slashed w.rollupId
            (s.slashed w.rollupId + w.disputeBond.toNat) }
  | finalize {s : VaultRun} {c : BridgeContract} (paid : AccountId × U128)
      (id currentBlock : U64) (h : s.contract.finalizeWithdrawal id currentBlock = (c, .ok paid)) :
      VaultStep allowed s { s with contract := c }

/-- The vault, with the bond, still covers the disputed withdrawal beside the
pending ones. -/
def StillCovered (c : BridgeContract) (id : U64) : Prop :=
  ∀ w v, c.getWithdrawal id = some w → c.getVault w.rollupId = some v →
    c.totalIn .pending w.rollupId + w.amount.toNat ≤ v.balance.toNat + w.disputeBond.toNat

/-! ## What every accepted call keeps -/

/-- What was paid into a vault is in it or was paid out, and it covers the
pending withdrawals. -/
structure VaultsSolvent (c : BridgeContract) (paidIn : U64 → Nat) : Prop where
  backed : ∀ {r : U64} {v : BridgeVault}, c.getVault r = some v →
    v.balance.toNat + c.totalIn .finalized r = paidIn r
  covered : ∀ {r : U64} {v : BridgeVault}, c.getVault r = some v →
    c.totalIn .pending r ≤ v.balance.toNat
  known : ∀ w ∈ c.pendingWithdrawals, c.getVault w.rollupId ≠ none
  unpaid : ∀ {r : U64}, c.getVault r = none → paidIn r = 0

namespace VaultsSolvent

variable {c c' : BridgeContract} {paidIn : U64 → Nat} {r id : U64}

/-- Only the vaults and the withdrawals matter. -/
theorem congr (hs : VaultsSolvent c paidIn) (hvaults : c'.vaults = c.vaults)
    (hpending : c'.pendingWithdrawals = c.pendingWithdrawals) : VaultsSolvent c' paidIn := by
  have hget : ∀ r, c'.getVault r = c.getVault r := fun r => by
    rw [BridgeContract.getVault, hvaults, BridgeContract.getVault]
  have htotal : ∀ status r, c'.totalIn status r = c.totalIn status r := fun status r => by
    rw [BridgeContract.totalIn, hpending, BridgeContract.totalIn]
  exact {
    backed := fun h => by rw [htotal]; exact hs.backed (hget _ ▸ h)
    covered := fun h => by rw [htotal]; exact hs.covered (hget _ ▸ h)
    known := fun w hw => by rw [hget]; exact hs.known w (hpending ▸ hw)
    unpaid := fun h => hs.unpaid (hget _ ▸ h) }

theorem newVault (hs : VaultsSolvent c paidIn) (hnone : c.getVault id = none) :
    VaultsSolvent { c with vaults := c.vaults ++ [BridgeContract.newVault id] } paidIn := by
  have hget := fun r => BridgeContract.getVault_append_newVault (r := r) hnone
  -- no withdrawal names a rollup without a vault
  have hzero : ∀ status, c.totalIn status id = 0 := fun status =>
    BridgeContract.totalIn_eq_zero fun w hw hid => hs.known w hw (hid ▸ hnone)
  have hvault : ∀ r v, BridgeContract.getVault
      { c with vaults := c.vaults ++ [BridgeContract.newVault id] } r = some v →
      v.balance.toNat + c.totalIn .finalized r = paidIn r ∧
        c.totalIn .pending r ≤ v.balance.toNat := by
    intro r v h
    rw [hget] at h
    split at h
    · next hr =>
        subst hr
        cases h
        rw [hzero, hzero, hs.unpaid hnone]
        exact ⟨rfl, Nat.zero_le _⟩
    · exact ⟨hs.backed h, hs.covered h⟩
  refine ⟨fun h => (hvault _ _ h).1, fun h => (hvault _ _ h).2, fun w hw => ?_, fun {r} h => ?_⟩
  · rw [hget]
    split
    · nofun
    · exact hs.known w hw
  · rw [hget] at h
    split at h
    · cases h
    · exact hs.unpaid h

theorem registerVault (hs : VaultsSolvent c paidIn) (h : c.registerVault id = .ok c') :
    VaultsSolvent c' paidIn := by
  unfold BridgeContract.registerVault at h
  split at h
  · cases h
  · next hhas =>
      cases h
      exact hs.newVault (BridgeContract.getVault_eq_none_of_hasVault (by simpa using hhas))

theorem registerRollup {name proofType : String} {sequencer : AccountId} {genesis : Hash}
    {height : U64} (hs : VaultsSolvent c paidIn)
    (h : c.registerRollup id name proofType sequencer genesis height = .ok c') :
    VaultsSolvent c' paidIn := by
  unfold BridgeContract.registerRollup at h
  split at h
  · cases h
  · cases h
    cases hhas : c.hasVault id with
    | true => exact hs.congr (by simp) rfl
    | false =>
      exact (hs.newVault (BridgeContract.getVault_eq_none_of_hasVault hhas)).congr
        (by simp) rfl

/-- The vault of one rollup changes, and with it what was paid in. -/
theorem updateVault {g : BridgeVault → BridgeVault} {paid : Nat}
    (hv : c.getVault r = some v) (hg : ∀ v, (g v).rollupId = v.rollupId)
    (hself : (g v).balance.toNat + c.totalIn .finalized r = paid ∧
      c.totalIn .pending r ≤ (g v).balance.toNat)
    (hother : ∀ r' v', r' ≠ r → c.getVault r' = some v' →
      v'.balance.toNat + c.totalIn .finalized r' = paidIn r' ∧
        c.totalIn .pending r' ≤ v'.balance.toNat)
    (hknown : ∀ w ∈ c.pendingWithdrawals, c.getVault w.rollupId ≠ none)
    (hunpaid : ∀ r', c.getVault r' = none → paidIn r' = 0) :
    VaultsSolvent (c.updateVault r g) (Function.update paidIn r paid) := by
  have hget := fun r' => BridgeContract.getVault_updateVault (c := c) hg r r'
  -- both equations of a vault at once
  have hvault : ∀ r' v', (c.updateVault r g).getVault r' = some v' →
      v'.balance.toNat + c.totalIn .finalized r' = Function.update paidIn r paid r' ∧
        c.totalIn .pending r' ≤ v'.balance.toNat := by
    intro r' v' h
    rw [hget] at h
    split at h
    · next hr =>
        subst hr
        rw [hv] at h
        cases h
        rw [Function.update_self]
        exact hself
    · next hr =>
        rw [Function.update_of_ne hr]
        exact hother r' v' hr h
  refine ⟨fun h => (hvault _ _ h).1, fun h => (hvault _ _ h).2, fun w hw => ?_, fun {r'} h => ?_⟩
  · rw [hget]
    split
    · rw [Ne, Option.map_eq_none_iff]
      exact hknown w hw
    · exact hknown w hw
  · rw [hget] at h
    split at h
    · next hr =>
        subst hr
        rw [hv] at h
        cases h
    · next hr =>
        rw [Function.update_of_ne hr]
        exact hunpaid r' h

theorem deposit {amount : U128} (hs : VaultsSolvent c paidIn) (h : c.deposit id amount = .ok c')
    (hsum : paidIn id + amount.toNat < 2 ^ 128) :
    VaultsSolvent c' (Function.update paidIn id (paidIn id + amount.toNat)) := by
  unfold BridgeContract.deposit at h
  split at h
  · cases h
  · next vault hvault =>
      cases h
      have hback := hs.backed hvault
      have hcov := hs.covered hvault
      have hbal : (vault.balance + amount).toNat = vault.balance.toNat + amount.toNat := by
        rw [BitVec.toNat_add, Nat.mod_eq_of_lt (by omega)]
      refine updateVault hvault (fun _ => rfl) ?_ (fun _ _ _ h => ⟨hs.backed h, hs.covered h⟩)
        hs.known (fun _ h => hs.unpaid h)
      dsimp only
      omega

theorem initiate {recipient : AccountId} {amount : U128} {currentBlock : U64} {proofHash : Hash}
    (hs : VaultsSolvent c paidIn)
    (h : c.initiateWithdrawal r recipient amount currentBlock proofHash = .ok (c', id)) :
    VaultsSolvent c' paidIn := by
  unfold BridgeContract.initiateWithdrawal at h
  split at h
  · cases h
  · next vault hvault =>
      dsimp only at h
      split at h
      · cases h
      · next havail =>
          cases h
          have hcov := hs.covered hvault
          have hlt : c.totalIn .pending r < 2 ^ 128 := hcov.trans_lt vault.balance.isLt
          -- the request fits beside the pending withdrawals
          have hfits : c.totalIn .pending r + amount.toNat ≤ vault.balance.toNat := by
            have hle := BitVec.not_lt.mp havail
            rw [BitVec.le_def, toNat_satSub, BridgeContract.toNat_pendingAmount hlt] at hle
            omega
          refine ⟨fun {r' v} h => ?_, fun {r' v} h => ?_, fun w hw => ?_, hs.unpaid⟩
          · rw [BridgeContract.totalIn_push rfl]
            simpa [PendingWithdrawal.amountIn] using hs.backed h
          · have hcov' := hs.covered h
            rw [BridgeContract.totalIn_push rfl]
            by_cases hr : r' = r
            · subst hr
              have hv : v = vault := Option.some.inj (h.symm.trans hvault)
              subst hv
              simpa [PendingWithdrawal.amountIn] using hfits
            · simpa [PendingWithdrawal.amountIn, Ne.symm hr] using hcov'
          · rcases List.mem_append.mp hw with hw | hw
            · exact hs.known w hw
            · cases List.mem_singleton.mp hw
              change c.getVault r ≠ none
              simp [hvault]

/-- A change of one withdrawal that neither finalises it nor makes it pending. -/
theorem updateWithdrawal {w : PendingWithdrawal} {f : PendingWithdrawal → PendingWithdrawal}
    (hs : VaultsSolvent c paidIn) (hw : c.getWithdrawal id = some w)
    (hf : ∀ w, (f w).rollupId = w.rollupId) (hnot : w.status ≠ .finalized)
    (hdisp : (f w).status = .disputed) : VaultsSolvent (c.updateWithdrawal id f) paidIn := by
  refine ⟨fun {r v} h => ?_, fun {r v} h => ?_, fun w' hw' => ?_, hs.unpaid⟩
  · have hback := hs.backed (r := r) (v := v) h
    have htotal := BridgeContract.totalIn_updateWithdrawal hw f .finalized r
    simp only [PendingWithdrawal.amountIn, hnot, hdisp, and_false, if_false, reduceCtorEq]
      at htotal
    omega
  · have hcov := hs.covered (r := r) (v := v) h
    have htotal := BridgeContract.totalIn_updateWithdrawal hw f .pending r
    simp only [PendingWithdrawal.amountIn, hdisp, and_false, if_false, reduceCtorEq] at htotal
    omega
  · obtain ⟨w'', hw'', hid⟩ := BridgeContract.rollupId_of_mem_updateWithdrawal hf hw'
    exact hid ▸ hs.known w'' hw''

theorem dispute {disputer : AccountId} {bond : U128} (hs : VaultsSolvent c paidIn)
    (h : c.disputeWithdrawal id disputer = .ok (c', bond)) : VaultsSolvent c' paidIn := by
  unfold BridgeContract.disputeWithdrawal at h
  split at h
  · cases h
  · next w hw =>
      split at h
      · cases h
      · next hpending =>
          cases h
          refine hs.updateWithdrawal hw (fun _ => rfl) (fun hfin => ?_) rfl
          simp [hfin] at hpending

theorem uphold (hs : VaultsSolvent c paidIn)
    (h : c.resolveDispute id true = .ok (c', refund)) : VaultsSolvent c' paidIn := by
  unfold BridgeContract.resolveDispute at h
  split at h
  · cases h
  · next w hw =>
      split at h
      · cases h
      · next hdisputed =>
          have hstatus : w.status = .disputed := not_not.mp hdisputed
          cases h
          exact hs.updateWithdrawal hw (fun _ => rfl) (by simp [hstatus]) hstatus

/-- The withdrawal and the vault of its rollup change together. -/
theorem updateBoth {w : PendingWithdrawal}
    {f : PendingWithdrawal → PendingWithdrawal} {g : BridgeVault → BridgeVault} (paid : Nat)
    (hs : VaultsSolvent c paidIn) (hw : c.getWithdrawal id = some w)
    (hv : c.getVault w.rollupId = some v) (hf : ∀ w, (f w).rollupId = w.rollupId)
    (hg : ∀ v, (g v).rollupId = v.rollupId)
    (hback : (g v).balance.toNat + (c.updateWithdrawal id f).totalIn .finalized w.rollupId = paid)
    (hcov : (c.updateWithdrawal id f).totalIn .pending w.rollupId ≤ (g v).balance.toNat) :
    VaultsSolvent ((c.updateWithdrawal id f).updateVault w.rollupId g)
      (Function.update paidIn w.rollupId paid) := by
  -- nothing changes at the other rollups
  have hother : ∀ status r, r ≠ w.rollupId →
      (c.updateWithdrawal id f).totalIn status r = c.totalIn status r := by
    intro status r hr
    have := BridgeContract.totalIn_updateWithdrawal hw f status r
    simpa [PendingWithdrawal.amountIn, hf, Ne.symm hr] using this
  refine updateVault (c := c.updateWithdrawal id f) hv hg ⟨hback, hcov⟩ (fun r v' hr h => ?_)
    (fun w' hw' => ?_) (fun r h => hs.unpaid h)
  · rw [hother _ r hr, hother _ r hr]
    exact ⟨hs.backed h, hs.covered h⟩
  · obtain ⟨w'', hw'', hid⟩ := BridgeContract.rollupId_of_mem_updateWithdrawal hf hw'
    exact hid ▸ hs.known w'' hw''

end VaultsSolvent

section

variable {c c' : BridgeContract} {paidIn : U64 → Nat} {id : U64}

/-- What a rejected dispute does. -/
theorem resolveDispute_false_eq_ok
    (h : c.resolveDispute id false = .ok (c', refund)) :
    ∃ w, c.getWithdrawal id = some w ∧ w.status = .disputed ∧
      c' = (c.updateWithdrawal id fun w =>
          { w with status := .pending, disputer := none, disputeBond := 0#128 }).updateVault
        w.rollupId fun v => { v with balance := satAdd v.balance w.disputeBond } := by
  unfold BridgeContract.resolveDispute at h
  split at h
  · cases h
  · next w hw =>
      split at h
      · cases h
      · next hdisputed =>
          cases h
          exact ⟨w, hw, not_not.mp hdisputed, rfl⟩

/-- Every withdrawal that is found has a vault. -/
theorem VaultsSolvent.exists_vault {w : PendingWithdrawal} (hs : VaultsSolvent c paidIn)
    (hw : c.getWithdrawal id = some w) : ∃ v, c.getVault w.rollupId = some v :=
  Option.ne_none_iff_exists'.mp (hs.known w (List.mem_of_find?_eq_some hw))

/-- The totals and the balance after a rejected dispute. -/
theorem VaultsSolvent.reject_totals {w : PendingWithdrawal}
    (hs : VaultsSolvent c paidIn) (hw : c.getWithdrawal id = some w)
    (hstatus : w.status = .disputed) (hv : c.getVault w.rollupId = some v)
    (hsum : paidIn w.rollupId + w.disputeBond.toNat < 2 ^ 128) :
    let c₁ := c.updateWithdrawal id fun w =>
      { w with status := .pending, disputer := none, disputeBond := 0#128 }
    c₁.totalIn .finalized w.rollupId = c.totalIn .finalized w.rollupId ∧
      c₁.totalIn .pending w.rollupId = c.totalIn .pending w.rollupId + w.amount.toNat ∧
      (satAdd v.balance w.disputeBond).toNat = v.balance.toNat + w.disputeBond.toNat := by
  have hback := hs.backed hv
  refine ⟨?_, ?_, toNat_satAdd_of_lt (by omega)⟩
  · have := BridgeContract.totalIn_updateWithdrawal hw
      (fun w => { w with status := .pending, disputer := none, disputeBond := 0#128 })
      .finalized w.rollupId
    simpa [PendingWithdrawal.amountIn, hstatus] using this
  · have := BridgeContract.totalIn_updateWithdrawal hw
      (fun w => { w with status := .pending, disputer := none, disputeBond := 0#128 })
      .pending w.rollupId
    simpa [PendingWithdrawal.amountIn, hstatus] using this

theorem VaultsSolvent.reject {w : PendingWithdrawal}
    (hs : VaultsSolvent c paidIn) (h : c.resolveDispute id false = .ok (c', refund))
    (hw : c.getWithdrawal id = some w)
    (hsum : paidIn w.rollupId + w.disputeBond.toNat < 2 ^ 128) (hcov : StillCovered c id) :
    VaultsSolvent c'
      (Function.update paidIn w.rollupId (paidIn w.rollupId + w.disputeBond.toNat)) := by
  obtain ⟨w', hw', hstatus, rfl⟩ := resolveDispute_false_eq_ok h
  cases hw.symm.trans hw'
  obtain ⟨v, hv⟩ := hs.exists_vault hw
  obtain ⟨hfin, hpend, hbal⟩ := hs.reject_totals hw hstatus hv hsum
  have hback := hs.backed hv
  have hfits := hcov w v hw hv
  refine hs.updateBoth _ hw hv (fun _ => rfl) (fun _ => rfl) ?_ ?_
  · dsimp only
    omega
  · dsimp only
    omega

/-- A rejected dispute leaves its vault covering the pending withdrawals only
if the withdrawal was still covered. -/
theorem VaultsSolvent.reject_covered_iff
    {w : PendingWithdrawal} (hs : VaultsSolvent c paidIn)
    (h : c.resolveDispute id false = .ok (c', refund)) (hw : c.getWithdrawal id = some w)
    (hsum : paidIn w.rollupId + w.disputeBond.toNat < 2 ^ 128) :
    (∀ v, c'.getVault w.rollupId = some v → c'.totalIn .pending w.rollupId ≤ v.balance.toNat) ↔
      StillCovered c id := by
  constructor
  · intro hcov w' v hw' hv
    cases hw.symm.trans hw'
    obtain ⟨w', hw'', hstatus, rfl⟩ := resolveDispute_false_eq_ok h
    cases hw.symm.trans hw''
    obtain ⟨-, hpend, hbal⟩ := hs.reject_totals hw hstatus hv hsum
    have hget := BridgeContract.getVault_updateVault
      (c := c.updateWithdrawal id fun w =>
        { w with status := .pending, disputer := none, disputeBond := 0#128 })
      (f := fun v => { v with balance := satAdd v.balance w.disputeBond }) (fun _ => rfl)
      w.rollupId w.rollupId
    rw [if_pos rfl] at hget
    have hafter := hcov _ (hget.trans (congrArg (Option.map _) hv))
    change BridgeContract.totalIn (c.updateWithdrawal id _) .pending w.rollupId ≤
      (satAdd v.balance w.disputeBond).toNat at hafter
    omega
  · intro hcov v hv
    exact (hs.reject h hw hsum hcov).covered hv

theorem VaultsSolvent.finalize {paid : AccountId × U128} {currentBlock : U64}
    (hs : VaultsSolvent c paidIn) (h : c.finalizeWithdrawal id currentBlock = (c', .ok paid)) :
    VaultsSolvent c' paidIn := by
  unfold BridgeContract.finalizeWithdrawal at h
  split at h
  · cases h
  · next w hw =>
      split at h
      · cases h
      · cases h
      · next hstatus =>
          dsimp only at h
          split at h
          · cases h
          · split at h
            · cases h
            · next v hv =>
                cases h
                have hv' : c.getVault w.rollupId = some v := hv
                have hback := hs.backed hv'
                have hcov := hs.covered hv'
                have hfin := BridgeContract.totalIn_updateWithdrawal hw
                  (fun w => { w with status := .finalized }) .finalized w.rollupId
                have hpend := BridgeContract.totalIn_updateWithdrawal hw
                  (fun w => { w with status := .finalized }) .pending w.rollupId
                simp [PendingWithdrawal.amountIn, hstatus] at hfin hpend
                have hbal := toNat_satSub v.balance w.amount
                -- the amount was pending, so the balance covers it
                have := hs.updateBoth (paidIn w.rollupId)
                  (f := fun w => { w with status := .finalized })
                  (g := fun v =>
                    { v with
                      balance := satSub v.balance w.amount
                      totalWithdrawn := v.totalWithdrawn + w.amount })
                  hw hv' (fun _ => rfl) (fun _ => rfl) (by dsimp only; omega)
                  (by dsimp only; omega)
                rwa [Function.update_eq_self] at this

end

/-! ## Every run -/

theorem VaultRun.paidIn_slash (s : VaultRun) (c : BridgeContract) (r : U64) (n : Nat) :
    VaultRun.paidIn ⟨c, s.deposited, Function.update s.slashed r (s.slashed r + n)⟩ =
      Function.update s.paidIn r (s.paidIn r + n) := by
  funext r'
  by_cases hr : r' = r
  · subst hr
    simp [VaultRun.paidIn, Nat.add_assoc]
  · simp [VaultRun.paidIn, hr]

theorem VaultRun.paidIn_deposit (s : VaultRun) (c : BridgeContract) (r : U64) (n : Nat) :
    VaultRun.paidIn ⟨c, Function.update s.deposited r (s.deposited r + n), s.slashed⟩ =
      Function.update s.paidIn r (s.paidIn r + n) := by
  funext r'
  by_cases hr : r' = r
  · subst hr
    simp [VaultRun.paidIn, Nat.add_right_comm]
  · simp [VaultRun.paidIn, hr]

theorem vaultsSolvent_step {s s' : VaultRun} (hs : VaultsSolvent s.contract s.paidIn)
    (h : VaultStep StillCovered s s') : VaultsSolvent s'.contract s'.paidIn := by
  cases h with
  | registerVault r h => exact hs.registerVault h
  | registerRollup r name proofType sequencer genesis height h => exact hs.registerRollup h
  | deposit r amount h sum =>
    rw [VaultRun.paidIn_deposit]
    exact hs.deposit h sum
  | initiate id r recipient amount currentBlock proofHash h => exact hs.initiate h
  | dispute bond id disputer h => exact hs.dispute h
  | uphold id h => exact hs.uphold h
  | reject id h hw sum ok =>
    rw [VaultRun.paidIn_slash]
    exact hs.reject h hw sum ok
  | finalize paid id currentBlock h => exact hs.finalize h

theorem vaultsSolvent_run {s : VaultRun} (h : ReflTransGen (VaultStep StillCovered) .init s) :
    VaultsSolvent s.contract s.paidIn := by
  induction h with
  | refl => exact ⟨nofun, nofun, nofun, fun _ => rfl⟩
  | tail _ hstep ih => exact vaultsSolvent_step ih hstep

/-- In a run in which every rejected dispute found its withdrawal still
covered, a vault never pays out more than was paid in and covers its pending
withdrawals; and the next rejection keeps it so exactly when its withdrawal is
still covered. -/
theorem vault_solvent {s : VaultRun} (h : ReflTransGen (VaultStep StillCovered) .init s) :
    (∀ r v, s.contract.getVault r = some v →
      s.contract.totalIn .finalized r ≤ s.deposited r + s.slashed r ∧
        s.contract.totalIn .pending r ≤ v.balance.toNat) ∧
    ∀ id w c refund, s.contract.getWithdrawal id = some w →
      s.contract.resolveDispute id false = .ok (c, refund) →
      s.paidIn w.rollupId + w.disputeBond.toNat < 2 ^ 128 →
      ((∀ v, c.getVault w.rollupId = some v →
          c.totalIn .pending w.rollupId ≤ v.balance.toNat) ↔
        StillCovered s.contract id) := by
  have hs := vaultsSolvent_run h
  refine ⟨fun r v hv => ⟨?_, hs.covered hv⟩, fun id w c refund hw hres hsum => ?_⟩
  · have hback := hs.backed hv
    unfold VaultRun.paidIn at hback
    omega
  · exact hs.reject_covered_iff hres hw hsum

/-! A vault with 1000 SOLEN, all of it requested once or twice. -/

def sampleVault (balance withdrawn : U128) : BridgeVault where
  rollupId := 1#64
  balance := balance
  totalDeposited := 100000000000#128
  totalWithdrawn := withdrawn
  challengeWindow := defaultChallengeWindow
  withdrawalDelay := defaultWithdrawalDelay

def sampleWithdrawal (id : U64) (status : WithdrawalStatus) (disputer : Option AccountId)
    (bond : U128) : PendingWithdrawal where
  id := id
  rollupId := 1#64
  recipient := System.addr 0x41
  amount := 100000000000#128
  initiatedBlock := 0#64
  finalizeAfterBlock := 150#64
  proofHash := System.addr 0x42
  status := status
  disputer := disputer
  disputeBond := bond

/-- Rollup 1 with the given funds, withdrawals and slashed bonds. -/
def sampleRun (balance withdrawn : U128) (ws : List PendingWithdrawal) (nextId : U64)
    (slashed : Nat) : VaultRun where
  contract :=
    { vaults := [sampleVault balance withdrawn]
      pendingWithdrawals := ws
      nextWithdrawalId := nextId }
  deposited := Function.update (fun _ => 0) 1#64 100000000000
  slashed := Function.update (fun _ => 0) 1#64 slashed

theorem sampleRun_paidIn (balance withdrawn : U128) (ws : List PendingWithdrawal) (nextId : U64)
    (slashed : Nat) :
    (sampleRun balance withdrawn ws nextId slashed).paidIn 1#64 = 100000000000 + slashed := by
  simp [VaultRun.paidIn, sampleRun]

theorem sampleRun_bond_fits {balance withdrawn : U128} {ws : List PendingWithdrawal}
    {nextId : U64} :
    (sampleRun balance withdrawn ws nextId 0).paidIn 1#64 + disputeBond.toNat < 2 ^ 128 := by
  rw [sampleRun_paidIn]
  decide

/-- All of the vault is requested, and the request is disputed. -/
theorem sampleRun_disputed (allowed : BridgeContract → U64 → Prop) :
    ReflTransGen (VaultStep allowed) .init
      (sampleRun 100000000000#128 0#128
        [sampleWithdrawal 0#64 .disputed (some (System.addr 0x43)) disputeBond] 1#64 0) := by
  let s₁ : VaultRun :=
    ⟨{ vaults := [BridgeContract.newVault 1#64] }, fun _ => 0, fun _ => 0⟩
  have h₁ : VaultStep allowed .init s₁ := .registerVault 1#64 rfl
  have h₂ : VaultStep allowed s₁ (sampleRun 100000000000#128 0#128 [] 0#64 0) := by
    have h : VaultStep allowed s₁ _ := .deposit
      (c := { vaults := [sampleVault 100000000000#128 0#128] }) 1#64 100000000000#128
      (by decide) (by decide)
    have hzero : Function.update (fun _ : U64 => 0) 1#64 0 = fun _ => 0 := Function.update_eq_self ..
    simpa [sampleRun, hzero, s₁] using h
  have h₃ : VaultStep allowed (sampleRun 100000000000#128 0#128 [] 0#64 0)
      (sampleRun 100000000000#128 0#128 [sampleWithdrawal 0#64 .pending none 0#128] 1#64 0) :=
    .initiate 0#64 1#64 (System.addr 0x41) 100000000000#128 0#64 (System.addr 0x42) (by decide)
  have h₄ : VaultStep allowed
      (sampleRun 100000000000#128 0#128 [sampleWithdrawal 0#64 .pending none 0#128] 1#64 0)
      (sampleRun 100000000000#128 0#128
        [sampleWithdrawal 0#64 .disputed (some (System.addr 0x43)) disputeBond] 1#64 0) :=
    .dispute disputeBond 0#64 (System.addr 0x43) (by decide)
  exact (((ReflTransGen.single h₁).tail h₂).tail h₃).tail h₄

/-- With nothing requested beside it the disputed withdrawal is still covered. -/
theorem vault_solvent_disputed :
    let s := sampleRun 100000000000#128 0#128
      [sampleWithdrawal 0#64 .disputed (some (System.addr 0x43)) disputeBond] 1#64 0
    s.contract.totalIn .finalized 1#64 ≤ s.deposited 1#64 + s.slashed 1#64 ∧
      StillCovered s.contract 0#64 := by
  intro s
  have h := vault_solvent (s := s) (sampleRun_disputed StillCovered)
  refine ⟨(h.1 1#64 (sampleVault 100000000000#128 0#128) (by decide)).1, ?_⟩
  refine (h.2 0#64 (sampleWithdrawal 0#64 .disputed (some (System.addr 0x43)) disputeBond)
    { vaults := [sampleVault 110000000000#128 0#128]
      pendingWithdrawals := [sampleWithdrawal 0#64 .pending none 0#128]
      nextWithdrawalId := 1#64 } (none, 0#128) (by decide) (by decide)
    sampleRun_bond_fits).mp ?_
  intro v hv
  have : v = sampleVault 110000000000#128 0#128 := Option.some.inj (hv.symm.trans (by decide))
  subst this
  decide

/-- The funds of the disputed withdrawal are requested again, and the dispute
is rejected. The vault owes more than it has, and then pays it. -/
theorem not_vault_solvent_requested_again :
    ∃ s s' : VaultRun, ReflTransGen (VaultStep fun _ _ => True) .init s ∧
      ReflTransGen (VaultStep fun _ _ => True) .init s' ∧
      (∃ v, s.contract.getVault 1#64 = some v ∧
        v.balance.toNat < s.contract.totalIn .pending 1#64) ∧
      s'.deposited 1#64 + s'.slashed 1#64 < s'.contract.totalIn .finalized 1#64 := by
  let allowed : BridgeContract → U64 → Prop := fun _ _ => True
  let w₀ := sampleWithdrawal 0#64 .disputed (some (System.addr 0x43)) disputeBond
  let w := fun id status => sampleWithdrawal id status none 0#128
  let s₅ := sampleRun 100000000000#128 0#128 [w₀, w 1#64 .pending] 2#64 0
  let s₆ := sampleRun 110000000000#128 0#128 [w 0#64 .pending, w 1#64 .pending] 2#64 10000000000
  let s₇ := sampleRun 10000000000#128 100000000000#128 [w 0#64 .finalized, w 1#64 .pending] 2#64
    10000000000
  let s₈ := sampleRun 0#128 200000000000#128 [w 0#64 .finalized, w 1#64 .finalized] 2#64
    10000000000
  have h₅ : VaultStep allowed (sampleRun 100000000000#128 0#128 [w₀] 1#64 0) s₅ :=
    .initiate 1#64 1#64 (System.addr 0x41) 100000000000#128 0#64 (System.addr 0x42) (by decide)
  have h₆ : VaultStep allowed s₅ s₆ := by
    have hres : s₅.contract.resolveDispute 0#64 false = .ok (s₆.contract, none, 0#128) := by decide
    have h : VaultStep allowed s₅ _ := .reject (w := w₀) 0#64 hres (by decide)
      sampleRun_bond_fits trivial
    simpa [s₅, s₆, w₀, sampleRun, sampleWithdrawal, disputeBond] using h
  have h₇ : VaultStep allowed s₆ s₇ :=
    .finalize (System.addr 0x41, 100000000000#128) 0#64 150#64 (by decide)
  have h₈ : VaultStep allowed s₇ s₈ :=
    .finalize (System.addr 0x41, 100000000000#128) 1#64 150#64 (by decide)
  have hs₆ := ((sampleRun_disputed allowed).tail h₅).tail h₆
  exact ⟨s₆, s₈, hs₆, (hs₆.tail h₇).tail h₈,
    ⟨sampleVault 110000000000#128 0#128, by decide, by decide⟩,
    (sampleRun_paidIn ..).trans_lt (by decide)⟩

end Solen
