import Solen.Staking
import Solen.Concrete

/-!
# Validator key rotation

A validator asks for a new key and gets it at a later epoch, when every
delegation and undelegation is renamed with it. The check at the request
looks at the keys in use only, not at the keys that were asked for. Where
nobody takes a key that somebody has asked for, all keys stay distinct and
the renaming moves each entry along with its validator.
-/

namespace Solen

open Machine Relation

namespace StakingContract

/-- The key a validator uses and the one it has asked for. -/
def keysOf (v : StakingValidator) : List ValidatorId := v.id :: v.pendingNewKey.toList

def keys (c : StakingContract) : List ValidatorId := c.validators.flatMap keysOf

/-- No validator has asked for the key. -/
def Unclaimed (c : StakingContract) (key : ValidatorId) : Prop :=
  ∀ v ∈ c.validators, v.pendingNewKey ≠ some key

instance (c : StakingContract) (key : ValidatorId) : Decidable (c.Unclaimed key) :=
  inferInstanceAs (Decidable (∀ v ∈ c.validators, v.pendingNewKey ≠ some key))

/-- The key of the validator at a place of the record. Validators keep their
place, whatever key they use. -/
def idAt (c : StakingContract) (i : Nat) : Option ValidatorId := (c.validators[i]?).map (·.id)

def placeOf (c : StakingContract) (id : ValidatorId) : Nat := c.validators.findIdx (·.id == id)

end StakingContract

/-! ## Runs -/

/-- The record, with the place of the validator that each delegation was made
to and each undelegation taken from. -/
structure RotationRun where
  contract : StakingContract
  delegatedTo : List Nat := []
  undelegatedFrom : List Nat := []

namespace RotationRun

/-- The validator that the delegation of a pair was made to. -/
def validatorOf (s : RotationRun) (delegator : AccountId) (validator : ValidatorId) : Nat :=
  (s.delegatedTo[s.contract.delegations.findIdx
    (StakingContract.isDelegation delegator validator)]?).getD 0

/-- A first delegation of a pair opens an entry, a further one does not. -/
def delegated (s : RotationRun) (delegator : AccountId) (validator : ValidatorId) : List Nat :=
  if s.contract.delegations.any (StakingContract.isDelegation delegator validator) then
    s.delegatedTo
  else s.delegatedTo ++ [s.contract.placeOf validator]

/-- The entries that are left in `c` once the emptied ones are gone. -/
def remaining (s : RotationRun) (delegator : AccountId) (validator : ValidatorId)
    (amount : U128) : List Nat :=
  let reduced := s.contract.delegations.updateFirst
    (StakingContract.isDelegation delegator validator) fun d =>
      { d with amount := d.amount - amount }
  let emptied := fun (d : Delegation) =>
    StakingContract.isDelegation delegator validator d && d.amount == 0#128
  if s.contract.delegations.find? (StakingContract.isDelegation delegator validator)
      |>.any fun d => d.amount - amount == 0#128 then
    ((reduced.zip s.delegatedTo).filter fun e => !emptied e.1).map Prod.snd
  else s.delegatedTo

end RotationRun

/-- The accepted calls, at any epochs. `allowed` says which keys may be
registered or asked for. -/
inductive RotationStep (allowed : StakingContract → ValidatorId → Prop) :
    RotationRun → RotationRun → Prop
  | register {s : RotationRun} {c : StakingContract} (id : ValidatorId)
      (selfStake minStake : U128) (epoch : U64)
      (h : s.contract.registerValidatorAtEpochWithConfig id selfStake epoch minStake = .ok c)
      (ok : allowed s.contract id) :
      RotationStep allowed s { s with contract := c }
  | delegate {s : RotationRun} {c : StakingContract} (delegator : AccountId)
      (validator : ValidatorId) (amount : U128) (epoch : U64)
      (h : s.contract.delegateAtEpoch delegator validator amount epoch = .ok c) :
      RotationStep allowed s
        { s with contract := c, delegatedTo := s.delegated delegator validator }
  | undelegate {s : RotationRun} {c : StakingContract} (delegator : AccountId)
      (validator : ValidatorId) (amount : U128) (epoch : U64)
      (h : s.contract.undelegate delegator validator amount epoch = .ok c) :
      RotationStep allowed s
        { contract := c
          delegatedTo := s.remaining delegator validator amount
          undelegatedFrom := s.undelegatedFrom ++ [s.validatorOf delegator validator] }
  | rotateKey {s : RotationRun} {c : StakingContract} (id newKey : ValidatorId) (epoch : U64)
      (h : s.contract.rotateKey id newKey epoch = .ok c) (ok : allowed s.contract newKey) :
      RotationStep allowed s { s with contract := c }
  | applyPending {s : RotationRun} (epoch : U64) :
      RotationStep allowed s
        { s with contract := (s.contract.applyPendingRotations epoch).1 }

/-- Keys are distinct, and every entry names the validator it belongs to. -/
structure Attached (s : RotationRun) : Prop where
  distinct : (s.contract.validators.map (·.id)).Nodup
  delegations : s.contract.delegations.map (fun d => some d.validator) =
    s.delegatedTo.map s.contract.idAt
  undelegations : s.contract.undelegations.map (fun u => some u.validator) =
    s.undelegatedFrom.map s.contract.idAt

/-! ## Keys -/

namespace StakingContract

variable {c c' : StakingContract}

theorem ids_sublist_keys (c : StakingContract) : (c.validators.map (·.id)).Sublist c.keys := by
  unfold keys
  induction c.validators with
  | nil => exact .slnil
  | cons v vs ih =>
    refine List.Sublist.cons_cons v.id ?_
    exact ih.trans (List.sublist_append_right _ _)

theorem ids_nodup (h : c.keys.Nodup) : (c.validators.map (·.id)).Nodup :=
  h.sublist c.ids_sublist_keys

/-- A key that was asked for is in use by nobody. -/
theorem pending_ne_id (h : c.keys.Nodup) {v w : StakingValidator} {key : ValidatorId}
    (hv : v ∈ c.validators) (hw : w ∈ c.validators) (hkey : v.pendingNewKey = some key) :
    key ≠ w.id := by
  obtain ⟨hone, hpair⟩ := List.nodup_flatMap.mp h
  by_cases heq : v = w
  · subst heq
    have hv := hone v hv
    rw [keysOf, hkey] at hv
    simp only [Option.toList_some, List.nodup_cons, List.mem_singleton] at hv
    exact fun h => hv.1 h.symm
  · have : Std.Symm (Function.onFun List.Disjoint keysOf) := ⟨fun _ _ h => h.symm⟩
    have hdisjoint : List.Disjoint (keysOf v) (keysOf w) := hpair.forall hv hw heq
    rintro rfl
    refine hdisjoint (a := w.id) ?_ List.mem_cons_self
    rw [keysOf, hkey]
    exact List.mem_cons_of_mem _ List.mem_cons_self

theorem eq_of_id_eq (h : (c.validators.map (·.id)).Nodup) {v w : StakingValidator}
    (hv : v ∈ c.validators) (hw : w ∈ c.validators) (hid : v.id = w.id) : v = w :=
  List.inj_on_of_nodup_map h hv hw hid

theorem keys_updateFirst {p : StakingValidator → Bool} {f : StakingValidator → StakingValidator}
    (hvals : c'.validators = c.validators.updateFirst p f) (hf : ∀ v, keysOf (f v) = keysOf v) :
    c'.keys = c.keys := by
  rw [keys, keys, List.flatMap, List.flatMap, hvals, List.map_updateFirst hf]

theorem idAt_updateFirst {p : StakingValidator → Bool} {f : StakingValidator → StakingValidator}
    (hvals : c'.validators = c.validators.updateFirst p f) (hf : ∀ v, (f v).id = v.id) (i : Nat) :
    c'.idAt i = c.idAt i := by
  rw [idAt, idAt, ← List.getElem?_map, ← List.getElem?_map, hvals, List.map_updateFirst hf]

theorem idAt_placeOf {id : ValidatorId} {v : StakingValidator}
    (h : c.validators.find? (·.id == id) = some v) : c.idAt (c.placeOf id) = some id := by
  have hid : v.id = id := by
    have := List.find?_some h
    simpa using this
  have hget : c.validators[c.placeOf id]? = some v := by
    rw [placeOf, ← List.find?_eq_getElem?_findIdx]
    exact h
  rw [idAt, hget, Option.map_some, hid]

/-! ### Renaming -/

/-- The key an entry is renamed to. -/
def renamed (rotated : List (ValidatorId × ValidatorId)) (id : ValidatorId) : ValidatorId :=
  rotated.foldl (fun id r => if id = r.1 then r.2 else id) id

theorem renamed_of_not_mem {l : List (ValidatorId × ValidatorId)} {id : ValidatorId}
    (h : id ∉ l.map Prod.fst) : renamed l id = id := by
  induction l with
  | nil => rfl
  | cons r l ih =>
    rw [List.map_cons, List.mem_cons, not_or] at h
    rw [renamed, List.foldl_cons, if_neg h.1]
    exact ih h.2

/-- Where no new key is an old one, the renamings do not chain. -/
theorem renamed_of_mem {l : List (ValidatorId × ValidatorId)} {old new : ValidatorId}
    (hnodup : (l.map Prod.fst).Nodup) (hnew : new ∉ l.map Prod.fst) (h : (old, new) ∈ l) :
    renamed l old = new := by
  induction l with
  | nil => cases h
  | cons r l ih =>
    rw [List.map_cons, List.nodup_cons] at hnodup
    rw [List.map_cons, List.mem_cons, not_or] at hnew
    rw [renamed, List.foldl_cons]
    rcases List.mem_cons.mp h with rfl | h
    · rw [if_pos rfl]
      exact renamed_of_not_mem hnew.2
    · have hne : old ≠ r.1 := by
        rintro rfl
        exact hnodup.1 (List.mem_map.mpr ⟨_, h, rfl⟩)
      rw [if_neg hne]
      exact ih hnodup.2 hnew.2 h

/-- A validator after the rotations of an epoch. -/
def rotate (epoch : U64) (v : StakingValidator) : StakingValidator :=
  match v.pendingNewKey with
  | some newKey =>
      if v.keyRotationEpoch ≤ epoch then
        { v with id := newKey, pendingNewKey := none, keyRotationEpoch := 0#64 }
      else v
  | none => v

theorem mem_dueRotations {epoch : U64} {r : ValidatorId × ValidatorId} :
    r ∈ c.dueRotations epoch ↔ ∃ v ∈ c.validators, v.id = r.1 ∧
      v.pendingNewKey = some r.2 ∧ v.keyRotationEpoch ≤ epoch := by
  unfold dueRotations
  rw [List.mem_filterMap]
  refine exists_congr fun v => and_congr_right fun _ => ?_
  cases hkey : v.pendingNewKey with
  | none => simp
  | some key =>
    by_cases hdue : v.keyRotationEpoch ≤ epoch
    · simp [hdue, Prod.ext_iff]
    · simp [hdue]

theorem fst_dueRotations_sublist (c : StakingContract) (epoch : U64) :
    ((c.dueRotations epoch).map Prod.fst).Sublist (c.validators.map (·.id)) := by
  unfold dueRotations
  induction c.validators with
  | nil => exact .slnil
  | cons v vs ih =>
    rw [List.filterMap_cons]
    split
    · exact ih.trans (List.sublist_cons_self _ _)
    · next r hr =>
        have hfst : r.1 = v.id := by
          split at hr
          · split at hr
            · cases hr
              rfl
            · cases hr
          · cases hr
        rw [List.map_cons, List.map_cons, hfst]
        exact ih.cons_cons _

/-- A validator and the entries that name it get the same key. -/
theorem id_rotate (h : c.keys.Nodup) {epoch : U64} {v : StakingValidator}
    (hv : v ∈ c.validators) : (rotate epoch v).id = renamed (c.dueRotations epoch) v.id := by
  have hids := ids_nodup h
  by_cases hdue : v.id ∈ (c.dueRotations epoch).map Prod.fst
  · obtain ⟨r, hr, hrid⟩ := List.mem_map.mp hdue
    obtain ⟨w, hw, hwid, hkey, hle⟩ := mem_dueRotations.mp hr
    obtain rfl := eq_of_id_eq hids hw hv (hwid.trans hrid)
    have hnew : r.2 ∉ (c.dueRotations epoch).map Prod.fst := by
      intro hmem
      obtain ⟨r', hr', hfst⟩ := List.mem_map.mp hmem
      obtain ⟨u, hu, huid, -, -⟩ := mem_dueRotations.mp hr'
      exact pending_ne_id h hw hu hkey (hfst.symm.trans huid.symm)
    rw [hwid, renamed_of_mem (hids.sublist (c.fst_dueRotations_sublist epoch)) hnew hr, rotate,
      hkey]
    exact congrArg StakingValidator.id (if_pos hle)
  · rw [renamed_of_not_mem hdue, rotate]
    split
    · next key hkey =>
        rw [if_neg]
        intro hle
        refine hdue (List.mem_map.mpr ⟨(v.id, key), ?_, rfl⟩)
        exact mem_dueRotations.mpr ⟨v, hv, rfl, hkey, hle⟩
    · rfl

/-- A rotation uses the key that was asked for and gives up the old one. -/
theorem keys_rotate_sublist (epoch : U64) (vs : List StakingValidator) :
    ((vs.map (rotate epoch)).flatMap keysOf).Sublist (vs.flatMap keysOf) := by
  induction vs with
  | nil => exact .slnil
  | cons v vs ih =>
    rw [List.map_cons, List.flatMap_cons, List.flatMap_cons]
    refine List.Sublist.append ?_ ih
    unfold rotate
    split
    · next key hkey =>
        split
        · rw [keysOf, keysOf, hkey]
          exact List.sublist_cons_self _ _
        · exact .refl _
    · exact .refl _

theorem keys_register {id : ValidatorId} {selfStake minStake : U128} {epoch : U64}
    (h : c.registerValidatorAtEpochWithConfig id selfStake epoch minStake = .ok c')
    (hid : c.Unclaimed id) (hkeys : c.keys.Nodup) :
    c'.keys.Nodup ∧ c'.delegations = c.delegations ∧ c'.undelegations = c.undelegations ∧
      ∀ i, (c.idAt i).isSome → c'.idAt i = c.idAt i := by
  unfold registerValidatorAtEpochWithConfig at h
  split at h
  · cases h
  split at h
  · cases h
  next hany =>
    cases h
    refine ⟨?_, rfl, rfl, ?_⟩
    · rw [keys, List.flatMap_append, List.nodup_append]
      refine ⟨hkeys, List.nodup_singleton _, fun key hkey _ hnew => ?_⟩
      obtain rfl := List.mem_singleton.mp hnew
      rintro rfl
      obtain ⟨v, hv, hmem⟩ := List.mem_flatMap.mp hkey
      rcases List.mem_cons.mp hmem with heq | hmem
      · exact hany (List.any_eq_true.mpr ⟨v, hv, by simp [heq]⟩)
      · exact hid v hv (by simpa using hmem)
    · intro i hi
      rw [idAt, Option.isSome_map, isSome_getElem?] at hi
      rw [idAt, idAt, List.getElem?_append_left hi]

theorem perm_keys_updateFirst {p : StakingValidator → Bool} {key : ValidatorId} {epoch : U64}
    {v : StakingValidator} (hnone : v.pendingNewKey = none) :
    ∀ {vs : List StakingValidator}, vs.find? p = some v →
      ((vs.updateFirst p fun v => { v with
        pendingNewKey := some key, keyRotationEpoch := epoch }).flatMap keysOf).Perm
          (key :: vs.flatMap keysOf)
  | w :: vs, h => by
      cases hw : p w with
      | true =>
        rw [List.find?_cons, hw] at h
        cases h
        simp only [List.updateFirst, hw, if_true, List.flatMap_cons, keysOf, hnone,
          Option.toList_some, Option.toList_none]
        exact List.Perm.swap _ _ _
      | false =>
        rw [List.find?_cons, hw] at h
        simp only [List.updateFirst, hw, Bool.false_eq_true, if_false, List.flatMap_cons]
        exact ((perm_keys_updateFirst hnone h).append_left _).trans List.perm_middle

theorem keys_rotateKey {id newKey : ValidatorId} {epoch : U64}
    (h : c.rotateKey id newKey epoch = .ok c') (hkey : c.Unclaimed newKey)
    (hkeys : c.keys.Nodup) :
    c'.keys.Nodup ∧ c'.delegations = c.delegations ∧ c'.undelegations = c.undelegations ∧
      ∀ i, c'.idAt i = c.idAt i := by
  unfold rotateKey at h
  split at h
  · cases h
  next hany =>
    split at h
    · cases h
    next v hv =>
      split at h
      · cases h
      next hpending =>
        cases h
        refine ⟨?_, rfl, rfl, idAt_updateFirst rfl fun _ => rfl⟩
        have hnone : v.pendingNewKey = none := by simpa using hpending
        refine (perm_keys_updateFirst hnone hv).nodup_iff.mpr (List.nodup_cons.mpr ⟨?_, hkeys⟩)
        intro hmem
        obtain ⟨w, hw, hmem⟩ := List.mem_flatMap.mp hmem
        rcases List.mem_cons.mp hmem with heq | hmem
        · exact hany (List.any_eq_true.mpr ⟨w, hw, by simp [heq]⟩)
        · exact hkey w hw (by simpa using hmem)

end StakingContract

/-! ## What a step keeps -/

open StakingContract

/-- Entries keep their names when no validator they belong to changes its key. -/
theorem map_idAt_congr {α : Type} {f : α → ValidatorId} {es : List α} {places : List Nat}
    {c c' : StakingContract} (h : es.map (fun e => some (f e)) = places.map c.idAt)
    (hids : ∀ i, (c.idAt i).isSome → c'.idAt i = c.idAt i) :
    es.map (fun e => some (f e)) = places.map c'.idAt := by
  rw [h]
  refine List.map_congr_left fun i hi => (hids i ?_).symm
  have hmem : c.idAt i ∈ es.map fun e => some (f e) := h ▸ List.mem_map_of_mem hi
  obtain ⟨e, -, he⟩ := List.mem_map.mp hmem
  rw [← he]
  rfl

theorem Attached.register {s : RotationRun} {c : StakingContract} {id : ValidatorId}
    {selfStake minStake : U128} {epoch : U64} (hs : Attached s) (hkeys : s.contract.keys.Nodup)
    (h : s.contract.registerValidatorAtEpochWithConfig id selfStake epoch minStake = .ok c)
    (hid : s.contract.Unclaimed id) : Attached { s with contract := c } ∧ c.keys.Nodup := by
  obtain ⟨hkeys', hdels, hunds, hidAt⟩ := keys_register h hid hkeys
  refine ⟨⟨ids_nodup hkeys', ?_, ?_⟩, hkeys'⟩
  · change c.delegations.map _ = _
    rw [hdels]
    exact map_idAt_congr hs.delegations hidAt
  · change c.undelegations.map _ = _
    rw [hunds]
    exact map_idAt_congr hs.undelegations hidAt

theorem Attached.rotateKey {s : RotationRun} {c : StakingContract} {id newKey : ValidatorId}
    {epoch : U64} (hs : Attached s) (hkeys : s.contract.keys.Nodup)
    (h : s.contract.rotateKey id newKey epoch = .ok c) (hkey : s.contract.Unclaimed newKey) :
    Attached { s with contract := c } ∧ c.keys.Nodup := by
  obtain ⟨hkeys', hdels, hunds, hidAt⟩ := keys_rotateKey h hkey hkeys
  refine ⟨⟨ids_nodup hkeys', ?_, ?_⟩, hkeys'⟩
  · change c.delegations.map _ = _
    rw [hdels]
    exact map_idAt_congr hs.delegations fun i _ => hidAt i
  · change c.undelegations.map _ = _
    rw [hunds]
    exact map_idAt_congr hs.undelegations fun i _ => hidAt i

theorem Attached.delegate {s : RotationRun} {c : StakingContract} {delegator : AccountId}
    {validator : ValidatorId} {amount : U128} {epoch : U64} (hs : Attached s)
    (hkeys : s.contract.keys.Nodup)
    (h : s.contract.delegateAtEpoch delegator validator amount epoch = .ok c) :
    Attached { s with contract := c, delegatedTo := s.delegated delegator validator } ∧
      c.keys.Nodup := by
  unfold delegateAtEpoch at h
  split at h
  · cases h
  next val hval =>
    dsimp only at h
    obtain ⟨hvals, hdels, hunds⟩ : c.validators = _ ∧ c.delegations = _ ∧
        c.undelegations = s.contract.undelegations := by
      cases h
      exact ⟨rfl, rfl, rfl⟩
    have hkeys' : c.keys.Nodup := by
      rw [keys_updateFirst hvals fun _ => rfl]
      exact hkeys
    have hidAt : ∀ i, c.idAt i = s.contract.idAt i := idAt_updateFirst hvals fun _ => rfl
    have hsame := map_idAt_congr hs.delegations fun i _ => hidAt i
    refine ⟨⟨ids_nodup hkeys', ?_, ?_⟩, hkeys'⟩
    · change c.delegations.map _ = (s.delegated delegator validator).map c.idAt
      rw [hdels, RotationRun.delegated]
      split
      · rw [← hsame]
        refine List.map_updateFirst ?_ _
        exact fun _ => rfl
      · rw [List.map_append, List.map_append, hsame]
        rw [List.map_singleton, List.map_singleton, hidAt, idAt_placeOf hval]
    · change c.undelegations.map _ = _
      rw [hunds]
      exact map_idAt_congr hs.undelegations fun i _ => hidAt i

/-- Dropping entries drops their places. -/
theorem map_filter_zip {α : Type} {f : α → ValidatorId} {g : Nat → Option ValidatorId}
    (p : α → Bool) : ∀ {es : List α} {places : List Nat},
      es.map (fun e => some (f e)) = places.map g →
      (es.filter p).map (fun e => some (f e)) =
        (((es.zip places).filter fun e => p e.1).map Prod.snd).map g
  | [], [], _ => rfl
  | e :: es, i :: places, h => by
      rw [List.map_cons, List.map_cons, List.cons.injEq] at h
      have ih := map_filter_zip p h.2
      cases hp : p e with
      | true => simp [hp, h.1, ih]
      | false => simp [hp, ih]

/-- The place kept for an entry is that of the validator it names. -/
theorem getElem?_places {α : Type} {f : α → ValidatorId} {g : Nat → Option ValidatorId}
    {es : List α} {places : List Nat} {k : Nat} {e : α}
    (h : es.map (fun e => some (f e)) = places.map g) (he : es[k]? = some e) :
    g ((places[k]?).getD 0) = some (f e) := by
  have hk := congrArg (fun l => l[k]?) h
  simp only [List.getElem?_map, he, Option.map_some] at hk
  cases hplace : places[k]? with
  | none => simp [hplace] at hk
  | some i =>
    rw [hplace, Option.map_some, Option.some_inj] at hk
    exact hk.symm

theorem Attached.undelegate {s : RotationRun} {c : StakingContract} {delegator : AccountId}
    {validator : ValidatorId} {amount : U128} {epoch : U64} (hs : Attached s)
    (hkeys : s.contract.keys.Nodup)
    (h : s.contract.undelegate delegator validator amount epoch = .ok c) :
    Attached
        { contract := c
          delegatedTo := s.remaining delegator validator amount
          undelegatedFrom := s.undelegatedFrom ++ [s.validatorOf delegator validator] } ∧
      c.keys.Nodup := by
  unfold StakingContract.undelegate at h
  split at h
  · cases h
  next d hd =>
    split at h
    · cases h
    split at h
    · cases h
    dsimp only at h
    obtain ⟨hvals, hdels, hunds⟩ : c.validators = _ ∧ c.delegations = _ ∧
        c.undelegations = s.contract.undelegations ++ [⟨delegator, validator, amount, _⟩] := by
      cases h
      exact ⟨rfl, rfl, rfl⟩
    have hkeys' : c.keys.Nodup := by
      rw [keys_updateFirst hvals fun _ => rfl]
      exact hkeys
    have hidAt : ∀ i, c.idAt i = s.contract.idAt i := idAt_updateFirst hvals fun _ => rfl
    have hsame := map_idAt_congr hs.delegations fun i _ => hidAt i
    have hreduced : (s.contract.delegations.updateFirst (isDelegation delegator validator)
        fun d => { d with amount := d.amount - amount }).map (fun d => some d.validator) =
          s.delegatedTo.map c.idAt := by
      rw [← hsame]
      refine List.map_updateFirst ?_ _
      exact fun _ => rfl
    refine ⟨⟨ids_nodup hkeys', ?_, ?_⟩, hkeys'⟩
    · change c.delegations.map _ = (s.remaining delegator validator amount).map c.idAt
      rw [hdels, RotationRun.remaining, hd, Option.any_some]
      by_cases hzero : d.amount - amount = 0#128
      · rw [if_pos hzero, if_pos (beq_iff_eq.mpr hzero)]
        exact map_filter_zip _ hreduced
      · rw [if_neg hzero, if_neg (mt beq_iff_eq.mp hzero)]
        exact hreduced
    · change c.undelegations.map _ = (s.undelegatedFrom ++ _).map c.idAt
      have hvalidator : d.validator = validator := by
        have := List.find?_some hd
        simp only [isDelegation, Bool.and_eq_true, beq_iff_eq] at this
        exact this.2
      rw [List.find?_eq_getElem?_findIdx] at hd
      rw [hunds, List.map_append, List.map_append, List.map_singleton, List.map_singleton,
        map_idAt_congr hs.undelegations fun i _ => hidAt i, RotationRun.validatorOf,
        getElem?_places hsame hd, hvalidator]

theorem Attached.applyPending {s : RotationRun} (epoch : U64) (hs : Attached s)
    (hkeys : s.contract.keys.Nodup) :
    Attached { s with contract := (s.contract.applyPendingRotations epoch).1 } ∧
      (s.contract.applyPendingRotations epoch).1.keys.Nodup := by
  have hvals : (s.contract.applyPendingRotations epoch).1.validators =
      s.contract.validators.map (rotate epoch) := rfl
  have hkeys' : (s.contract.applyPendingRotations epoch).1.keys.Nodup := by
    rw [keys, hvals]
    exact hkeys.sublist (keys_rotate_sublist epoch _)
  have hidAt : (s.contract.applyPendingRotations epoch).1.idAt = fun i =>
      (s.contract.idAt i).map (renamed (s.contract.dueRotations epoch)) := by
    funext i
    rw [idAt, idAt, hvals, List.getElem?_map, Option.map_map, Option.map_map]
    cases hget : s.contract.validators[i]? with
    | none => rfl
    | some v => exact congrArg some (id_rotate hkeys (List.mem_of_getElem? hget))
  -- entries and validators are renamed by the same function
  have hrename : ∀ {α : Type} {f : α → ValidatorId} {es : List α} {places : List Nat},
      es.map (fun e => some (f e)) = places.map s.contract.idAt →
      es.map (fun e => some (renamed (s.contract.dueRotations epoch) (f e))) =
        places.map (s.contract.applyPendingRotations epoch).1.idAt := by
    intro α f es places h
    have h' := congrArg
      (List.map (Option.map (renamed (s.contract.dueRotations epoch)))) h
    rw [List.map_map, List.map_map] at h'
    rw [hidAt]
    exact h'
  refine ⟨⟨ids_nodup hkeys', ?_, ?_⟩, hkeys'⟩
  · refine Eq.trans ?_ (hrename hs.delegations)
    exact List.map_map
  · refine Eq.trans ?_ (hrename hs.undelegations)
    exact List.map_map

theorem RotationStep.attached {s s' : RotationRun} (hstep : RotationStep Unclaimed s s')
    (hs : Attached s) (hkeys : s.contract.keys.Nodup) :
    Attached s' ∧ s'.contract.keys.Nodup := by
  cases hstep with
  | register id selfStake minStake epoch h ok => exact hs.register hkeys h ok
  | delegate delegator validator amount epoch h => exact hs.delegate hkeys h
  | undelegate delegator validator amount epoch h => exact hs.undelegate hkeys h
  | rotateKey id newKey epoch h ok => exact hs.rotateKey hkeys h ok
  | applyPending epoch => exact hs.applyPending epoch hkeys

/-- As long as nobody registers or asks for a key that a validator waits for. -/
theorem rotation_attached {s₀ s : RotationRun} (hs₀ : Attached s₀)
    (hkeys : s₀.contract.keys.Nodup) (hrun : ReflTransGen (RotationStep Unclaimed) s₀ s) :
    Attached s := by
  have hinv : Attached s ∧ s.contract.keys.Nodup := by
    induction hrun with
    | refl => exact ⟨hs₀, hkeys⟩
    | tail _ hstep ih => exact hstep.attached ih.1 ih.2
  exact hinv.1

/-- A validator of `alice` that `bob` has delegated to. -/
def delegatedRun : RotationRun where
  contract :=
    { validators := [⟨alice, 5#128, 3#128, 0#128, true, false, 0#64, 1000#64, 1#64, none, 0#64⟩]
      delegations := [⟨bob, alice, 3#128, 0#128, 1#64⟩] }
  delegatedTo := [0]

/-- The validator moves from `alice` to `bob`, and the delegation with it. -/
theorem rotation_attached_rotated :
    let rotated := (((delegatedRun.contract.rotateKey alice bob 0#64).toOption.getD {}
      ).applyPendingRotations 1#64).1
    rotated.validators.map (·.id) = [bob] ∧ Attached { delegatedRun with contract := rotated } := by
  intro rotated
  refine ⟨by decide, @rotation_attached delegatedRun _ ⟨by decide, by decide, by decide⟩ (by decide) ?_⟩
  refine .tail (.single (.rotateKey alice bob 0#64 rfl ?_)) (.applyPending 1#64)
  decide

/-- Nothing keeps others from registering the key a validator waits for. -/
theorem not_attached_claimed :
    ∃ s, ReflTransGen (RotationStep fun _ _ => True) ⟨{}, [], []⟩ s ∧ ¬ Attached s := by
  refine ⟨_, .tail (.tail (.tail (.single
    (.register alice 5#128 5#128 0#64 rfl trivial)) (.rotateKey alice bob 0#64 rfl trivial))
      (.register bob 5#128 5#128 0#64 rfl trivial)) (.applyPending 1#64), fun h => ?_⟩
  exact absurd h.distinct (by decide)

end Solen
