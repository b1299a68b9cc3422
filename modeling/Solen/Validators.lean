import Solen.Platform

/-!
# The consensus validator set

Each node keeps its own copy of the validators, with their stake and
whether they are active. Proposers are drawn from the active ones, in
an order that depends on the height and on the seed of the epoch; a
quorum is counted over all of them. At an epoch boundary the set is
brought in line with the staking contract, and so it is when a node
boots.

Stakes are 128-bit and their sums and products wrap.
-/

namespace Solen

open Machine

inductive ValidatorStatus where
  | active
  | jailed
  | exiting
deriving DecidableEq

structure ValidatorInfo where
  id : ValidatorId
  stake : U128
  status : ValidatorStatus := .active
  missedBlocks : Nat := 0
deriving DecidableEq

def ValidatorInfo.isActive (v : ValidatorInfo) : Bool := v.status = .active

structure ValidatorSet where
  validators : List ValidatorInfo
deriving DecidableEq

namespace ValidatorSet

/-! ## Stakes and quorums -/

def sumStake (l : List ValidatorInfo) : U128 := l.foldl (fun t v => t + v.stake) 0#128

/-- The active validators, sorted by identifier. -/
def active (vs : ValidatorSet) : List ValidatorInfo :=
  (vs.validators.filter ValidatorInfo.isActive).mergeSort fun a b => (compare a.id b.id).isLE

def totalActiveStake (vs : ValidatorSet) : U128 := sumStake vs.active

def activeCount (vs : ValidatorSet) : Nat := vs.active.length

def isActiveValidator (vs : ValidatorSet) (id : ValidatorId) : Bool :=
  vs.active.any fun v => v.id = id

def stakeOf (vs : ValidatorSet) (ids : List ValidatorId) : U128 :=
  sumStake (vs.validators.filter fun v => v.id ∈ ids)

/-- More than two thirds of the stake of the whole set, jailed validators
included. -/
def hasQuorum (vs : ValidatorSet) (attesterIds : List ValidatorId) : Bool :=
  let total := sumStake vs.validators
  if total = 0#128 then false
  else total * 2#128 < vs.stakeOf attesterIds * 3#128

/-! ## Changing the set -/

def get? (vs : ValidatorSet) (id : ValidatorId) : Option ValidatorInfo :=
  vs.validators.find? fun v => v.id = id

/-- `get_mut` and a change of what it finds. -/
def update (vs : ValidatorSet) (id : ValidatorId) (f : ValidatorInfo → ValidatorInfo) :
    ValidatorSet :=
  ⟨vs.validators.updateFirst (fun v => v.id = id) f⟩

def add (vs : ValidatorSet) (v : ValidatorInfo) : ValidatorSet := ⟨vs.validators ++ [v]⟩

def remove (vs : ValidatorSet) (id : ValidatorId) : ValidatorSet :=
  ⟨vs.validators.filter fun v => v.id ≠ id⟩

def resetMissed (vs : ValidatorSet) (id : ValidatorId) : ValidatorSet :=
  vs.update id fun v => { v with missedBlocks := 0 }

/-! ## Proposers -/

section Proposers

variable (E : Platform)

/-- The first 16 bytes of a hash, as a number. -/
def hashSelector (h : Hash) : U128 := BitVec.ofNat 128 (fromLeBytes (h.bytes.take 16))

/-- The first validator whose cumulative stake is above the target. -/
def pickByStake (target : U128) : U128 → List ValidatorInfo → Option ValidatorId
  | _, [] => none
  | cumulative, v :: rest =>
      if target < cumulative + v.stake then some v.id
      else pickByStake target (cumulative + v.stake) rest

/-- The proposer a target value selects; past the end of the scan it is
the last validator. -/
def proposerAtTarget (vs : ValidatorSet) (target : U128) : Option ValidatorId :=
  (pickByStake target 0#128 vs.active).or (vs.active.getLast?.map (·.id))

/-- The value drawn for a height. -/
def proposerSelector (height : Nat) (epochSeed : Hash) : U128 :=
  hashSelector (E.blake3 (epochSeed.bytes ++ toLeBytes 8 height))

def proposerForHeightWithSeed (vs : ValidatorSet) (height : Nat) (epochSeed : Hash) :
    Option ValidatorId :=
  let active := vs.active
  if epochSeed = Hash.zero then active[height % active.length]?.map (·.id)
  else
    let totalStake := sumStake active
    if totalStake = 0#128 then active.head?.map (·.id)
    else vs.proposerAtTarget (proposerSelector E height epochSeed % totalStake)

/-- A validator's score for a height: hash over stake, lower is better. -/
def proposerScore (height : Nat) (epochSeed : Hash) (v : ValidatorInfo) : U128 :=
  let hash := E.blake3 (epochSeed.bytes ++ toLeBytes 8 height ++ v.id.bytes)
  if 0#128 < v.stake then hashSelector hash / v.stake else BitVec.allOnes 128

/-- The designated proposer first, then its backups. In the genesis epoch
the active validators take turns. -/
def proposerOrderForHeight (vs : ValidatorSet) (height : Nat) (epochSeed : Hash) :
    List ValidatorId :=
  let active := vs.active
  if epochSeed = Hash.zero then (active.rotate (height % active.length)).map (·.id)
  else
    let scored := active.map fun v => (proposerScore E height epochSeed v, v.id)
    (scored.mergeSort fun a b => a.1 ≤ b.1).map Prod.snd

end Proposers

/-! ## Epoch transitions -/

/-- What an epoch pays a validator on average, in the node's own copy of
the stakes. -/
def baseReward : U128 := 100#128

/-- Rewards of an epoch, in proportion to stake. -/
def processEpochTransition (vs : ValidatorSet) : ValidatorSet :=
  let totalStake := vs.totalActiveStake
  if totalStake = 0#128 then vs
  else
    let totalReward := baseReward * BitVec.ofNat 128 vs.activeCount
    (vs.validators.filter ValidatorInfo.isActive).foldl (fun vs v =>
      vs.update v.id fun v => { v with stake := v.stake + totalReward * v.stake / totalStake }) vs

/-- A set that is being brought in line with the staking contract, and how
much stake has moved so far. -/
structure Sync where
  set : ValidatorSet
  stakeChanged : U128 := 0#128

/-- The limit on moved stake would be exceeded. -/
def Sync.exceeds (sync : Sync) (maxStakeChange stake : U128) : Bool :=
  maxStakeChange < satAdd sync.stakeChanged stake ∧ 0#128 < maxStakeChange

/-- A validator of the staking contract: known ones get their stake and
become active again, whatever the limit; new ones join within it. -/
def Sync.enrol (maxStakeChange : U128) (sync : Sync) (sv : StakingValidator) : Sync :=
  if !sv.isActive then sync
  else
    match sync.set.get? sv.id with
    | some v =>
        { set := sync.set.update sv.id fun v =>
            { v with
              stake := sv.totalStake
              status := .active
              missedBlocks := if v.isActive then v.missedBlocks else 0 }
          stakeChanged := satAdd sync.stakeChanged (sv.totalStake - v.stake).abs }
    | none =>
        if sync.exceeds maxStakeChange sv.totalStake then sync
        else
          { set := sync.set.add { id := sv.id, stake := sv.totalStake }
            stakeChanged := satAdd sync.stakeChanged sv.totalStake }

def Sync.expel (maxStakeChange : U128) (sync : Sync) (v : ValidatorInfo) : Sync :=
  if sync.exceeds maxStakeChange v.stake then sync
  else
    { set := sync.set.remove v.id
      stakeChanged := satAdd sync.stakeChanged v.stake }

/-- How much stake may move in one epoch: a third of the active stake,
without limit below four validators. -/
def maxStakeChange (vs : ValidatorSet) : U128 :=
  if 4 ≤ vs.activeCount then sumStake (vs.validators.filter ValidatorInfo.isActive) / 3#128
  else BitVec.allOnes 128

def syncWithStaking (vs : ValidatorSet) (staking : StakingContract) : ValidatorSet :=
  let limit := vs.maxStakeChange
  let admitted := staking.validators.foldl (Sync.enrol limit) { set := vs }
  let activeIds := (staking.validators.filter (·.isActive)).map (·.id)
  let exited := admitted.set.validators.filter fun v => v.id ∉ activeIds
  (exited.foldl (Sync.expel limit) admitted).set

/-- The set after an epoch boundary: rewards first, then the staking
contract. -/
def epochTransition (vs : ValidatorSet) (staking : StakingContract) : ValidatorSet :=
  vs.processEpochTransition.syncWithStaking staking

/-! ## Boot -/

/-- A validator of the staking contract, when a node starts. -/
def reconcileOne (vs : ValidatorSet) (sv : StakingValidator) : ValidatorSet :=
  let totalStake := satAdd sv.selfStake sv.totalDelegated
  match vs.get? sv.id with
  | some _ => vs.update sv.id fun v =>
      { v with
        stake := totalStake
        status := if sv.isActive then v.status else .jailed }
  | none =>
      if sv.isActive ∧ 0#128 < totalStake then vs.add { id := sv.id, stake := totalStake } else vs

/-- The set a node starts with: the one of the genesis file, corrected from
the staking contract. -/
def reconcile (vs : ValidatorSet) (staking : StakingContract) : ValidatorSet :=
  let vs := staking.validators.foldl reconcileOne vs
  let onChainIds := staking.validators.map (·.id)
  ⟨vs.validators.filter fun v => v.id ∈ onChainIds⟩

end ValidatorSet

/-! ## Slashing evidence -/

inductive SlashingReason where
  | doubleSign (height : Nat) (blockA blockB : Hash)
  | downtime (missedBlocks : Nat)
  | invalidStateRoot (height : Nat) (expected got : Hash)
deriving DecidableEq

/-- Out of 10 000. -/
def SlashingReason.penaltyBps : SlashingReason → U64
  | doubleSign .. => 1000#64
  | downtime .. => 100#64
  | invalidStateRoot .. => 500#64

structure SlashingEvidence where
  offender : ValidatorId
  reason : SlashingReason
deriving DecidableEq

def downtimeThreshold : Nat := 100

/-- Counts a missed slot; the evidence is there once the threshold is reached. -/
def recordMissedBlock (vs : ValidatorSet) (proposer : ValidatorId) :
    Option SlashingEvidence × ValidatorSet :=
  let vs' := vs.update proposer fun v => { v with missedBlocks := v.missedBlocks + 1 }
  match vs'.get? proposer with
  | some v =>
      (if downtimeThreshold ≤ v.missedBlocks then some ⟨proposer, .downtime v.missedBlocks⟩
        else none, vs')
  | none => (none, vs')

end Solen
