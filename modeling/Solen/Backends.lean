import Solen.Overlay

/-!
# The two backends and their cached state roots

The memory store keeps the hash of every leaf beside the data and a
root it computed earlier; the RocksDB store keeps only the root.
RocksDB itself is a sorted map that does not fail. What makes a cached
root right is part of each store's type, so every operation has to show
that it keeps it: where a root stays cached, nothing that enters it has
changed.

Both stores then follow a plain map (`RootOp.on`), and what they answer
as state root is `Store.stateRoot` of that map.
-/

namespace Solen

open Machine

variable {blake3 : Bytes → Hash}

/-! ## Hashed leaves -/

def hashLeaves (blake3 : Bytes → Hash) (data : Store) : Delta.Table Bytes Hash :=
  data.map fun k v => hashLeaf blake3 (k, v)

theorem getElem?_hashLeaves (data : Store) (k : Bytes) :
    (hashLeaves blake3 data)[k]? = data[k]?.map fun v => hashLeaf blake3 (k, v) :=
  Std.ExtTreeMap.getElem?_map

theorem hashLeaves_insert (data : Store) (k v : Bytes) :
    hashLeaves blake3 (data.insert k v) =
      (hashLeaves blake3 data).insert k (hashLeaf blake3 (k, v)) := by
  refine Std.ExtTreeMap.ext_getElem? fun k' => ?_
  rw [getElem?_hashLeaves, Delta.getElem?_insert, Delta.getElem?_insert, getElem?_hashLeaves]
  split
  · next hk => rw [hk, Option.map_some]
  · rfl

theorem hashLeaves_erase (data : Store) (k : Bytes) :
    hashLeaves blake3 (data.erase k) = (hashLeaves blake3 data).erase k := by
  refine Std.ExtTreeMap.ext_getElem? fun k' => ?_
  rw [getElem?_hashLeaves, Delta.getElem?_erase, Delta.getElem?_erase, getElem?_hashLeaves]
  split <;> rfl

/-- The root over hashed leaves, without the keys that are not state. -/
def leafRoot (blake3 : Bytes → Hash) (leafHashes : Delta.Table Bytes Hash) : Hash :=
  if leafHashes.isEmpty then Hash.zero
  else
    let leaves := (leafHashes.toList.filter fun e => !isNonStateKey e.1).map Prod.snd
    if leaves.isEmpty then Hash.zero else merkleRoot blake3 leaves

theorem leafRoot_hashLeaves (data : Store) :
    leafRoot blake3 (hashLeaves blake3 data) = data.stateRoot blake3 := by
  have hleaves : ((hashLeaves blake3 data).toList.filter fun e => !isNonStateKey e.1).map Prod.snd =
      (data.filter fun k _ => !isNonStateKey k).toList.map (hashLeaf blake3) := by
    rw [hashLeaves, Std.ExtTreeMap.toList_map, Std.ExtTreeMap.toList_filter, List.filter_map,
      List.map_map]
    rfl
  rw [Store.stateRoot, ← hleaves]
  simp only [leafRoot]
  split
  · next hempty =>
      have hnil : (hashLeaves blake3 data).toList = [] := by
        rw [← List.isEmpty_iff, Std.ExtTreeMap.isEmpty_toList, hempty]
      rw [hnil]
      rfl
  · split
    · next hnone =>
        rw [List.isEmpty_iff.mp hnone]
        rfl
    · rfl

/-! ## The memory store -/

structure MemoryStore (blake3 : Bytes → Hash) where
  data : Store
  leafHashes : Delta.Table Bytes Hash
  treeCache : Option Hash
  leafHashes_eq : leafHashes = hashLeaves blake3 data
  cached : ∀ root, treeCache = some root → root = leafRoot blake3 leafHashes

namespace MemoryStore

def new (blake3 : Bytes → Hash) : MemoryStore blake3 where
  data := ∅
  leafHashes := ∅
  treeCache := none
  leafHashes_eq := by simp [hashLeaves]
  cached := by simp

def get (m : MemoryStore blake3) (k : Bytes) : Option Bytes := m.data[k]?

def put (m : MemoryStore blake3) (k v : Bytes) : MemoryStore blake3 :=
  let leafHash := hashLeaf blake3 (k, v)
  let isNewKey := m.leafHashes[k]?.isNone
  let valueChanged := (m.leafHashes[k]?.map fun h => decide (h ≠ leafHash)).getD true
  { data := m.data.insert k v
    leafHashes := m.leafHashes.insert k leafHash
    treeCache := if isNewKey then none else if valueChanged then none else m.treeCache
    leafHashes_eq := by rw [hashLeaves_insert, m.leafHashes_eq]
    cached := by
      intro root hroot
      -- The root stays only where the leaf hash that is written was there before.
      cases hk : m.leafHashes[k]? with
      | none => simp [isNewKey, hk] at hroot
      | some h =>
          by_cases hsame : h = leafHash
          · rw [Delta.insert_of_getElem? (hsame ▸ hk)]
            exact m.cached root (by simpa [isNewKey, valueChanged, hk, hsame] using hroot)
          · simp [valueChanged, hk, hsame] at hroot }

/-- Remove a key with its leaf; the root has to be computed again. -/
def removeKey (m : MemoryStore blake3) (k : Bytes) : MemoryStore blake3 where
  data := m.data.erase k
  leafHashes := m.leafHashes.erase k
  treeCache := none
  leafHashes_eq := by rw [hashLeaves_erase, m.leafHashes_eq]
  cached := by simp

def delete (m : MemoryStore blake3) (k : Bytes) : MemoryStore blake3 :=
  if m.data[k]?.isSome then m.removeKey k else m

def stateRoot (m : MemoryStore blake3) : Hash :=
  match m.treeCache with
  | some root => root
  | none => leafRoot blake3 m.leafHashes

def commitRoot (m : MemoryStore blake3) : MemoryStore blake3 :=
  if m.treeCache.isSome then m
  else
    { m with
      treeCache := some (leafRoot blake3 m.leafHashes)
      cached := by simp }

def scanPrefix (m : MemoryStore blake3) (p : Bytes) : List (Bytes × Bytes) := m.data.scanPrefix p

def scanAll (m : MemoryStore blake3) : List (Bytes × Bytes) := m.data.toList

def deletePrefix (m : MemoryStore blake3) (p : Bytes) : MemoryStore blake3 :=
  ((m.scanPrefix p).map Prod.fst).foldl removeKey m

theorem stateRoot_eq (m : MemoryStore blake3) : m.stateRoot = m.data.stateRoot blake3 := by
  rw [← leafRoot_hashLeaves, ← m.leafHashes_eq, stateRoot]
  split
  · next root hroot => exact m.cached root hroot
  · rfl

theorem data_delete (m : MemoryStore blake3) (k : Bytes) :
    (m.delete k).data = m.data.erase k := by
  rw [delete]
  split
  · rfl
  · next hnone =>
      rw [Option.not_isSome_iff_eq_none] at hnone
      refine Std.ExtTreeMap.ext_getElem? fun k' => ?_
      rw [Delta.getElem?_erase]
      split
      · next hk => rw [← hk, hnone]
      · rfl

theorem data_foldl_removeKey (ks : List Bytes) (m : MemoryStore blake3) :
    (ks.foldl removeKey m).data = ks.foldl (fun s k => s.erase k) m.data := by
  induction ks generalizing m with
  | nil => rfl
  | cons k ks ih => exact ih (m.removeKey k)

@[simp] theorem data_commitRoot (m : MemoryStore blake3) : m.commitRoot.data = m.data := by
  rw [commitRoot]
  split <;> rfl

instance : SortedStore (MemoryStore blake3) where
  get := get
  put := put
  delete := delete
  scanPrefix := scanPrefix
  entries m := m.data
  get_eq _ _ := rfl
  entries_put _ _ _ := rfl
  entries_delete := data_delete
  scanAll := scanAll
  scanPrefix_sorted m := SortedStore.scanPrefix_sorted m.data
  mem_scanPrefix m := SortedStore.mem_scanPrefix m.data
  scanAll_sorted m := SortedStore.scanAll_sorted m.data
  mem_scanAll m := SortedStore.mem_scanAll m.data

end MemoryStore

/-! ## The RocksDB store -/

/-- `db` is the database as a sorted map; a missing key can be deleted. -/
structure RocksStore (blake3 : Bytes → Hash) where
  db : Store
  cachedRoot : Option Hash
  cached : ∀ root, cachedRoot = some root → root = db.stateRoot blake3

namespace RocksStore

def openAt (blake3 : Bytes → Hash) (db : Store) : RocksStore blake3 := ⟨db, none, by simp⟩

/-- The database iterated from the start, state keys only. -/
def computeStateRoot (r : RocksStore blake3) : Hash :=
  merkleRoot blake3 ((r.db.toList.filter fun e => !isNonStateKey e.1).map (hashLeaf blake3))

theorem computeStateRoot_eq (r : RocksStore blake3) :
    r.computeStateRoot = r.db.stateRoot blake3 := by
  rw [computeStateRoot, Store.stateRoot, Std.ExtTreeMap.toList_filter]

def get (r : RocksStore blake3) (k : Bytes) : Option Bytes := r.db[k]?

def put (r : RocksStore blake3) (k v : Bytes) : RocksStore blake3 :=
  ⟨r.db.insert k v, none, by simp⟩

def delete (r : RocksStore blake3) (k : Bytes) : RocksStore blake3 := ⟨r.db.erase k, none, by simp⟩

/-- The answer, and the store that remembers it. -/
def stateRoot (r : RocksStore blake3) : Hash × RocksStore blake3 :=
  match r.cachedRoot with
  | some root => (root, r)
  | none => (r.computeStateRoot, ⟨r.db, some r.computeStateRoot, by
      simp [computeStateRoot_eq]⟩)

def commitRoot (r : RocksStore blake3) : RocksStore blake3 :=
  if r.cachedRoot.isNone then ⟨r.db, some r.computeStateRoot, by simp [computeStateRoot_eq]⟩ else r

/-- One write batch, filled in the order the change set is iterated. -/
def applyBatchAtomic (r : RocksStore blake3) (changes : List (Bytes × Option Bytes)) :
    RocksStore blake3 :=
  if changes.isEmpty then r else ⟨Delta.applyList r.db changes, none, by simp⟩

def scanPrefix (r : RocksStore blake3) (p : Bytes) : List (Bytes × Bytes) := r.db.scanPrefix p

def scanAll (r : RocksStore blake3) : List (Bytes × Bytes) := r.db.toList

def deletePrefix (r : RocksStore blake3) (p : Bytes) : RocksStore blake3 :=
  let keysToDelete := (r.scanPrefix p).map Prod.fst
  if keysToDelete.isEmpty then r
  else ⟨keysToDelete.foldl (fun s k => s.erase k) r.db, none, by simp⟩

theorem stateRoot_eq (r : RocksStore blake3) : r.stateRoot.1 = r.db.stateRoot blake3 := by
  rw [stateRoot]
  split
  · next root hroot => exact r.cached root hroot
  · exact r.computeStateRoot_eq

@[simp] theorem db_stateRoot (r : RocksStore blake3) : r.stateRoot.2.db = r.db := by
  rw [stateRoot]
  split <;> rfl

@[simp] theorem db_commitRoot (r : RocksStore blake3) : r.commitRoot.db = r.db := by
  rw [commitRoot]
  split <;> rfl

theorem db_applyBatchAtomic (r : RocksStore blake3) (changes : List (Bytes × Option Bytes)) :
    (r.applyBatchAtomic changes).db = Delta.applyList r.db changes := by
  rw [applyBatchAtomic]
  split
  · next hnone =>
      rw [List.isEmpty_iff.mp hnone]
      rfl
  · rfl

theorem db_deletePrefix (r : RocksStore blake3) (p : Bytes) :
    (r.deletePrefix p).db =
      ((r.db.scanPrefix p).map Prod.fst).foldl (fun s k => s.erase k) r.db := by
  rw [deletePrefix]
  split
  · next hnone =>
      have hnil : (r.db.scanPrefix p).map Prod.fst = [] := List.isEmpty_iff.mp hnone
      rw [hnil]
      rfl
  · rfl

instance : SortedStore (RocksStore blake3) where
  get := get
  put := put
  delete := delete
  scanPrefix := scanPrefix
  entries r := r.db
  get_eq _ _ := rfl
  entries_put _ _ _ := rfl
  entries_delete _ _ := rfl
  scanAll := scanAll
  scanPrefix_sorted r := SortedStore.scanPrefix_sorted r.db
  mem_scanPrefix r := SortedStore.mem_scanPrefix r.db
  scanAll_sorted r := SortedStore.scanAll_sorted r.db
  mem_scanAll r := SortedStore.mem_scanAll r.db

end RocksStore

/-! ## Runs of both stores -/

/-- A change set in an order its hash map may be iterated in. -/
structure Iteration (changes : Changes) where
  list : List (Bytes × Option Bytes)
  perm : list.Perm changes.toList

/-- A batch names the order each of the two stores sees it in. -/
inductive RootOp where
  | put (k v : Bytes)
  | delete (k : Bytes)
  | batch (changes : Changes) (inMemory inRocks : Iteration changes)
  | deletePrefix (p : Bytes)
  | stateRoot
  | commitRoot

/-- What an operation does to the entries. -/
def RootOp.on (s : Store) : RootOp → Store
  | .put k v => s.insert k v
  | .delete k => s.erase k
  | .batch changes _ _ => s.applyBatchAtomic changes
  | .deletePrefix p => ((s.scanPrefix p).map Prod.fst).foldl (fun s k => s.erase k) s
  | .stateRoot => s
  | .commitRoot => s

namespace MemoryStore

def step (m : MemoryStore blake3) : RootOp → MemoryStore blake3
  | .put k v => m.put k v
  | .delete k => m.delete k
  | .batch _ inMemory _ => SortedStore.applyBatchAtomic m inMemory.list
  | .deletePrefix p => m.deletePrefix p
  | .stateRoot => m
  | .commitRoot => m.commitRoot

def run (m : MemoryStore blake3) (ops : List RootOp) : MemoryStore blake3 := ops.foldl step m

theorem data_step (m : MemoryStore blake3) (op : RootOp) : (m.step op).data = op.on m.data := by
  cases op with
  | put k v => rfl
  | delete k => exact m.data_delete k
  | batch changes inMemory inRocks =>
    have happly := SortedStore.entries_applyBatchAtomic inMemory.list m
    rw [Delta.applyList_of_perm _ inMemory.perm] at happly
    exact happly
  | deletePrefix p => exact data_foldl_removeKey _ m
  | stateRoot => rfl
  | commitRoot => exact m.data_commitRoot

theorem data_run (m : MemoryStore blake3) (ops : List RootOp) :
    (m.run ops).data = ops.foldl RootOp.on m.data := by
  induction ops generalizing m with
  | nil => rfl
  | cons op ops ih => exact (ih (m.step op)).trans (by rw [data_step, List.foldl_cons])

end MemoryStore

namespace RocksStore

def step (r : RocksStore blake3) : RootOp → RocksStore blake3
  | .put k v => r.put k v
  | .delete k => r.delete k
  | .batch _ _ inRocks => r.applyBatchAtomic inRocks.list
  | .deletePrefix p => r.deletePrefix p
  | .stateRoot => r.stateRoot.2
  | .commitRoot => r.commitRoot

def run (r : RocksStore blake3) (ops : List RootOp) : RocksStore blake3 := ops.foldl step r

theorem db_step (r : RocksStore blake3) (op : RootOp) : (r.step op).db = op.on r.db := by
  cases op with
  | put k v => rfl
  | delete k => rfl
  | batch changes inMemory inRocks =>
    have happly := r.db_applyBatchAtomic inRocks.list
    rw [Delta.applyList_of_perm _ inRocks.perm] at happly
    exact happly
  | deletePrefix p => exact r.db_deletePrefix p
  | stateRoot => exact r.db_stateRoot
  | commitRoot => exact r.db_commitRoot

theorem db_run (r : RocksStore blake3) (ops : List RootOp) :
    (r.run ops).db = ops.foldl RootOp.on r.db := by
  induction ops generalizing r with
  | nil => rfl
  | cons op ops ih => exact (ih (r.step op)).trans (by rw [db_step, List.foldl_cons])

end RocksStore

/-- After the same operations on the same entries both backends answer the
root of their entries from their caches, it is the same one, and any run
that leaves the same state entries has it too. -/
theorem state_roots_agree (memory : MemoryStore blake3) (rocks : RocksStore blake3)
    (hsame : memory.data = rocks.db) (ops : List RootOp) :
    (memory.run ops).stateRoot = (memory.run ops).data.stateRoot blake3 ∧
      (rocks.run ops).stateRoot.1 = (rocks.run ops).db.stateRoot blake3 ∧
      (memory.run ops).stateRoot = (rocks.run ops).stateRoot.1 ∧
      ∀ (memory' : MemoryStore blake3) (ops' : List RootOp),
        (∀ k : Bytes, isNonStateKey k = false →
          (memory.run ops).data[k]? = (memory'.run ops').data[k]?) →
        (memory.run ops).stateRoot = (memory'.run ops').stateRoot := by
  have hentries : (memory.run ops).data = (rocks.run ops).db := by
    rw [MemoryStore.data_run, RocksStore.db_run, hsame]
  refine ⟨MemoryStore.stateRoot_eq _, RocksStore.stateRoot_eq _, ?_, fun memory' ops' hagree => ?_⟩
  · rw [MemoryStore.stateRoot_eq, RocksStore.stateRoot_eq, hentries]
  · rw [MemoryStore.stateRoot_eq, MemoryStore.stateRoot_eq]
    exact Store.stateRoot_congr blake3 hagree

/-- Writes, a batch that the two stores see in different orders, and a deleted
prefix, with a root asked for in between. -/
def rootedRun : List RootOp :=
  let changes : Changes := ((∅ : Changes).insert (ascii "acc/2") (some [8])).insert
    (ascii "acc/3") none
  [.put (ascii "acc/1") [1], .put (ascii "acc/3") [3], .commitRoot, .put (ascii "old/1") [4],
    .batch changes ⟨changes.toList, .refl _⟩ ⟨changes.toList.reverse, List.reverse_perm _⟩,
    .stateRoot, .deletePrefix (ascii "old/"), .put (ascii "block/1") [9]]

/-- Two state entries and a block record are left. -/
theorem state_roots_agree_rootedRun :
    ((MemoryStore.new checksum).run rootedRun).data.toList =
        [(ascii "acc/1", [1]), (ascii "acc/2", [8]), (ascii "block/1", [9])] ∧
      ((MemoryStore.new checksum).run rootedRun).stateRoot ≠ Hash.zero ∧
      ((MemoryStore.new checksum).run rootedRun).stateRoot =
        ((RocksStore.openAt checksum ∅).run rootedRun).stateRoot.1 :=
  ⟨by decide +kernel, by decide +kernel,
    (state_roots_agree (MemoryStore.new checksum) (RocksStore.openAt checksum ∅) rfl
      rootedRun).2.2.1⟩

end Solen
