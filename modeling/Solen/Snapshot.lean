import Solen.SystemCall
import Solen.Text

/-!
# State snapshots

A node saves its whole state as a file that others restore from: a
header with the height, the epoch and the state root, then the deflated
stream of all entries, counted and each with its lengths. Restoring puts
entry after entry and stops at the first one that is cut short; the
count and the state root are checked afterwards.

`snapshot_round_trip` is the contract of the two: what was saved comes
back, and a stream that lost its end is refused.
-/

namespace Solen

open Machine

/-! ## The format -/

/-- The compression library: `inflate` gives the bytes that were read and the
error that ended the reading, if one did. -/
structure Deflate where
  deflate : Bytes → Bytes
  inflate : Bytes → Bytes × Option String
  inflate_deflate : ∀ raw, inflate (deflate raw) = (raw, none)

namespace Snapshot

def magic : Bytes := ascii "SNAP"

def version : Nat := 1

def headerSize : Nat := 56

def maxSnapshotSize : Nat := 2 * 1024 * 1024 * 1024

inductive SnapshotError where
  | invalid (msg : String)
  | stateRootMismatch (expected actual : String)
  | io (msg : String)
  deriving DecidableEq

structure SnapshotMeta where
  height : U64
  epoch : U64
  stateRoot : Hash
  entryCount : Nat
  compressedSize : Nat
  uncompressedSize : Nat
  deriving DecidableEq

/-! ## Saving -/

def header (stateRoot : Hash) (height epoch : U64) : Bytes :=
  magic ++ (toLeBytes 4 version ++ (le64 height ++ (le64 epoch ++ stateRoot.bytes)))

/-- Lengths are cut to 32 bits. -/
def entryBytes (e : Bytes × Bytes) : Bytes :=
  toLeBytes 4 e.1.length ++ (e.1 ++ (toLeBytes 4 e.2.length ++ e.2))

def entryStream (s : Store) : Bytes :=
  toLeBytes 8 s.toList.length ++ s.toList.flatMap entryBytes

def createSnapshot (blake3 : Bytes → Hash) (D : Deflate) (s : Store) (height epoch : U64) :
    Bytes :=
  header (s.stateRoot blake3) height epoch ++ D.deflate (entryStream s)

/-! ## Restoring -/

def readSnapshotMeta (data : Bytes) : Except SnapshotError SnapshotMeta :=
  if data.length < headerSize then .error (.invalid "too short")
  else if data.take 4 ≠ magic then .error (.invalid "bad magic")
  else
    let v := fromLeBytes ((data.drop 4).take 4)
    if v ≠ version then .error (.invalid s!"unsupported version: {v}")
    else .ok {
      height := (readU64 data 8).getD 0#64
      epoch := (readU64 data 16).getD 0#64
      stateRoot := (Hash.ofSlice? (data.drop 24)).getD Hash.zero
      entryCount := 0
      compressedSize := data.length - headerSize
      uncompressedSize := 0 }

/-- The entry at the front of the stream and what is behind it, unless it is
cut short. The value's length is looked for together with the key. -/
def readEntry (raw : Bytes) : Option ((Bytes × Bytes) × Bytes) :=
  if raw.length < 4 then none
  else
    let keyLen := fromLeBytes (raw.take 4)
    let raw := raw.drop 4
    if raw.length < keyLen + 4 then none
    else
      let key := raw.take keyLen
      let raw := raw.drop keyLen
      let valLen := fromLeBytes (raw.take 4)
      let raw := raw.drop 4
      if raw.length < valLen then none
      else some ((key, raw.take valLen), raw.drop valLen)

/-- The loop over the stream, with `n` entries to go: the number of entries that
were put, and the store. -/
def loadEntries : Nat → Bytes → Nat → Store → Nat × Store
  | 0, _, loaded, s => (loaded, s)
  | n + 1, raw, loaded, s =>
      match readEntry raw with
      | none => (loaded, s)
      | some (e, raw') => loadEntries n raw' (loaded + 1) (s.insert e.1 e.2)

def restoreEntries (blake3 : Bytes → Hash) (info : SnapshotMeta) (raw : Bytes) (s : Store) :
    Except SnapshotError SnapshotMeta × Store :=
  if raw.length < 8 then (.error (.invalid "no entry count"), s)
  else
    let count := fromLeBytes (raw.take 8)
    let r := loadEntries count (raw.drop 8) 0 s
    if r.1 < count then
      (.error (.invalid s!"truncated snapshot: expected {count} entries, loaded {r.1}"), r.2)
    else if r.2.stateRoot blake3 ≠ info.stateRoot then
      (.error (.stateRootMismatch (hexEncode info.stateRoot.bytes)
        (hexEncode (r.2.stateRoot blake3).bytes)), r.2)
    else
      (.ok { info with entryCount := r.1, uncompressedSize := raw.length }, r.2)

def restoreSnapshot (blake3 : Bytes → Hash) (D : Deflate) (s : Store) (data : Bytes) :
    Except SnapshotError SnapshotMeta × Store :=
  match readSnapshotMeta data with
  | .error e => (.error e, s)
  | .ok info =>
      let r := D.inflate (data.drop headerSize)
      if maxSnapshotSize < r.1.length then
        (.error (.invalid
          s!"decompressed size exceeds {maxSnapshotSize / (1024 * 1024)}MB limit"), s)
      else
        match r.2 with
        | some e => (.error (.io e), s)
        | none => restoreEntries blake3 info r.1 s

/-! ## The header -/

theorem length_header (stateRoot : Hash) (height epoch : U64) :
    (header stateRoot height epoch).length = headerSize := by
  have hroot := stateRoot.length_bytes
  have hmagic : magic.length = 4 := by decide
  simp only [header, List.length_append, hmagic, le64, length_toLeBytes, hroot]
  rfl

theorem readSnapshotMeta_header (stateRoot : Hash) (height epoch : U64) (body : Bytes) :
    readSnapshotMeta (header stateRoot height epoch ++ body) =
      .ok ⟨height, epoch, stateRoot, 0, body.length, 0⟩ := by
  have hlen := length_header stateRoot height epoch
  have hmagic : magic.length = 4 := by decide
  have hversion : (toLeBytes 4 version).length = 4 := length_toLeBytes _ _
  have hheight : (le64 height).length = 8 := length_toLeBytes _ _
  have hepoch : (le64 epoch).length = 8 := length_toLeBytes _ _
  have hdata : header stateRoot height epoch ++ body = magic ++ (toLeBytes 4 version ++
      (le64 height ++ (le64 epoch ++ (stateRoot.bytes ++ body)))) := by
    simp only [header, List.append_assoc]
  have hlong : ¬ (header stateRoot height epoch ++ body).length < headerSize := by
    rw [List.length_append]
    omega
  have hrest : (header stateRoot height epoch ++ body).length - headerSize = body.length := by
    rw [List.length_append]
    omega
  rw [readSnapshotMeta, if_neg hlong, hrest, hdata, List.take_left' hmagic, if_neg (not_not.mpr rfl),
    List.drop_left' hmagic, List.take_left' hversion, fromLeBytes_toLeBytes (by decide)]
  dsimp only
  rw [if_neg (not_not.mpr rfl)]
  have hstart : (magic ++ toLeBytes 4 version).length = 8 := by
    rw [List.length_append, hmagic, hversion]
  have hmiddle : (magic ++ toLeBytes 4 version ++ le64 height).length = 16 := by
    rw [List.length_append, hstart, hheight]
  have hroot : (magic ++ toLeBytes 4 version ++ le64 height ++ le64 epoch).length = 24 := by
    rw [List.length_append, hmiddle, hepoch]
  simp only [← List.append_assoc]
  rw [List.append_assoc (_ ++ le64 epoch), List.drop_left' hroot, Hash.ofSlice?_append,
    List.append_assoc (_ ++ le64 height), readU64_append_left (p := _ ++ le64 height) hmiddle.le,
    hmiddle, readU64_le64_append, List.append_assoc, readU64_append_left hstart.le, hstart,
    readU64_le64_append]
  rfl

/-! ## The entries -/

theorem readEntry_entryBytes {e : Bytes × Bytes} (hkey : e.1.length < 2 ^ 32)
    (hval : e.2.length < 2 ^ 32) (rest : Bytes) :
    readEntry (entryBytes e ++ rest) = some (e, rest) := by
  have hkeyLen : (toLeBytes 4 e.1.length).length = 4 := length_toLeBytes _ _
  have hvalLen : (toLeBytes 4 e.2.length).length = 4 := length_toLeBytes _ _
  simp only [readEntry, entryBytes, List.append_assoc]
  rw [if_neg (by simp [hkeyLen]), List.take_left' hkeyLen, List.drop_left' hkeyLen,
    fromLeBytes_toLeBytes (by omega), if_neg (by simp [hvalLen]), List.take_left' rfl,
    List.drop_left' rfl, List.take_left' hvalLen, List.drop_left' hvalLen,
    fromLeBytes_toLeBytes (by omega), if_neg (by simp), List.take_left' rfl, List.drop_left' rfl]

/-- More bytes behind an entry that could be read do not change it. -/
theorem readEntry_append {raw rest : Bytes} {e : Bytes × Bytes}
    (h : readEntry raw = some (e, rest)) (more : Bytes) :
    readEntry (raw ++ more) = some (e, rest ++ more) := by
  unfold readEntry at h ⊢
  split at h
  · cases h
  next hlen =>
  dsimp only at h ⊢
  split at h
  · cases h
  next hkey =>
  split at h
  · cases h
  next hval =>
  cases h
  rw [if_neg (by rw [List.length_append]; omega), List.take_append_of_le_length (by omega),
    List.drop_append_of_le_length (by omega)]
  generalize fromLeBytes (raw.take 4) = keyLen at hkey hval ⊢
  generalize raw.drop 4 = raw₁ at hkey hval ⊢
  have hlen₂ : 4 ≤ (raw₁.drop keyLen).length := by
    rw [List.length_drop]
    omega
  rw [if_neg (by rw [List.length_append]; omega), List.take_append_of_le_length (by omega),
    List.drop_append_of_le_length (by omega), List.take_append_of_le_length hlen₂,
    List.drop_append_of_le_length hlen₂]
  generalize fromLeBytes ((raw₁.drop keyLen).take 4) = valLen at hval ⊢
  generalize (raw₁.drop keyLen).drop 4 = raw₂ at hval ⊢
  rw [if_neg (by rw [List.length_append]; omega), List.take_append_of_le_length (by omega),
    List.drop_append_of_le_length (by omega)]

theorem loadEntries_flatMap {l : List (Bytes × Bytes)}
    (h : ∀ e ∈ l, e.1.length < 2 ^ 32 ∧ e.2.length < 2 ^ 32) (loaded : Nat) (s : Store) :
    loadEntries l.length (l.flatMap entryBytes) loaded s =
      (loaded + l.length, l.foldl (fun s e => s.insert e.1 e.2) s) := by
  induction l generalizing loaded s with
  | nil => rfl
  | cons e l ih =>
    obtain ⟨hkey, hval⟩ := h e List.mem_cons_self
    rw [List.flatMap_cons, List.length_cons, loadEntries, readEntry_entryBytes hkey hval]
    dsimp only
    rw [ih fun e he => h e (List.mem_cons_of_mem _ he), Nat.add_right_comm, Nat.add_assoc]
    rfl

/-- A stream that was cut is left before its last entry. -/
theorem loadEntries_cut {l : List (Bytes × Bytes)}
    (h : ∀ e ∈ l, e.1.length < 2 ^ 32 ∧ e.2.length < 2 ^ 32) {raw lost : Bytes}
    (hcut : raw ++ lost = l.flatMap entryBytes) (hlost : lost ≠ []) (loaded : Nat) (s : Store) :
    (loadEntries l.length raw loaded s).1 < loaded + l.length := by
  induction l generalizing raw loaded s with
  | nil => exact absurd (List.append_eq_nil_iff.mp hcut).2 hlost
  | cons e l ih =>
    rw [List.length_cons, loadEntries]
    cases hread : readEntry raw with
    | none =>
      dsimp only
      omega
    | some r =>
      obtain ⟨hkey, hval⟩ := h e List.mem_cons_self
      have hmore := readEntry_append hread lost
      rw [hcut, List.flatMap_cons, readEntry_entryBytes hkey hval] at hmore
      have hnext := ih (fun e he => h e (List.mem_cons_of_mem _ he))
        (congrArg Prod.snd (Option.some.inj hmore)).symm (loaded + 1)
        (s.insert r.1.1 r.1.2)
      dsimp only
      omega

/-! ## The round trip -/

theorem restoreSnapshot_created {blake3 : Bytes → Hash} {D : Deflate} {stateRoot : Hash}
    {height epoch : U64} {raw : Bytes} (hsize : raw.length ≤ maxSnapshotSize) (s : Store) :
    restoreSnapshot blake3 D s (header stateRoot height epoch ++ D.deflate raw) =
      restoreEntries blake3 ⟨height, epoch, stateRoot, 0, (D.deflate raw).length, 0⟩ raw s := by
  simp only [restoreSnapshot, readSnapshotMeta_header, List.drop_left' (length_header _ _ _),
    D.inflate_deflate, if_neg (Nat.not_lt.mpr hsize)]

section

variable {s : Store} (hsize : (entryStream s).length ≤ maxSnapshotSize)

include hsize

theorem count_entryStream : fromLeBytes (toLeBytes 8 s.toList.length) = s.toList.length := by
  refine fromLeBytes_toLeBytes ?_
  have hle : s.toList.length ≤ (s.toList.flatMap entryBytes).length := by
    rw [List.length_flatMap]
    refine le_trans (by simp) (List.length_le_sum_of_one_le _ fun n hn => ?_)
    obtain ⟨e, -, rfl⟩ := List.mem_map.mp hn
    simp only [entryBytes, List.length_append, length_toLeBytes]
    omega
  rw [entryStream, List.length_append, maxSnapshotSize] at hsize
  omega

end

/-- What was saved comes back into an empty store, and a stream that lost its
end is refused by every store, whatever the header says. -/
theorem snapshot_round_trip (blake3 : Bytes → Hash) (D : Deflate) (s : Store)
    (height epoch : U64)
    (hshort : ∀ e ∈ s.toList, e.1.length < 2 ^ 32 ∧ e.2.length < 2 ^ 32)
    (hsize : (entryStream s).length ≤ maxSnapshotSize) :
    restoreSnapshot blake3 D ∅ (createSnapshot blake3 D s height epoch) =
      (.ok {
        height := height
        epoch := epoch
        stateRoot := s.stateRoot blake3
        entryCount := s.toList.length
        compressedSize := (D.deflate (entryStream s)).length
        uncompressedSize := (entryStream s).length }, s) ∧
    ∀ raw, raw <+: entryStream s → raw ≠ entryStream s →
      ∀ (stateRoot : Hash) (height epoch : U64) (s₀ : Store),
        ∃ e, (restoreSnapshot blake3 D s₀
          (header stateRoot height epoch ++ D.deflate raw)).1 = .error e := by
  have hcount := count_entryStream hsize
  have hfirst : (toLeBytes 8 s.toList.length).length = 8 := length_toLeBytes _ _
  refine ⟨?_, fun raw hpre hne stateRoot height epoch s₀ => ?_⟩
  · have hload := loadEntries_flatMap hshort 0 ∅
    rw [Delta.foldl_insert_toList, Nat.zero_add] at hload
    rw [createSnapshot, restoreSnapshot_created hsize]
    simp only [restoreEntries, entryStream, List.take_left' hfirst, List.drop_left' hfirst, hcount,
      hload]
    rw [if_neg (by simp), if_neg (Nat.lt_irrefl _), if_neg (not_not.mpr rfl)]
  · rw [restoreSnapshot_created (hpre.length_le.trans hsize), restoreEntries]
    split
    · exact ⟨_, rfl⟩
    next hlong =>
    obtain ⟨lost, hlost⟩ := hpre
    have htake := congrArg (List.take 8) hlost
    have hdrop := congrArg (List.drop 8) hlost
    rw [entryStream, List.take_left' hfirst, List.take_append_of_le_length (by omega)] at htake
    rw [entryStream, List.drop_left' hfirst, List.drop_append_of_le_length (by omega)] at hdrop
    have hless := loadEntries_cut hshort hdrop (fun h => hne (by rw [← hlost, h, List.append_nil]))
      0 s₀
    rw [Nat.zero_add] at hless
    simp only [htake, hcount, if_pos hless]
    exact ⟨_, rfl⟩

/-- No compression, behind a byte that says so. -/
def storedBlocks : Deflate where
  deflate raw := 1 :: raw
  inflate
    | [] => ([], some "unexpected end")
    | b :: raw => if b = 1 then (raw, none) else ([], some "unknown block type")
  inflate_deflate _ := rfl

/-- Entries of several lengths, one of them empty. -/
def threeEntries : Store :=
  (((∅ : Store).insert (ascii "acc/1") [1, 2, 3]).insert (ascii "block/7") []).insert [0] [255]

theorem snapshot_round_trip_threeEntries :
    (restoreSnapshot checksum storedBlocks ∅
      (createSnapshot checksum storedBlocks threeEntries 5#64 2#64)).2 = threeEntries ∧
    threeEntries.toList.length = 3 ∧
    ∃ e, (restoreSnapshot checksum storedBlocks threeEntries
      (header (threeEntries.stateRoot checksum) 5#64 2#64 ++
        storedBlocks.deflate (entryStream threeEntries).dropLast)).1 = .error e := by
  have hall : (threeEntries.toList.all fun e =>
      decide (e.1.length < 2 ^ 32 ∧ e.2.length < 2 ^ 32)) = true := by decide +kernel
  obtain ⟨hback, hcut⟩ := snapshot_round_trip checksum storedBlocks threeEntries 5#64 2#64
    (fun e he => of_decide_eq_true (List.all_eq_true.mp hall e he)) (by decide +kernel)
  exact ⟨by rw [hback], by decide +kernel,
    hcut _ (List.dropLast_prefix _) (by decide +kernel) _ _ _ _⟩

end Snapshot

end Solen
