import Solen.Radix
import Solen.Text

/-!
# Addresses

An account id is shown in base58 and read back from base58 or
hexadecimal, with or without `0x`. Which of the two a string is in is
told by its length and its characters: 64 hexadecimal digits are
hexadecimal, anything else is base58. The base58 form of an id has at
most 44 characters, so the two never meet.
-/

namespace Solen

open Machine

variable {bytes : Bytes} {c : Char} {cs : List Char} {ds : List Nat} {s : String}

/-! ## Base58 -/

def base58Alphabet : List Char :=
  "123456789ABCDEFGHJKLMNPQRSTUVWXYZabcdefghijkmnopqrstuvwxyz".toList

def base58Char (d : Nat) : Char := base58Alphabet.getD d '1'

def base58Encode (bytes : Bytes) : String :=
  let values := bytes.map UInt8.toNat
  let digits := values.foldl (fun ds v => Radix.mulAdd 58 256 v ds) []
  String.ofList (List.replicate (Radix.zeros values) '1' ++ digits.reverse.map base58Char)

/-- The digit a byte of a base58 string stands for. -/
def base58Value (c : UInt8) : Except String Nat :=
  match base58Alphabet.idxOf? (Char.ofNat c.toNat) with
  | some d => .ok d
  | none => .error s!"invalid base58 character: {Char.ofNat c.toNat}"

def base58Decode (s : String) : Except String Bytes := do
  let values ← (asBytes s).mapM base58Value
  let bytes := values.foldl (fun bs v => Radix.mulAdd 256 58 v bs) []
  let zeros := ((asBytes s).takeWhile (· = 49)).length
  pure (List.replicate zeros 0 ++ bytes.reverse.map UInt8.ofNat)

/-! ## Hexadecimal -/

/-- `strip_prefix("0x")`, or the string itself. -/
def strip0x : List Char → List Char
  | '0' :: 'x' :: cs => cs
  | cs => cs

/-- Pairs of digits from position `i` on. A slice that starts inside a
character, where the source panics, is no pair of digits here. -/
def hexPairsAt : Nat → Bytes → Except String Bytes
  | i, a :: b :: rest =>
      match hexByte (Char.ofNat a.toNat) (Char.ofNat b.toNat) with
      | some v => (hexPairsAt (i + 2) rest).map (v :: ·)
      | none => .error s!"invalid hex at position {i}"
  | _, _ => .ok []

def hexDecode (s : String) : Except String Bytes :=
  let bs := asBytes (String.ofList (strip0x s.toList))
  if bs.length % 2 ≠ 0 then .error "hex string must have even length" else hexPairsAt 0 bs

/-! ## Parsing -/

/-- The code points with the Unicode property White_Space. -/
def isWhitespace (c : Char) : Bool :=
  let v := c.toNat
  (9 ≤ v && v ≤ 13) || v == 0x20 || v == 0x85 || v == 0xA0 || v == 0x1680 ||
    (0x2000 ≤ v && v ≤ 0x200A) || v == 0x2028 || v == 0x2029 || v == 0x202F || v == 0x205F ||
    v == 0x3000

def trim (cs : List Char) : List Char :=
  ((cs.dropWhile isWhitespace).reverse.dropWhile isWhitespace).reverse

def isHexDigit (c : Char) : Bool := (hexValue c).isSome

def parseAddress (s : String) : Except String AccountId :=
  let trimmed := trim s.toList
  let clean := String.ofList (strip0x trimmed)
  if (asBytes clean).length = 64 ∧ clean.toList.all isHexDigit then
    (hexDecode clean).map fun bytes => (Hash.ofSlice? bytes).getD Hash.zero
  else
    match base58Decode (String.ofList trimmed) with
    | .error e => .error s!"invalid address: {e}"
    | .ok bytes =>
        if h : bytes.length = 32 then .ok ⟨bytes, h⟩
        else .error s!"address must be 32 bytes, got {bytes.length} (from Base58)"

/-! ## Characters and bytes -/

theorem toNat_ofNat_byte (b : UInt8) : (Char.ofNat b.toNat).toNat = b.toNat := by
  rw [Char.ofNat, dif_pos (Or.inl (by have := b.toNat_lt; omega))]
  rfl

theorem encodeChar_ascii (h : c.toNat < 128) :
    Utf8.encodeChar c = [UInt8.ofNat c.toNat] := by
  simp only [Utf8.encodeChar, h, if_true]

theorem asBytes_ascii (h : ∀ c ∈ cs, c.toNat < 128) :
    asBytes (String.ofList cs) = cs.map fun c => UInt8.ofNat c.toNat := by
  rw [asBytes, String.toList_ofList]
  induction cs with
  | nil => rfl
  | cons c cs ih =>
    obtain ⟨hc, hcs⟩ := List.forall_mem_cons.mp h
    rw [List.flatMap_cons, encodeChar_ascii hc, ih hcs]
    rfl

/-- The first byte of a character that is not ASCII is not either. -/
theorem encodeChar_not_ascii (h : 128 ≤ c.toNat) :
    ∃ b ∈ Utf8.encodeChar c, 128 ≤ b.toNat := by
  have hmax : c.toNat < 0x110000 := by
    have := c.valid
    simp only [UInt32.isValidChar, Nat.isValidChar] at this
    change c.val.toNat < _
    omega
  simp only [Utf8.encodeChar]
  split
  · omega
  split
  · refine ⟨_, List.mem_cons_self, ?_⟩
    rw [UInt8.toNat_ofNat']
    omega
  split
  · refine ⟨_, List.mem_cons_self, ?_⟩
    rw [UInt8.toNat_ofNat']
    omega
  · refine ⟨_, List.mem_cons_self, ?_⟩
    rw [UInt8.toNat_ofNat']
    omega

/-- A string of ASCII bytes is the string of these bytes. -/
theorem toList_of_asBytes (h : ∀ b ∈ asBytes s, b.toNat < 128) :
    s.toList = (asBytes s).map fun b => Char.ofNat b.toNat := by
  rw [asBytes] at h ⊢
  revert h
  induction s.toList with
  | nil => exact fun _ => rfl
  | cons c cs ih =>
    intro h
    rw [List.flatMap_cons] at h ⊢
    have hc : c.toNat < 128 := by
      by_contra hlarge
      obtain ⟨b, hb, hle⟩ := encodeChar_not_ascii (Nat.not_lt.mp hlarge)
      have := h b (List.mem_append_left _ hb)
      omega
    rw [encodeChar_ascii hc, List.singleton_append, List.map_cons,
      ← ih fun b hb => h b (List.mem_append_right _ hb), UInt8.toNat_ofNat',
      Nat.mod_eq_of_lt (by omega), Char.ofNat_toNat]

/-! ## Base58 digits -/

theorem length_base58Alphabet : base58Alphabet.length = 58 := by decide +kernel

theorem base58Char_lt (d : Nat) : (base58Char d).toNat < 128 := by
  by_cases hd : d < 58
  · have hall : ∀ d < 58, (base58Char d).toNat < 128 := by decide +kernel
    exact hall d hd
  · rw [base58Char, List.getD_eq_default _ _ (by rw [length_base58Alphabet]; omega)]
    decide

theorem base58Value_base58Char {d : Nat} (h : d < 58) :
    base58Value (UInt8.ofNat (base58Char d).toNat) = .ok d := by
  have hidx : ∀ d < 58, base58Alphabet.idxOf? (base58Char d) = some d := by
    decide +kernel
  have hlt := base58Char_lt d
  rw [base58Value, UInt8.toNat_ofNat', Nat.mod_eq_of_lt (by omega), Char.ofNat_toNat, hidx d h]

theorem base58Value_eq_ok {c : UInt8} {d : Nat} (h : base58Value c = .ok d) :
    d < 58 ∧ Char.ofNat c.toNat = base58Char d := by
  rw [base58Value] at h
  split at h
  · next e he =>
      cases h
      have hget := List.idxOf?_eq_some_iff.mp he
      obtain ⟨hlt, heq, -⟩ := hget
      refine ⟨hlt, ?_⟩
      rw [base58Char, List.getD_eq_getElem?_getD, List.getElem?_eq_getElem hlt]
      exact heq.symm
  · cases h

/-! ## Base58 strings -/

/-- The bytes of a string of base58 digits. -/
def digitsBytes (ds : List Nat) : Bytes := ds.map fun d => UInt8.ofNat (base58Char d).toNat

theorem mapM_digitsBytes (h : ∀ d ∈ ds, d < 58) :
    (digitsBytes ds).mapM base58Value = .ok ds := by
  induction ds with
  | nil => rfl
  | cons d ds ih =>
    obtain ⟨hd, hds⟩ := List.forall_mem_cons.mp h
    have hrest := ih hds
    rw [digitsBytes] at hrest ⊢
    rw [List.map_cons, List.mapM_cons, base58Value_base58Char hd, hrest]
    rfl

theorem mapM_base58Value_eq_ok {bs : Bytes}
    (h : bs.mapM base58Value = .ok ds) :
    (∀ d ∈ ds, d < 58) ∧ bs.map (fun b => Char.ofNat b.toNat) = ds.map base58Char := by
  induction bs generalizing ds with
  | nil =>
    cases h
    exact ⟨by simp, rfl⟩
  | cons b bs ih =>
    rw [List.mapM_cons] at h
    cases hb : base58Value b with
    | error e =>
      rw [hb] at h
      cases h
    | ok d =>
      cases hbs : bs.mapM base58Value with
      | error e =>
        rw [hb, hbs] at h
        cases h
      | ok ds' =>
        rw [hb, hbs] at h
        cases h
        obtain ⟨hlt, hchar⟩ := base58Value_eq_ok hb
        obtain ⟨hlts, hchars⟩ := ih hbs
        refine ⟨List.forall_mem_cons.mpr ⟨hlt, hlts⟩, ?_⟩
        rw [List.map_cons, List.map_cons, hchar, hchars]

/-- A leading `1` is a leading zero. -/
theorem length_takeWhile_digitsBytes (h : ∀ d ∈ ds, d < 58) :
    ((digitsBytes ds).takeWhile (· = 49)).length = Radix.zeros ds := by
  have hone : ∀ d < 58, UInt8.ofNat (base58Char d).toNat = 49 ↔ d = 0 := by decide +kernel
  induction ds with
  | nil => rfl
  | cons d ds ih =>
    obtain ⟨hd, hds⟩ := List.forall_mem_cons.mp h
    have hrest := ih hds
    rw [digitsBytes, Radix.zeros] at hrest ⊢
    by_cases hzero : d = 0
    · rw [List.map_cons, List.takeWhile_cons_of_pos (by simp [(hone d hd).mpr hzero]),
        List.takeWhile_cons_of_pos (by simp [hzero]), List.length_cons, List.length_cons, hrest]
    · have hne : UInt8.ofNat (base58Char d).toNat ≠ 49 := fun heq => hzero ((hone d hd).mp heq)
      rw [List.map_cons, List.takeWhile_cons_of_neg (by simp [hne]),
        List.takeWhile_cons_of_neg (by simp [hzero])]
      rfl

theorem asBytes_of_digits (h : s.toList = ds.map base58Char) :
    asBytes s = digitsBytes ds := by
  rw [← String.ofList_toList (s := s), h, asBytes_ascii, List.map_map]
  · rfl
  · intro c hc
    obtain ⟨d, -, rfl⟩ := List.mem_map.mp hc
    exact base58Char_lt d

theorem toList_base58Encode (bytes : Bytes) :
    (base58Encode bytes).toList =
      (Radix.convert 256 58 (bytes.map UInt8.toNat)).map base58Char := by
  have hzero : base58Char 0 = '1' := by decide +kernel
  rw [base58Encode, String.toList_ofList, Radix.convert, List.map_append, List.map_replicate,
    hzero]

/-- What is accepted, and as what: the digits in base 58 of the bytes. -/
theorem base58Decode_eq_ok :
    base58Decode s = .ok bytes ↔
      ∃ ds, (∀ d ∈ ds, d < 58) ∧ s.toList = ds.map base58Char ∧
        bytes = (Radix.convert 58 256 ds).map UInt8.ofNat := by
  have hdecoded : ∀ {ds : List Nat}, (∀ d ∈ ds, d < 58) → s.toList = ds.map base58Char →
      base58Decode s = .ok ((Radix.convert 58 256 ds).map UInt8.ofNat) := by
    intro ds hds hs
    have hbytes := asBytes_of_digits hs
    rw [base58Decode, hbytes, mapM_digitsBytes hds, length_takeWhile_digitsBytes hds,
      Radix.convert, List.map_append, List.map_replicate]
    rfl
  constructor
  · intro h
    cases hvalues : (asBytes s).mapM base58Value with
    | error e =>
      rw [base58Decode, hvalues] at h
      cases h
    | ok ds =>
      obtain ⟨hds, hchars⟩ := mapM_base58Value_eq_ok hvalues
      have hascii : ∀ b ∈ asBytes s, b.toNat < 128 := by
        intro b hb
        have hmem : Char.ofNat b.toNat ∈ ds.map base58Char :=
          hchars ▸ List.mem_map_of_mem hb
        obtain ⟨d, -, hd⟩ := List.mem_map.mp hmem
        rw [← toNat_ofNat_byte b, ← hd]
        exact base58Char_lt d
      have hs : s.toList = ds.map base58Char := (toList_of_asBytes hascii).trans hchars
      rw [hdecoded hds hs] at h
      exact ⟨ds, hds, hs, (Except.ok.inj h).symm⟩
  · rintro ⟨ds, hds, hs, rfl⟩
    exact hdecoded hds hs

theorem map_toNat_ofNat {l : List Nat} (h : ∀ d ∈ l, d < 256) :
    (l.map UInt8.ofNat).map UInt8.toNat = l := by
  rw [List.map_map]
  refine (List.map_congr_left fun d hd => ?_).trans (List.map_id l)
  rw [Function.comp_apply, UInt8.toNat_ofNat', Nat.mod_eq_of_lt (h d hd)]
  rfl

theorem map_ofNat_toNat (bytes : Bytes) : (bytes.map UInt8.toNat).map UInt8.ofNat = bytes := by
  rw [List.map_map]
  refine (List.map_congr_left fun b _ => ?_).trans (List.map_id bytes)
  rw [Function.comp_apply, UInt8.ofNat_toNat]
  rfl

theorem toNat_lt_of_mem : ∀ d ∈ bytes.map UInt8.toNat, d < 256 := by
  intro d hd
  obtain ⟨b, -, rfl⟩ := List.mem_map.mp hd
  exact b.toNat_lt

theorem base58Decode_base58Encode (bytes : Bytes) :
    base58Decode (base58Encode bytes) = .ok bytes := by
  refine base58Decode_eq_ok.mpr ⟨Radix.convert 256 58 (bytes.map UInt8.toNat),
    Radix.convert_lt (by decide), toList_base58Encode bytes, ?_⟩
  rw [Radix.convert_convert (by decide) (by decide) toNat_lt_of_mem, map_ofNat_toNat]

theorem base58Encode_of_base58Decode
    (h : base58Decode s = .ok bytes) : base58Encode bytes = s := by
  obtain ⟨ds, hds, hs, rfl⟩ := base58Decode_eq_ok.mp h
  rw [← String.toList_inj, toList_base58Encode, map_toNat_ofNat (Radix.convert_lt (by decide)),
    Radix.convert_convert (by decide) (by decide) hds, hs]

/-! ## Parsing the forms of an address -/

/-- Nothing to trim at either end. -/
theorem trim_eq (h : ∀ c ∈ cs, isWhitespace c = false) : trim cs = cs := by
  have hdrop : ∀ l : List Char, (∀ c ∈ l, isWhitespace c = false) →
      l.dropWhile isWhitespace = l := by
    intro l hl
    cases l with
    | nil => rfl
    | cons c l => rw [List.dropWhile_cons_of_neg (by simp [hl c List.mem_cons_self])]
  rw [trim, hdrop cs h, hdrop _ fun c hc => h c (List.mem_reverse.mp hc), List.reverse_reverse]

theorem strip0x_eq (h : '0' ∉ cs ∨ 'x' ∉ cs) : strip0x cs = cs := by
  unfold strip0x
  split
  · simp at h
  · rfl

/-- An id in base58 has at most 44 characters. -/
theorem length_base58Encode_le (h : bytes.length = 32) :
    (base58Encode bytes).toList.length ≤ 44 := by
  rw [toList_base58Encode, List.length_map]
  refine Radix.length_convert_le (by decide) (by decide) (by decide) toNat_lt_of_mem ?_
  rw [List.length_map, h]
  norm_num

theorem mem_base58Encode (h : c ∈ (base58Encode bytes).toList) :
    isWhitespace c = false ∧ c ≠ '0' := by
  have hall : ∀ d < 58, isWhitespace (base58Char d) = false ∧ base58Char d ≠ '0' := by
    decide +kernel
  rw [toList_base58Encode] at h
  obtain ⟨d, hd, rfl⟩ := List.mem_map.mp h
  exact hall d (Radix.convert_lt (by decide) d hd)

theorem parseAddress_base58Encode (id : AccountId) :
    parseAddress (base58Encode id.bytes) = .ok id := by
  have htrim : trim (base58Encode id.bytes).toList = (base58Encode id.bytes).toList :=
    trim_eq fun c hc => (mem_base58Encode hc).1
  have hclean : strip0x (base58Encode id.bytes).toList = (base58Encode id.bytes).toList :=
    strip0x_eq (Or.inl fun h0 => (mem_base58Encode h0).2 rfl)
  have hshort : (asBytes (base58Encode id.bytes)).length ≠ 64 := by
    have hle := length_base58Encode_le id.length_bytes
    rw [asBytes_of_digits (toList_base58Encode id.bytes), digitsBytes, List.length_map,
      ← List.length_map base58Char, ← toList_base58Encode]
    omega
  simp only [parseAddress, htrim, hclean, String.ofList_toList, hshort, false_and, if_false,
    base58Decode_base58Encode, id.length_bytes, dif_pos]

/-! Hexadecimal digits are ASCII, and none of them is white space or an `x`. -/

theorem hexDigit_facts {n : Nat} (h : n < 16) :
    (hexDigit n).toNat < 128 ∧ isWhitespace (hexDigit n) = false ∧ hexDigit n ≠ 'x' ∧
      hexValue (hexDigit n) = some n := by
  have hall : ∀ n < 16, (hexDigit n).toNat < 128 ∧ isWhitespace (hexDigit n) = false ∧
      hexDigit n ≠ 'x' ∧ hexValue (hexDigit n) = some n := by decide +kernel
  exact hall n h

theorem mem_hexEncode (h : c ∈ (hexEncode bytes).toList) :
    ∃ n < 16, c = hexDigit n := by
  rw [hexEncode, String.toList_ofList] at h
  obtain ⟨b, -, hc⟩ := List.mem_flatMap.mp h
  have hb := b.toNat_lt
  rcases List.mem_cons.mp hc with rfl | hc
  · exact ⟨b.toNat / 16, by omega, rfl⟩
  · rw [List.mem_singleton.mp hc]
    exact ⟨b.toNat % 16, by omega, rfl⟩

theorem length_hexEncode (bytes : Bytes) : (hexEncode bytes).toList.length = 2 * bytes.length := by
  rw [hexEncode, String.toList_ofList]
  induction bytes with
  | nil => rfl
  | cons b bytes ih =>
    rw [List.flatMap_cons, List.length_append, ih, List.length_cons]
    simp only [List.length_cons, List.length_nil]
    omega

theorem asBytes_hexEncode (bytes : Bytes) :
    asBytes (hexEncode bytes) = (hexEncode bytes).toList.map fun c => UInt8.ofNat c.toNat := by
  have hascii : ∀ c ∈ (hexEncode bytes).toList, c.toNat < 128 := by
    intro c hc
    obtain ⟨n, hn, rfl⟩ := mem_hexEncode hc
    exact (hexDigit_facts hn).1
  rw [← asBytes_ascii hascii, String.ofList_toList]

theorem hexByte_hexDigit (b : UInt8) :
    hexByte (hexDigit (b.toNat / 16)) (hexDigit (b.toNat % 16)) = some b := by
  have hb := b.toNat_lt
  rw [hexByte, (hexDigit_facts (n := b.toNat / 16) (by omega)).2.2.2,
    (hexDigit_facts (n := b.toNat % 16) (by omega)).2.2.2]
  dsimp only
  rw [Nat.div_add_mod', UInt8.ofNat_toNat]

theorem ofNat_toNat_hexDigit {n : Nat} (h : n < 16) :
    Char.ofNat (UInt8.ofNat (hexDigit n).toNat).toNat = hexDigit n := by
  have hlt := (hexDigit_facts h).1
  rw [UInt8.toNat_ofNat', Nat.mod_eq_of_lt (by omega), Char.ofNat_toNat]

theorem hexPairsAt_hexEncode (i : Nat) (bytes : Bytes) :
    hexPairsAt i (asBytes (hexEncode bytes)) = .ok bytes := by
  rw [asBytes_hexEncode, hexEncode, String.toList_ofList]
  induction bytes generalizing i with
  | nil => rfl
  | cons b bytes ih =>
    have hb := b.toNat_lt
    rw [List.flatMap_cons, List.map_append]
    simp only [List.map_cons, List.map_nil, List.cons_append, List.nil_append, hexPairsAt]
    rw [ofNat_toNat_hexDigit (by omega), ofNat_toNat_hexDigit (by omega), hexByte_hexDigit]
    dsimp only
    rw [ih]
    rfl

theorem x_not_mem_hexEncode (bytes : Bytes) : 'x' ∉ (hexEncode bytes).toList := by
  intro hx
  obtain ⟨n, hn, heq⟩ := mem_hexEncode hx
  exact (hexDigit_facts hn).2.2.1 heq.symm

theorem hexDecode_hexEncode (bytes : Bytes) : hexDecode (hexEncode bytes) = .ok bytes := by
  have hstrip := strip0x_eq (Or.inr (x_not_mem_hexEncode bytes))
  have heven : (asBytes (hexEncode bytes)).length % 2 = 0 := by
    rw [asBytes_hexEncode, List.length_map, length_hexEncode]
    omega
  rw [hexDecode, hstrip, String.ofList_toList]
  simp only [heven, ne_eq, not_true_eq_false, if_false]
  exact hexPairsAt_hexEncode 0 bytes

/-- Any string that is the hexadecimal form of an id once it is trimmed and
stripped is read as that id. -/
theorem parseAddress_of_hex {id : AccountId}
    (h : strip0x (trim s.toList) = (hexEncode id.bytes).toList) : parseAddress s = .ok id := by
  have hlength : (asBytes (hexEncode id.bytes)).length = 64 := by
    rw [asBytes_hexEncode, List.length_map, length_hexEncode, id.length_bytes]
  have hdigits : (hexEncode id.bytes).toList.all isHexDigit = true := by
    refine List.all_eq_true.mpr fun c hc => ?_
    obtain ⟨n, hn, rfl⟩ := mem_hexEncode hc
    rw [isHexDigit, (hexDigit_facts hn).2.2.2]
    rfl
  have hid : Hash.ofSlice? id.bytes = some id := by
    rw [Hash.ofSlice?, dif_pos (Nat.le_of_eq id.length_bytes.symm), Option.some.injEq]
    exact Hash.ext_bytes (List.take_of_length_le (Nat.le_of_eq id.length_bytes))
  simp only [parseAddress, h, String.ofList_toList, hlength, hdigits, and_self, if_true,
    hexDecode_hexEncode, Except.map, hid, Option.getD_some]

theorem hexEncode_not_whitespace (bytes : Bytes) :
    ∀ c ∈ (hexEncode bytes).toList, isWhitespace c = false := by
  intro c hc
  obtain ⟨n, hn, rfl⟩ := mem_hexEncode hc
  exact (hexDigit_facts hn).2.1

/-- Base58 loses nothing in either direction, and an id is read back from
each of its three forms. -/
theorem address_roundTrip :
    (∀ bytes, base58Decode (base58Encode bytes) = .ok bytes) ∧
      (∀ s bytes, base58Decode s = .ok bytes → base58Encode bytes = s) ∧
      ∀ id : AccountId, parseAddress (base58Encode id.bytes) = .ok id ∧
        parseAddress (hexEncode id.bytes) = .ok id ∧
        parseAddress ("0x" ++ hexEncode id.bytes) = .ok id := by
  refine ⟨base58Decode_base58Encode, fun s bytes => base58Encode_of_base58Decode, fun id => ?_⟩
  have hplain := hexEncode_not_whitespace id.bytes
  refine ⟨parseAddress_base58Encode id, parseAddress_of_hex ?_, parseAddress_of_hex ?_⟩
  · rw [trim_eq hplain, strip0x_eq (Or.inr (x_not_mem_hexEncode id.bytes))]
  · have hprefixed : ("0x" ++ hexEncode id.bytes).toList =
        '0' :: 'x' :: (hexEncode id.bytes).toList := by
      rw [String.toList_append]
      rfl
    rw [hprefixed, trim_eq]
    · rfl
    · refine List.forall_mem_cons.mpr ⟨by decide, List.forall_mem_cons.mpr ⟨by decide, hplain⟩⟩

end Solen
