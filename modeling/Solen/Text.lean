import Solen.Types

/-!
# Text

UTF-8 decoding as the Rust standard library does it, hexadecimal and
the little that is needed of JSON objects. Decoding turns bytes into a
sequence of characters in which a maximal invalid piece shows up as
`none`: strict decoding refuses such a piece, lossy decoding replaces
it.
-/

namespace Solen

open Machine

namespace Utf8

def isCont (b : UInt8) : Bool := 0x80 ≤ b && b ≤ 0xBF

/-- Second bytes allowed after a three-byte lead. -/
def second3 (lead b : UInt8) : Bool :=
  if lead = 0xE0 then 0xA0 ≤ b && b ≤ 0xBF
  else if lead = 0xED then 0x80 ≤ b && b ≤ 0x9F
  else isCont b

/-- Second bytes allowed after a four-byte lead. -/
def second4 (lead b : UInt8) : Bool :=
  if lead = 0xF0 then 0x90 ≤ b && b ≤ 0xBF
  else if lead = 0xF4 then 0x80 ≤ b && b ≤ 0x8F
  else isCont b

def low (b : UInt8) : Nat := b.toNat % 64

/-- Length of the sequence a lead byte starts; 0 for a byte that starts none. -/
def seqLength (b : UInt8) : Nat :=
  if b < 0x80 then 1
  else if 0xC2 ≤ b && b ≤ 0xDF then 2
  else if 0xE0 ≤ b && b ≤ 0xEF then 3
  else if 0xF0 ≤ b && b ≤ 0xF4 then 4
  else 0

/-- Reads one character or one maximal invalid piece off the front. -/
def next (b : UInt8) (rest : Bytes) : Option Char × Bytes :=
  match seqLength b, rest with
  | 1, _ => (some (Char.ofNat b.toNat), rest)
  | 2, c :: rest' =>
      if isCont c then (some (Char.ofNat (b.toNat % 32 * 64 + low c)), rest')
      else (none, rest)
  | 3, c :: rest' =>
      if second3 b c then
        match rest' with
        | d :: rest'' =>
            if isCont d then
              (some (Char.ofNat ((b.toNat % 16 * 64 + low c) * 64 + low d)), rest'')
            else (none, rest')
        | [] => (none, [])
      else (none, rest)
  | 4, c :: rest' =>
      if second4 b c then
        match rest' with
        | d :: rest'' =>
            if isCont d then
              match rest'' with
              | e :: rest''' =>
                  if isCont e then
                    (some (Char.ofNat
                      (((b.toNat % 8 * 64 + low c) * 64 + low d) * 64 + low e)), rest''')
                  else (none, rest'')
              | [] => (none, [])
            else (none, rest')
        | [] => (none, [])
      else (none, rest)
  | _, _ => (none, rest)

/-- `n` bounds the number of characters; the length of the input is enough. -/
def decode : Nat → Bytes → List (Option Char)
  | 0, _ => []
  | _, [] => []
  | n + 1, b :: bs => (next b bs).1 :: decode n (next b bs).2

def encodeChar (c : Char) : Bytes :=
  let v := c.toNat
  if v < 0x80 then [UInt8.ofNat v]
  else if v < 0x800 then [UInt8.ofNat (0xC0 + v / 64), UInt8.ofNat (0x80 + v % 64)]
  else if v < 0x10000 then
    [UInt8.ofNat (0xE0 + v / 4096), UInt8.ofNat (0x80 + v / 64 % 64), UInt8.ofNat (0x80 + v % 64)]
  else
    [UInt8.ofNat (0xF0 + v / 262144), UInt8.ofNat (0x80 + v / 4096 % 64),
      UInt8.ofNat (0x80 + v / 64 % 64), UInt8.ofNat (0x80 + v % 64)]

end Utf8

/-- `str::from_utf8`. -/
def fromUtf8 (bs : Bytes) : Option String :=
  let cs := Utf8.decode bs.length bs
  if cs.all Option.isSome then some (String.ofList (cs.filterMap id)) else none

/-- `String::from_utf8_lossy`. -/
def fromUtf8Lossy (bs : Bytes) : String :=
  String.ofList ((Utf8.decode bs.length bs).map fun c => c.getD (Char.ofNat 0xFFFD))

/-- `str::as_bytes`. -/
def asBytes (s : String) : Bytes := s.toList.flatMap Utf8.encodeChar

/-! ## Hexadecimal -/

def hexDigit (n : Nat) : Char :=
  if n < 10 then Char.ofNat (48 + n) else Char.ofNat (87 + n)

def hexEncode (bs : Bytes) : String :=
  String.ofList (bs.flatMap fun b => [hexDigit (b.toNat / 16), hexDigit (b.toNat % 16)])

def hexValue (c : Char) : Option Nat :=
  if '0' ≤ c ∧ c ≤ '9' then some (c.toNat - 48)
  else if 'a' ≤ c ∧ c ≤ 'f' then some (c.toNat - 87)
  else if 'A' ≤ c ∧ c ≤ 'F' then some (c.toNat - 55)
  else none

/-- `u8::from_str_radix(_, 16)` on a two-character slice: two digits, or a
plus sign and one digit. -/
def hexByte (c d : Char) : Option UInt8 :=
  match hexValue c, hexValue d with
  | some h, some l => some (UInt8.ofNat (h * 16 + l))
  | none, some l => if c = '+' then some (UInt8.ofNat l) else none
  | _, none => none

def hexPairs : List Char → Option Bytes
  | [] => some []
  | [_] => none
  | c :: d :: cs =>
      match hexByte c d, hexPairs cs with
      | some b, some bs => some (b :: bs)
      | _, _ => none

def decodeHex32 (s : String) : Option Hash :=
  if s.toList.length = 64 then (hexPairs s.toList).bind Hash.ofSlice? else none

/-! ## JSON objects of the rollup registry -/

inductive JsonValue where
  | num (n : Nat)
  | str (s : String)
  | bool (b : Bool)
  | strs (l : List String)
deriving DecidableEq

abbrev JsonObject := List (String × JsonValue)

namespace JsonObject

def get (o : JsonObject) (key : String) : Option JsonValue :=
  (o.find? (·.1 == key)).map (·.2)

def set (o : JsonObject) (key : String) (v : JsonValue) : JsonObject :=
  if o.any (·.1 == key) then o.map fun e => if e.1 = key then (key, v) else e
  else o ++ [(key, v)]

def getNum (o : JsonObject) (key : String) : Option Nat :=
  match o.get key with
  | some (.num n) => some n
  | _ => none

def getStr (o : JsonObject) (key : String) : Option String :=
  match o.get key with
  | some (.str s) => some s
  | _ => none

def getStrs (o : JsonObject) (key : String) : List String :=
  match o.get key with
  | some (.strs l) => l
  | _ => []

end JsonObject

end Solen
