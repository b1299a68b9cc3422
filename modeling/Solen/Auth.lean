import Solen.State

/-!
# Authentication

Signature checks of a user operation against an account's
authentication methods, and the passkey assertion format with its
hand-written JSON field extraction.
-/

namespace Solen

open Machine

/-! ## Passkey assertions -/

namespace Passkey

/-- What follows the first occurrence of `pat`. -/
def findAfter (pat : List Char) : List Char → Option (List Char)
  | [] => if pat = [] then some [] else none
  | c :: cs =>
      if pat.isPrefixOf (c :: cs) then some ((c :: cs).drop pat.length) else findAfter pat cs

/-- Unicode white space, as `trim_start` skips it. -/
def isWhitespace (c : Char) : Bool :=
  let v := c.toNat
  (9 ≤ v && v ≤ 13) || v == 32 || v == 0x85 || v == 0xA0 || v == 0x1680 ||
    (0x2000 ≤ v && v ≤ 0x200A) || v == 0x2028 || v == 0x2029 || v == 0x202F ||
    v == 0x205F || v == 0x3000

def trimStart (s : List Char) : List Char := s.dropWhile isWhitespace

def skipChar (c : Char) : List Char → Option (List Char)
  | d :: s => if c = d then some s else none
  | [] => none

/-- Everything up to a quote that is not escaped, if there is one. -/
def untilQuote (escaped : Bool) : List Char → Option (List Char)
  | [] => none
  | c :: s =>
      if c = '"' && !escaped then some []
      else (untilQuote (c == '\\') s).map (c :: ·)

/-- The string value of a field; a repeated key or a backslash in the value
is refused. -/
def extractJsonString (json : List Char) (key : String) : Option (List Char) := do
  let pattern := '"' :: key.toList ++ ['"']
  let afterKey ← findAfter pattern json
  if (findAfter pattern afterKey).isSome then none
  else
    let afterColon ← skipChar ':' (trimStart afterKey)
    let afterQuote ← skipChar '"' (trimStart afterColon)
    let value ← untilQuote false afterQuote
    if '\\' ∈ value then none else some value

def charset : List Char :=
  "ABCDEFGHIJKLMNOPQRSTUVWXYZabcdefghijklmnopqrstuvwxyz0123456789-_".toList

def sextet (n : Nat) : Char := charset.getD (n % 64) 'A'

/-- Base64url without padding. -/
def base64urlEncode : Bytes → List Char
  | b0 :: b1 :: b2 :: rest =>
      let n := b0.toNat * 65536 + b1.toNat * 256 + b2.toNat
      sextet (n / 262144) :: sextet (n / 4096) :: sextet (n / 64) :: sextet n ::
        base64urlEncode rest
  | [b0, b1] =>
      let n := b0.toNat * 65536 + b1.toNat * 256
      [sextet (n / 262144), sextet (n / 4096), sextet (n / 64)]
  | [b0] =>
      let n := b0.toNat * 65536
      [sextet (n / 262144), sextet (n / 4096)]
  | [] => []

structure Assertion where
  authData : Bytes
  clientDataJson : Bytes
  r : Bytes
  s : Bytes

/-- Splits `len[2] ‖ authData ‖ len[2] ‖ clientDataJSON ‖ r[32] ‖ s[32]`. -/
def parseAssertion (signature : Bytes) : Option Assertion :=
  if signature.length < 68 then none
  else
    let authLen := fromLeBytes (signature.take 2)
    if signature.length < 2 + authLen + 2 + 64 then none
    else
      let rest := signature.drop (2 + authLen)
      let clientLen := fromLeBytes (rest.take 2)
      if rest.length < 2 + clientLen + 64 then none
      else
        let scalars := rest.drop (2 + clientLen)
        some
          { authData := (signature.drop 2).take authLen
            clientDataJson := (rest.drop 2).take clientLen
            r := scalars.take 32
            s := (scalars.drop 32).take 32 }

def verify (E : Platform) (pkX pkY : Hash) (rpId : String) (origins : List String)
    (msg signature : Bytes) : Bool :=
  match parseAssertion signature with
  | none => false
  | some a =>
      match fromUtf8 a.clientDataJson with
      | none => false
      | some clientData =>
          let json := clientData.toList
          extractJsonString json "challenge" == some (base64urlEncode msg) &&
          extractJsonString json "type" == some "webauthn.get".toList &&
          (origins.isEmpty ||
            origins.any fun o => extractJsonString json "origin" == some o.toList) &&
          decide (37 ≤ a.authData.length) &&
          (rpId.isEmpty || a.authData.take 32 == (E.sha256 (asBytes rpId)).bytes) &&
          ((a.authData.getD 32 0).toNat % 2 == 1) &&
          E.p256Verify pkX pkY (a.authData ++ (E.sha256 a.clientDataJson).bytes) a.r a.s

/-! ### The challenge binds the message -/

theorem sextet_inj {m n : Nat} (h : sextet m = sextet n) : m % 64 = n % 64 := by
  have hlen : charset.length = 64 := by decide +kernel
  have hm : m % 64 < charset.length := hlen ▸ Nat.mod_lt _ (by decide)
  have hn : n % 64 < charset.length := hlen ▸ Nat.mod_lt _ (by decide)
  have hnodup : charset.Nodup := by decide +kernel
  rw [sextet, sextet, List.getD_eq_getElem _ _ hm, List.getD_eq_getElem _ _ hn] at h
  exact (hnodup.getElem_inj_iff).mp h

/-- Four sextets determine the three bytes they were cut from. -/
theorem bytes_of_sextets {a b c a' b' c' : UInt8} {m n : Nat}
    (hm : m = a.toNat * 65536 + b.toNat * 256 + c.toNat)
    (hn : n = a'.toNat * 65536 + b'.toNat * 256 + c'.toNat)
    (h₀ : sextet (m / 262144) = sextet (n / 262144)) (h₁ : sextet (m / 4096) = sextet (n / 4096))
    (h₂ : m / 64 % 64 = n / 64 % 64) (h₃ : m % 64 = n % 64) : a = a' ∧ b = b' ∧ c = c' := by
  have h₀ := sextet_inj h₀
  have h₁ := sextet_inj h₁
  have ha := a.toNat_lt
  have hb := b.toNat_lt
  have hc := c.toNat_lt
  have ha' := a'.toNat_lt
  have hb' := b'.toNat_lt
  have hc' := c'.toNat_lt
  have heq : m = n := by omega
  rw [← UInt8.toNat_inj, ← UInt8.toNat_inj, ← UInt8.toNat_inj]
  omega

theorem base64urlEncode_injective : Function.Injective base64urlEncode := by
  intro l
  induction l using base64urlEncode.induct with
  | case1 b0 b1 b2 rest ih =>
    intro l' h
    rcases l' with _ | ⟨c0, _ | ⟨c1, _ | ⟨c2, rest'⟩⟩⟩ <;>
      simp only [base64urlEncode, List.cons.injEq, reduceCtorEq, and_false] at h
    obtain ⟨h₀, h₁, h₂, h₃, hrest⟩ := h
    obtain ⟨rfl, rfl, rfl⟩ := bytes_of_sextets rfl rfl h₀ h₁ (sextet_inj h₂) (sextet_inj h₃)
    rw [ih hrest]
  | case2 b0 b1 =>
    -- the missing third byte counts as zero, so the fourth sextet would be zero
    intro l' h
    rcases l' with _ | ⟨c0, _ | ⟨c1, _ | ⟨c2, rest'⟩⟩⟩ <;>
      simp only [base64urlEncode, List.cons.injEq, reduceCtorEq, and_false, and_true] at h
    obtain ⟨h₀, h₁, h₂⟩ := h
    obtain ⟨rfl, rfl, -⟩ := @bytes_of_sextets b0 b1 0 c0 c1 0 _ _ (by simp) (by simp) h₀ h₁
      (sextet_inj h₂) (by omega)
    rfl
  | case3 b0 =>
    intro l' h
    rcases l' with _ | ⟨c0, _ | ⟨c1, _ | ⟨c2, rest'⟩⟩⟩ <;>
      simp only [base64urlEncode, List.cons.injEq, reduceCtorEq, and_false, and_true] at h
    obtain ⟨h₀, h₁⟩ := h
    obtain ⟨rfl, -, -⟩ := @bytes_of_sextets b0 0 0 c0 0 0 _ _ (by simp) (by simp) h₀ h₁
      (by omega) (by omega)
    rfl
  | case4 =>
    intro l' h
    rcases l' with _ | ⟨c0, _ | ⟨c1, _ | ⟨c2, rest'⟩⟩⟩ <;>
      simp only [base64urlEncode, reduceCtorEq] at h
    rfl

theorem challenge_of_verify {E : Platform} {pkX pkY : Hash} {rpId : String}
    {origins : List String} {msg signature : Bytes} {a : Assertion}
    (ha : parseAssertion signature = some a)
    (h : verify E pkX pkY rpId origins msg signature = true) :
    ((fromUtf8 a.clientDataJson).bind fun s => extractJsonString s.toList "challenge") =
      some (base64urlEncode msg) := by
  rw [verify, ha] at h
  cases htext : fromUtf8 a.clientDataJson with
  | none => simp [htext] at h
  | some text =>
    simp only [htext, Bool.and_eq_true, beq_iff_eq] at h
    rw [Option.bind_some, h.1.1.1.1.1.1]

/-- The encoding of the challenge is injective, so the client data of an
assertion that is accepted for one message is accepted for no other,
whatever the key and the rest of the assertion. -/
theorem challenge_binds_message :
    Function.Injective base64urlEncode ∧
      ∀ (E : Platform) (pkX pkY pkX' pkY' : Hash) (rpId rpId' : String)
        (origins origins' : List String) (msg msg' signature signature' : Bytes)
        (a a' : Assertion), parseAssertion signature = some a →
        parseAssertion signature' = some a' → a.clientDataJson = a'.clientDataJson →
        verify E pkX pkY rpId origins msg signature = true →
        verify E pkX' pkY' rpId' origins' msg' signature' = true → msg = msg' := by
  refine ⟨base64urlEncode_injective, ?_⟩
  intro E pkX pkY pkX' pkY' rpId rpId' origins origins' msg msg' signature signature' a a' ha ha'
    hsame h h'
  have hmsg := challenge_of_verify ha h
  rw [hsame, challenge_of_verify ha' h'] at hmsg
  exact (base64urlEncode_injective (Option.some.inj hmsg)).symm

end Passkey

/-! ## Methods -/

/-- `chunks_exact(96)` of a threshold signature: key and signature. -/
def signatureChunks : Nat → Bytes → List (Bytes × Bytes)
  | 0, _ => []
  | n + 1, bs => (bs.take 32, (bs.drop 32).take 64) :: signatureChunks n (bs.drop 96)

/-- Counts the distinct listed signers with a valid signature; a key that
shows up twice is looked at once. -/
def countSigners (E : Platform) (signers : List Hash) (msg : Bytes) :
    List (Bytes × Bytes) → List Bytes → Nat
  | [], _ => 0
  | (key, sig) :: rest, seen =>
      if key ∈ seen then countSigners E signers msg rest seen
      else
        let valid := signers.any fun h => h.bytes == key && E.ed25519Verify h msg sig
        (if valid then 1 else 0) + countSigners E signers msg rest (key :: seen)

def mlDsaPkLen : Nat := 1952

def mlDsaSigLen : Nat := 3309

/-- Keys and signatures of another length are refused before the scheme is asked. -/
def verifyMlDsa (E : Platform) (publicKey msg signature : Bytes) : Bool :=
  decide (publicKey.length = mlDsaPkLen) && decide (signature.length = mlDsaSigLen) &&
    E.mlDsaVerify publicKey msg signature

/-- The name of the method a signature satisfies. -/
def verifyAuth (E : Platform) (method : AuthMethod) (msg signature : Bytes)
    (pqEnabled : Bool) : Option String :=
  match method with
  | .ed25519 publicKey =>
      if signature.length = 64 ∧ E.ed25519Verify publicKey msg signature = true then
        some "ed25519"
      else none
  | .threshold signers threshold =>
      if threshold = 0#16 ∨ signers = [] then none
      else if signature.length % 96 ≠ 0 ∨ signature = [] then none
      else
        let count := countSigners E signers msg
          (signatureChunks (signature.length / 96) signature) []
        -- The counter is a 16-bit integer.
        if threshold ≤ BitVec.ofNat 16 count then some "threshold" else none
  | .passkey _ publicKeyX publicKeyY rpId origins =>
      if Passkey.verify E publicKeyX publicKeyY rpId origins msg signature then some "passkey"
      else none
  | .session sessionKey _ _ _ _ _ _ =>
      if signature.length = 64 ∧ E.ed25519Verify sessionKey msg signature = true then
        some "session"
      else none
  | .guardian _ => none
  | .mlDsa publicKey =>
      if pqEnabled = true ∧ verifyMlDsa E publicKey msg signature = true then some "ml-dsa"
      else none
  | .hybrid edKey mlKey =>
      if pqEnabled = true ∧ signature.length = 64 + mlDsaSigLen ∧
          E.ed25519Verify edKey msg (signature.take 64) = true ∧
          verifyMlDsa E mlKey msg (signature.drop 64) = true then some "hybrid"
      else none

/-- Every method asks for more than one byte. -/
theorem verifyAuth_singleton (E : Platform) (method : AuthMethod) (msg : Bytes) (b : UInt8)
    (pqEnabled : Bool) : verifyAuth E method msg [b] pqEnabled = none := by
  cases method with
  | passkey id x y rpId origins =>
    have hparse : Passkey.parseAssertion [b] = none := if_pos (by simp)
    simp [verifyAuth, Passkey.verify, hparse]
  | threshold signers threshold => simp [verifyAuth]
  | mlDsa key => simp [verifyAuth, verifyMlDsa, mlDsaSigLen]
  | _ => simp [verifyAuth, mlDsaSigLen]

/-! ## Operations -/

/-- The bytes an operation's signature covers. -/
def UserOperation.signingMessage (E : Platform) (op : UserOperation) (chainId : U64) : Bytes :=
  toLeBytes 8 chainId.toNat ++ op.sender.bytes ++ toLeBytes 8 op.nonce.toNat ++
    toLeBytes 16 op.maxFee.toNat ++ (E.blake3 (E.actionsToJson op.actions)).bytes

/-- Operations the proposer injects: one call of `fulfill` or `slash` on a
system contract, with the one-byte signature `0xFF`. -/
def isSystemAuthorized (op : UserOperation) : Bool :=
  op.signature == [0xFF] &&
    match op.actions with
    | [.call target method _] =>
        System.isSystemContract target && (method == "fulfill" || method == "slash")
    | _ => false

end Solen
