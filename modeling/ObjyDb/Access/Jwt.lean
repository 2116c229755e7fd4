import ObjyDb.Access.Base64Url
import ObjyDb.Js.Exact
import ObjyDb.Js.JsonCharset
import ObjyDb.Lib.Fallible

/-!
# Jwt — signed tokens

`sign` and `verify` of the token library.  The HMAC is a parameter: a digest of 32 bytes for each
secret and text.  What the library throws is a message and, where the source sets one, a code; the
engine's own errors carry none.

* `constantTimeStringEqual_iff` — the comparison over both lengths is equality of texts;
* `decodeJson_encodeJson` — a JSON object is read back from its token part;
* `verify_sign` — what a signed payload verifies as;
* `verify_ok`, `verify_error` — what an accepted token is and how the others are refused;
* `tokens_spec` — the guarantees together.
-/

namespace ObjyDb
namespace Jwt

open Js

/-! ## Errors -/

structure Thrown where
  message : JsString
  code : Option JsString
  deriving DecidableEq

def invalidToken (message : JsString) : Thrown := ⟨message, some (js "E_INVALID_TOKEN")⟩

def expiredToken : Thrown := ⟨js "JWT expired", some (js "E_TOKEN_EXPIRED")⟩

/-- An error whose code callers classify tokens by. -/
def Thrown.Classified (e : Thrown) : Prop :=
  e.code = some (js "E_INVALID_TOKEN") ∨ e.code = some (js "E_TOKEN_EXPIRED")

/-- `value.key` for a key no prototype has: only `null` has no properties at all. -/
def getField (value : Json) (key : JsString) : Except Thrown (Option Json) :=
  match value with
  | .null => .error ⟨js "Cannot read properties of null", none⟩
  | .obj fields => .ok (Assoc.get? fields key)
  | _ => .ok none

/-- The secret, when it is a non-empty string. -/
def assertSecret (secret : Json) : Except Thrown JsString :=
  match secret with
  | .str [] => .error ⟨js "JWT secret must be a non-empty string", none⟩
  | .str text => .ok text
  | _ => .error ⟨js "JWT secret must be a non-empty string", none⟩

/-! ## The parts of a token -/

def encodeJson (value : Json) : JsString :=
  base64UrlEncodeBytes (encode (stringify value))

/-- `new TextDecoder().decode(bytes)`, which drops a byte order mark. -/
def utf8Decode (bytes : List Byte) : JsString :=
  match bytes with
  | 0xef :: 0xbb :: 0xbf :: rest => Utf8.decode rest
  | bytes => Utf8.decode bytes

def decodeJson (value : JsString) : Except Thrown Json :=
  match (base64UrlDecodeBytes value).bind (fun bytes => parse (utf8Decode bytes)) with
  | some value => .ok value
  | none => .error (invalidToken (js "Invalid JWT JSON"))

/-! ## Comparing signatures -/

/-- `text.charCodeAt(i % text.length) || 0`; of an empty text the index is `NaN` and the code `0`. -/
def charCodeAt (text : JsString) (i : Nat) : BitVec 32 :=
  match text[i % text.length]? with
  | some u => BitVec.ofNat 32 u.val
  | none => 0

def constantTimeStringEqual (a b : JsString) : Bool :=
  let diff := BitVec.ofNat 32 a.length ^^^ BitVec.ofNat 32 b.length
  let length := max a.length b.length
  let diff := (List.range length).foldl
    (fun diff i => diff ||| (charCodeAt a i ^^^ charCodeAt b i)) diff
  diff == 0

/-! ## Signing and verifying -/

abbrev Digest := Vector Byte 32

def tokenHeader : Json :=
  .obj [(js "alg", .str (js "HS256")), (js "typ", .str (js "JWT"))]

def unsignedText (headerPart payloadPart : JsString) : JsString :=
  headerPart ++ unit '.' :: payloadPart

/-- The signature part that belongs to a text. -/
def signatureOf (hmacSha256 : JsString → JsString → Digest) (secret unsigned : JsString) :
    JsString :=
  base64UrlEncodeBytes (hmacSha256 secret unsigned).toList

def sign (hmacSha256 : JsString → JsString → Digest) (payload secret : Json) :
    Except Thrown JsString := do
  let secret ← assertSecret secret
  let unsigned := unsignedText (encodeJson tokenHeader) (encodeJson payload)
  return unsigned ++ unit '.' :: signatureOf hmacSha256 secret unsigned

def checkHeader (header : Json) : Except Thrown Unit := do
  let alg ← getField header (js "alg")
  let typ ← getField header (js "typ")
  if alg ≠ some (.str (js "HS256")) ∨ typ ≠ some (.str (js "JWT")) then
    .error (invalidToken (js "Unsupported JWT header"))
  else
    return ()

/-- `typeof payload.exp !== 'number' || payload.exp + clockToleranceSeconds < now`; the sum is exact
for the default tolerance of zero. -/
def isExpired (exp : Option Json) (now : Int) (clockToleranceSeconds : ℚ) : Bool :=
  match exp with
  | some (.num exp) => decide (exp.toRat + clockToleranceSeconds < now)
  | _ => true

def checkPayload (payload : Json) (now : Int) (clockToleranceSeconds : ℚ) : Except Thrown Json := do
  let exp ← getField payload (js "exp")
  if isExpired exp now clockToleranceSeconds then
    .error expiredToken
  else
    match ← getField payload (js "iat") with
    | none => return payload
    | some (.num _) => return payload
    | some _ => .error (invalidToken (js "Invalid JWT iat"))

/-- What `verify` does with the three parts. -/
def verifyParts (hmacSha256 : JsString → JsString → Digest) (secret : JsString) (now : Int)
    (clockToleranceSeconds : ℚ) (headerPart payloadPart signaturePart : JsString) :
    Except Thrown Json := do
  let header ← decodeJson headerPart
  checkHeader header
  let expected := signatureOf hmacSha256 secret (unsignedText headerPart payloadPart)
  if constantTimeStringEqual signaturePart expected then
    let payload ← decodeJson payloadPart
    checkPayload payload now clockToleranceSeconds
  else
    .error (invalidToken (js "Invalid JWT signature"))

def verify (hmacSha256 : JsString → JsString → Digest) (token secret : Json) (now : Int)
    (clockToleranceSeconds : ℚ) : Except Thrown Json := do
  let secret ← assertSecret secret
  match token with
  | .str token =>
      match split (unit '.') token with
      | [headerPart, payloadPart, signaturePart] =>
          verifyParts hmacSha256 secret now clockToleranceSeconds headerPart payloadPart
            signaturePart
      | _ => .error (invalidToken (js "JWT must have three parts"))
  | _ => .error (invalidToken (js "JWT must be a string"))

/-! ## The comparison is equality -/

theorem foldl_or_eq_zero {α : Type} {w : Nat} (f : α → BitVec w) (diff : BitVec w) (items : List α) :
    items.foldl (fun diff i => diff ||| f i) diff = 0 ↔ diff = 0 ∧ ∀ i ∈ items, f i = 0 := by
  induction items generalizing diff with
  | nil => simp
  | cons item items ih =>
      rw [List.foldl_cons, ih]
      constructor
      · rintro ⟨hor, hrest⟩
        rcases BitVec.or_eq_zero_iff.mp hor with ⟨hdiff, hitem⟩
        exact ⟨hdiff, by simpa using ⟨hitem, hrest⟩⟩
      · rintro ⟨hdiff, hall⟩
        have hitem := hall item List.mem_cons_self
        exact ⟨BitVec.or_eq_zero_iff.mpr ⟨hdiff, hitem⟩,
          fun i hi => hall i (List.mem_cons_of_mem _ hi)⟩

theorem constantTimeStringEqual_self (a : JsString) : constantTimeStringEqual a a = true := by
  rw [constantTimeStringEqual, beq_iff_eq, foldl_or_eq_zero]
  exact ⟨BitVec.xor_self, fun i _ => BitVec.xor_self⟩

/-- A text of fewer than `2 ^ 32` units equals exactly itself; longer ones no engine has. -/
theorem constantTimeStringEqual_iff {a b : JsString} (ha : a.length < 2 ^ 32)
    (hb : b.length < 2 ^ 32) : constantTimeStringEqual a b = true ↔ a = b := by
  constructor
  · intro h
    rw [constantTimeStringEqual, beq_iff_eq, foldl_or_eq_zero] at h
    rcases h with ⟨hlength, hunits⟩
    have hlen : a.length = b.length := by
      have hnat := congrArg BitVec.toNat (BitVec.xor_eq_zero_iff.mp hlength)
      rwa [BitVec.toNat_ofNat, BitVec.toNat_ofNat, Nat.mod_eq_of_lt ha, Nat.mod_eq_of_lt hb] at hnat
    refine List.ext_getElem hlen (fun i hia hib => ?_)
    -- inside both texts the index is not reduced
    have hunit := BitVec.xor_eq_zero_iff.mp (hunits i (List.mem_range.mpr (by omega)))
    rw [charCodeAt, charCodeAt, Nat.mod_eq_of_lt hia,
      Nat.mod_eq_of_lt hib, List.getElem?_eq_getElem hia, List.getElem?_eq_getElem hib] at hunit
    have hnat := congrArg BitVec.toNat hunit
    simp only [BitVec.toNat_ofNat] at hnat
    exact Fin.ext (by omega)
  · rintro rfl
    exact constantTimeStringEqual_self a

/-! ## What the parts hold -/

theorem dot_notMem_encodeJson (value : Json) : unit '.' ∉ encodeJson value :=
  dot_notMem_encode _

theorem dot_notMem_signatureOf (hmacSha256 : JsString → JsString → Digest)
    (secret unsigned : JsString) : unit '.' ∉ signatureOf hmacSha256 secret unsigned :=
  dot_notMem_encode _

theorem length_base64UrlEncodeBytes (bytes : List Byte) :
    (base64UrlEncodeBytes bytes).length ≤ 2 * bytes.length := by
  induction bytes using base64UrlEncodeBytes.induct with
  | case1 => simp [base64UrlEncodeBytes]
  | case2 a => simp [base64UrlEncodeBytes]
  | case3 a b => simp [base64UrlEncodeBytes]
  | case4 a b c rest ih =>
      simp only [base64UrlEncodeBytes, List.length_cons]
      omega

theorem length_signatureOf (hmacSha256 : JsString → JsString → Digest) (secret unsigned : JsString) :
    (signatureOf hmacSha256 secret unsigned).length < 2 ^ 32 := by
  have hle := length_base64UrlEncodeBytes (hmacSha256 secret unsigned).toList
  rw [Vector.length_toList] at hle
  exact lt_of_le_of_lt hle (by norm_num)

/-- The text of an object begins with a brace, not with a byte order mark. -/
theorem utf8Decode_encode_object (fields : Fields) :
    utf8Decode (encode (stringify (.obj fields))) = stringify (.obj fields) := by
  have htext := Utf8.decode_encode (printable_stringify (.obj fields)).wellFormed
  have hhead : ∃ rest, encode (stringify (.obj fields)) = 0x7b :: rest := by
    have hwf : isWellFormedText [unit '{'] = true := rfl
    have happend := encode_append hwf (stringify.fieldsText true fields ++ [unit '}'])
    have hbrace : encode [unit '{'] = [0x7b] := by decide
    rw [hbrace] at happend
    exact ⟨_, happend⟩
  rcases hhead with ⟨rest, hhead⟩
  rw [hhead] at htext ⊢
  exact htext

/-- A JSON object is read back from its token part. -/
theorem decodeJson_encodeJson {fields : Fields} (h : (Json.obj fields).WellFormed) :
    decodeJson (encodeJson (.obj fields)) = .ok (.obj fields) := by
  rw [decodeJson, encodeJson, base64UrlDecodeBytes_encode, Option.bind_some,
    utf8Decode_encode_object, parse_stringify h]

theorem decodeJson_error {part : JsString} {e : Thrown} (h : decodeJson part = .error e) :
    e.Classified := by
  unfold decodeJson at h
  split at h
  · cases h
  · cases h
    exact Or.inl rfl

/-- Only `null` has no fields to read. -/
theorem getField_ok {value : Json} (h : value ≠ .null) (key : JsString) :
    ∃ field, getField value key = .ok field := by
  cases value with
  | null => exact absurd rfl h
  | _ => exact ⟨_, rfl⟩

/-! ## Checking header and payload -/

theorem checkHeader_tokenHeader : checkHeader tokenHeader = .ok () := by
  decide

theorem checkHeader_error {header : Json} {e : Thrown} (hnull : header ≠ .null)
    (h : checkHeader header = .error e) : e.Classified := by
  rcases getField_ok hnull (js "alg") with ⟨alg, halg⟩
  rcases getField_ok hnull (js "typ") with ⟨typ, htyp⟩
  simp only [checkHeader, halg, htyp, bind, Except.bind] at h
  split at h
  · cases h
    exact Or.inl rfl
  · cases h

/-- An accepted payload is returned as it is. -/
theorem checkPayload_ok {payload value : Json} {now : Int} {tolerance : ℚ}
    (h : checkPayload payload now tolerance = .ok value) :
    value = payload ∧
      ∃ exp, getField payload (js "exp") = .ok exp ∧ isExpired exp now tolerance = false := by
  rcases Fallible.bind_eq_ok.mp h with ⟨exp, hexp, h⟩
  split at h
  · cases h
  · rename_i hlive
    rcases Fallible.bind_eq_ok.mp h with ⟨iat, -, h⟩
    refine ⟨?_, exp, hexp, by simpa using hlive⟩
    split at h
    · exact (Fallible.pure_eq_ok.mp h).symm
    · exact (Fallible.pure_eq_ok.mp h).symm
    · cases h

theorem checkPayload_error {payload : Json} {e : Thrown} {now : Int} {tolerance : ℚ}
    (hnull : payload ≠ .null) (h : checkPayload payload now tolerance = .error e) :
    e.Classified := by
  rcases getField_ok hnull (js "exp") with ⟨exp, hexp⟩
  rcases getField_ok hnull (js "iat") with ⟨iat, hiat⟩
  simp only [checkPayload, hexp, hiat, bind, Except.bind] at h
  split at h
  · cases h
    exact Or.inr rfl
  · split at h
    · cases h
    · cases h
    · cases h
      exact Or.inl rfl

/-! ## Verifying -/

section

variable (hmacSha256 : JsString → JsString → Digest) (now : Int) (tolerance : ℚ)

theorem assertSecret_ok {secret : JsString} (h : secret ≠ []) :
    assertSecret (.str secret) = .ok secret := by
  cases secret with
  | nil => exact absurd rfl h
  | cons u rest => rfl

theorem join_split (sep : CodeUnit) (s : JsString) : join sep (split sep s) = s := by
  induction s with
  | nil => rfl
  | cons c rest ih =>
      by_cases hc : c = sep
      · rw [split, if_pos hc]
        cases hrest : split sep rest with
        | nil => exact absurd hrest (split_ne_nil sep rest)
        | cons part parts =>
            rw [hrest] at ih
            rw [join, ih, hc]
            · rfl
            · simp
      · rw [split, if_neg hc]
        cases hrest : split sep rest with
        | nil => exact absurd hrest (split_ne_nil sep rest)
        | cons part parts =>
            rw [hrest] at ih
            cases parts with
            | nil => exact congrArg (c :: ·) ih
            | cons part' parts => exact congrArg (c :: ·) ih

/-- The parts of the text that three parts were joined to. -/
theorem split_token {headerPart payloadPart signaturePart : JsString}
    (hheader : unit '.' ∉ headerPart) (hpayload : unit '.' ∉ payloadPart)
    (hsignature : unit '.' ∉ signaturePart) :
    split (unit '.') (unsignedText headerPart payloadPart ++ unit '.' :: signaturePart) =
      [headerPart, payloadPart, signaturePart] := by
  calc split (unit '.') (unsignedText headerPart payloadPart ++ unit '.' :: signaturePart)
      = split (unit '.') (headerPart ++ unit '.' :: (payloadPart ++ unit '.' :: signaturePart)) := by
        rw [unsignedText, List.append_assoc, List.cons_append]
    _ = headerPart :: split (unit '.') (payloadPart ++ unit '.' :: signaturePart) :=
        split_append_sep hheader _
    _ = headerPart :: payloadPart :: split (unit '.') signaturePart := by
        rw [split_append_sep hpayload]
    _ = [headerPart, payloadPart, signaturePart] := by
        rw [split_of_notMem hsignature]

theorem verify_three {secret token headerPart payloadPart signaturePart : JsString}
    (hsecret : secret ≠ [])
    (hsplit : split (unit '.') token = [headerPart, payloadPart, signaturePart]) :
    verify hmacSha256 (.str token) (.str secret) now tolerance =
      verifyParts hmacSha256 secret now tolerance headerPart payloadPart signaturePart := by
  rw [verify, assertSecret_ok hsecret]
  change (match split (unit '.') token with
    | [headerPart, payloadPart, signaturePart] =>
        verifyParts hmacSha256 secret now tolerance headerPart payloadPart signaturePart
    | _ => .error (invalidToken (js "JWT must have three parts"))) = _
  rw [hsplit]

theorem verify_not_three {secret token : JsString} (hsecret : secret ≠ [])
    (hsplit : ∀ headerPart payloadPart signaturePart,
      split (unit '.') token ≠ [headerPart, payloadPart, signaturePart]) :
    verify hmacSha256 (.str token) (.str secret) now tolerance =
      .error (invalidToken (js "JWT must have three parts")) := by
  rw [verify, assertSecret_ok hsecret]
  change (match split (unit '.') token with
    | [headerPart, payloadPart, signaturePart] =>
        verifyParts hmacSha256 secret now tolerance headerPart payloadPart signaturePart
    | _ => .error (invalidToken (js "JWT must have three parts"))) = _
  split
  · rename_i h
    exact absurd h (hsplit _ _ _)
  · rfl

/-- A signed payload is verified by the checks on its fields alone. -/
theorem verify_sign {fields : Fields} {secret : JsString} (hsecret : secret ≠ [])
    (h : (Json.obj fields).WellFormed) :
    ∃ token, sign hmacSha256 (.obj fields) (.str secret) = .ok token ∧
      verify hmacSha256 (.str token) (.str secret) now tolerance =
        checkPayload (.obj fields) now tolerance := by
  have hheader : decodeJson (encodeJson tokenHeader) = .ok tokenHeader :=
    decodeJson_encodeJson (by decide)
  have hpayload := decodeJson_encodeJson h
  have hsplit := split_token (dot_notMem_encodeJson tokenHeader) (dot_notMem_encodeJson (.obj fields))
    (dot_notMem_signatureOf hmacSha256 secret
      (unsignedText (encodeJson tokenHeader) (encodeJson (.obj fields))))
  refine ⟨_, by rw [sign, assertSecret_ok hsecret]; rfl, ?_⟩
  rw [verify_three hmacSha256 now tolerance hsecret hsplit, verifyParts, hheader, hpayload]
  simp only [bind, Except.bind, checkHeader_tokenHeader]
  rw [if_pos (constantTimeStringEqual_self _)]

/-- What an accepted token is: three parts, of which the last is the encoded HMAC of the first two
and the second encodes the payload. -/
theorem verify_ok {secret token : JsString} {payload : Json} (hsecret : secret ≠ [])
    (htoken : token.length < 2 ^ 32)
    (h : verify hmacSha256 (.str token) (.str secret) now tolerance = .ok payload) :
    ∃ headerPart payloadPart,
      token = unsignedText headerPart payloadPart ++
        unit '.' :: signatureOf hmacSha256 secret (unsignedText headerPart payloadPart) ∧
      decodeJson payloadPart = .ok payload ∧
      ∃ exp, getField payload (js "exp") = .ok exp ∧ isExpired exp now tolerance = false := by
  by_cases hparts : ∃ headerPart payloadPart signaturePart,
      split (unit '.') token = [headerPart, payloadPart, signaturePart]
  · rcases hparts with ⟨headerPart, payloadPart, signaturePart, hsplit⟩
    rw [verify_three hmacSha256 now tolerance hsecret hsplit] at h
    rcases Fallible.bind_eq_ok.mp h with ⟨header, -, h⟩
    rcases Fallible.bind_eq_ok.mp h with ⟨-, -, h⟩
    simp only at h
    split at h
    · rename_i hequal
      rcases Fallible.bind_eq_ok.mp h with ⟨value, hvalue, h⟩
      rcases checkPayload_ok h with ⟨rfl, hlive⟩
      have hjoin := join_split (unit '.') token
      rw [hsplit] at hjoin
      have hshape : token = unsignedText headerPart payloadPart ++ unit '.' :: signaturePart := by
        simpa [join, unsignedText] using hjoin.symm
      have hlength : signaturePart.length < 2 ^ 32 := by
        refine lt_of_le_of_lt ?_ htoken
        simp [hshape]
        omega
      rw [constantTimeStringEqual_iff hlength (length_signatureOf _ _ _)] at hequal
      exact ⟨headerPart, payloadPart, hequal ▸ hshape, hvalue, hlive⟩
    · cases h
  · rw [verify_not_three hmacSha256 now tolerance hsecret (by simpa using hparts)] at h
    cases h

/-- How a token is refused, unless its header or its payload is `null`. -/
theorem verify_error {secret token : JsString} {e : Thrown} (hsecret : secret ≠ [])
    (hnull : ∀ part ∈ (split (unit '.') token).take 2, decodeJson part ≠ .ok .null)
    (h : verify hmacSha256 (.str token) (.str secret) now tolerance = .error e) :
    e.Classified := by
  by_cases hparts : ∃ headerPart payloadPart signaturePart,
      split (unit '.') token = [headerPart, payloadPart, signaturePart]
  · rcases hparts with ⟨headerPart, payloadPart, signaturePart, hsplit⟩
    rw [verify_three hmacSha256 now tolerance hsecret hsplit, verifyParts] at h
    cases hheader : decodeJson headerPart with
    | error e' =>
        rw [hheader] at h
        cases h
        exact decodeJson_error hheader
    | ok header =>
        have hne : header ≠ .null := by
          rintro rfl
          exact hnull headerPart (by simp [hsplit]) hheader
        rw [hheader] at h
        cases hcheck : checkHeader header with
        | error e' =>
            simp only [bind, Except.bind, hcheck] at h
            cases h
            exact checkHeader_error hne hcheck
        | ok _ =>
            simp only [bind, Except.bind, hcheck] at h
            split at h
            · cases hpayload : decodeJson payloadPart with
              | error e' =>
                  rw [hpayload] at h
                  cases h
                  exact decodeJson_error hpayload
              | ok payload =>
                  have hne : payload ≠ .null := by
                    rintro rfl
                    exact hnull payloadPart (by simp [hsplit]) hpayload
                  rw [hpayload] at h
                  exact checkPayload_error hne h
            · cases h
              exact Or.inl rfl
  · rw [verify_not_three hmacSha256 now tolerance hsecret (by simpa using hparts)] at h
    cases h
    exact Or.inl rfl

/-- The checks on a payload with a numeric `exp` and no other `iat` than a number. -/
theorem checkPayload_fields {fields : Fields} {exp : JsNumber}
    (hexp : Assoc.get? fields (js "exp") = some (.num exp))
    (hiat : ∀ iat, Assoc.get? fields (js "iat") = some iat → iat.isNumber = true) :
    checkPayload (.obj fields) now tolerance =
      if exp.toRat + tolerance < now then .error expiredToken else .ok (.obj fields) := by
  simp only [checkPayload, getField, hexp, isExpired, bind, Except.bind, decide_eq_true_eq]
  split
  · rfl
  · split
    · rfl
    · rfl
    · rename_i iat hnum hget
      cases iat with
      | num x => exact absurd rfl (hnum x)
      | _ => exact absurd (hiat _ hget) (by simp [Json.isNumber])

end

/-! ## The guarantees -/

/-- A payload whose `iat` is no number is signed and then refused. -/
theorem verify_signed_iat : ∃ token,
    sign (fun _ _ => Vector.replicate 32 0)
        (.obj [(js "exp", .num (.ofNat 10)), (js "iat", .str (js "now"))]) (.str (js "s")) =
      .ok token ∧
    verify (fun _ _ => Vector.replicate 32 0) (.str token) (.str (js "s")) 5 0 =
      .error (invalidToken (js "Invalid JWT iat")) := by
  have hsecret : js "s" ≠ [] := by decide
  have hfields : (Json.obj [(js "exp", .num (.ofNat 10)), (js "iat", .str (js "now"))]).WellFormed := by
    decide
  rcases verify_sign (fun _ _ => Vector.replicate 32 0) 5 0 hsecret hfields
    with ⟨token, hsign, hverify⟩
  refine ⟨token, hsign, hverify.trans ?_⟩
  have hlive : isExpired (some (.num (.ofNat 10))) 5 0 = false := by
    rw [isExpired, JsNumber.toRat_ofNat]
    norm_num
  have hexp : getField (.obj [(js "exp", .num (.ofNat 10)), (js "iat", .str (js "now"))])
      (js "exp") = .ok (some (.num (.ofNat 10))) := rfl
  rw [checkPayload, hexp]
  simp only [bind, Except.bind, hlive]
  rfl

/-- What signing and verifying guarantee for every HMAC: a signed payload with a numeric `exp` and
no other `iat` than a number verifies until it expires; a token is accepted only with the signature
of its first two parts, and refused with one of the two codes unless its header or its payload is
`null`; the byte codec loses nothing and the comparison of texts is equality. -/
theorem tokens_spec (hmacSha256 : JsString → JsString → Digest) :
    (∀ (fields : Fields) (secret : JsString) (exp : JsNumber) (now : Int),
      (Json.obj fields).WellFormed → secret ≠ [] →
      Assoc.get? fields (js "exp") = some (.num exp) →
      (∀ iat, Assoc.get? fields (js "iat") = some iat → iat.isNumber = true) →
      ∃ token, sign hmacSha256 (.obj fields) (.str secret) = .ok token ∧
        verify hmacSha256 (.str token) (.str secret) now 0 =
          if exp.toRat < now then .error expiredToken else .ok (.obj fields)) ∧
    (∀ (token secret : JsString) (now : Int) (tolerance : ℚ),
      token.length < 2 ^ 32 → secret ≠ [] →
      (∀ part ∈ (split (unit '.') token).take 2, decodeJson part ≠ .ok .null) →
      match verify hmacSha256 (.str token) (.str secret) now tolerance with
      | .ok payload => ∃ headerPart payloadPart,
          token = unsignedText headerPart payloadPart ++
            unit '.' :: signatureOf hmacSha256 secret (unsignedText headerPart payloadPart) ∧
          decodeJson payloadPart = .ok payload
      | .error e => e.Classified) ∧
    (∀ bytes, base64UrlDecodeBytes (base64UrlEncodeBytes bytes) = some bytes) ∧
    ∀ a b : JsString, a.length < 2 ^ 32 → b.length < 2 ^ 32 →
      (constantTimeStringEqual a b = true ↔ a = b) := by
  refine ⟨?_, ?_, base64UrlDecodeBytes_encode, fun a b => constantTimeStringEqual_iff⟩
  · intro fields secret exp now hfields hsecret hexp hiat
    rcases verify_sign hmacSha256 now 0 hsecret hfields with ⟨token, hsign, hverify⟩
    refine ⟨token, hsign, ?_⟩
    rw [hverify, checkPayload_fields now 0 hexp hiat, add_zero]
  · intro token secret now tolerance htoken hsecret hnull
    split
    · rename_i payload hverify
      rcases verify_ok hmacSha256 now tolerance hsecret htoken hverify with ⟨headerPart, payloadPart, hshape, hpayload, -⟩
      exact ⟨headerPart, payloadPart, hshape, hpayload⟩
    · rename_i e hverify
      exact verify_error hmacSha256 now tolerance hsecret hnull hverify

theorem tokens_spec_zero : ∃ token,
    sign (fun _ _ => Vector.replicate 32 0) (.obj [(js "exp", .num (.ofNat 10))]) (.str (js "s")) =
      .ok token ∧
    verify (fun _ _ => Vector.replicate 32 0) (.str token) (.str (js "s")) 5 0 =
      .ok (.obj [(js "exp", .num (.ofNat 10))]) := by
  rcases (tokens_spec (fun _ _ => Vector.replicate 32 0)).1 [(js "exp", .num (.ofNat 10))] (js "s")
    (.ofNat 10) 5 (by decide) (by decide) rfl (fun iat h => by cases h) with ⟨token, hsign, hverify⟩
  refine ⟨token, hsign, ?_⟩
  rw [hverify, JsNumber.toRat_ofNat, if_neg (by norm_num)]

end Jwt
end ObjyDb
