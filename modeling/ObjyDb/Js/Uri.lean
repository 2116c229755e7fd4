import ObjyDb.Js.Utf8
import ObjyDb.Js.JsonText

/-!
# Uri — URI components

`encodeURIComponent` writes the UTF-8 bytes of a string, all but the unreserved ones as `%XX`.
`decodeURIComponent` reads escapes back, and rejects those that are no UTF-8.

* `decodeURIComponent_encode` — a string without lone surrogates is read back;
* `slash_notMem_encodeURIComponent`, `encodeURIComponent_ne_nil` — the result can be a path segment.
-/

namespace ObjyDb
namespace Js

/-! ## Definitions -/

/-- Letters, digits and `- _ . ! ~ * ' ( )` -/
def isUnreserved (b : Byte) : Bool :=
  (48 ≤ b.val ∧ b.val < 58) ∨ (65 ≤ b.val ∧ b.val < 91) ∨ (97 ≤ b.val ∧ b.val < 123) ∨
    b.val ∈ [0x2d, 0x5f, 0x2e, 0x21, 0x7e, 0x2a, 0x27, 0x28, 0x29]

/-- An upper-case hexadecimal digit. -/
def upperHex (n : Nat) : CodeUnit :=
  Fin.ofNat _ (if n < 10 then 48 + n else 55 + n)

/-- `%XX` -/
def escapeByte (b : Byte) : JsString :=
  [unit '%', upperHex (b.val / 16), upperHex (b.val % 16)]

def componentByte (b : Byte) : JsString :=
  if isUnreserved b then [Fin.ofNat _ b.val] else escapeByte b

/-- `encodeURIComponent(text)` of a text without lone surrogates; it throws for others. -/
def encodeURIComponent (text : JsString) : JsString :=
  (encode text).flatMap componentByte

/-- The text of bytes that are UTF-8. -/
def decodeStrict (bytes : List Byte) : Option JsString :=
  if encode (Utf8.decode bytes) = bytes then some (Utf8.decode bytes) else none

/-- `decodeURIComponent` after the escapes of some bytes. -/
def decodeEscapes (bytes : List Byte) : JsString → Option JsString
  | [] => decodeStrict bytes
  | [c] =>
      if c = unit '%' then none
      else (decodeStrict bytes).map fun text => text ++ [c]
  | [c, a] =>
      if c = unit '%' ∨ a = unit '%' then none
      else (decodeStrict bytes).map fun text => text ++ [c, a]
  | c :: a :: b :: rest =>
      if c = unit '%' then
        match hexDigit? a, hexDigit? b with
        | some high, some low => decodeEscapes (bytes ++ [Fin.ofNat _ (high * 16 + low)]) rest
        | _, _ => none
      else do
        let text ← decodeStrict bytes
        let more ← decodeEscapes [] (a :: b :: rest)
        return text ++ c :: more

/-- `decodeURIComponent(text)`; `none` where it throws. -/
def decodeURIComponent (text : JsString) : Option JsString :=
  decodeEscapes [] text

example : decodeURIComponent (encodeURIComponent (js "a/é%")) = some (js "a/é%") := by
  decide +kernel

/-! ## Escapes -/

theorem hexDigit?_upperHex {n : Nat} (h : n < 16) : hexDigit? (upperHex n) = some n := by
  interval_cases n <;> decide

theorem decodeStrict_encode {text : JsString} (h : isWellFormedText text = true) :
    decodeStrict (encode text) = some text := by
  rw [decodeStrict, Utf8.decode_encode h, if_pos rfl]

theorem decodeEscapes_escapeByte (bytes : List Byte) (b : Byte) (rest : JsString) :
    decodeEscapes bytes (escapeByte b ++ rest) = decodeEscapes (bytes ++ [b]) rest := by
  have hb := b.isLt
  have hvalue : Fin.ofNat 256 (b.val / 16 * 16 + b.val % 16) = b := by
    rw [Nat.div_add_mod']
    exact Fin.ofNat_val_eq_self b
  rw [escapeByte]
  simp only [List.cons_append, List.nil_append]
  rw [decodeEscapes, if_pos rfl, hexDigit?_upperHex (by omega), hexDigit?_upperHex (by omega)]
  simp only [hvalue]

theorem decodeEscapes_escapes (more bytes : List Byte) (rest : JsString) :
    decodeEscapes bytes (more.flatMap escapeByte ++ rest) =
      decodeEscapes (bytes ++ more) rest := by
  induction more generalizing bytes with
  | nil => simp
  | cons b more ih =>
      rw [List.flatMap_cons, List.append_assoc, decodeEscapes_escapeByte, ih, List.append_assoc]
      rfl

/-- A unit that is no escape ends the run of escapes before it. -/
theorem decodeEscapes_plain {text : JsString} (h : isWellFormedText text = true) {c : CodeUnit}
    (hc : c ≠ unit '%') {rest more : JsString} (hrest : decodeURIComponent rest = some more) :
    decodeEscapes (encode text) (c :: rest) = some (text ++ c :: more) := by
  have hnil : decodeStrict [] = some [] := by decide
  rw [decodeURIComponent] at hrest
  match rest, hrest with
  | [], hrest =>
      rw [decodeEscapes, hnil] at hrest
      cases hrest
      rw [decodeEscapes, if_neg hc, decodeStrict_encode h]
      rfl
  | [a], hrest =>
      rw [decodeEscapes, hnil] at hrest
      split_ifs at hrest with ha
      cases hrest
      rw [decodeEscapes, if_neg (by simp [hc, ha]), decodeStrict_encode h]
      rfl
  | a :: b :: rest, hrest =>
      rw [decodeEscapes, if_neg hc, decodeStrict_encode h, hrest]
      rfl

/-! ## Characters -/

theorem encode_units {cp : Nat} (h : Utf8.IsScalar cp) :
    encode (Utf8.units cp) = encodeScalar cp ∧ isWellFormedText (Utf8.units cp) = true := by
  unfold Utf8.IsScalar at h
  by_cases hsmall : cp < 0x10000
  · have hsurrogate : isSurrogate (Fin.ofNat 65536 cp) = false := by
      simp only [isSurrogate, isHighSurrogate, isLowSurrogate, Bool.or_eq_false_iff,
        Bool.and_eq_false_iff, decide_eq_false_iff_not, Fin.val_ofNat]
      omega
    have hval : (Fin.ofNat 65536 cp).val = cp := by
      rw [Fin.val_ofNat]
      omega
    rw [Utf8.units, if_pos hsmall, encode, encodeSingle, hsurrogate, isWellFormedText, hsurrogate,
      hval]
    exact ⟨rfl, rfl⟩
  · rw [Utf8.units, if_neg hsmall]
    set u : CodeUnit := Fin.ofNat _ (0xd800 + (cp - 0x10000) / 0x400) with hu
    set v : CodeUnit := Fin.ofNat _ (0xdc00 + (cp - 0x10000) % 0x400) with hv
    have huval : u.val = 0xd800 + (cp - 0x10000) / 0x400 := by
      rw [hu, Fin.val_ofNat]
      omega
    have hvval : v.val = 0xdc00 + (cp - 0x10000) % 0x400 := by
      rw [hv, Fin.val_ofNat]
      omega
    have hpair : (isHighSurrogate u && isLowSurrogate v) = true := by
      simp only [isHighSurrogate, isLowSurrogate, Bool.and_eq_true, decide_eq_true_eq]
      omega
    have hscalar : pairScalar u v = cp := by
      unfold pairScalar
      omega
    rw [encode, if_pos hpair, hscalar, isWellFormedText, if_pos hpair]
    simp [encode, isWellFormedText]

theorem lt_of_isUnreserved {b : Byte} (h : isUnreserved b = true) :
    b.val < 0x80 ∧ b.val ≠ 0x25 ∧ b.val ≠ 0x2f := by
  simp only [isUnreserved, decide_eq_true_eq, List.mem_cons, List.not_mem_nil, or_false] at h
  omega

/-- Only an unreserved character has an unreserved byte. -/
theorem encodeScalar_of_unreserved {cp : Nat} (hscalar : Utf8.IsScalar cp) {b : Byte}
    (hb : b ∈ encodeScalar cp) (hfree : isUnreserved b = true) :
    cp = b.val ∧ encodeScalar cp = [b] := by
  have hlt := lt_of_isUnreserved hfree
  have hcp : cp = b.val := by
    apply mem_of_mem_encodeScalar _ hb hlt.1
    unfold Utf8.IsScalar at hscalar
    omega
  refine ⟨hcp, ?_⟩
  rw [encodeScalar, if_pos (by omega), hcp, Fin.ofNat_val_eq_self]

/-! ## Round trip -/

theorem decodeEscapes_encodeURIComponent (before : JsString) {text : JsString}
    (hbefore : isWellFormedText before = true) (h : isWellFormedText text = true) :
    decodeEscapes (encode before) (encodeURIComponent text) = some (before ++ text) := by
  induction hlen : text.length using Nat.strong_induction_on generalizing before text with
  | _ n ih =>
      cases text with
      | nil =>
          rw [show encodeURIComponent [] = [] from rfl, List.append_nil, decodeEscapes,
            decodeStrict_encode hbefore]
      | cons u text =>
          rcases Utf8.encode_cons h with
            ⟨cp, us, rest, htext, hunits, hscalar, -, hencode, hrest, hle⟩
          have hshort : rest.length < n := by
            simp only [List.length_cons] at hlen
            omega
          have hbytes : encodeURIComponent (u :: text) =
              (encodeScalar cp).flatMap componentByte ++ encodeURIComponent rest := by
            rw [encodeURIComponent, hencode, List.flatMap_append]
            rfl
          have hchar := encode_units hscalar
          rw [hunits] at hchar
          rw [hbytes, htext]
          by_cases hplain : ∃ b ∈ encodeScalar cp, isUnreserved b = true
          · -- the character stays as it is
            rcases hplain with ⟨b, hb, hfree⟩
            have hlt := lt_of_isUnreserved hfree
            rcases encodeScalar_of_unreserved hscalar hb hfree with ⟨hcp, hscalarBytes⟩
            have hus : us = [Fin.ofNat _ b.val] := by
              rw [← hunits, Utf8.units, if_pos (by omega), hcp]
            have hne : (Fin.ofNat _ b.val : CodeUnit) ≠ unit '%' := by
              intro heq
              have hval := congrArg Fin.val heq
              rw [Fin.val_ofNat, Nat.mod_eq_of_lt (by omega)] at hval
              exact hlt.2.1 hval
            rw [hscalarBytes, List.flatMap_singleton, componentByte, if_pos hfree, hus,
              List.singleton_append, List.singleton_append]
            have hmore : decodeURIComponent (encodeURIComponent rest) = some rest := by
              have hempty := ih rest.length hshort [] rfl hrest rfl
              simpa [encode, decodeURIComponent] using hempty
            exact decodeEscapes_plain hbefore hne hmore
          · -- all its bytes are escaped
            have hescaped : (encodeScalar cp).flatMap componentByte =
                (encodeScalar cp).flatMap escapeByte := by
              apply List.flatMap_congr
              intro b hb
              rw [componentByte, if_neg fun hfree => hplain ⟨b, hb, hfree⟩]
            rw [hescaped, decodeEscapes_escapes, ← hchar.1, ← encode_append hbefore,
              ih rest.length hshort _ (isWellFormedText_append hbefore hchar.2) hrest rfl,
              List.append_assoc]

/-- What was encoded is read back. -/
theorem decodeURIComponent_encode {text : JsString} (h : isWellFormedText text = true) :
    decodeURIComponent (encodeURIComponent text) = some text :=
  decodeEscapes_encodeURIComponent [] rfl h

theorem encodeURIComponent_injective {left right : JsString} (hleft : isWellFormedText left = true)
    (hright : isWellFormedText right = true)
    (h : encodeURIComponent left = encodeURIComponent right) : left = right := by
  have hdecoded := congrArg decodeURIComponent h
  rw [decodeURIComponent_encode hleft, decodeURIComponent_encode hright] at hdecoded
  exact Option.some.inj hdecoded

/-! ## Path segments -/

/-- A text cut at an ASCII unit. -/
theorem isWellFormedText_cut {left right : JsString} {u : CodeUnit} (hu : u.val < 0x80) :
    isWellFormedText (left ++ u :: right) = true ↔
      isWellFormedText left = true ∧ isWellFormedText right = true := by
  have hnot : isSurrogate u = false := by simpa [isWellFormedText] using isWellFormedText_singleton hu
  have hlow : isLowSurrogate u = false := (Bool.or_eq_false_iff.mp hnot).2
  have hhigh : isHighSurrogate u = false := (Bool.or_eq_false_iff.mp hnot).1
  have hcons : isWellFormedText (u :: right) = isWellFormedText right := by
    cases right with
    | nil => simp [isWellFormedText, hnot]
    | cons v rest => simp [isWellFormedText, hhigh, hnot]
  induction left using isWellFormedText.induct with
  | case1 => simp [hcons, isWellFormedText]
  | case2 v => simp [isWellFormedText, hlow, hcons]
  | case3 v w rest hpair ih =>
      simp only [List.cons_append]
      rw [isWellFormedText, if_pos hpair, isWellFormedText, if_pos hpair]
      exact ih
  | case4 v w rest hpair ih =>
      simp only [List.cons_append] at ih ⊢
      rw [isWellFormedText, if_neg hpair, Bool.and_eq_true, isWellFormedText, if_neg hpair,
        Bool.and_eq_true, and_assoc]
      exact and_congr_right fun _ => ih

theorem slash_notMem_encodeURIComponent (text : JsString) :
    unit '/' ∉ encodeURIComponent text := by
  rw [encodeURIComponent, List.mem_flatMap]
  rintro ⟨b, -, hmem⟩
  unfold componentByte at hmem
  split_ifs at hmem with hfree
  · have hlt := lt_of_isUnreserved hfree
    have hval := congrArg Fin.val (List.mem_singleton.mp hmem)
    rw [Fin.val_ofNat, Nat.mod_eq_of_lt (by omega)] at hval
    exact hlt.2.2 hval.symm
  · have hhex : ∀ n < 16, unit '/' ≠ upperHex n := by decide
    have hb := b.isLt
    simp only [escapeByte, List.mem_cons, List.not_mem_nil, or_false] at hmem
    rcases hmem with hmem | hmem | hmem
    · exact absurd hmem (by decide)
    · exact hhex _ (by omega) hmem
    · exact hhex _ (by omega) hmem

theorem encodeURIComponent_ne_nil {text : JsString} (h : text ≠ []) :
    encodeURIComponent text ≠ [] := by
  intro hnil
  rw [encodeURIComponent, List.flatMap_eq_nil_iff] at hnil
  rcases List.exists_mem_of_ne_nil _ (encode_ne_nil h) with ⟨b, hb⟩
  have hbyte := hnil b hb
  unfold componentByte at hbyte
  split_ifs at hbyte
  cases hbyte

end Js
end ObjyDb
