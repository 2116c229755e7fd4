import ObjyDb.Js.Utf8

/-!
# WellFormed — texts as their bytes keep them

Writing a string as bytes replaces lone surrogates.  `toWellFormed` is the text that is left, and
what a reader of the bytes gets.

* `encode_toWellFormed` — the bytes of a string are those of its well-formed text;
* `toWellFormed_eq_iff` — exactly the well-formed texts are left as they are;
* `toWellFormed_append` — a text is replaced piece by piece where no pair is torn apart;
* `trim_toWellFormed` — a trimmed text stays trimmed.
-/

namespace ObjyDb
namespace Js

/-- `text.toWellFormed()` -/
def toWellFormed : JsString → JsString
  | [] => []
  | [u] => [if isSurrogate u then replacementUnit else u]
  | u :: v :: rest =>
      if isHighSurrogate u && isLowSurrogate v then
        u :: v :: toWellFormed rest
      else
        (if isSurrogate u then replacementUnit else u) :: toWellFormed (v :: rest)

/-! ## Single units -/

theorem isSurrogate_single (u : CodeUnit) :
    isSurrogate (if isSurrogate u then replacementUnit else u) = false := by
  by_cases hu : isSurrogate u = true
  · rw [if_pos hu]
    rfl
  · rw [if_neg hu]
    simpa using hu

theorem isWellFormedText_single (u : CodeUnit) :
    isWellFormedText [if isSurrogate u then replacementUnit else u] = true := by
  simp [isWellFormedText, isSurrogate_single]

theorem encode_single (u : CodeUnit) :
    encode [if isSurrogate u then replacementUnit else u] = encodeSingle u := by
  rw [encode, encodeSingle, isSurrogate_single, encodeSingle]
  by_cases hu : isSurrogate u = true
  · simp [hu]
  · simp [hu]

/-! ## Whole texts -/

theorem isWellFormedText_toWellFormed (text : JsString) :
    isWellFormedText (toWellFormed text) = true := by
  induction text using toWellFormed.induct with
  | case1 => rfl
  | case2 u => exact isWellFormedText_single u
  | case3 u v rest hpair ih =>
      rw [toWellFormed, if_pos hpair, isWellFormedText, if_pos hpair]
      exact ih
  | case4 u v rest hpair ih =>
      rw [toWellFormed, if_neg hpair]
      exact isWellFormedText_append (isWellFormedText_single u) ih

theorem encode_toWellFormed (text : JsString) : encode (toWellFormed text) = encode text := by
  induction text using toWellFormed.induct with
  | case1 => rfl
  | case2 u => exact encode_single u
  | case3 u v rest hpair ih =>
      rw [toWellFormed, if_pos hpair, encode, encode, if_pos hpair, if_pos hpair, ih]
  | case4 u v rest hpair ih =>
      have happend := encode_append (isWellFormedText_single u) (toWellFormed (v :: rest))
      rw [toWellFormed, if_neg hpair, encode, if_neg hpair, ← ih, ← encode_single]
      exact happend

theorem decode_encode_toWellFormed (text : JsString) :
    Utf8.decode (encode text) = toWellFormed text := by
  rw [← encode_toWellFormed, Utf8.decode_encode (isWellFormedText_toWellFormed text)]

theorem toWellFormed_of_wellFormed {text : JsString} (h : isWellFormedText text = true) :
    toWellFormed text = text := by
  rw [← decode_encode_toWellFormed, Utf8.decode_encode h]

/-- Exactly the well-formed texts are left as they are. -/
theorem toWellFormed_eq_iff {text : JsString} :
    toWellFormed text = text ↔ isWellFormedText text = true := by
  constructor
  · intro h
    exact h ▸ isWellFormedText_toWellFormed text
  · exact toWellFormed_of_wellFormed

/-- No pair is torn apart where the second piece does not begin with a low surrogate. -/
theorem toWellFormed_append {left right : JsString}
    (h : ∀ v ∈ right.head?, isLowSurrogate v = false) :
    toWellFormed (left ++ right) = toWellFormed left ++ toWellFormed right := by
  induction left using toWellFormed.induct with
  | case1 => rfl
  | case2 u =>
      cases right with
      | nil => simp [toWellFormed]
      | cons v rest =>
          have hv : isLowSurrogate v = false := h v rfl
          simp [toWellFormed, hv]
  | case3 u v rest hpair ih =>
      simp only [List.cons_append]
      rw [toWellFormed, toWellFormed, if_pos hpair, if_pos hpair, ih]
      rfl
  | case4 u v rest hpair ih =>
      simp only [List.cons_append] at ih ⊢
      rw [toWellFormed, toWellFormed, if_neg hpair, if_neg hpair, ih]
      rfl

theorem toWellFormed_append_of_wellFormed {left : JsString} (h : isWellFormedText left = true)
    (right : JsString) : toWellFormed (left ++ right) = left ++ toWellFormed right := by
  induction left using isWellFormedText.induct with
  | case1 => rfl
  | case2 u =>
      have hu : isSurrogate u = false := by simpa [isWellFormedText] using h
      have hhigh : isHighSurrogate u = false := (Bool.or_eq_false_iff.mp hu).1
      cases right with
      | nil => simp [toWellFormed, hu]
      | cons v rest => simp [toWellFormed, hhigh, hu]
  | case3 u v rest hpair ih =>
      rw [isWellFormedText, if_pos hpair] at h
      simp only [List.cons_append]
      rw [toWellFormed, if_pos hpair, ih h]
  | case4 u v rest hpair ih =>
      rw [isWellFormedText, if_neg hpair, Bool.and_eq_true, Bool.not_eq_true'] at h
      simp only [List.cons_append] at ih ⊢
      rw [toWellFormed, if_neg hpair, ih h.2, h.1]
      rfl

/-- Bytes are written piece by piece where no pair is torn apart. -/
theorem encode_append_of_head {left right : JsString}
    (h : ∀ v ∈ right.head?, isLowSurrogate v = false) :
    encode (left ++ right) = encode left ++ encode right := by
  calc encode (left ++ right)
      = encode (toWellFormed left ++ toWellFormed right) := by
        rw [← encode_toWellFormed, toWellFormed_append h]
    _ = encode (toWellFormed left) ++ encode (toWellFormed right) :=
        encode_append (isWellFormedText_toWellFormed left) _
    _ = encode left ++ encode right := by rw [encode_toWellFormed, encode_toWellFormed]

/-! ## What is kept unit by unit -/

/-- Every predicate that tells no surrogate from the replacement holds at the same places. -/
theorem map_toWellFormed {α : Type} (f : CodeUnit → α)
    (h : ∀ u, isSurrogate u = true → f u = f replacementUnit) (text : JsString) :
    (toWellFormed text).map f = text.map f := by
  have hsingle : ∀ u, f (if isSurrogate u then replacementUnit else u) = f u := by
    intro u
    by_cases hu : isSurrogate u = true
    · rw [if_pos hu, h u hu]
    · rw [if_neg hu]
  induction text using toWellFormed.induct with
  | case1 => rfl
  | case2 u => simp [toWellFormed, hsingle]
  | case3 u v rest hpair ih =>
      rw [toWellFormed, if_pos hpair]
      simp [ih]
  | case4 u v rest hpair ih =>
      rw [toWellFormed, if_neg hpair, List.map_cons, ih, hsingle]
      rfl

theorem mem_toWellFormed {c : CodeUnit} (hc : c.val < 0x80) (text : JsString) :
    c ∈ toWellFormed text ↔ c ∈ text := by
  have hsurrogate : ∀ u, isSurrogate u = true → u ≠ c := by
    rintro u hu rfl
    simp only [isSurrogate, isHighSurrogate, isLowSurrogate, Bool.or_eq_true, Bool.and_eq_true,
      decide_eq_true_eq] at hu
    omega
  have hrep : replacementUnit ≠ c := by
    rintro rfl
    exact absurd hc (by decide)
  have hmap := map_toWellFormed (fun u => decide (u = c))
    (fun u hu => by simp [hsurrogate u hu, hrep]) text
  have hmem : ∀ s : JsString, c ∈ s ↔ true ∈ s.map (fun u => decide (u = c)) := by
    intro s
    simp
  rw [hmem, hmem, hmap]

theorem isTrimSpace_surrogate {u : CodeUnit} (h : isSurrogate u = true) :
    isTrimSpace u = isTrimSpace replacementUnit := by
  have hrange : 0xd800 ≤ u.val ∧ u.val < 0xe000 := by
    simp only [isSurrogate, isHighSurrogate, isLowSurrogate, Bool.or_eq_true, Bool.and_eq_true,
      decide_eq_true_eq] at h
    omega
  have hrep : isTrimSpace replacementUnit = false := by decide
  rw [hrep, isTrimSpace, decide_eq_false_iff_not]
  intro hmem
  simp only [List.mem_cons, List.not_mem_nil, or_false] at hmem
  omega

theorem trim_eq_self_iff {text : JsString} :
    trim text = text ↔ (∀ b ∈ (text.map isTrimSpace).head?, b = false) ∧
      ∀ b ∈ (text.map isTrimSpace).getLast?, b = false := by
  have hends : trim text = text ↔
      text.dropWhile isTrimSpace = text ∧ text.rdropWhile isTrimSpace = text := by
    constructor
    · intro h
      -- neither end may lose a unit
      have hbegins := List.rdropWhile_prefix isTrimSpace (text.dropWhile isTrimSpace)
      have hsuffix := List.dropWhile_suffix isTrimSpace (l := text)
      have hlen : text.length ≤ (text.dropWhile isTrimSpace).length := by
        calc text.length = (trim text).length := by rw [h]
          _ ≤ (text.dropWhile isTrimSpace).length := hbegins.length_le
      have hfront := hsuffix.eq_of_length_le hlen
      refine ⟨hfront, ?_⟩
      rw [trim, hfront] at h
      exact h
    · rintro ⟨hfront, hback⟩
      rw [trim, hfront, hback]
  rw [hends, List.dropWhile_eq_self_iff, List.rdropWhile_eq_self_iff]
  cases htext : text with
  | nil => simp
  | cons u rest =>
      rw [List.getLast?_map, List.getLast?_eq_some_getLast (List.cons_ne_nil u rest)]
      simp

/-- A trimmed text stays trimmed. -/
theorem trim_toWellFormed {text : JsString} (h : trim text = text) :
    trim (toWellFormed text) = toWellFormed text := by
  rw [trim_eq_self_iff] at h ⊢
  rwa [map_toWellFormed isTrimSpace (fun u => isTrimSpace_surrogate)]

end Js
end ObjyDb
