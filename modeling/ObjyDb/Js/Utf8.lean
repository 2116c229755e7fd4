import ObjyDb.Js.Text

/-!
# Utf8 — writing strings as UTF-8 and reading them back

`encode` is what a file handle writes for a string.  `Utf8.decode` is the streaming decoder of a
read stream: an ill-formed or unfinished byte sequence becomes one U+FFFD.

* `Utf8.decode_encode` — a string without lone surrogates is read back;
* `Utf8.decode_take_encode` — a byte prefix of its encoding is read as a prefix of the string,
  followed by U+FFFD when the cut falls inside a character.
-/

namespace ObjyDb
namespace Js

abbrev Byte := Fin 256

instance neZero_byte : NeZero 256 := ⟨by decide⟩

/-- U+FFFD. -/
def replacementUnit : CodeUnit := 0xfffd

/-! ## Encoding -/

/-- The bytes of one code point. -/
def encodeScalar (cp : Nat) : List Byte :=
  if cp < 0x80 then [Fin.ofNat _ cp]
  else if cp < 0x800 then [Fin.ofNat _ (0xc0 + cp / 0x40), Fin.ofNat _ (0x80 + cp % 0x40)]
  else if cp < 0x10000 then
    [Fin.ofNat _ (0xe0 + cp / 0x1000), Fin.ofNat _ (0x80 + cp / 0x40 % 0x40),
      Fin.ofNat _ (0x80 + cp % 0x40)]
  else
    [Fin.ofNat _ (0xf0 + cp / 0x40000), Fin.ofNat _ (0x80 + cp / 0x1000 % 0x40),
      Fin.ofNat _ (0x80 + cp / 0x40 % 0x40), Fin.ofNat _ (0x80 + cp % 0x40)]

/-- The code point of a surrogate pair. -/
def pairScalar (high low : CodeUnit) : Nat :=
  0x10000 + (high.val - 0xd800) * 0x400 + (low.val - 0xdc00)

def encodeSingle (u : CodeUnit) : List Byte :=
  encodeScalar (if isSurrogate u then replacementUnit.val else u.val)

/-- The bytes written for a string; a lone surrogate is written as U+FFFD. -/
def encode : JsString → List Byte
  | [] => []
  | [u] => encodeSingle u
  | u :: v :: rest =>
      if isHighSurrogate u && isLowSurrogate v then
        encodeScalar (pairScalar u v) ++ encode rest
      else
        encodeSingle u ++ encode (v :: rest)

/-- No lone surrogate. -/
def isWellFormedText : JsString → Bool
  | [] => true
  | [u] => !isSurrogate u
  | u :: v :: rest =>
      if isHighSurrogate u && isLowSurrogate v then
        isWellFormedText rest
      else
        !isSurrogate u && isWellFormedText (v :: rest)

theorem encodeScalar_ne_nil (cp : Nat) : encodeScalar cp ≠ [] := by
  unfold encodeScalar
  split_ifs <;> simp

theorem encode_ne_nil {text : JsString} (h : text ≠ []) : encode text ≠ [] := by
  cases text using encode.induct with
  | case1 => exact absurd rfl h
  | case2 u => exact encodeScalar_ne_nil _
  | case3 u v rest hpair ih =>
      rw [encode, if_pos hpair]
      simp [encodeScalar_ne_nil]
  | case4 u v rest hpair ih =>
      rw [encode, if_neg hpair, encodeSingle]
      simp [encodeScalar_ne_nil]

theorem encode_append {left : JsString} (h : isWellFormedText left = true) (right : JsString) :
    encode (left ++ right) = encode left ++ encode right := by
  induction left using isWellFormedText.induct with
  | case1 => rfl
  | case2 u =>
      have hu : isSurrogate u = false := by simpa [isWellFormedText] using h
      have hhigh : isHighSurrogate u = false := (Bool.or_eq_false_iff.mp hu).1
      cases right with
      | nil => simp [encode]
      | cons v rest => simp [encode, hhigh]
  | case3 u v rest hpair ih =>
      rw [isWellFormedText, if_pos hpair] at h
      simp only [List.cons_append]
      rw [encode, encode, if_pos hpair, if_pos hpair, ih h, List.append_assoc]
  | case4 u v rest hpair ih =>
      rw [isWellFormedText, if_neg hpair, Bool.and_eq_true] at h
      simp only [List.cons_append] at ih ⊢
      rw [encode, encode, if_neg hpair, if_neg hpair, ih h.2, List.append_assoc]

/-- A byte below `0x80` is written only for that unit. -/
theorem mem_of_mem_encodeScalar {cp : Nat} {b : Byte} (hcp : cp < 0x110000)
    (h : b ∈ encodeScalar cp) (hb : b.val < 0x80) : cp = b.val := by
  unfold encodeScalar at h
  split_ifs at h <;>
    simp only [List.mem_cons, List.not_mem_nil, or_false, Fin.ext_iff, Fin.val_ofNat] at h <;> omega

theorem mem_of_mem_encode {text : JsString} {b : Byte} (h : b ∈ encode text)
    (hb : b.val < 0x80) : ∃ u ∈ text, u.val = b.val := by
  have hsingle : ∀ u : CodeUnit, b ∈ encodeSingle u → u.val = b.val := by
    intro u hu
    have hlt := u.isLt
    unfold encodeSingle at hu
    split_ifs at hu
    · have heq := mem_of_mem_encodeScalar (by decide) hu hb
      have hrep : replacementUnit.val = 0xfffd := rfl
      omega
    · exact mem_of_mem_encodeScalar (by omega) hu hb
  induction text using encode.induct with
  | case1 => cases h
  | case2 u => exact ⟨u, List.mem_singleton_self u, hsingle u h⟩
  | case3 u v rest hpair ih =>
      rw [encode, if_pos hpair, List.mem_append] at h
      rcases h with h | h
      · have hu := u.isLt
        have hv := v.isLt
        have hscalar : pairScalar u v < 0x110000 ∧ 0x10000 ≤ pairScalar u v := by
          simp only [isHighSurrogate, isLowSurrogate, Bool.and_eq_true, decide_eq_true_eq] at hpair
          unfold pairScalar
          omega
        have heq := mem_of_mem_encodeScalar hscalar.1 h hb
        omega
      · obtain ⟨w, hw, hval⟩ := ih h
        exact ⟨w, List.mem_cons_of_mem _ (List.mem_cons_of_mem _ hw), hval⟩
  | case4 u v rest hpair ih =>
      rw [encode, if_neg hpair, List.mem_append] at h
      rcases h with h | h
      · exact ⟨u, List.mem_cons_self, hsingle u h⟩
      · obtain ⟨w, hw, hval⟩ := ih h
        exact ⟨w, List.mem_cons_of_mem _ hw, hval⟩

theorem isWellFormedText_append {left right : JsString} (hleft : isWellFormedText left = true)
    (hright : isWellFormedText right = true) : isWellFormedText (left ++ right) = true := by
  induction left using isWellFormedText.induct with
  | case1 => exact hright
  | case2 u =>
      have hu : isSurrogate u = false := by simpa [isWellFormedText] using hleft
      have hhigh : isHighSurrogate u = false := (Bool.or_eq_false_iff.mp hu).1
      cases right with
      | nil => simpa using hleft
      | cons v rest => simp [isWellFormedText, hhigh, hu, hright]
  | case3 u v rest hpair ih =>
      rw [isWellFormedText, if_pos hpair] at hleft
      simp only [List.cons_append]
      rw [isWellFormedText, if_pos hpair]
      exact ih hleft
  | case4 u v rest hpair ih =>
      rw [isWellFormedText, if_neg hpair, Bool.and_eq_true] at hleft
      simp only [List.cons_append] at ih ⊢
      rw [isWellFormedText, if_neg hpair, Bool.and_eq_true]
      exact ⟨hleft.1, ih hleft.2⟩

theorem isWellFormedText_singleton {u : CodeUnit} (h : u.val < 0x80) :
    isWellFormedText [u] = true := by
  simp only [isWellFormedText, isSurrogate, isHighSurrogate, isLowSurrogate, Bool.not_eq_true',
    Bool.or_eq_false_iff, Bool.and_eq_false_iff, decide_eq_false_iff_not]
  omega

theorem isWellFormedText_of_ascii {text : JsString} (h : ∀ u ∈ text, u.val < 0x80) :
    isWellFormedText text = true := by
  induction text with
  | nil => rfl
  | cons u text ih =>
      have hu := isWellFormedText_singleton (h u List.mem_cons_self)
      exact isWellFormedText_append hu (ih (fun v hv => h v (List.mem_cons_of_mem _ hv)))

/-! ## Decoding -/

/-- A character of which some bytes are read: bytes still needed, the range of the next one, and
the bits read so far. -/
structure Pending where
  need : Nat
  lower : Nat
  upper : Nat
  cp : Nat
  deriving DecidableEq

structure Utf8Decoder where
  out : JsString
  pending : Option Pending
  deriving DecidableEq

namespace Utf8

/-- The units of a code point. -/
def units (cp : Nat) : JsString :=
  if cp < 0x10000 then [Fin.ofNat _ cp]
  else [Fin.ofNat _ (0xd800 + (cp - 0x10000) / 0x400), Fin.ofNat _ (0xdc00 + (cp - 0x10000) % 0x400)]

/-- The first byte of a character. -/
def stepLead (out : JsString) (b : Nat) : Utf8Decoder :=
  if b < 0x80 then ⟨out ++ [Fin.ofNat _ b], none⟩
  else if 0xc2 ≤ b ∧ b < 0xe0 then ⟨out, some ⟨1, 0x80, 0xbf, b % 0x20⟩⟩
  else if 0xe0 ≤ b ∧ b < 0xf0 then
    ⟨out, some ⟨2, if b = 0xe0 then 0xa0 else 0x80, if b = 0xed then 0x9f else 0xbf, b % 0x10⟩⟩
  else if 0xf0 ≤ b ∧ b < 0xf5 then
    ⟨out, some ⟨3, if b = 0xf0 then 0x90 else 0x80, if b = 0xf4 then 0x8f else 0xbf, b % 8⟩⟩
  else ⟨out ++ [replacementUnit], none⟩

def step (d : Utf8Decoder) (b : Byte) : Utf8Decoder :=
  match d.pending with
  | none => stepLead d.out b.val
  | some p =>
      if p.lower ≤ b.val ∧ b.val ≤ p.upper then
        let cp := p.cp * 0x40 + b.val % 0x40
        if p.need = 1 then ⟨d.out ++ units cp, none⟩
        else ⟨d.out, some ⟨p.need - 1, 0x80, 0xbf, cp⟩⟩
      else
        -- the unfinished character is replaced and the byte starts the next one
        stepLead (d.out ++ [replacementUnit]) b.val

def run (d : Utf8Decoder) (bytes : List Byte) : Utf8Decoder :=
  bytes.foldl step d

/-- The end of the stream. -/
def finish (d : Utf8Decoder) : JsString :=
  match d.pending with
  | none => d.out
  | some _ => d.out ++ [replacementUnit]

def decode (bytes : List Byte) : JsString :=
  finish (run ⟨[], none⟩ bytes)

@[simp] theorem run_nil (d : Utf8Decoder) : run d [] = d := rfl

theorem run_cons (d : Utf8Decoder) (b : Byte) (bytes : List Byte) :
    run d (b :: bytes) = run (step d b) bytes := rfl

theorem run_append (d : Utf8Decoder) (left right : List Byte) :
    run d (left ++ right) = run (run d left) right := by
  simp [run, List.foldl_append]

/-- What is already read is only extended. -/
theorem stepLead_out (out : JsString) (b : Nat) :
    stepLead out b = ⟨out ++ (stepLead [] b).out, (stepLead [] b).pending⟩ := by
  unfold stepLead
  split_ifs <;> simp

theorem step_out (d : Utf8Decoder) (b : Byte) :
    step d b = ⟨d.out ++ (step ⟨[], d.pending⟩ b).out, (step ⟨[], d.pending⟩ b).pending⟩ := by
  obtain ⟨out, pending⟩ := d
  cases pending with
  | none => exact stepLead_out out b.val
  | some p =>
      simp only [step]
      split_ifs
      · simp
      · simp
      · rw [stepLead_out (out ++ [replacementUnit]), stepLead_out ([] ++ [replacementUnit])]
        simp

theorem run_out (d : Utf8Decoder) (bytes : List Byte) :
    run d bytes = ⟨d.out ++ (run ⟨[], d.pending⟩ bytes).out, (run ⟨[], d.pending⟩ bytes).pending⟩ := by
  induction bytes generalizing d with
  | nil => simp
  | cons b bytes ih =>
      rw [run_cons, run_cons, ih (step d b), ih (step ⟨[], d.pending⟩ b), step_out d b]
      simp

/-! ## One character -/

/-- A code point that is no surrogate. -/
def IsScalar (cp : Nat) : Prop :=
  cp < 0xd800 ∨ 0xe000 ≤ cp ∧ cp < 0x110000

theorem step_continue {out : JsString} {p : Pending} {x : Nat} (hneed : p.need ≠ 1) (hx : x < 0x100)
    (hlower : p.lower ≤ x) (hupper : x ≤ p.upper) :
    step ⟨out, some p⟩ (Fin.ofNat _ x) =
      ⟨out, some ⟨p.need - 1, 0x80, 0xbf, p.cp * 0x40 + x % 0x40⟩⟩ := by
  simp [step, Nat.mod_eq_of_lt hx, hlower, hupper, hneed]

theorem step_last {out : JsString} {p : Pending} {x cp : Nat} (hneed : p.need = 1) (hx : x < 0x100)
    (hlower : p.lower ≤ x) (hupper : x ≤ p.upper) (hcp : p.cp * 0x40 + x % 0x40 = cp) :
    step ⟨out, some p⟩ (Fin.ofNat _ x) = ⟨out ++ units cp, none⟩ := by
  simp [step, Nat.mod_eq_of_lt hx, hlower, hupper, hneed, hcp]

theorem step_lead {out : JsString} {x : Nat} (hx : x < 0x100) :
    step ⟨out, none⟩ (Fin.ofNat _ x) = stepLead out x := by
  simp [step, Nat.mod_eq_of_lt hx]

/-- The bytes leave `out` alone until the last one, which appends `us`. -/
def Feeds (out : JsString) (us : JsString) : Utf8Decoder → List Byte → Prop
  | _, [] => False
  | d, [b] => step d b = ⟨out ++ us, none⟩
  | d, b :: c :: rest => ∃ p, step d b = ⟨out, some p⟩ ∧ Feeds out us ⟨out, some p⟩ (c :: rest)

theorem encodeScalar_feeds {cp : Nat} (h : IsScalar cp) (out : JsString) :
    Feeds out (units cp) ⟨out, none⟩ (encodeScalar cp) := by
  have hcp : cp < 0x110000 := by
    rcases h with h | h <;> omega
  unfold encodeScalar
  split_ifs with h1 h2 h3
  · have hunits : units cp = [Fin.ofNat _ cp] := if_pos (by omega)
    rw [Feeds, step_lead (by omega), stepLead, if_pos h1, hunits]
  · have hlead : stepLead out (0xc0 + cp / 0x40) =
        ⟨out, some ⟨1, 0x80, 0xbf, (0xc0 + cp / 0x40) % 0x20⟩⟩ := by
      rw [stepLead, if_neg (by omega), if_pos (by omega)]
    refine ⟨_, (step_lead (by omega)).trans hlead, ?_⟩
    exact step_last rfl (by omega) (by simp) (by simp only; omega) (by simp only; omega)
  · have hlead : stepLead out (0xe0 + cp / 0x1000) =
        ⟨out, some ⟨2, if 0xe0 + cp / 0x1000 = 0xe0 then 0xa0 else 0x80,
          if 0xe0 + cp / 0x1000 = 0xed then 0x9f else 0xbf, (0xe0 + cp / 0x1000) % 0x10⟩⟩ := by
      rw [stepLead, if_neg (by omega), if_neg (by omega), if_pos (by omega)]
    refine ⟨_, (step_lead (by omega)).trans hlead,
      _, step_continue (by simp) (by omega) ?_ ?_,
      step_last rfl (by omega) (by simp) (by simp only; omega) (by simp only; omega)⟩
    · simp only
      split_ifs <;> omega
    · rcases h with h | h <;> simp only <;> split_ifs <;> omega
  · have hlead : stepLead out (0xf0 + cp / 0x40000) =
        ⟨out, some ⟨3, if 0xf0 + cp / 0x40000 = 0xf0 then 0x90 else 0x80,
          if 0xf0 + cp / 0x40000 = 0xf4 then 0x8f else 0xbf, (0xf0 + cp / 0x40000) % 8⟩⟩ := by
      rw [stepLead, if_neg (by omega), if_neg (by omega), if_neg (by omega), if_pos (by omega)]
    refine ⟨_, (step_lead (by omega)).trans hlead,
      _, step_continue (by simp) (by omega) ?_ ?_,
      _, step_continue (by simp) (by omega) (by simp) (by simp only; omega),
      step_last rfl (by omega) (by simp) (by simp only; omega) (by simp only; omega)⟩
    · simp only
      split_ifs <;> omega
    · simp only
      split_ifs <;> omega

theorem Feeds.run_eq {out us : JsString} {d : Utf8Decoder} {bytes : List Byte}
    (h : Feeds out us d bytes) : run d bytes = ⟨out ++ us, none⟩ := by
  induction bytes generalizing d with
  | nil => cases h
  | cons b rest ih =>
      cases rest with
      | nil => exact h
      | cons c rest =>
          obtain ⟨p, hstep, hrest⟩ := h
          rw [run_cons, hstep]
          exact ih hrest

/-- Cut inside a character, the bytes leave it pending. -/
theorem Feeds.run_take {out us : JsString} {d : Utf8Decoder} {bytes : List Byte}
    (h : Feeds out us d bytes) {n : Nat} (hpos : 0 < n) (hn : n < bytes.length) :
    ∃ p, run d (bytes.take n) = ⟨out, some p⟩ := by
  induction bytes generalizing d n with
  | nil => cases h
  | cons b rest ih =>
      cases rest with
      | nil =>
          simp only [List.length_singleton] at hn
          omega
      | cons c rest =>
          obtain ⟨p, hstep, hrest⟩ := h
          obtain ⟨m, rfl⟩ := Nat.exists_eq_add_of_lt hpos
          rw [Nat.zero_add, List.take_succ_cons, run_cons, hstep]
          by_cases hm : m = 0
          · exact ⟨p, by rw [hm, List.take_zero, run_nil]⟩
          · exact ih hrest (Nat.pos_of_ne_zero hm) (by simp only [List.length_cons] at hn ⊢; omega)

/-! ## Characters of a string -/

theorem isScalar_of_not_surrogate {u : CodeUnit} (h : isSurrogate u = false) :
    IsScalar u.val := by
  have hu := u.isLt
  simp only [isSurrogate, isHighSurrogate, isLowSurrogate, Bool.or_eq_false_iff,
    Bool.and_eq_false_iff, decide_eq_false_iff_not] at h
  unfold IsScalar
  omega

theorem units_of_not_surrogate (u : CodeUnit) : units u.val = [u] := by
  rw [units, if_pos u.isLt]
  simp

theorem pairScalar_spec {u v : CodeUnit} (h : (isHighSurrogate u && isLowSurrogate v) = true) :
    IsScalar (pairScalar u v) ∧ units (pairScalar u v) = [u, v] := by
  simp only [isHighSurrogate, isLowSurrogate, Bool.and_eq_true, decide_eq_true_eq] at h
  refine ⟨Or.inr (by unfold pairScalar; omega), ?_⟩
  have hu : 0xd800 + (pairScalar u v - 0x10000) / 0x400 = u.val := by
    unfold pairScalar
    omega
  have hv : 0xdc00 + (pairScalar u v - 0x10000) % 0x400 = v.val := by
    unfold pairScalar
    omega
  rw [units, if_neg (by unfold pairScalar; omega), hu, hv, Fin.ofNat_val_eq_self,
    Fin.ofNat_val_eq_self]

/-- A well-formed text is a sequence of characters. -/
theorem encode_cons {u : CodeUnit} {text : JsString} (h : isWellFormedText (u :: text) = true) :
    ∃ cp us rest, u :: text = us ++ rest ∧ units cp = us ∧ IsScalar cp ∧
      (u.val < 0x80 → cp < 0x80) ∧ encode (u :: text) = encodeScalar cp ++ encode rest ∧
      isWellFormedText rest = true ∧ rest.length ≤ text.length := by
  have hsingle : isSurrogate u = false → encodeSingle u = encodeScalar u.val := by
    intro hs
    simp [encodeSingle, hs]
  cases text with
  | nil =>
      have hs : isSurrogate u = false := by simpa [isWellFormedText] using h
      exact ⟨u.val, [u], [], rfl, units_of_not_surrogate u, isScalar_of_not_surrogate hs, id,
        by simp [encode, hsingle hs], rfl, le_rfl⟩
  | cons v rest =>
      rw [isWellFormedText] at h
      split_ifs at h with hpair
      · obtain ⟨hscalar, hunits⟩ := pairScalar_spec hpair
        refine ⟨pairScalar u v, [u, v], rest, rfl, hunits, hscalar, ?_, ?_, h, by simp⟩
        · intro hlt
          simp only [isHighSurrogate, Bool.and_eq_true, decide_eq_true_eq] at hpair
          omega
        · rw [encode, if_pos hpair]
      · rw [Bool.and_eq_true, Bool.not_eq_true'] at h
        refine ⟨u.val, [u], v :: rest, rfl, units_of_not_surrogate u,
          isScalar_of_not_surrogate h.1, id, ?_, h.2, le_rfl⟩
        rw [encode, if_neg hpair, hsingle h.1]

/-! ## Strings -/

theorem run_encode {text : JsString} (h : isWellFormedText text = true) (out : JsString) :
    run ⟨out, none⟩ (encode text) = ⟨out ++ text, none⟩ := by
  induction hlen : text.length using Nat.strong_induction_on generalizing text out with
  | _ n ih =>
      cases text with
      | nil => simp [encode]
      | cons u text =>
          obtain ⟨cp, us, rest, htext, hunits, hscalar, -, hencode, hwf, hle⟩ := encode_cons h
          rw [hencode, run_append, (encodeScalar_feeds hscalar out).run_eq,
            ih rest.length (by simp only [List.length_cons] at hlen; omega) hwf _ rfl, hunits,
            List.append_assoc, ← htext]

/-- A string without lone surrogates is read back. -/
theorem decode_encode {text : JsString} (h : isWellFormedText text = true) :
    decode (encode text) = text := by
  rw [decode, run_encode h]
  rfl

theorem decode_encode_append {text : JsString} (h : isWellFormedText text = true)
    (bytes : List Byte) : decode (encode text ++ bytes) = text ++ decode bytes := by
  rw [decode, run_append, run_encode h, run_out, decode, finish, finish]
  cases (run ⟨[], none⟩ bytes).pending <;> simp

/-- The bytes of a text, cut before their end: a prefix of the text is read, and the next character
is pending if the cut falls inside it. -/
theorem run_take_encode {text : JsString} (h : isWellFormedText text = true) (out : JsString)
    {n : Nat} (hn : n < (encode text).length) :
    ∃ before c rest, text = before ++ c :: rest ∧
      (run ⟨out, none⟩ ((encode text).take n) = ⟨out ++ before, none⟩ ∨
        0x80 ≤ c.val ∧ ∃ p, run ⟨out, none⟩ ((encode text).take n) = ⟨out ++ before, some p⟩) := by
  induction hlen : text.length using Nat.strong_induction_on generalizing text out n with
  | _ l ih =>
      cases text with
      | nil => simp [encode] at hn
      | cons u text =>
          obtain ⟨cp, us, rest, htext, hunits, hscalar, hascii, hencode, hwf, hle⟩ :=
            encode_cons h
          have hfeeds := encodeScalar_feeds hscalar out
          rw [hencode] at hn ⊢
          by_cases hcut : n < (encodeScalar cp).length
          · -- the cut falls before or inside the first character
            refine ⟨[], u, text, rfl, ?_⟩
            rw [List.take_append_of_le_length hcut.le, List.append_nil]
            by_cases hzero : n = 0
            · exact Or.inl (by simp [hzero])
            · refine Or.inr ⟨?_, hfeeds.run_take (Nat.pos_of_ne_zero hzero) hcut⟩
              by_contra hu
              have hcp : cp < 0x80 := hascii (not_le.mp hu)
              rw [encodeScalar, if_pos hcp, List.length_singleton] at hcut
              omega
          · obtain ⟨m, rfl⟩ := Nat.exists_eq_add_of_le (not_lt.mp hcut)
            have hm : m < (encode rest).length := by
              rw [List.length_append] at hn
              omega
            obtain ⟨before, c, tail, hrest, hrun⟩ :=
              ih rest.length (by simp only [List.length_cons] at hlen; omega) hwf (out ++ us) hm rfl
            refine ⟨us ++ before, c, tail, ?_, ?_⟩
            · rw [htext, hrest, List.append_assoc]
            · rw [List.take_length_add_append, run_append, hfeeds.run_eq, hunits, ← List.append_assoc]
              exact hrun

/-- Cut before their end, the bytes of a text decode to a prefix of it, with U+FFFD in the place of
a character that the cut falls in. -/
theorem decode_take_encode {text : JsString} (h : isWellFormedText text = true) {n : Nat}
    (hn : n < (encode text).length) :
    ∃ before c rest, text = before ++ c :: rest ∧
      (decode ((encode text).take n) = before ∨
        0x80 ≤ c.val ∧ decode ((encode text).take n) = before ++ [replacementUnit]) := by
  obtain ⟨before, c, rest, htext, hrun⟩ := run_take_encode h [] hn
  refine ⟨before, c, rest, htext, ?_⟩
  rcases hrun with hrun | ⟨hc, p, hrun⟩
  · exact Or.inl (by rw [decode, hrun]; rfl)
  · exact Or.inr ⟨hc, by rw [decode, hrun]; rfl⟩

end Utf8

end Js
end ObjyDb
