import ObjyDb.Js.JsonCharset
import ObjyDb.Js.Lines

/-!
# Garbled — JSON texts in which characters became U+FFFD

A stream that is decoded chunk by chunk reads U+FFFD, at least twice, in the place of a character
that a chunk boundary falls in.  `Garbled n text text'` says that `text'` is `text` with `n` of its
characters outside ASCII lost so.

* `parse_garbled` — the text of a value in which a character is lost does not read as that value.
-/

namespace ObjyDb
namespace Js

inductive Garbled : Nat → JsString → JsString → Prop where
  | nil : Garbled 0 [] []
  | keep {n : Nat} {rest rest' : JsString} (cp : Nat) : Utf8.IsScalar cp →
      Garbled n rest rest' → Garbled n (Utf8.units cp ++ rest) (Utf8.units cp ++ rest')
  | lose {n : Nat} {rest rest' : JsString} (cp k : Nat) : Utf8.IsScalar cp → 0x80 ≤ cp → 2 ≤ k →
      Garbled n rest rest' →
      Garbled (n + 1) (Utf8.units cp ++ rest) (List.replicate k replacementUnit ++ rest')

namespace Garbled

theorem eq_of_zero {text text' : JsString} (h : Garbled 0 text text') : text' = text := by
  generalize hn : 0 = n at h
  induction h with
  | nil => rfl
  | keep cp _ _ ih => rw [ih hn]
  | lose => omega

/-- U+FFFD occurs more often with every lost character. -/
theorem count_le {n : Nat} {text text' : JsString} (h : Garbled n text text') :
    text.count replacementUnit + n ≤ text'.count replacementUnit := by
  induction h with
  | nil => simp
  | keep cp _ _ ih =>
      rw [List.count_append, List.count_append]
      omega
  | lose cp k hcp _ hk _ ih =>
      have hone : (Utf8.units cp).count replacementUnit ≤ 1 := by
        have hrep : replacementUnit.val = 0xfffd := rfl
        unfold Utf8.units
        split_ifs with hsmall
        · exact List.count_le_length
        · have hnone : replacementUnit ∉ ([Fin.ofNat _ (0xd800 + (cp - 0x10000) / 0x400),
              Fin.ofNat _ (0xdc00 + (cp - 0x10000) % 0x400)] : JsString) := by
            unfold Utf8.IsScalar at hcp
            simp only [List.mem_cons, List.not_mem_nil, or_false, Fin.ext_iff, hrep, Fin.val_ofNat]
            omega
          rw [List.count_eq_zero_of_not_mem hnone]
          omega
      rw [List.count_append, List.count_append, List.count_replicate_self]
      omega

theorem encode_cons' {u : CodeUnit} {text : JsString} (h : isWellFormedText (u :: text) = true) :
    ∃ cp rest, u :: text = Utf8.units cp ++ rest ∧ Utf8.IsScalar cp ∧
      isWellFormedText rest = true := by
  rcases Utf8.encode_cons h with ⟨cp, us, rest, htext, hunits, hscalar, -, -, hwf, -⟩
  exact ⟨cp, rest, by rw [htext, hunits], hscalar, hwf⟩

/-- The units of two code points begin the same text only when they are the same. -/
theorem units_append_inj {cp cp' : Nat} (hcp : Utf8.IsScalar cp) (hcp' : Utf8.IsScalar cp')
    {rest rest' : JsString} (h : Utf8.units cp ++ rest = Utf8.units cp' ++ rest') :
    Utf8.units cp = Utf8.units cp' ∧ rest = rest' := by
  unfold Utf8.IsScalar at hcp hcp'
  unfold Utf8.units at h ⊢
  split_ifs at h ⊢ with hsmall hsmall' hsmall'
  · have hparts := List.cons.inj h
    exact ⟨by rw [hparts.1], hparts.2⟩
  · have hparts := (List.cons.inj h).1
    simp only [Fin.ext_iff, Fin.val_ofNat] at hparts
    omega
  · have hparts := (List.cons.inj h).1
    simp only [Fin.ext_iff, Fin.val_ofNat] at hparts
    omega
  · have hparts := List.cons.inj h
    have hparts' := List.cons.inj hparts.2
    exact ⟨by rw [hparts.1, hparts'.1], hparts'.2⟩

/-- A text cut at a character is garbled part by part. -/
theorem append_inv {left right : JsString} (hleft : isWellFormedText left = true) {n : Nat}
    {text' : JsString} (h : Garbled n (left ++ right) text') :
    ∃ m l left' right', text' = left' ++ right' ∧ n = m + l ∧ Garbled m left left' ∧
      Garbled l right right' := by
  generalize htext : left ++ right = text at h
  induction h generalizing left with
  | nil =>
      rcases List.append_eq_nil_iff.mp htext with ⟨rfl, rfl⟩
      exact ⟨0, 0, [], [], rfl, rfl, .nil, .nil⟩
  | @keep n rest rest' cp hcp hrest ih =>
      cases left with
      | nil =>
          rw [List.nil_append] at htext
          exact ⟨0, n, [], _, rfl, (Nat.zero_add n).symm, .nil, htext ▸ .keep cp hcp hrest⟩
      | cons u left =>
          rcases encode_cons' hleft with ⟨cp', left₁, hsplit, hcp', hwf⟩
          rw [hsplit, List.append_assoc] at htext
          rcases units_append_inj hcp' hcp htext with ⟨hunits, htail⟩
          rcases ih hwf htail with ⟨m, l, left', right', rfl, rfl, hl, hr⟩
          refine ⟨m, l, Utf8.units cp ++ left', right', by rw [List.append_assoc], rfl, ?_, hr⟩
          rw [hsplit, hunits]
          exact .keep cp hcp hl
  | @lose n rest rest' cp k hcp hascii hk hrest ih =>
      cases left with
      | nil =>
          rw [List.nil_append] at htext
          exact ⟨0, n + 1, [], _, rfl, (Nat.zero_add _).symm, .nil,
            htext ▸ .lose cp k hcp hascii hk hrest⟩
      | cons u left =>
          rcases encode_cons' hleft with ⟨cp', left₁, hsplit, hcp', hwf⟩
          rw [hsplit, List.append_assoc] at htext
          rcases units_append_inj hcp' hcp htext with ⟨hunits, htail⟩
          rcases ih hwf htail with ⟨m, l, left', right', rfl, rfl, hl, hr⟩
          refine ⟨m + 1, l, List.replicate k replacementUnit ++ left', right',
            by rw [List.append_assoc], by omega, ?_, hr⟩
          rw [hsplit, hunits]
          exact .lose cp k hcp hascii hk hl

/-- ASCII text is kept. -/
theorem of_ascii {n : Nat} {text text' : JsString} (h : Garbled n text text')
    (htext : ∀ u ∈ text, u.val < 0x80) : n = 0 ∧ text' = text := by
  induction h with
  | nil => exact ⟨rfl, rfl⟩
  | keep cp hcp hrest ih =>
      rcases ih fun u hu => htext u (List.mem_append_right _ hu) with ⟨rfl, rfl⟩
      exact ⟨rfl, rfl⟩
  | @lose n rest rest' cp k hcp hascii hk hrest ih =>
      exfalso
      unfold Utf8.IsScalar at hcp
      unfold Utf8.units at htext
      split_ifs at htext
      · have hu := htext (Fin.ofNat _ cp) (by simp)
        simp only [Fin.val_ofNat] at hu
        omega
      · have hu := htext (Fin.ofNat _ (0xd800 + (cp - 0x10000) / 0x400)) (by simp)
        simp only [Fin.val_ofNat] at hu
        omega

theorem ascii_of_all {text : JsString} (h : text.all (fun c => decide (c.val < 0x80)) = true) :
    ∀ c ∈ text, c.val < 0x80 := by
  intro c hc
  simpa using List.all_eq_true.mp h c hc

/-! ## String literals -/

theorem singleton_inv {u : CodeUnit} (hu : u.val < 0x80) {n : Nat} {right text' : JsString}
    (h : Garbled n (u :: right) text') :
    ∃ right', text' = u :: right' ∧ Garbled n right right' := by
  have happend : Garbled n ([u] ++ right) text' := h
  rcases append_inv (isWellFormedText_singleton hu) happend with
    ⟨m, l, left', right', rfl, rfl, hl, hr⟩
  rcases hl.of_ascii (by simpa using hu) with ⟨rfl, rfl⟩
  exact ⟨right', rfl, by rwa [Nat.zero_add]⟩

/-- One character, kept or lost. -/
theorem character_inv {cp n : Nat} (hcp : Utf8.IsScalar cp) {text' : JsString}
    (h : Garbled n (Utf8.units cp) text') :
    text' = Utf8.units cp ∨ ∃ k, text' = List.replicate (k + 1) replacementUnit := by
  have hnil : ∀ {m : Nat} {rest : JsString}, Garbled m [] rest → rest = [] :=
    fun hrest => (hrest.of_ascii (by simp)).2
  generalize htext : Utf8.units cp = text at h
  rw [← List.append_nil (Utf8.units cp)] at htext
  cases h with
  | nil => exact Or.inl rfl
  | keep cp' hcp' hrest =>
      rcases units_append_inj hcp hcp' htext with ⟨-, rfl⟩
      rw [hnil hrest]
      exact Or.inl rfl
  | lose cp' k hcp' hascii hk hrest =>
      rcases units_append_inj hcp hcp' htext with ⟨-, rfl⟩
      rw [hnil hrest, List.append_nil]
      exact Or.inr ⟨k - 1, by rw [Nat.sub_add_cancel (by omega)]⟩

/-- The first unit is not the low half of a pair that the unit before it could complete. -/
def Detached (u : CodeUnit) (s : JsString) : Prop :=
  ∀ v, s.head? = some v → (isHighSurrogate u && isLowSurrogate v) = false

theorem quoteUnits_cons {u : CodeUnit} {s : JsString} (h : Detached u s) :
    quoteUnits (u :: s) = quoteSingle u ++ quoteUnits s := by
  cases s with
  | nil => simp [quoteUnits]
  | cons v s =>
      have hpair := h v rfl
      rw [quoteUnits, if_neg (by simp [hpair])]

theorem quoteUnits_replacement (k : Nat) (s : JsString) :
    quoteUnits (List.replicate k replacementUnit ++ s) =
      List.replicate k replacementUnit ++ quoteUnits s := by
  have hhigh : isHighSurrogate replacementUnit = false := by decide
  have hone : quoteSingle replacementUnit = [replacementUnit] := by decide
  induction k with
  | zero => rfl
  | succ k ih =>
      rw [List.replicate_succ, List.cons_append, quoteUnits_cons (by simp [Detached, hhigh]), hone,
        ih]
      rfl

/-- A unit is quoted in ASCII or stands for itself. -/
theorem quoteSingle_cases (u : CodeUnit) :
    (∀ c ∈ quoteSingle u, c.val < 0x80) ∨ quoteSingle u = [u] ∧ isSurrogate u = false := by
  have hu := u.isLt
  have hhex : ∀ n < 16, (hexUnit n).val < 0x80 := by
    decide
  have hescape : ∀ c ∈ unicodeEscape u, c.val < 0x80 := by
    intro c hc
    simp only [unicodeEscape, List.mem_cons, List.not_mem_nil, or_false] at hc
    rcases hc with rfl | rfl | rfl | rfl | rfl | rfl
    · decide
    · decide
    · exact hhex _ (by omega)
    · exact hhex _ (by omega)
    · exact hhex _ (by omega)
    · exact hhex _ (by omega)
  unfold quoteSingle
  split_ifs with hsurrogate
  · exact Or.inl hescape
  · by_cases hascii : u.val < 0x80
    · left
      unfold quoteUnit
      split_ifs
      · exact ascii_of_all (by decide)
      · exact ascii_of_all (by decide)
      · exact ascii_of_all (by decide)
      · exact ascii_of_all (by decide)
      · exact ascii_of_all (by decide)
      · exact ascii_of_all (by decide)
      · exact ascii_of_all (by decide)
      · exact hescape
      · simpa using hascii
    · right
      refine ⟨?_, Bool.eq_false_of_not_eq_true hsurrogate⟩
      unfold quoteUnit
      simp only [show u.val ≠ 0x22 by omega, show u.val ≠ 0x5c by omega, show u.val ≠ 0x08 by omega,
        show u.val ≠ 0x0c by omega, show u.val ≠ 0x0a by omega, show u.val ≠ 0x0d by omega,
        show u.val ≠ 0x09 by omega, show ¬u.val < 0x20 by omega, if_false]

/-- `s'` does not begin with a low surrogate that `s` does not begin with. -/
def HeadKept (s s' : JsString) : Prop :=
  ∀ v, s'.head? = some v → isLowSurrogate v = true → s.head? = some v

theorem quoteUnits_cons_inv {u : CodeUnit} {s : JsString} (hu : Detached u s)
    (ih : ∀ {n : Nat} {text' : JsString}, Garbled n (quoteUnits s) text' →
      ∃ s', text' = quoteUnits s' ∧ HeadKept s s') {n : Nat} {text' : JsString}
    (h : Garbled n (quoteUnits (u :: s)) text') :
    ∃ s', text' = quoteUnits s' ∧ HeadKept (u :: s) s' := by
  rw [quoteUnits_cons hu] at h
  rcases append_inv (printable_quoteSingle u).wellFormed h with
    ⟨m, l, left', right', rfl, rfl, hl, hr⟩
  rcases ih hr with ⟨s₁, rfl, hhead⟩
  have hkept : left' = quoteSingle u →
      ∃ s', left' ++ quoteUnits s₁ = quoteUnits s' ∧ HeadKept (u :: s) s' := by
    intro hleft
    refine ⟨u :: s₁, ?_, fun v hv _ => hv⟩
    rw [quoteUnits_cons, hleft]
    intro v hv
    by_contra hpair
    rw [Bool.not_eq_false, Bool.and_eq_true] at hpair
    have hfalse := hu v (hhead v hv hpair.2)
    rw [hpair.1, hpair.2] at hfalse
    cases hfalse
  rcases quoteSingle_cases u with hascii | ⟨hquote, hsurrogate⟩
  · exact hkept (hl.of_ascii hascii).2
  · rw [hquote, ← Utf8.units_of_not_surrogate u] at hl
    rcases character_inv (Utf8.isScalar_of_not_surrogate hsurrogate) hl with hleft | ⟨k, hleft⟩
    · exact hkept (by rw [hleft, Utf8.units_of_not_surrogate u, hquote])
    · rw [hleft]
      refine ⟨List.replicate (k + 1) replacementUnit ++ s₁,
        (quoteUnits_replacement (k + 1) s₁).symm, ?_⟩
      intro v hv hlow
      rw [List.replicate_succ] at hv
      cases hv
      exact absurd hlow (by decide)

theorem quoteUnits_headKept {s : JsString} {n : Nat} {text' : JsString}
    (h : Garbled n (quoteUnits s) text') : ∃ s', text' = quoteUnits s' ∧ HeadKept s s' := by
  induction s using quoteUnits.induct generalizing n text' with
  | case1 =>
      refine ⟨[], (h.of_ascii (by simp [quoteUnits])).2, ?_⟩
      intro v hv
      cases hv
  | case2 u =>
      refine quoteUnits_cons_inv (fun v hv => by cases hv) ?_ h
      intro m text'' hnil
      refine ⟨[], (hnil.of_ascii (by simp [quoteUnits])).2, ?_⟩
      intro v hv
      cases hv
  | case3 u v s hpair ih =>
      rcases Utf8.pairScalar_spec hpair with ⟨hscalar, hunits⟩
      have hquote : quoteUnits (u :: v :: s) = Utf8.units (pairScalar u v) ++ quoteUnits s := by
        rw [quoteUnits, if_pos hpair, hunits]
        rfl
      have hwf : isWellFormedText (Utf8.units (pairScalar u v)) = true := by
        rw [hunits, isWellFormedText, if_pos hpair, isWellFormedText]
      rw [hquote] at h
      rcases append_inv hwf h with ⟨m, l, left', right', rfl, rfl, hl, hr⟩
      rcases ih hr with ⟨s₁, rfl, -⟩
      rcases character_inv hscalar hl with hleft | ⟨k, hleft⟩
      · refine ⟨u :: v :: s₁, ?_, fun w hw _ => hw⟩
        rw [quoteUnits, if_pos hpair, hleft, hunits]
        rfl
      · rw [hleft]
        refine ⟨List.replicate (k + 1) replacementUnit ++ s₁,
          (quoteUnits_replacement (k + 1) s₁).symm, ?_⟩
        intro w hw hlow
        rw [List.replicate_succ] at hw
        cases hw
        exact absurd hlow (by decide)
  | case4 u v s hpair ih =>
      refine quoteUnits_cons_inv ?_ (fun hrest => ih hrest) h
      intro w hw
      cases hw
      exact Bool.eq_false_of_not_eq_true hpair

/-- A garbled string literal is the literal of another string. -/
theorem quote_inv {s text' : JsString} {n : Nat} (h : Garbled n (quote s) text') :
    ∃ s', text' = quote s' := by
  rw [quote, List.cons_append] at h
  rcases singleton_inv (by decide) h with ⟨tail, rfl, htail⟩
  rcases append_inv (printable_quoteUnits s).wellFormed htail with
    ⟨m, l, inner, last, rfl, rfl, hinner, hlast⟩
  rcases quoteUnits_headKept hinner with ⟨s', rfl, -⟩
  rw [(hlast.of_ascii (ascii_of_all (by decide))).2]
  exact ⟨s', rfl⟩

end Garbled

/-! ## Printed values -/

namespace Json

/-- The number of values and keys in the tree. -/
def size : Json → Nat
  | .arr items => 1 + sizeItems items
  | .obj fields => 1 + sizeFields fields
  | _ => 1
where
  sizeItems : List Json → Nat
    | [] => 0
    | x :: xs => size x + sizeItems xs
  sizeFields : Fields → Nat
    | [] => 0
    | (_, x) :: fs => 1 + size x + sizeFields fs

end Json

theorem garbled_items (items : List Json)
    (ih : ∀ v ∈ items, ∀ {n : Nat} {text' : JsString}, Garbled n (stringify v) text' →
      ∃ w, text' = stringify w ∧ w.size = v.size) (first : Bool) {n : Nat} {text' : JsString}
    (h : Garbled n (stringify.itemsText first items) text') :
    ∃ ws, text' = stringify.itemsText first ws ∧
      Json.size.sizeItems ws = Json.size.sizeItems items := by
  induction items generalizing first n text' with
  | nil => exact ⟨[], (h.of_ascii (by simp [stringify.itemsText])).2, rfl⟩
  | cons v items ihitems =>
      have hcomma : ∀ c ∈ (if first then [] else [unit ',']), c.val < 0x80 := by
        cases first <;> exact Garbled.ascii_of_all (by decide)
      rw [stringify.itemsText] at h
      rcases Garbled.append_inv (isWellFormedText_of_ascii hcomma) h with
        ⟨_, _, comma, tail, rfl, -, hl, hr⟩
      rcases Garbled.append_inv (printable_stringify v).wellFormed hr with
        ⟨_, _, one, rest, rfl, -, hone, hrest⟩
      rcases ih v List.mem_cons_self hone with ⟨w, rfl, hw⟩
      rcases ihitems (fun u hu => ih u (List.mem_cons_of_mem _ hu)) false hrest with ⟨ws, rfl, hws⟩
      refine ⟨w :: ws, ?_, by rw [Json.size.sizeItems, Json.size.sizeItems, hw, hws]⟩
      rw [stringify.itemsText, (hl.of_ascii hcomma).2]

theorem garbled_fields (fields : Fields)
    (ih : ∀ f ∈ fields, ∀ {n : Nat} {text' : JsString}, Garbled n (stringify f.2) text' →
      ∃ w, text' = stringify w ∧ w.size = f.2.size) (first : Bool) {n : Nat} {text' : JsString}
    (h : Garbled n (stringify.fieldsText first fields) text') :
    ∃ gs, text' = stringify.fieldsText first gs ∧
      Json.size.sizeFields gs = Json.size.sizeFields fields := by
  induction fields generalizing first n text' with
  | nil => exact ⟨[], (h.of_ascii (by simp [stringify.fieldsText])).2, rfl⟩
  | cons f fields ihfields =>
      obtain ⟨k, v⟩ := f
      have hcomma : ∀ c ∈ (if first then [] else [unit ',']), c.val < 0x80 := by
        cases first <;> exact Garbled.ascii_of_all (by decide)
      rw [stringify.fieldsText] at h
      rcases Garbled.append_inv (isWellFormedText_of_ascii hcomma) h with
        ⟨_, _, comma, tail, rfl, -, hl, hr⟩
      rcases Garbled.append_inv (printable_quote k).wellFormed hr with
        ⟨_, _, key, tail, rfl, -, hkey, htail⟩
      rcases Garbled.quote_inv hkey with ⟨k', rfl⟩
      rcases Garbled.singleton_inv (by decide) htail with ⟨tail, rfl, hvalue⟩
      rcases Garbled.append_inv (printable_stringify v).wellFormed hvalue with
        ⟨_, _, one, rest, rfl, -, hone, hrest⟩
      rcases ih (k, v) List.mem_cons_self hone with ⟨w, rfl, hw⟩
      rcases ihfields (fun g hg => ih g (List.mem_cons_of_mem _ hg)) false hrest with
        ⟨gs, rfl, hgs⟩
      refine ⟨(k', w) :: gs, ?_, by rw [Json.size.sizeFields, Json.size.sizeFields, hw, hgs]⟩
      rw [stringify.fieldsText, (hl.of_ascii hcomma).2]

/-- Text between two ASCII delimiters. -/
theorem garbled_delimited {c d : CodeUnit} (hc : c.val < 0x80) (hd : d.val < 0x80)
    {inner text' : JsString} (hinner : isWellFormedText inner = true) {n : Nat}
    (h : Garbled n (c :: inner ++ [d]) text') :
    ∃ m inner', text' = c :: inner' ++ [d] ∧ Garbled m inner inner' := by
  rw [List.cons_append] at h
  rcases Garbled.singleton_inv hc h with ⟨tail, rfl, htail⟩
  rcases Garbled.append_inv hinner htail with ⟨m, _, inner', last, rfl, -, hl, hr⟩
  refine ⟨m, inner', ?_, hl⟩
  rw [(hr.of_ascii (by simpa using hd)).2]
  rfl

/-- A garbled text of a value is the text of a value with other strings. -/
theorem garbled_stringify (v : Json) {n : Nat} {text' : JsString}
    (h : Garbled n (stringify v) text') : ∃ w, text' = stringify w ∧ w.size = v.size := by
  induction v using Json.induct generalizing n text' with
  | null => exact ⟨.null, (h.of_ascii (Garbled.ascii_of_all (by decide))).2, rfl⟩
  | bool b =>
      refine ⟨.bool b, (h.of_ascii ?_).2, rfl⟩
      cases b <;> exact Garbled.ascii_of_all (by decide)
  | num x => exact ⟨.num x, (h.of_ascii fun u hu => (toText_units x u hu).2).2, rfl⟩
  | str s =>
      rcases Garbled.quote_inv h with ⟨s', rfl⟩
      exact ⟨.str s', rfl, rfl⟩
  | arr items ih =>
      have hinner := (printable_items items (fun v _ => printable_stringify v) true).wellFormed
      rcases garbled_delimited (by decide) (by decide) hinner h with ⟨m, inner, rfl, hgarbled⟩
      rcases garbled_items items (fun v hv _ _ => ih v hv) true hgarbled with ⟨ws, rfl, hsize⟩
      exact ⟨.arr ws, rfl, by rw [Json.size, Json.size, hsize]⟩
  | obj fields ih =>
      have hinner := (printable_fields fields (fun f _ => printable_stringify f.2) true).wellFormed
      rcases garbled_delimited (by decide) (by decide) hinner h with ⟨m, inner, rfl, hgarbled⟩
      rcases garbled_fields fields (fun f hf _ _ => ih f hf) true hgarbled with ⟨gs, rfl, hsize⟩
      exact ⟨.obj gs, rfl, by rw [Json.size, Json.size, hsize]⟩

/-! ## Trees that are read -/

namespace Json

theorem sizeFields_append (left right : Fields) :
    size.sizeFields (left ++ right) = size.sizeFields left + size.sizeFields right := by
  induction left with
  | nil => simp [size.sizeFields]
  | cons f left ih =>
      obtain ⟨k, v⟩ := f
      rw [List.cons_append, size.sizeFields, size.sizeFields, ih]
      omega

theorem sizeFields_set_le {fields : Fields} {key : JsString} (value : Json)
    (h : key ∈ Assoc.keys fields) :
    size.sizeFields (Assoc.set fields key value) ≤ size.sizeFields fields + value.size := by
  induction fields with
  | nil => cases h
  | cons f fields ih =>
      obtain ⟨k, v⟩ := f
      rw [Assoc.set]
      split_ifs with hk
      · rw [size.sizeFields, size.sizeFields]
        omega
      · have hmem : key ∈ Assoc.keys fields := by
          rcases List.mem_cons.mp h with heq | hmem
          · exact absurd heq.symm hk
          · exact hmem
        have hle := ih hmem
        rw [size.sizeFields, size.sizeFields]
        omega

theorem settleFields_eq_or_lt (fields : Fields)
    (ih : ∀ f ∈ fields, f.2.settle = f.2 ∨ f.2.settle.size < f.2.size) (done : Fields) :
    settle.settleFields done fields = done ++ fields ∨
      size.sizeFields (settle.settleFields done fields) < size.sizeFields (done ++ fields) := by
  induction fields generalizing done with
  | nil =>
      left
      rw [settle.settleFields, List.append_nil]
  | cons f fields ihfields =>
      obtain ⟨k, v⟩ := f
      have hv : v.settle = v ∨ v.settle.size < v.size := ih (k, v) List.mem_cons_self
      have hrest := ihfields (fun g hg => ih g (List.mem_cons_of_mem _ hg))
        (Assoc.set done k v.settle)
      have hvle : v.settle.size ≤ v.size := by
        rcases hv with hv | hv
        · exact (congrArg size hv).le
        · exact hv.le
      simp only [sizeFields_append, size.sizeFields, settle.settleFields] at hrest ⊢
      by_cases hk : k ∈ Assoc.keys done
      · -- the entry read before is replaced
        have hset := sizeFields_set_le v.settle hk
        right
        rcases hrest with hrest | hrest
        · rw [hrest, sizeFields_append]
          omega
        · omega
      · rw [Assoc.set_of_notMem v.settle hk] at hrest ⊢
        simp only [sizeFields_append, size.sizeFields] at hrest
        rcases hv with hv | hv
        · rw [hv] at hrest ⊢
          rcases hrest with hrest | hrest
          · left
            rw [hrest, List.append_assoc]
            rfl
          · right
            omega
        · right
          rcases hrest with hrest | hrest
          · rw [hrest, sizeFields_append, sizeFields_append]
            simp only [size.sizeFields]
            omega
          · omega

/-- What a tree is read as is the tree, or smaller. -/
theorem settle_eq_or_lt (v : Json) : v.settle = v ∨ v.settle.size < v.size := by
  induction v using Json.induct with
  | null => exact Or.inl rfl
  | bool b => exact Or.inl rfl
  | num n => exact Or.inl rfl
  | str s => exact Or.inl rfl
  | arr items ih =>
      have hitems : settle.settleItems items = items ∨
          size.sizeItems (settle.settleItems items) < size.sizeItems items := by
        induction items with
        | nil => exact Or.inl rfl
        | cons x xs ihxs =>
            have hx := ih x List.mem_cons_self
            have hxs := ihxs fun y hy => ih y (List.mem_cons_of_mem _ hy)
            rw [settle.settleItems, size.sizeItems, size.sizeItems]
            rcases hx with hx | hx
            · rw [hx]
              rcases hxs with hxs | hxs
              · exact Or.inl (by rw [hxs])
              · exact Or.inr (by omega)
            · right
              rcases hxs with hxs | hxs
              · rw [hxs]
                omega
              · omega
      rw [settle]
      rcases hitems with hitems | hitems
      · exact Or.inl (by rw [hitems])
      · exact Or.inr (by rw [size, size]; omega)
  | obj fields ih =>
      rw [settle]
      rcases settleFields_eq_or_lt fields ih [] with hfields | hfields
      · exact Or.inl (by rw [hfields]; rfl)
      · right
        rw [size, size]
        exact Nat.add_lt_add_left hfields 1

end Json

/-- A text in which a character is lost does not read as the value. -/
theorem parse_garbled {v : Json} {n : Nat} {text' : JsString} (h : Garbled n (stringify v) text')
    (hparse : parse text' = some v) : text' = stringify v := by
  rcases garbled_stringify v h with ⟨w, rfl, hsize⟩
  rw [parse_stringify_settle] at hparse
  have hsettle := Option.some.inj hparse
  rcases w.settle_eq_or_lt with heq | hlt
  · rw [← hsettle, heq]
  · rw [hsettle, hsize] at hlt
    exact absurd hlt (lt_irrefl _)

/-! ## Streams decoded chunk by chunk -/

/-- Each chunk decoded on its own. -/
def decodeEach (chunks : List (List Byte)) : JsString :=
  (chunks.map Utf8.decode).flatten

/-- No chunk of the stream ends inside a character. -/
def cutsBetweenCharacters (chunks : List (List Byte)) : Bool :=
  chunks.inits.all fun left => decide ((Utf8.run ⟨[], none⟩ left.flatten).pending = none)

theorem cutsBetweenCharacters_iff (chunks : List (List Byte)) :
    cutsBetweenCharacters chunks = true ↔
      ∀ left, left <+: chunks → (Utf8.run ⟨[], none⟩ left.flatten).pending = none := by
  unfold cutsBetweenCharacters
  rw [List.all_eq_true]
  constructor
  · intro h left hleft
    simpa using h left ((List.mem_inits left chunks).mpr hleft)
  · intro h left hleft
    simpa using h left ((List.mem_inits left chunks).mp hleft)

theorem cutsBetweenCharacters_nil_cons {chunks : List (List Byte)}
    (h : cutsBetweenCharacters chunks = true) : cutsBetweenCharacters ([] :: chunks) = true := by
  rw [cutsBetweenCharacters_iff] at h ⊢
  intro left hleft
  cases left with
  | nil => rfl
  | cons chunk left =>
      rcases List.cons_prefix_cons.mp hleft with ⟨rfl, hrest⟩
      exact h left hrest

/-- A whole character before the first chunk changes no cut. -/
theorem cutsBetweenCharacters_append {cp : Nat} (hcp : Utf8.IsScalar cp) {chunk : List Byte}
    {chunks : List (List Byte)} (h : cutsBetweenCharacters (chunk :: chunks) = true) :
    cutsBetweenCharacters ((encodeScalar cp ++ chunk) :: chunks) = true := by
  rw [cutsBetweenCharacters_iff] at h ⊢
  intro left hleft
  cases left with
  | nil => rfl
  | cons first left =>
      rcases List.cons_prefix_cons.mp hleft with ⟨rfl, htail⟩
      have hrest := h (chunk :: left) (List.cons_prefix_cons.mpr ⟨rfl, htail⟩)
      rw [List.flatten_cons] at hrest ⊢
      rw [List.append_assoc, Utf8.run_append, (Utf8.encodeScalar_feeds hcp []).run_eq, Utf8.run_out]
      exact hrest

/-- The bytes of a character after its first one. -/
theorem encodeScalar_tail (cp : Nat) :
    ∀ b ∈ (encodeScalar cp).tail, 0x80 ≤ b.val ∧ b.val < 0xc0 := by
  intro b hb
  unfold encodeScalar at hb
  split_ifs at hb <;>
    simp only [List.tail_cons, List.not_mem_nil, List.mem_cons, or_false] at hb <;>
    rcases hb with rfl | rfl | rfl <;> simp only [Fin.val_ofNat] <;> omega

/-- Alone, a byte of the middle of a character reads as U+FFFD. -/
theorem decode_continuation {b : Byte} (hb : 0x80 ≤ b.val ∧ b.val < 0xc0) (bytes : List Byte) :
    Utf8.decode (b :: bytes) = replacementUnit :: Utf8.decode bytes := by
  have hstep : Utf8.step ⟨[], none⟩ b = ⟨[replacementUnit], none⟩ := by
    simp only [Utf8.step, Utf8.stepLead]
    rw [if_neg (by omega), if_neg (by omega), if_neg (by omega), if_neg (by omega)]
    rfl
  rw [Utf8.decode, Utf8.run_cons, hstep, Utf8.run_out, Utf8.decode, Utf8.finish, Utf8.finish]
  cases (Utf8.run ⟨[], none⟩ bytes).pending <;> rfl

theorem decodeEach_continuations {tail bytes : List Byte}
    (htail : ∀ b ∈ tail, 0x80 ≤ b.val ∧ b.val < 0xc0) {chunks : List (List Byte)}
    (h : chunks.flatten = tail ++ bytes) :
    ∃ chunks' : List (List Byte), chunks'.flatten = bytes ∧
      decodeEach chunks = List.replicate tail.length replacementUnit ++ decodeEach chunks' := by
  induction tail generalizing chunks with
  | nil => exact ⟨chunks, h, rfl⟩
  | cons b tail ih =>
      induction chunks with
      | nil => cases h
      | cons chunk chunks ihchunks =>
          cases chunk with
          | nil =>
              rcases ihchunks h with ⟨chunks', hflat, hdecode⟩
              exact ⟨chunks', hflat, hdecode⟩
          | cons c chunk =>
              rw [List.flatten_cons, List.cons_append, List.cons_append] at h
              rcases List.cons.inj h with ⟨rfl, hrest⟩
              rw [← List.flatten_cons] at hrest
              rcases ih (fun b hb => htail b (List.mem_cons_of_mem _ hb)) hrest with ⟨chunks', hflat, hdecode⟩
              refine ⟨chunks', hflat, ?_⟩
              have hfirst : decodeEach ((c :: chunk) :: chunks) =
                  replacementUnit :: decodeEach (chunk :: chunks) := by
                simp only [decodeEach, List.map_cons, List.flatten_cons,
                  decode_continuation (htail c List.mem_cons_self), List.cons_append]
              rw [hfirst, hdecode, List.length_cons, List.replicate_succ]
              rfl

/-- Decoded chunk by chunk, a text loses the characters that are cut. -/
theorem garbled_decodeEach {text : JsString} (hwf : isWellFormedText text = true)
    {chunks : List (List Byte)} (h : chunks.flatten = encode text) :
    ∃ n, Garbled n text (decodeEach chunks) ∧ (n = 0 → cutsBetweenCharacters chunks = true) := by
  induction hlen : text.length using Nat.strong_induction_on generalizing text chunks with
  | _ l ih =>
      cases text with
      | nil =>
          refine ⟨0, ?_, fun _ => ?_⟩
          · have hnil : decodeEach chunks = [] := by
              unfold decodeEach
              rw [List.flatten_eq_nil_iff]
              intro piece hpiece
              rcases List.mem_map.mp hpiece with ⟨chunk, hchunk, rfl⟩
              rw [List.flatten_eq_nil_iff.mp h chunk hchunk]
              rfl
            rw [hnil]
            exact .nil
          · rw [cutsBetweenCharacters_iff]
            intro left hleft
            have hnil : left.flatten = [] := by
              rw [List.flatten_eq_nil_iff]
              exact fun chunk hchunk => List.flatten_eq_nil_iff.mp h chunk (hleft.subset hchunk)
            rw [hnil]
            rfl
      | cons u text =>
          rcases Utf8.encode_cons hwf with
            ⟨cp, us, rest, htext, hunits, hcp, -, hencode, hrest, hle⟩
          have hfeeds := Utf8.encodeScalar_feeds hcp []
          have hlt : rest.length < l := by
            simp only [List.length_cons] at hlen
            omega
          rw [hencode] at h
          rw [htext, ← hunits]
          -- the chunk that the first character begins in; empty chunks before it are skipped
          induction chunks with
          | nil =>
              have hpos := encodeScalar_length_pos cp
              have hlength := congrArg List.length h
              rw [List.length_append] at hlength
              simp only [List.flatten_nil, List.length_nil] at hlength
              omega
          | cons chunk chunks ihchunks =>
              by_cases hnil : chunk = []
              · rw [hnil] at h ⊢
                rcases ihchunks h with ⟨n, hgarbled, hcuts⟩
                exact ⟨n, hgarbled, fun hn => cutsBetweenCharacters_nil_cons (hcuts hn)⟩
              · rw [List.flatten_cons] at h
                by_cases hshort : chunk.length < (encodeScalar cp).length
                · -- the chunk ends inside the character
                  have htake : chunk = (encodeScalar cp).take chunk.length := by
                    have heq := congrArg (List.take chunk.length) h
                    rwa [List.take_left, List.take_append_of_le_length hshort.le] at heq
                  have hdrop : chunks.flatten =
                      (encodeScalar cp).drop chunk.length ++ encode rest := by
                    have heq := congrArg (List.drop chunk.length) h
                    rwa [List.drop_left, List.drop_append_of_le_length hshort.le] at heq
                  have hpos : 0 < chunk.length := List.length_pos_of_ne_nil hnil
                  -- the decoder is left in the middle, and what is left of the character decodes
                  -- to replacement units only
                  rcases hfeeds.run_take hpos hshort with ⟨p, hrun⟩
                  rw [← htake] at hrun
                  have htail : ∀ b ∈ (encodeScalar cp).drop chunk.length,
                      0x80 ≤ b.val ∧ b.val < 0xc0 := by
                    intro b hb
                    apply encodeScalar_tail cp
                    rw [← List.drop_one]
                    exact (List.drop_subset_drop_left _ hpos) hb
                  rcases decodeEach_continuations htail hdrop with ⟨chunks', hflat, hdecode⟩
                  rcases ih rest.length hlt hrest hflat rfl with ⟨n, hgarbled, -⟩
                  refine ⟨n + 1, ?_, by omega⟩
                  have hascii : 0x80 ≤ cp := by
                    by_contra hsmall
                    rw [encodeScalar, if_pos (by omega), List.length_singleton] at hshort
                    omega
                  have hfirst : Utf8.decode chunk = [replacementUnit] := by
                    rw [Utf8.decode, hrun]
                    rfl
                  have heach : decodeEach (chunk :: chunks) = List.replicate
                      (((encodeScalar cp).drop chunk.length).length + 1) replacementUnit ++
                        decodeEach chunks' := by
                    have hcons : decodeEach (chunk :: chunks) =
                        Utf8.decode chunk ++ decodeEach chunks := rfl
                    rw [hcons, hfirst, hdecode, List.replicate_succ]
                    rfl
                  rw [heach]
                  refine .lose cp _ hcp hascii ?_ hgarbled
                  rw [List.length_drop]
                  omega
                · -- the chunk holds the character
                  have hwhole : chunk = encodeScalar cp ++ chunk.drop (encodeScalar cp).length := by
                    have heq := congrArg (List.take (encodeScalar cp).length) h
                    rw [List.take_left, List.take_append_of_le_length (not_lt.mp hshort)] at heq
                    rw [← heq, List.length_take_of_le (not_lt.mp hshort), List.take_append_drop]
                  have hflat : (chunk.drop (encodeScalar cp).length :: chunks).flatten =
                      encode rest := by
                    have heq := congrArg (List.drop (encodeScalar cp).length) h
                    rw [List.drop_left, List.drop_append_of_le_length (not_lt.mp hshort)] at heq
                    rw [List.flatten_cons, heq]
                  generalize chunk.drop (encodeScalar cp).length = after at hwhole hflat
                  rcases ih rest.length hlt hrest hflat rfl with ⟨n, hgarbled, hcuts⟩
                  have heach : decodeEach (chunk :: chunks) =
                      Utf8.units cp ++ decodeEach (after :: chunks) := by
                    have hcons : ∀ c : List Byte, decodeEach (c :: chunks) =
                        Utf8.decode c ++ decodeEach chunks := fun _ => rfl
                    rw [hcons, hcons, hwhole, Utf8.decode, Utf8.run_append, hfeeds.run_eq,
                      Utf8.run_out, Utf8.decode, Utf8.finish, Utf8.finish]
                    cases (Utf8.run ⟨[], none⟩ after).pending <;> simp
                  rw [heach]
                  refine ⟨n, .keep cp hcp hgarbled, fun hn => ?_⟩
                  rw [hwhole]
                  exact cutsBetweenCharacters_append hcp (hcuts hn)

/-- Decoded one by one, chunks that end between characters give the text. -/
theorem decodeEach_of_cuts {chunks : List (List Byte)} (h : cutsBetweenCharacters chunks = true) :
    decodeEach chunks = (Utf8.run ⟨[], none⟩ chunks.flatten).out ∧
      (Utf8.run ⟨[], none⟩ chunks.flatten).pending = none := by
  have hall := (cutsBetweenCharacters_iff chunks).mp h
  refine ⟨?_, hall chunks List.prefix_rfl⟩
  clear h
  induction chunks using List.reverseRecOn with
  | nil => rfl
  | append_singleton chunks chunk ih =>
      have hbefore := hall chunks (List.prefix_append chunks [chunk])
      have hafter := hall (chunks ++ [chunk]) List.prefix_rfl
      have hrest := ih fun left hleft => hall left (hleft.trans (List.prefix_append chunks [chunk]))
      have hrun : Utf8.run ⟨[], none⟩ (chunks ++ [chunk]).flatten =
          ⟨(Utf8.run ⟨[], none⟩ chunks.flatten).out ++ (Utf8.run ⟨[], none⟩ chunk).out,
            (Utf8.run ⟨[], none⟩ chunk).pending⟩ := by
        rw [List.flatten_concat, Utf8.run_append, Utf8.run_out, hbefore]
      rw [hrun] at hafter ⊢
      have hdecode : Utf8.decode chunk = (Utf8.run ⟨[], none⟩ chunk).out := by
        simp only at hafter
        rw [Utf8.decode, Utf8.finish, hafter]
      have heach : decodeEach (chunks ++ [chunk]) = decodeEach chunks ++ Utf8.decode chunk := by
        simp [decodeEach]
      rw [heach, hrest, hdecode]

end Js
end ObjyDb
