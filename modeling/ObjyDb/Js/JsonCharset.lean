import ObjyDb.Js.JsonRoundTrip
import ObjyDb.Js.Utf8

/-!
# JsonCharset — which units a JSON text holds

`JSON.stringify` escapes control characters and lone surrogates.  Its texts are therefore printed
on one line as far as `\n` and `\r` are concerned, and they are well-formed UTF-16.
-/

namespace ObjyDb
namespace Js

def isVisibleAscii (u : CodeUnit) : Bool :=
  decide (0x20 ≤ u.val) && decide (u.val < 0x80)

/-- A text without control characters and lone surrogates. -/
structure Printable (text : JsString) : Prop where
  visible : ∀ u ∈ text, 0x20 ≤ u.val
  wellFormed : isWellFormedText text = true

namespace Printable

theorem nil : Printable [] := ⟨by simp, rfl⟩

theorem append {left right : JsString} (hl : Printable left) (hr : Printable right) :
    Printable (left ++ right) where
  visible := by
    intro u hu
    rcases List.mem_append.mp hu with hu | hu
    · exact hl.visible u hu
    · exact hr.visible u hu
  wellFormed := isWellFormedText_append hl.wellFormed hr.wellFormed

theorem of_ascii {text : JsString} (h : text.all isVisibleAscii = true) : Printable text := by
  have hall : ∀ u ∈ text, 0x20 ≤ u.val ∧ u.val < 0x80 := by
    intro u hu
    simpa [isVisibleAscii] using List.all_eq_true.mp h u hu
  exact ⟨fun u hu => (hall u hu).1, isWellFormedText_of_ascii (fun u hu => (hall u hu).2)⟩

theorem singleton {u : CodeUnit} (h : isVisibleAscii u = true) : Printable [u] :=
  of_ascii (by simpa using h)

theorem cons {u : CodeUnit} (h : isVisibleAscii u = true) {text : JsString}
    (ht : Printable text) : Printable (u :: text) :=
  (singleton h).append ht

end Printable

/-! ## Strings -/

theorem hexUnit_ascii {n : Nat} (h : n < 16) : isVisibleAscii (hexUnit n) = true := by
  interval_cases n <;> decide

theorem printable_unicodeEscape (u : CodeUnit) : Printable (unicodeEscape u) := by
  have hu := u.isLt
  refine Printable.cons (by decide) (Printable.cons (by decide) ?_)
  exact Printable.cons (hexUnit_ascii (by omega)) (Printable.cons (hexUnit_ascii (by omega))
    (Printable.cons (hexUnit_ascii (by omega)) (Printable.singleton (hexUnit_ascii (by omega)))))

theorem printable_quoteUnit {u : CodeUnit} (h : isSurrogate u = false) :
    Printable (quoteUnit u) := by
  unfold quoteUnit
  split_ifs with h1 h2 h3 h4 h5 h6 h7 h8
  · exact Printable.of_ascii (by decide)
  · exact Printable.of_ascii (by decide)
  · exact Printable.of_ascii (by decide)
  · exact Printable.of_ascii (by decide)
  · exact Printable.of_ascii (by decide)
  · exact Printable.of_ascii (by decide)
  · exact Printable.of_ascii (by decide)
  · exact printable_unicodeEscape u
  · exact ⟨by simpa using h8, by simpa [isWellFormedText] using h⟩

theorem printable_quoteSingle (u : CodeUnit) : Printable (quoteSingle u) := by
  unfold quoteSingle
  split_ifs with h
  · exact printable_unicodeEscape u
  · exact printable_quoteUnit (by simpa using h)

theorem printable_quoteUnits (s : JsString) : Printable (quoteUnits s) := by
  induction s using quoteUnits.induct with
  | case1 => exact Printable.nil
  | case2 u => exact printable_quoteSingle u
  | case3 u v rest hpair ih =>
      rw [quoteUnits, if_pos hpair]
      have hvisible : ∀ w ∈ [u, v], 0x20 ≤ w.val := by
        simp only [isHighSurrogate, isLowSurrogate, Bool.and_eq_true, decide_eq_true_eq] at hpair
        simp only [List.mem_cons, List.not_mem_nil, or_false, forall_eq_or_imp, forall_eq]
        omega
      have hwf : isWellFormedText [u, v] = true := by simp [isWellFormedText, hpair]
      exact Printable.append ⟨hvisible, hwf⟩ ih
  | case4 u v rest hpair ih =>
      rw [quoteUnits, if_neg hpair]
      exact (printable_quoteSingle u).append ih

theorem printable_quote (s : JsString) : Printable (quote s) :=
  Printable.cons (by decide) ((printable_quoteUnits s).append (Printable.singleton (by decide)))

/-! ## Values -/

theorem isVisibleAscii_digitUnit (d : Fin 10) : isVisibleAscii (JsNumber.digitUnit d) = true := by
  fin_cases d <;> rfl

theorem printable_digits (ds : List (Fin 10)) : Printable (ds.map JsNumber.digitUnit) := by
  refine Printable.of_ascii (List.all_eq_true.mpr ?_)
  intro u hu
  obtain ⟨d, -, rfl⟩ := List.mem_map.mp hu
  exact isVisibleAscii_digitUnit d

/-- The text of a number holds digits, signs, a point and an `e`. -/
theorem toText_units (x : JsNumber) : ∀ u ∈ x.toText, 0x2b ≤ u.val ∧ u.val < 0x80 := by
  have hdigits : ∀ ds : List (Fin 10), ∀ u ∈ ds.map JsNumber.digitUnit,
      0x2b ≤ u.val ∧ u.val < 0x80 := by
    intro ds u hu
    obtain ⟨d, -, rfl⟩ := List.mem_map.mp hu
    fin_cases d <;> decide
  intro u hu
  simp only [JsNumber.toText, List.mem_append] at hu
  rcases hu with ((hsign | hint) | hfrac) | hexp
  · split_ifs at hsign
    · rw [List.mem_singleton.mp hsign]
      decide
    · cases hsign
  · exact hdigits _ u hint
  · unfold JsNumber.fracText at hfrac
    split_ifs at hfrac
    · cases hfrac
    · rcases List.mem_cons.mp hfrac with rfl | hfrac
      · decide
      · exact hdigits _ u hfrac
  · cases hx : x.layout.exp with
    | none =>
        rw [hx] at hexp
        cases hexp
    | some e =>
        rw [hx] at hexp
        rcases List.mem_cons.mp hexp with rfl | hexp
        · decide
        · rcases List.mem_cons.mp hexp with rfl | hexp
          · split_ifs <;> decide
          · exact hdigits _ u hexp

theorem printable_toText (x : JsNumber) : Printable x.toText := by
  have hsign : Printable (if x.negative then [unit '-'] else []) := by
    split_ifs
    · exact Printable.singleton (by decide)
    · exact Printable.nil
  have hfrac : Printable (JsNumber.fracText x.layout.frac) := by
    unfold JsNumber.fracText
    split_ifs
    · exact Printable.nil
    · exact Printable.cons (by decide) (printable_digits _)
  have hexp : Printable (JsNumber.expText x.layout.exp) := by
    cases x.layout.exp with
    | none => exact Printable.nil
    | some e =>
        refine Printable.cons (by decide) (Printable.cons ?_ (printable_digits _))
        split_ifs <;> decide
  exact ((hsign.append (printable_digits _)).append hfrac).append hexp

theorem printable_items (items : List Json) (h : ∀ v ∈ items, Printable (stringify v))
    (first : Bool) : Printable (stringify.itemsText first items) := by
  induction items generalizing first with
  | nil => exact Printable.nil
  | cons v items ih =>
      have hcomma : Printable (if first then [] else [unit ',']) := by
        split_ifs
        · exact Printable.nil
        · exact Printable.singleton (by decide)
      exact hcomma.append ((h v List.mem_cons_self).append
        (ih (fun w hw => h w (List.mem_cons_of_mem _ hw)) false))

theorem printable_fields (fields : Fields) (h : ∀ f ∈ fields, Printable (stringify f.2))
    (first : Bool) : Printable (stringify.fieldsText first fields) := by
  induction fields generalizing first with
  | nil => exact Printable.nil
  | cons f fields ih =>
      obtain ⟨k, v⟩ := f
      have hcomma : Printable (if first then [] else [unit ',']) := by
        split_ifs
        · exact Printable.nil
        · exact Printable.singleton (by decide)
      exact hcomma.append ((printable_quote k).append (Printable.cons (by decide)
        ((h (k, v) List.mem_cons_self).append
          (ih (fun w hw => h w (List.mem_cons_of_mem _ hw)) false))))

theorem printable_stringify (v : Json) : Printable (stringify v) := by
  induction v using Json.induct with
  | null => exact Printable.of_ascii (by decide)
  | bool b => cases b <;> exact Printable.of_ascii (by decide)
  | num x => exact printable_toText x
  | str s => exact printable_quote s
  | arr items ih =>
      exact Printable.cons (by decide)
        ((printable_items items ih true).append (Printable.singleton (by decide)))
  | obj fields ih =>
      exact Printable.cons (by decide)
        ((printable_fields fields ih true).append (Printable.singleton (by decide)))

end Js
end ObjyDb
