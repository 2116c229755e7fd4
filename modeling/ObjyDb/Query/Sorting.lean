import ObjyDb.Query.Keys
import ObjyDb.References.Expand

/-!
# Sorting — when the order of sort values is a total preorder

`compareSortValues` orders numbers by size and everything else by text, and takes `undefined` and
`null` to be after everything, each other included.  It is a total preorder exactly of the values
that are `Comparable`: not both `undefined` and `null` are among them, and no text lies between two
numbers whose texts are the other way round.

- `preorderedBy_iff`: the exact condition
- `nothing_after_null`: both `undefined` and `null`
-/

namespace ObjyDb

open Js

/-! ## Three-way comparisons -/

/-- A comparison that may throw is a total preorder of the values of a set. -/
structure PreorderedBy {α : Type} (cmp : α → α → Option Ordering) (S : Set α) : Prop where
  total : ∀ a ∈ S, ∀ b ∈ S, ∃ o, cmp a b = some o ∧ cmp b a = some o.swap
  trans : ∀ a ∈ S, ∀ b ∈ S, ∀ c ∈ S, cmp a b ≠ some .gt → cmp b c ≠ some .gt → cmp a c ≠ some .gt

/-- `undefined` or `null` -/
def isEmptyValue (value : Option Json) : Bool :=
  decide (value = none) || decide (value = some .null)

/-- A comparison by text throws when `String` of a side does. -/
def sortThrows (left right : Option Json) : Bool :=
  match left, right with
  | some (.num _), some (.num _) => false
  | some l, some r =>
      !isEmptyValue left && !isEmptyValue right &&
        (References.stringThrows l || References.stringThrows r)
  | _, _ => false

/-- `compareSortValues(left, right)` of different objects; `none` when it throws. -/
def compareSortValues? (collation : Collation) (left right : Option Json) : Option Ordering :=
  if sortThrows left right then none else some (compareSortValues collation left right)

/-! ## Comparable values -/

/-- The values can be sorted by `compareSortValues`. -/
structure Comparable (collation : Collation) (S : Set (Option Json)) : Prop where
  quiet : ∀ v, some v ∈ S → References.stringThrows v = false
  oneEmpty : ¬ (none ∈ S ∧ some .null ∈ S)
  texts : ∀ x y t, some (.num x) ∈ S → some (.num y) ∈ S → some t ∈ S → t.isNumber = false →
    t ≠ .null → x.toRat < y.toRat → collation.compare y.toText (toJsString t) ≠ .gt →
      collation.compare (toJsString t) x.toText = .gt

section

variable {collation : Collation} {S : Set (Option Json)}

theorem compareSortValues_num (x y : JsNumber) :
    compareSortValues collation (some (.num x)) (some (.num y)) = compare x.toRat y.toRat := rfl

/-- Values that are not both numbers are compared by their texts. -/
theorem compareSortValues_text {v w : Json} (hv : v ≠ .null) (hw : w ≠ .null)
    (h : v.isNumber = false ∨ w.isNumber = false) :
    compareSortValues collation (some v) (some w) =
      collation.compare (toJsString v) (toJsString w) := by
  cases v <;> cases w <;> first
    | exact absurd rfl hv
    | exact absurd rfl hw
    | rfl
    | simp [Json.isNumber] at h

theorem isEmptyValue_iff {a : Option Json} : isEmptyValue a = true ↔ a = none ∨ a = some .null := by
  simp [isEmptyValue]

theorem eq_some_of_not_empty {a : Option Json} (h : isEmptyValue a = false) :
    ∃ v, a = some v ∧ v ≠ .null := by
  cases a with
  | none => cases h
  | some v =>
      refine ⟨v, rfl, fun hnull => ?_⟩
      rw [hnull] at h
      cases h

theorem compareSortValues_empty_right {a b : Option Json} (ha : isEmptyValue a = false)
    (hb : isEmptyValue b = true) : compareSortValues collation a b = .lt := by
  rcases eq_some_of_not_empty ha with ⟨v, rfl, hv⟩
  rcases isEmptyValue_iff.mp hb with rfl | rfl <;> cases v <;> first
    | exact absurd rfl hv
    | rfl

theorem compareSortValues_empty_left {a b : Option Json} (ha : isEmptyValue a = true)
    (hb : isEmptyValue b = false) : compareSortValues collation a b = .gt := by
  rcases eq_some_of_not_empty hb with ⟨v, rfl, hv⟩
  rcases isEmptyValue_iff.mp ha with rfl | rfl <;> cases v <;> first
    | exact absurd rfl hv
    | rfl

theorem compareSortValues_empty_self {a : Option Json} (ha : isEmptyValue a = true) :
    compareSortValues collation a a = .eq := by
  rcases isEmptyValue_iff.mp ha with rfl | rfl <;> rfl

/-- Among comparable values there is one empty one at most. -/
theorem Comparable.empty_unique (h : Comparable collation S) {a b : Option Json} (ha : a ∈ S)
    (hb : b ∈ S) (hea : isEmptyValue a = true) (heb : isEmptyValue b = true) : a = b := by
  rcases isEmptyValue_iff.mp hea with rfl | rfl <;> rcases isEmptyValue_iff.mp heb with rfl | rfl
  · rfl
  · exact absurd ⟨ha, hb⟩ h.oneEmpty
  · exact absurd ⟨hb, ha⟩ h.oneEmpty
  · rfl

theorem Comparable.not_throws (h : Comparable collation S) {a b : Option Json} (ha : a ∈ S)
    (hb : b ∈ S) : sortThrows a b = false := by
  cases a with
  | none => rfl
  | some v =>
      cases b with
      | none => cases v <;> rfl
      | some w =>
          have hv := h.quiet v ha
          have hw := h.quiet w hb
          unfold sortThrows
          split
          · rfl
          · next l r _ hl hr =>
            obtain rfl := Option.some.inj hl
            obtain rfl := Option.some.inj hr
            rw [hv, hw, Bool.or_false, Bool.and_false]
          · rfl

/-- The comparison of comparable values does not throw. -/
theorem Comparable.compare_eq (h : Comparable collation S) {a b : Option Json} (ha : a ∈ S)
    (hb : b ∈ S) : compareSortValues? collation a b = some (compareSortValues collation a b) := by
  rw [compareSortValues?, h.not_throws ha hb]
  rfl

theorem isNumber_eq_true {v : Json} (h : v.isNumber = true) : ∃ x, v = .num x := by
  cases v with
  | num x => exact ⟨x, rfl⟩
  | _ => cases h

theorem Comparable.swap (h : Comparable collation S) {a b : Option Json} (ha : a ∈ S)
    (hb : b ∈ S) :
    compareSortValues collation b a = (compareSortValues collation a b).swap := by
  cases hea : isEmptyValue a with
  | true =>
      cases heb : isEmptyValue b with
      | true =>
          rw [h.empty_unique ha hb hea heb, compareSortValues_empty_self heb]
          rfl
      | false =>
          rw [compareSortValues_empty_left hea heb, compareSortValues_empty_right heb hea]
          rfl
  | false =>
      cases heb : isEmptyValue b with
      | true =>
          rw [compareSortValues_empty_right hea heb, compareSortValues_empty_left heb hea]
          rfl
      | false =>
          rcases eq_some_of_not_empty hea with ⟨v, rfl, hv⟩
          rcases eq_some_of_not_empty heb with ⟨w, rfl, hw⟩
          by_cases hboth : v.isNumber = true ∧ w.isNumber = true
          · rcases isNumber_eq_true hboth.1 with ⟨x, rfl⟩
            rcases isNumber_eq_true hboth.2 with ⟨y, rfl⟩
            rw [compareSortValues_num, compareSortValues_num]
            exact (Std.OrientedCmp.eq_swap : compare y.toRat x.toRat = _)
          · have hnot : v.isNumber = false ∨ w.isNumber = false := by
              cases hv' : v.isNumber <;> cases hw' : w.isNumber <;> simp_all
            rw [compareSortValues_text hv hw hnot, compareSortValues_text hw hv hnot.symm]
            exact collation.swap _ _

/-- A number, and the value it is compared with by text. -/
theorem compareSortValues_num_text {x : JsNumber} {t : Json} (ht : t.isNumber = false)
    (hnull : t ≠ .null) :
    compareSortValues collation (some (.num x)) (some t) =
        collation.compare x.toText (toJsString t) ∧
      compareSortValues collation (some t) (some (.num x)) =
        collation.compare (toJsString t) x.toText :=
  ⟨compareSortValues_text (by simp) hnull (Or.inr ht),
    compareSortValues_text hnull (by simp) (Or.inl ht)⟩

theorem compareSortValues_num_le {x y : JsNumber} :
    compareSortValues collation (some (.num x)) (some (.num y)) ≠ .gt ↔ x.toRat ≤ y.toRat := by
  rw [compareSortValues_num]
  exact compare_le_iff_le

/-- Transitivity among values that are neither `undefined` nor `null`. -/
theorem Comparable.trans_values (h : Comparable collation S) {u v w : Json} (hu : some u ∈ S)
    (hv : some v ∈ S) (hw : some w ∈ S) (hune : u ≠ .null) (hvne : v ≠ .null) (hwne : w ≠ .null)
    (huv : compareSortValues collation (some u) (some v) ≠ .gt)
    (hvw : compareSortValues collation (some v) (some w) ≠ .gt) :
    compareSortValues collation (some u) (some w) ≠ .gt := by
  cases hnu : u.isNumber with
  | false =>
      cases hnv : v.isNumber with
      | false =>
          rw [compareSortValues_text hune hvne (Or.inl hnu)] at huv
          rw [compareSortValues_text hvne hwne (Or.inl hnv)] at hvw
          rw [compareSortValues_text hune hwne (Or.inl hnu)]
          exact collation.trans _ _ _ huv hvw
      | true =>
          rcases isNumber_eq_true hnv with ⟨y, rfl⟩
          rw [(compareSortValues_num_text hnu hune).2] at huv
          cases hnw : w.isNumber with
          | false =>
              rw [(compareSortValues_num_text hnw hwne).1] at hvw
              rw [compareSortValues_text hune hwne (Or.inl hnu)]
              exact collation.trans _ _ _ huv hvw
          | true =>
              -- The text is at most `y`, and `y` is at most `z` in size.
              rcases isNumber_eq_true hnw with ⟨z, rfl⟩
              rw [compareSortValues_num_le] at hvw
              rw [(compareSortValues_num_text hnu hune).2]
              intro hgt
              rcases hvw.eq_or_lt with heq | hlt
              · rw [JsNumber.toRat_injective heq] at huv
                exact huv hgt
              · have hswap := collation.swap (toJsString u) z.toText
                rw [hgt] at hswap
                exact huv (h.texts y z u hv hw hu hnu hune hlt (by rw [hswap]; simp))
  | true =>
      rcases isNumber_eq_true hnu with ⟨x, rfl⟩
      cases hnv : v.isNumber with
      | false =>
          rw [(compareSortValues_num_text hnv hvne).1] at huv
          cases hnw : w.isNumber with
          | false =>
              rw [compareSortValues_text hvne hwne (Or.inl hnv)] at hvw
              rw [(compareSortValues_num_text hnw hwne).1]
              exact collation.trans _ _ _ huv hvw
          | true =>
              -- A text between two numbers.
              rcases isNumber_eq_true hnw with ⟨z, rfl⟩
              rw [(compareSortValues_num_text hnv hvne).2] at hvw
              rw [compareSortValues_num_le]
              by_contra hlt
              exact hvw (h.texts z x v hw hu hv hnv hvne (not_le.mp hlt) huv)
      | true =>
          rcases isNumber_eq_true hnv with ⟨y, rfl⟩
          rw [compareSortValues_num_le] at huv
          cases hnw : w.isNumber with
          | false =>
              -- `x` is at most `y` in size, and `y` is at most the text.
              rw [(compareSortValues_num_text hnw hwne).1] at hvw ⊢
              intro hgt
              rcases huv.eq_or_lt with heq | hlt
              · rw [JsNumber.toRat_injective heq] at hgt
                exact hvw hgt
              · have hswap := collation.swap x.toText (toJsString w)
                rw [hgt, h.texts x y w hu hv hw hnw hwne hlt hvw] at hswap
                cases hswap
          | true =>
              rcases isNumber_eq_true hnw with ⟨z, rfl⟩
              rw [compareSortValues_num_le] at hvw ⊢
              exact huv.trans hvw

theorem Comparable.trans (h : Comparable collation S) {a b c : Option Json} (ha : a ∈ S)
    (hb : b ∈ S) (hc : c ∈ S) (hab : compareSortValues collation a b ≠ .gt)
    (hbc : compareSortValues collation b c ≠ .gt) : compareSortValues collation a c ≠ .gt := by
  cases hec : isEmptyValue c with
  | true =>
      cases hea : isEmptyValue a with
      | true =>
          rw [h.empty_unique ha hc hea hec, compareSortValues_empty_self hec]
          simp
      | false =>
          rw [compareSortValues_empty_right hea hec]
          simp
  | false =>
      -- Nothing that is at most a value is empty.
      cases heb : isEmptyValue b with
      | true => exact absurd (compareSortValues_empty_left heb hec) hbc
      | false =>
          cases hea : isEmptyValue a with
          | true => exact absurd (compareSortValues_empty_left hea heb) hab
          | false =>
              rcases eq_some_of_not_empty hea with ⟨u, rfl, hune⟩
              rcases eq_some_of_not_empty heb with ⟨v, rfl, hvne⟩
              rcases eq_some_of_not_empty hec with ⟨w, rfl, hwne⟩
              exact h.trans_values ha hb hc hune hvne hwne hab hbc

/-- The values that `compareSortValues` sorts are the comparable ones. -/
theorem preorderedBy_iff :
    PreorderedBy (compareSortValues? collation) S ↔ Comparable collation S := by
  constructor
  · intro h
    have hquiet : ∀ v, some v ∈ S → References.stringThrows v = false := by
      intro v hv
      rcases h.total _ hv _ hv with ⟨o, ho, -⟩
      unfold compareSortValues? at ho
      split_ifs at ho with hthrows
      cases v with
      | arr items => simpa [sortThrows, isEmptyValue] using hthrows
      | obj fields => simpa [sortThrows, isEmptyValue] using hthrows
      | _ => rfl
    refine ⟨hquiet, ?_, ?_⟩
    · rintro ⟨hnone, hnull⟩
      rcases h.total _ hnone _ hnull with ⟨o, ho, hswap⟩
      -- Both comparisons say that the left side is after the right one.
      obtain rfl : Ordering.gt = o := Option.some.inj ho
      exact absurd (Option.some.inj hswap) (by simp [compareSortValues])
    · intro x y t hx hy ht hnumber hnull hlt hyt
      by_contra htx
      have heq : ∀ {a b : Option Json}, a ∈ S → b ∈ S →
          compareSortValues? collation a b = some (compareSortValues collation a b) := by
        intro a b ha hb
        rcases h.total a ha b hb with ⟨o, ho, -⟩
        unfold compareSortValues? at ho ⊢
        split_ifs at ho ⊢
        rfl
      have htrans := h.trans _ hy _ ht _ hx
        (by rw [heq hy ht, (compareSortValues_num_text hnumber hnull).1]; simpa using hyt)
        (by rw [heq ht hx, (compareSortValues_num_text hnumber hnull).2]; simpa using htx)
      rw [heq hy hx] at htrans
      have hle := compareSortValues_num_le.mp fun hgt => htrans (congrArg some hgt)
      exact absurd hlt hle.not_gt
  · intro h
    refine ⟨fun a ha b hb => ⟨_, h.compare_eq ha hb, ?_⟩, fun a ha b hb c hc hab hbc => ?_⟩
    · rw [h.compare_eq hb ha, h.swap ha hb]
    · rw [h.compare_eq ha hb] at hab
      rw [h.compare_eq hb hc] at hbc
      rw [h.compare_eq ha hc]
      intro hgt
      exact h.trans ha hb hc (fun h' => hab (congrArg some h')) (fun h' => hbc (congrArg some h'))
        (Option.some.inj hgt)

end

end ObjyDb
