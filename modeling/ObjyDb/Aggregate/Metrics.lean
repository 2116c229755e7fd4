import ObjyDb.Aggregate.Partials
import ObjyDb.Lib.Best

/-!
# Metrics — what the state of a metric is after any rows

A metric's state is determined by the list of its rows (`foldl_stepField`): the sum and number of
the numbers, the first best comparable value, or a count.  Merging the states of parts gives the
state of all rows (`foldl_combine`), and the order of the rows does not matter
(`metricOf_perm`), for `$min` and `$max` as long as the values are decided.
-/

namespace ObjyDb

open Js

/-! ## The values a metric looks at -/

def number? (value : Option Json) : Option JsNumber :=
  match value with
  | some (.num n) => some n
  | _ => none

def comparable? (value : Option Json) : Option Json :=
  value.filter isComparable

def isPresent (value : Option Json) : Bool :=
  match value with
  | none => false
  | some .null => false
  | some _ => true

def numbersAt (path : JsString) (rows : List Json) : List JsNumber :=
  rows.filterMap fun row => number? (getPathValue row path)

def comparablesAt (path : JsString) (rows : List Json) : List Json :=
  rows.filterMap fun row => comparable? (getPathValue row path)

def presentAt (path : JsString) (rows : List Json) : List Json :=
  rows.filter fun row => isPresent (getPathValue row path)

/-- The number of rows, as a number. -/
def countOf {α : Type} (rows : List α) : JsNumber :=
  (rows.map fun _ => JsNumber.ofNat 1).sum

/-- The state of a metric after the rows. -/
def metricOf (collation : Collation) (operator : AggregateOperator) (rows : List Json) :
    FieldState :=
  match operator with
  | .sum path => .sum (numbersAt path rows).sum
  | .avg path => .avg (numbersAt path rows).sum (countOf (numbersAt path rows))
  | .min path => .best (Best.bestOf (beatsMin collation) (comparablesAt path rows))
  | .max path => .best (Best.bestOf (beatsMax collation) (comparablesAt path rows))
  | .count none => .count (countOf rows)
  | .count (some path) => .count (countOf (presentAt path rows))

theorem comparable?_some (v : Json) :
    comparable? (some v) = if isComparable v then some v else none := rfl

theorem stepBest_eq (beats : Json → Json → Bool) (best value : Option Json) :
    stepBest beats best value =
      match comparable? value with
      | none => best
      | some v => Best.step beats best v := by
  cases value with
  | none => rfl
  | some v =>
      rw [comparable?_some]
      unfold stepBest
      by_cases h : isComparable v = true
      · simp only [h, if_true]
        cases best <;> rfl
      · simp [h]

theorem countOf_concat {α : Type} (rows : List α) (row : α) :
    countOf (rows ++ [row]) = countOf rows + JsNumber.ofNat 1 := by
  simp [countOf]

/-- Stepping through the rows gives the state described. -/
theorem foldl_stepField (collation : Collation) (field : AggregateField) (rows : List Json) :
    rows.foldl (fun state row => stepField collation state field row)
      (initialState field.operator) = metricOf collation field.operator rows := by
  induction rows using List.reverseRecOn with
  | nil => cases field.operator with
    | count path => cases path <;> rfl
    | _ => rfl
  | append_singleton rows row ih =>
      rw [List.foldl_append, List.foldl_cons, List.foldl_nil, ih]
      unfold stepField metricOf
      cases field.operator with
      | sum path =>
          simp only [numbersAt, List.filterMap_append, List.sum_append]
          cases hvalue : getPathValue row path with
          | none => simp [hvalue, number?]
          | some v => cases v <;> simp [hvalue, number?]
      | avg path =>
          simp only [numbersAt, List.filterMap_append, List.sum_append]
          cases hvalue : getPathValue row path with
          | none => simp [hvalue, number?]
          | some v => cases v <;> simp [hvalue, number?, countOf]
      | min path =>
          simp only [stepBest_eq, comparablesAt, List.filterMap_append]
          cases hvalue : comparable? (getPathValue row path) with
          | none => simp [hvalue]
          | some v => simp [hvalue, Best.bestOf_concat]
      | max path =>
          simp only [stepBest_eq, comparablesAt, List.filterMap_append]
          cases hvalue : comparable? (getPathValue row path) with
          | none => simp [hvalue]
          | some v => simp [hvalue, Best.bestOf_concat]
      | count path =>
          cases path with
          | none => simp [countOf_concat]
          | some path =>
              simp only [presentAt, List.filter_append]
              cases hvalue : getPathValue row path with
              | none => simp [hvalue, isPresent]
              | some v => cases v <;> simp [hvalue, isPresent, countOf]

/-! ## Merging the states of parts -/

/-- Merge the state a part has written into the state so far. -/
def combine (collation : Collation) (operator : AggregateOperator) (state part : FieldState) :
    FieldState :=
  match operator, state, part with
  | .sum _, .sum s, .sum t => .sum (s + t)
  | .avg _, .avg s m, .avg t n => .avg (s + t) (m + n)
  | .min _, .best s, .best t => .best (stepBest (beatsMin collation) s t)
  | .max _, .best s, .best t => .best (stepBest (beatsMax collation) s t)
  | .count _, .count s, .count t => .count (s + t)
  | _, _, _ => state

/-- The unbeaten comparable values coincide and have one type. -/
structure DecidedBy (beats : Json → Json → Bool) (values : List Json) : Prop where
  oneType : ∀ v ∈ values, ∀ w ∈ values, typeofJson v = typeofJson w
  decided : Best.Decided beats values

/-- A `$min` or `$max` of the rows has one answer. -/
def MetricDecided (collation : Collation) (operator : AggregateOperator) (rows : List Json) :
    Prop :=
  match operator with
  | .min path => DecidedBy (beatsMin collation) (comparablesAt path rows)
  | .max path => DecidedBy (beatsMax collation) (comparablesAt path rows)
  | _ => True

/-! ## The order of comparable values of one type -/

/-- Comparable values of one type are two numbers, two texts or two booleans. -/
theorem sameKind {v w : Json} (hv : isComparable v = true) (htype : typeofJson v = typeofJson w) :
    (∃ a b, v = .num a ∧ w = .num b) ∨ (∃ a b, v = .str a ∧ w = .str b) ∨
      ∃ a b, v = .bool a ∧ w = .bool b := by
  have hsn : js "string" ≠ js "number" := by decide
  have hsb : js "string" ≠ js "boolean" := by decide
  have hnb : js "number" ≠ js "boolean" := by decide
  have hso : js "string" ≠ js "object" := by decide
  have hno : js "number" ≠ js "object" := by decide
  have hbo : js "boolean" ≠ js "object" := by decide
  cases v with
  | num a => cases w <;> simp_all [typeofJson, hsn.symm]
  | str a => cases w <;> simp_all [typeofJson]
  | bool a => cases w <;> simp_all [typeofJson, hsb.symm, hnb.symm]
  | null => cases hv
  | arr items => cases hv
  | obj fields => cases hv

theorem Collation.compare_trans (collation : Collation) {a b c : JsString}
    (h1 : collation.compare a b ≠ .lt) (h2 : collation.compare b c ≠ .lt) :
    collation.compare a c ≠ .lt := by
  have hswap : ∀ x y, collation.compare x y ≠ .lt ↔ collation.compare y x ≠ .gt := by
    intro x y
    rw [collation.swap x y]
    cases collation.compare x y <;> simp
  rw [hswap] at h1 h2 ⊢
  exact collation.trans c b a h2 h1

theorem lessThan_num (collation : Collation) (a b : JsNumber) :
    sameTypeLessThan collation (.num a) (.num b) = decide (a.toRat < b.toRat) := by
  simp [sameTypeLessThan, compareSortValues, compare_lt_iff_lt, typeofJson]

theorem lessThan_str (collation : Collation) (a b : JsString) :
    sameTypeLessThan collation (.str a) (.str b) = decide (collation.compare a b = .lt) := by
  simp only [sameTypeLessThan, typeofJson, decide_true, Bool.true_and]
  rfl

theorem lessThan_bool (collation : Collation) (a b : Bool) :
    sameTypeLessThan collation (.bool a) (.bool b) =
      decide (collation.compare (toJsString (.bool a)) (toJsString (.bool b)) = .lt) := by
  simp only [sameTypeLessThan, typeofJson, decide_true, Bool.true_and]
  rfl

/-- The values a metric compares: comparable and of one type. -/
structure OneKind (values : List Json) : Prop where
  comparable : ∀ v ∈ values, isComparable v = true
  oneType : ∀ v ∈ values, ∀ w ∈ values, typeofJson v = typeofJson w

theorem weakOrder_lessThan (collation : Collation) {values : List Json} (h : OneKind values) :
    Best.WeakOrder (sameTypeLessThan collation) values where
  irrefl v hv := by
    rcases sameKind (h.comparable v hv) rfl with ⟨a, _, rfl, _⟩ | ⟨a, _, rfl, _⟩ | ⟨a, _, rfl, _⟩
    · simp [lessThan_num]
    · simp [lessThan_str]
    · simp [lessThan_bool]
  asymm u hu v hv hlt := by
    have hflip : ∀ a b, collation.compare a b = .lt → collation.compare b a ≠ .lt := by
      intro a b hab
      rw [collation.swap a b, hab]
      decide
    rcases sameKind (h.comparable u hu) (h.oneType u hu v hv) with
      ⟨a, b, rfl, rfl⟩ | ⟨a, b, rfl, rfl⟩ | ⟨a, b, rfl, rfl⟩
    · rw [lessThan_num, decide_eq_true_iff] at hlt
      simpa [lessThan_num] using hlt.le
    · rw [lessThan_str, decide_eq_true_iff] at hlt
      simpa [lessThan_str] using hflip a b hlt
    · rw [lessThan_bool, decide_eq_true_iff] at hlt
      simpa [lessThan_bool] using hflip _ _ hlt
  negTrans u hu v hv w hw huv hvw := by
    have hw' := h.oneType v hv w hw
    rcases sameKind (h.comparable u hu) (h.oneType u hu v hv) with
      ⟨a, b, rfl, rfl⟩ | ⟨a, b, rfl, rfl⟩ | ⟨a, b, rfl, rfl⟩
    · rcases sameKind rfl hw' with ⟨_, c, hb, rfl⟩ | ⟨_, c, hb, _⟩ | ⟨_, c, hb, _⟩ <;> cases hb
      rw [lessThan_num, decide_eq_false_iff_not, not_lt] at huv hvw ⊢
      exact hvw.trans huv
    · rcases sameKind rfl hw' with ⟨_, c, hb, _⟩ | ⟨_, c, hb, rfl⟩ | ⟨_, c, hb, _⟩ <;> cases hb
      rw [lessThan_str, decide_eq_false_iff_not] at huv hvw ⊢
      exact collation.compare_trans huv hvw
    · rcases sameKind rfl hw' with ⟨_, c, hb, _⟩ | ⟨_, c, hb, _⟩ | ⟨_, c, hb, rfl⟩ <;> cases hb
      rw [lessThan_bool, decide_eq_false_iff_not] at huv hvw ⊢
      exact collation.compare_trans huv hvw

/-- `$min` and `$max` order the values of one type weakly. -/
theorem weakOrder_beatsMin (collation : Collation) {values : List Json} (h : OneKind values) :
    Best.WeakOrder (beatsMin collation) values :=
  weakOrder_lessThan collation h

theorem weakOrder_beatsMax (collation : Collation) {values : List Json} (h : OneKind values) :
    Best.WeakOrder (beatsMax collation) values where
  irrefl := (weakOrder_lessThan collation h).irrefl
  asymm u hu v hv := (weakOrder_lessThan collation h).asymm v hv u hu
  negTrans u hu v hv w hw huv hvw :=
    (weakOrder_lessThan collation h).negTrans w hw v hv u hu hvw huv

theorem isComparable_of_mem {path : JsString} {rows : List Json} {v : Json}
    (h : v ∈ comparablesAt path rows) : isComparable v = true := by
  obtain ⟨row, _, hvalue⟩ := List.mem_filterMap.mp h
  exact (Option.filter_eq_some_iff.mp hvalue).2

theorem DecidedBy.oneKind {beats : Json → Json → Bool} {path : JsString} {rows : List Json}
    (h : DecidedBy beats (comparablesAt path rows)) : OneKind (comparablesAt path rows) :=
  ⟨fun _ hv => isComparable_of_mem hv, h.oneType⟩

/-! ## Merging and reordering -/

theorem countOf_append {α : Type} (left right : List α) :
    countOf (left ++ right) = countOf left + countOf right := by
  rw [countOf, List.map_append, List.sum_append]
  rfl

theorem countOf_perm {α : Type} {left right : List α} (h : left.Perm right) :
    countOf left = countOf right :=
  (h.map _).sum_eq

/-- The order of the rows does not matter. -/
theorem metricOf_perm (collation : Collation) {operator : AggregateOperator}
    {left right : List Json} (hdecided : MetricDecided collation operator left)
    (hperm : left.Perm right) :
    metricOf collation operator left = metricOf collation operator right := by
  cases operator with
  | sum path => simp only [metricOf, (hperm.filterMap _).sum_eq, numbersAt]
  | avg path =>
      simp only [metricOf, numbersAt, (hperm.filterMap _).sum_eq, countOf_perm (hperm.filterMap _)]
  | min path =>
      exact congrArg FieldState.best (Best.bestOf_perm
        (weakOrder_beatsMin collation (DecidedBy.oneKind hdecided)) hdecided.decided
        (hperm.filterMap _))
  | max path =>
      exact congrArg FieldState.best (Best.bestOf_perm
        (weakOrder_beatsMax collation (DecidedBy.oneKind hdecided)) hdecided.decided
        (hperm.filterMap _))
  | count path =>
      cases path with
      | none => simp only [metricOf, countOf_perm hperm]
      | some path => simp only [metricOf, presentAt, countOf_perm (hperm.filter _)]

/-- Merging one value into the best so far, if there is one. -/
theorem foldl_stepBest (beats : Json → Json → Bool) (bests : List (Option Json))
    (hcomparable : ∀ v, some v ∈ bests → isComparable v = true) :
    bests.foldl (stepBest beats) none = Best.bestOf beats (bests.filterMap id) := by
  induction bests using List.reverseRecOn with
  | nil => rfl
  | append_singleton bests best ih =>
      rw [List.foldl_append, List.foldl_cons, List.foldl_nil,
        ih fun v hv => hcomparable v (List.mem_append_left _ hv), stepBest_eq,
        List.filterMap_append]
      cases best with
      | none => simp [comparable?]
      | some v =>
          have hv := hcomparable v (by simp)
          rw [comparable?_some, if_pos hv]
          simp [Best.bestOf_concat]

theorem comparablesAt_flatten (path : JsString) (parts : List (List Json)) :
    comparablesAt path parts.flatten = (parts.map (comparablesAt path)).flatten := by
  unfold comparablesAt
  rw [List.filterMap_flatten]

/-- Merging the best values of the parts gives the best value of all rows. -/
theorem merged_bests {beats : Json → Json → Bool} {path : JsString} {parts : List (List Json)}
    (horder : Best.WeakOrder beats (comparablesAt path parts.flatten))
    (hdecided : Best.Decided beats (comparablesAt path parts.flatten)) :
    (parts.map fun part => Best.bestOf beats (comparablesAt path part)).foldl (stepBest beats)
      none = Best.bestOf beats (comparablesAt path parts.flatten) := by
  rw [comparablesAt_flatten] at horder hdecided ⊢
  rw [foldl_stepBest, ← Best.bestOf_filterMap_bestOf horder hdecided, List.filterMap_map,
    List.filterMap_map]
  · rfl
  · intro v hv
    obtain ⟨part, _, hbest⟩ := List.mem_map.mp hv
    exact isComparable_of_mem (Best.mem_of_bestOf hbest)

theorem foldl_combine_min (collation : Collation) (path : JsString) (best : Option Json)
    (bests : List (Option Json)) :
    (bests.map FieldState.best).foldl (combine collation (.min path)) (.best best) =
      .best (bests.foldl (stepBest (beatsMin collation)) best) := by
  induction bests generalizing best with
  | nil => rfl
  | cons b bests ih => exact ih _

theorem foldl_combine_max (collation : Collation) (path : JsString) (best : Option Json)
    (bests : List (Option Json)) :
    (bests.map FieldState.best).foldl (combine collation (.max path)) (.best best) =
      .best (bests.foldl (stepBest (beatsMax collation)) best) := by
  induction bests generalizing best with
  | nil => rfl
  | cons b bests ih => exact ih _

/-- Merging the states of the parts gives the state of all rows. -/
theorem foldl_combine (collation : Collation) (operator : AggregateOperator)
    (parts : List (List Json)) (hdecided : MetricDecided collation operator parts.flatten) :
    (parts.map (metricOf collation operator)).foldl (combine collation operator)
      (initialState operator) = metricOf collation operator parts.flatten := by
  cases operator with
  | sum path =>
      induction parts using List.reverseRecOn with
      | nil => rfl
      | append_singleton parts part ih =>
          simp [ih trivial, metricOf, combine, numbersAt]
  | avg path =>
      induction parts using List.reverseRecOn with
      | nil => rfl
      | append_singleton parts part ih =>
          simp [ih trivial, metricOf, combine, numbersAt, countOf_append]
  | min path =>
      have hmerge := merged_bests (weakOrder_beatsMin collation (DecidedBy.oneKind hdecided))
        hdecided.decided
      have hfold := foldl_combine_min collation path none
        (parts.map fun part => Best.bestOf (beatsMin collation) (comparablesAt path part))
      rw [List.map_map, hmerge] at hfold
      exact hfold
  | max path =>
      have hmerge := merged_bests (weakOrder_beatsMax collation (DecidedBy.oneKind hdecided))
        hdecided.decided
      have hfold := foldl_combine_max collation path none
        (parts.map fun part => Best.bestOf (beatsMax collation) (comparablesAt path part))
      rw [List.map_map, hmerge] at hfold
      exact hfold
  | count path =>
      induction parts using List.reverseRecOn with
      | nil => cases path <;> rfl
      | append_singleton parts part ih =>
          have ih := ih (by cases path <;> trivial)
          cases path <;> simp [ih, metricOf, combine, presentAt, countOf_append]

end ObjyDb
