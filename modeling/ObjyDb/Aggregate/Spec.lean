import ObjyDb.Lib.Fallible
import ObjyDb.Query.Keys

/-!
# Spec — aggregate specifications

`normalizeAggregateSpec` checks a specification and brings it into the form the aggregation works
with.  Every rejected specification names the entry it was rejected for.
-/

namespace ObjyDb

open Js

/-- What a metric computes, with the field path it reads. -/
inductive AggregateOperator where
  | sum (path : JsString)
  | min (path : JsString)
  | max (path : JsString)
  | avg (path : JsString)
  /-- `none` is the operand `true`: count every row. -/
  | count (path : Option JsString)
  deriving DecidableEq

structure AggregateField where
  resultKey : JsString
  operator : AggregateOperator
  deriving DecidableEq

structure AggregateSort where
  path : JsString
  ascending : Bool
  deriving DecidableEq

/-- A normalized specification. -/
structure AggregateSpec where
  groupBy : List JsString
  fields : List AggregateField
  sort : List AggregateSort
  page : Nat
  pageSize : Nat
  deriving DecidableEq

/-! ## Normalizing -/

def normalizeGroupBy : Option Json → Except JsString (List JsString)
  | none => .ok []
  | some .null => .ok []
  | some (.str path) =>
      if path = [] then .error (js "$aggregate.groupBy must be a string or an array of strings")
      else .ok [path]
  | some (.arr paths) => paths.mapM fun path =>
      match path with
      | .str p =>
          if p = [] then .error (js "$aggregate.groupBy entries must be non-empty strings")
          else .ok p
      | _ => .error (js "$aggregate.groupBy entries must be non-empty strings")
  | some _ => .error (js "$aggregate.groupBy must be a string or an array of strings")

/-- The text `$aggregate.fields.<resultKey>`. -/
def fieldLabel (resultKey : JsString) : JsString :=
  js "$aggregate.fields." ++ resultKey

/-- A non-empty field path. -/
def operandPath? : Json → Option JsString
  | .str path => if path = [] then none else some path
  | _ => none

def normalizeOperator (resultKey operator : JsString) (operand : Json) :
    Except JsString AggregateOperator :=
  let pathOr (make : JsString → AggregateOperator) : Except JsString AggregateOperator :=
    match operandPath? operand with
    | some path => .ok (make path)
    | none => .error (fieldLabel resultKey ++ unit '.' :: operator ++ js " must be a field path")
  if operator = js "$sum" then pathOr .sum
  else if operator = js "$min" then pathOr .min
  else if operator = js "$max" then pathOr .max
  else if operator = js "$avg" then pathOr .avg
  else if operator = js "$count" then
    if operand = .bool true then .ok (.count none)
    else
      match operandPath? operand with
      | some path => .ok (.count (some path))
      | none => .error (fieldLabel resultKey ++ js ".$count must be true or a field path")
  else .error (fieldLabel resultKey ++ js " has unknown operator " ++ operator)

def normalizeField (entry : JsString × Json) : Except JsString AggregateField :=
  match entry.2 with
  | .obj [(operator, operand)] =>
      (normalizeOperator entry.1 operator operand).map (AggregateField.mk entry.1)
  | .obj _ => .error (fieldLabel entry.1 ++ js " must define exactly one operator")
  | _ => .error (fieldLabel entry.1 ++ js " must be an operator object")

def normalizeFields : Option Json → Except JsString (List AggregateField)
  | some (.obj fields) => fields.mapM normalizeField
  | _ => .error (js "$aggregate.fields must be a plain object")

def normalizeSort : Option Json → Except JsString (List AggregateSort)
  | none => .ok []
  | some .null => .ok []
  | some (.obj entries) => entries.mapM fun entry =>
      if entry.2 = .num (JsNumber.ofNat 1) then .ok ⟨entry.1, true⟩
      else if entry.2 = .num (JsNumber.ofDigits true [1] 1) then .ok ⟨entry.1, false⟩
      else .error (js "$aggregate.$sort." ++ entry.1 ++ js " must be 1 or -1")
  | some _ => .error (js "$aggregate.$sort must be a plain object")

def normalizePositiveInteger (value : Option Json) (name : JsString) (fallback : Nat) :
    Except JsString Nat :=
  let parsed (v : Json) : Except JsString Nat :=
    match (toNumber v).bind integer? with
    | some n => if n < 1 then .error (name ++ js " must be an integer >= 1") else .ok n.toNat
    | none => .error (name ++ js " must be an integer >= 1")
  match value with
  | none => .ok fallback
  | some .null => .ok fallback
  | some v => parsed v

def normalizeAggregateSpec (spec : Json) : Except JsString AggregateSpec :=
  match spec with
  | .obj entries => do
      let groupBy ← normalizeGroupBy (Assoc.get? entries (js "groupBy"))
      let fields ← normalizeFields (Assoc.get? entries (js "fields"))
      let sort ← normalizeSort (Assoc.get? entries (js "$sort"))
      let page ← normalizePositiveInteger (Assoc.get? entries (js "$page"))
        (js "$aggregate.$page") 1
      let pageSize ← normalizePositiveInteger (Assoc.get? entries (js "$pageSize"))
        (js "$aggregate.$pageSize") 20
      pure ⟨groupBy, fields, sort, page, pageSize⟩
  | _ => .error (js "$aggregate must be a plain object")

/-! ## What a normalized specification looks like -/

theorem resultKey_normalizeField {entry : JsString × Json} {field : AggregateField}
    (h : normalizeField entry = .ok field) : field.resultKey = entry.1 := by
  unfold normalizeField at h
  split at h
  · rename_i operator operand _
    cases hop : normalizeOperator entry.1 operator operand with
    | error e => rw [hop] at h; cases h
    | ok op =>
        rw [hop] at h
        cases h
        rfl
  · cases h
  · cases h

/-- The metrics of a normalized specification have the names of the entries of `fields`. -/
theorem resultKeys_normalizeFields {fields : Fields} {normalized : List AggregateField}
    (h : normalizeFields (some (.obj fields)) = .ok normalized) :
    normalized.map AggregateField.resultKey = Assoc.keys fields := by
  have hall := Fallible.forall₂_mapM h
  clear h
  induction hall with
  | nil => rfl
  | cons hx _ ih => rw [List.map_cons, ih, resultKey_normalizeField hx, Assoc.keys, Assoc.keys,
      List.map_cons]

/-- Metrics have distinct names: they are the keys of one object. -/
theorem nodup_resultKeys {spec : Json} {normalized : AggregateSpec} (hwf : spec.WellFormed)
    (h : normalizeAggregateSpec spec = .ok normalized) :
    (normalized.fields.map AggregateField.resultKey).Nodup := by
  cases spec with
  | obj entries =>
      obtain ⟨groupBy, _, h⟩ := Fallible.bind_eq_ok.mp h
      obtain ⟨fields, hfields, h⟩ := Fallible.bind_eq_ok.mp h
      obtain ⟨sort, _, h⟩ := Fallible.bind_eq_ok.mp h
      obtain ⟨page, _, h⟩ := Fallible.bind_eq_ok.mp h
      obtain ⟨pageSize, _, h⟩ := Fallible.bind_eq_ok.mp h
      cases h
      cases hget : Assoc.get? entries (js "fields") with
      | none => rw [hget] at hfields; cases hfields
      | some value =>
          rw [hget] at hfields
          cases value with
          | obj metrics =>
              have hmem := Assoc.mem_of_get?_eq_some hget
              have hmetrics := (Json.wellFormed_obj_iff.mp hwf).2 _ hmem
              rw [resultKeys_normalizeFields hfields]
              exact (Json.wellFormed_obj_iff.mp hmetrics).1
          | _ => cases hfields
  | _ => cases h

end ObjyDb
