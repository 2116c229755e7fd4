import ObjyDb.Aggregate.Spec
import ObjyDb.Lib.Grouping
import ObjyDb.Store.FieldIndex

/-!
# Partials — partial aggregates and their merge

A shard aggregates its rows into one partial row for each group (`aggregatePartialObjects`): the
group's values under their paths and the metrics under their names, in one flat object.  The
partial rows of all shards are grouped again by the paths and merged (`mergeAggregatePartials`).
Numbers are exact, so an average is a rational number.
-/

namespace ObjyDb

open Js

/-! ## Objects built by assignment -/

/-- A plain object built by assignments.  Assigning to `__proto__` makes no own property: `null`
takes the prototype away, a scalar does nothing. -/
structure Assigned (ν : Type) where
  own : List (JsString × ν)
  nullProto : Bool

namespace Assigned

variable {ν : Type}

def assign (object : Assigned ν) (key : JsString) (value : ν) (isNull : Bool) : Assigned ν :=
  if key = js "__proto__" then { object with nullProto := object.nullProto || isNull }
  else { object with own := Assoc.set object.own key value }

end Assigned

/-- A row of partial results. -/
abbrev PartialRow := Assigned Json

/-- `row[key]` of a partial row; `Object.prototype` has no enumerable members. -/
def PartialRow.read (row : PartialRow) (key : JsString) : Option Json :=
  match Assoc.get? row.own key with
  | some value => some value
  | none => if key = js "__proto__" ∧ row.nullProto = false then some (.obj []) else none

/-! ## Metrics -/

/-- The state of one metric of one group. -/
inductive FieldState where
  | sum (sum : JsNumber)
  | avg (sum count : JsNumber)
  | best (value : Option Json)
  | count (count : JsNumber)

def initialState : AggregateOperator → FieldState
  | .sum _ => .sum 0
  | .avg _ => .avg 0 0
  | .min _ => .best none
  | .max _ => .best none
  | .count _ => .count 0

/-- The states of a group's metrics, by name. -/
def makeFieldState (fields : List AggregateField) : List (JsString × FieldState) :=
  fields.map fun field => (field.resultKey, initialState field.operator)

def isComparable : Json → Bool
  | .num _ => true
  | .str _ => true
  | .bool _ => true
  | _ => false

def sameTypeLessThan (collation : Collation) (left right : Json) : Bool :=
  decide (typeofJson left = typeofJson right) &&
    decide (compareSortValues collation (some left) (some right) = .lt)

/-- Keep the best value seen so far: a comparable value that `beats` it replaces it. -/
def stepBest (beats : Json → Json → Bool) (best : Option Json) (value : Option Json) :
    Option Json :=
  match value with
  | none => best
  | some v =>
      if isComparable v then
        match best with
        | none => some v
        | some b => if beats v b then some v else best
      else best

def beatsMin (collation : Collation) (value best : Json) : Bool :=
  sameTypeLessThan collation value best

def beatsMax (collation : Collation) (value best : Json) : Bool :=
  sameTypeLessThan collation best value

def stepField (collation : Collation) (state : FieldState) (field : AggregateField) (row : Json) :
    FieldState :=
  match field.operator, state with
  | .sum path, .sum sum =>
      match getPathValue row path with
      | some (.num n) => .sum (sum + n)
      | _ => state
  | .avg path, .avg sum count =>
      match getPathValue row path with
      | some (.num n) => .avg (sum + n) (count + JsNumber.ofNat 1)
      | _ => state
  | .min path, .best best => .best (stepBest (beatsMin collation) best (getPathValue row path))
  | .max path, .best best => .best (stepBest (beatsMax collation) best (getPathValue row path))
  | .count none, .count count => .count (count + JsNumber.ofNat 1)
  | .count (some path), .count count =>
      match getPathValue row path with
      | none => state
      | some .null => state
      | some _ => .count (count + JsNumber.ofNat 1)
  | _, _ => state

def avgSumKey (resultKey : JsString) : JsString :=
  js "$partial." ++ resultKey ++ js ".sum"

def avgCountKey (resultKey : JsString) : JsString :=
  js "$partial." ++ resultKey ++ js ".count"

/-- `out[key] = value` -/
def PartialRow.assign (row : PartialRow) (key : JsString) (value : Json) : PartialRow :=
  Assigned.assign row key value (decide (value = .null))

def writePartialField (out : PartialRow) (state : FieldState) (field : AggregateField) :
    PartialRow :=
  match field.operator, state with
  | .sum _, .sum sum => out.assign field.resultKey (.num sum)
  | .avg _, .avg sum count =>
      (out.assign (avgSumKey field.resultKey) (.num sum)).assign (avgCountKey field.resultKey)
        (.num count)
  | .min _, .best best => out.assign field.resultKey (best.getD .null)
  | .max _, .best best => out.assign field.resultKey (best.getD .null)
  | .count _, .count count => out.assign field.resultKey (.num count)
  | _, _ => out

/-- Add the number `value`, if it is one. -/
def addNumber (total : JsNumber) (value : Option Json) : JsNumber :=
  match value with
  | some (.num n) => total + n
  | _ => total

def mergePartialField (collation : Collation) (state : FieldState) (field : AggregateField)
    (row : PartialRow) : FieldState :=
  match field.operator, state with
  | .sum _, .sum sum => .sum (addNumber sum (row.read field.resultKey))
  | .avg _, .avg sum count =>
      .avg (addNumber sum (row.read (avgSumKey field.resultKey)))
        (addNumber count (row.read (avgCountKey field.resultKey)))
  | .min _, .best best => .best (stepBest (beatsMin collation) best (row.read field.resultKey))
  | .max _, .best best => .best (stepBest (beatsMax collation) best (row.read field.resultKey))
  | .count _, .count count => .count (addNumber count (row.read field.resultKey))
  | _, _ => state

/-- A value of a result row: JSON, or the quotient of an average. -/
inductive ResultValue where
  | json (value : Json)
  | quotient (value : ℚ)

def finishField (state : FieldState) : ResultValue :=
  match state with
  | .sum sum => .json (.num sum)
  | .avg sum count =>
      if count = 0 then .json .null else .quotient (sum.toRat / count.toRat)
  | .best best => .json (best.getD .null)
  | .count count => .json (.num count)

/-! ## Groups -/

structure AggregateBucket where
  groupValues : Fields
  fields : List (JsString × FieldState)

/-- `value === undefined ? null : value` -/
def storedValue (value : Option Json) : Json :=
  value.getD .null

/-- The group's values under their paths; `read` reads a path of the row. -/
def groupValuesOf (groupBy : List JsString) (read : JsString → Option Json) : Fields :=
  groupBy.foldl (fun values path =>
    if path = js "__proto__" then values else Assoc.set values path (storedValue (read path))) []

def groupKeyOf (collation : Collation) (groupBy : List JsString) (read : JsString → Option Json) :
    JsString :=
  stableKey collation (.arr (groupBy.map fun path => storedValue (read path)))

def newBucket (spec : AggregateSpec) (read : JsString → Option Json) : AggregateBucket :=
  ⟨groupValuesOf spec.groupBy read, makeFieldState spec.fields⟩

/-- Update the state object `states[field.resultKey]`. -/
def updateState (update : FieldState → AggregateField → FieldState)
    (states : List (JsString × FieldState)) (field : AggregateField) :
    List (JsString × FieldState) :=
  match Assoc.get? states field.resultKey with
  | some state => Assoc.set states field.resultKey (update state field)
  | none => states

/-- Update the state of every metric. -/
def AggregateBucket.step (bucket : AggregateBucket) (fields : List AggregateField)
    (update : FieldState → AggregateField → FieldState) : AggregateBucket :=
  { bucket with fields := fields.foldl (updateState update) bucket.fields }

/-- `bucket.fields[field.resultKey]`, which `makeFieldState` has set. -/
def AggregateBucket.state (bucket : AggregateBucket) (field : AggregateField) : FieldState :=
  (Assoc.get? bucket.fields field.resultKey).getD (initialState field.operator)

def aggregateBuckets (collation : Collation) (spec : AggregateSpec) (rows : List Json) :
    List (JsString × AggregateBucket) :=
  Grouping.group (fun row => groupKeyOf collation spec.groupBy (getPathValue row))
    (fun row => newBucket spec (getPathValue row))
    (fun bucket row => bucket.step spec.fields fun state field =>
      stepField collation state field row) rows

/-- `cloneGroupValues(bucket.groupValues)` with the partial metrics written into it. -/
def AggregateBucket.partialRow (spec : AggregateSpec) (bucket : AggregateBucket) : PartialRow :=
  spec.fields.foldl (fun out field => writePartialField out (bucket.state field) field)
    ⟨bucket.groupValues, false⟩

/-- `aggregatePartialObjects` of a normalized specification. -/
def partialRows (collation : Collation) (spec : AggregateSpec) (rows : List Json) :
    List PartialRow :=
  (aggregateBuckets collation spec rows).map fun bucket => bucket.2.partialRow spec

/-- `aggregatePartialBuckets(rows, normalized)` -/
def aggregatePartialBuckets (collation : Collation) (spec : AggregateSpec)
    (rows : List PartialRow) : List (JsString × AggregateBucket) :=
  Grouping.group (fun row => groupKeyOf collation spec.groupBy row.read)
    (fun row => newBucket spec row.read)
    (fun bucket row => bucket.step spec.fields fun state field =>
      mergePartialField collation state field row) rows

/-- A row of results. -/
abbrev ResultRow := Assigned ResultValue

def AggregateBucket.resultRow (spec : AggregateSpec) (bucket : AggregateBucket) : ResultRow :=
  spec.fields.foldl (fun out field =>
    let value := finishField (bucket.state field)
    out.assign field.resultKey value (match value with | .json .null => true | _ => false))
    ⟨bucket.groupValues.map fun entry => (entry.1, .json entry.2), false⟩

/-- The groups of `mergeAggregatePartials`, before sorting and paging. -/
def mergedGroups (collation : Collation) (spec : AggregateSpec) (rows : List PartialRow) :
    List ResultRow :=
  (aggregatePartialBuckets collation spec rows).map fun bucket => bucket.2.resultRow spec

/-! ## Sorting and paging -/

/-- `row[path]` of a result row. -/
def ResultRow.read (row : ResultRow) (path : JsString) : Option ResultValue :=
  match Assoc.get? row.own path with
  | some value => some value
  | none => if path = js "__proto__" ∧ row.nullProto = false then some (.json (.obj [])) else none

/-- `value === null || value === undefined` -/
def ResultValue.missing : Option ResultValue → Bool
  | none => true
  | some (.json .null) => true
  | _ => false

/-- `compareSortValues` of two values of one column: a column of averages holds no other values. -/
def ResultValue.compare (collation : Collation) (left right : Option ResultValue) : Ordering :=
  match left, right with
  | some (.quotient l), some (.quotient r) => Ord.compare l r
  | some (.json l), some (.json r) => compareSortValues collation (some l) (some r)
  | _, _ => .eq

/-- `makeComparator(sort)(left, right)` -/
def compareRows (collation : Collation) (sort : List AggregateSort) (left right : ResultRow) :
    Ordering :=
  match sort with
  | [] => .eq
  | entry :: rest =>
      let leftValue := left.read entry.path
      let rightValue := right.read entry.path
      if ResultValue.missing leftValue && ResultValue.missing rightValue then
        compareRows collation rest left right
      else if ResultValue.missing leftValue then .gt
      else if ResultValue.missing rightValue then .lt
      else
        match ResultValue.compare collation leftValue rightValue with
        | .eq => compareRows collation rest left right
        | order => if entry.ascending then order else order.swap

/-- The groups of `mergeAggregatePartials` before paging. -/
def sortedGroups (collation : Collation) (spec : AggregateSpec) (rows : List PartialRow) :
    List ResultRow :=
  if spec.sort = [] then mergedGroups collation spec rows
  else (mergedGroups collation spec rows).mergeSort fun left right =>
    decide (compareRows collation spec.sort left right ≠ .gt)

/-- `mergeAggregatePartials` of a normalized specification. -/
def pagedGroups (collation : Collation) (spec : AggregateSpec) (rows : List PartialRow) :
    List ResultRow :=
  ((sortedGroups collation spec rows).drop ((spec.page - 1) * spec.pageSize)).take spec.pageSize

/-! ## The exported functions -/

def aggregatePartialObjects (collation : Collation) (rows : List Json) (spec : Json) :
    Except JsString (List PartialRow) :=
  (normalizeAggregateSpec spec).map fun normalized => partialRows collation normalized rows

def mergeAggregatePartials (collation : Collation) (rows : List PartialRow) (spec : Json) :
    Except JsString (List ResultRow) :=
  (normalizeAggregateSpec spec).map fun normalized => pagedGroups collation normalized rows

def aggregateObjects (collation : Collation) (rows : List Json) (spec : Json) :
    Except JsString (List ResultRow) := do
  mergeAggregatePartials collation (← aggregatePartialObjects collation rows spec) spec

end ObjyDb
