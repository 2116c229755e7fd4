import ObjyDb.Query.Keys

/-!
# Match — whether an object matches a query

`matchesQuery` and the operators of constraints.  Regular expressions, dates and letter case belong
to the host; functions and `Date` objects do not occur in JSON queries.

A query is evaluated to a predicate bottom-up, so that an operator sees its operand together with
the predicates that the operand stands for.
-/

namespace ObjyDb

open Js

/-- What the queries use of the host. -/
structure Host where
  collation : Collation
  toLowerCase : JsString → JsString
  /-- `Date.parse(value)`; `none` is `NaN`. -/
  dateParse : Json → Option JsNumber
  /-- `regexMatches(actual, regexFromLegacySpec(spec))` -/
  regexMatches : Fields → Option Json → Bool

/-! ## Names -/

def rhsOperators : List JsString :=
  ["$cb", "$deepEquals", "$eq", "$equal", "$ne", "$not", "$nor", "$and", "$or", "$any", "$all",
    "$null", "$in", "$likeI", "$like", "$startsWith", "$endsWith", "$elemMatch", "$contains",
    "$nin", "$regex", "$gte", "$gt", "$lt", "$lte", "$before", "$after", "$type", "$size", "$mod",
    "$between", "$exists"].map js

def queryControls : List JsString :=
  ["$aggregate", "$cursor", "$limit", "$offset", "$page", "$pageSize", "$refDepth", "$skip",
    "$sort", "$vector"].map js

def stripQueryControls (query : Fields) : Fields :=
  query.filter fun entry => entry.1 ∉ queryControls

/-! ## Values -/

def nullOperator : Json → Bool
  | .null => true
  | .str s => decide (s = [])
  | .arr items => allNull items
  | _ => false
where
  allNull : List Json → Bool
    | [] => true
    | item :: items => nullOperator item && allNull items

def isNullishConstraint : Json → Bool
  | .null => true
  | .str s => decide (s = [])
  | _ => false

/-- An operand as a primitive. -/
def toPrimitive : Json → Json
  | .arr items => .str (toJsString (.arr items))
  | .obj fields => .str (toJsString (.obj fields))
  | value => value

/-- `left == right` of two primitives. -/
def looseEqual : Json → Json → Bool
  | .null, .null => true
  | .null, _ => false
  | _, .null => false
  | .str l, .str r => decide (l = r)
  | l, r =>
      match toNumber l, toNumber r with
      | some x, some y => decide (x = y)
      | _, _ => false

def isObject : Json → Bool
  | .arr _ => true
  | .obj _ => true
  | _ => false

/-- `equal(left, right)`.  `Object.is` of two primitives implies `==` of them, and objects of a
query are never identical with objects of a row. -/
def equal (collation : Collation) (left right : Json) : Bool :=
  match left with
  | .arr items => anyEqual items
  | left =>
      if isNullishConstraint right then nullOperator left
      else if isNullishConstraint left then false
      else if isObject left || isObject right then
        decide (stableKey collation left = stableKey collation right)
      else looseEqual left right
where
  anyEqual : List Json → Bool
    | [] => false
    | item :: items => equal collation item right || anyEqual items

/-- `equal(left, right)` where `left` may be `undefined`. -/
def equalTo (collation : Collation) (left : Option Json) (right : Json) : Bool :=
  match left with
  | some left => equal collation left right
  | none => isNullishConstraint right

def isNullish (value : Option Json) : Bool :=
  match value with
  | some value => nullOperator value
  | none => true

/-- `Array.isArray(actual) ? actual : [actual]` -/
def valuesOf : Option Json → List (Option Json)
  | some (.arr items) => items.map some
  | value => [value]

def stringList (actual : Option Json) : List JsString :=
  (valuesOf actual).filterMap fun value =>
    match value with
    | some (.str s) => some s
    | _ => none

/-- `text.includes(needle)` -/
def textIncludes (text needle : JsString) : Bool :=
  text.tails.any needle.isPrefixOf

def containsValue (collation : Collation) (actual : Option Json) (expected : Json) : Bool :=
  match actual with
  | some (.str s) => textIncludes s (toJsString expected)
  | some (.arr items) => items.any fun item => equal collation item expected
  | _ => false

/-- The order of two values under `<` and `>`; `none` when a side is not a number. -/
def relation (left right : Json) : Option Ordering :=
  match toPrimitive left, toPrimitive right with
  | .str l, .str r => some (compareOfLessAndEq l r)
  | l, r =>
      match toNumber l, toNumber r with
      | some x, some y => some (compare x.toRat y.toRat)
      | _, _ => none

/-- `resolveOperand(value)`; `none` is `NaN`. -/
def resolveOperand (host : Host) : Json → Option Json
  | .obj fields =>
      match Assoc.get? fields (js "$date") with
      | some date => (host.dateParse date).map .num
      | none => some (.obj fields)
  | value => some value

/-- `!nullOperator(actual) && actual <op> resolveOperand(operand)` -/
def compares (host : Host) (accepts : Ordering → Bool) (actual : Option Json) (operand : Json) :
    Bool :=
  !isNullish actual &&
    match actual, resolveOperand host operand with
    | some left, some right => (relation left right).any accepts
    | _, _ => false

def dateComparable (host : Host) : Option Json → Option JsNumber
  | some (.str s) => host.dateParse (.str s)
  | some (.num n) => some n
  | _ => none

def beforeAfter (host : Host) (actual : Option Json) (operand : Json) (accepts : Ordering → Bool) :
    Bool :=
  match dateComparable host actual, dateComparable host (resolveOperand host operand) with
  | some left, some right => accepts (compare left.toRat right.toRat)
  | _, _ => false

/-- `typeof value`, with arrays told apart. -/
def typeOf : Option Json → JsString
  | none => js "undefined"
  | some .null => js "object"
  | some (.bool _) => js "boolean"
  | some (.num _) => js "number"
  | some (.str _) => js "string"
  | some (.arr _) => js "array"
  | some (.obj _) => js "object"

def sizeOf? : Option Json → Option Nat
  | some (.str s) => some s.length
  | some (.arr items) => some items.length
  | some (.obj fields) => some fields.length
  | _ => none

/-- `actual % divisor == result` -/
def modEquals (actual : Option Json) (divisor result : Json) : Bool :=
  match actual.bind fun value => toNumber (toPrimitive value), toNumber (toPrimitive divisor) with
  | some x, some y =>
      let quotient := x.toRat / y.toRat
      let truncated : Int := if quotient < 0 then ⌈quotient⌉ else ⌊quotient⌋
      match result with
      | .null => false
      | result => decide (y.toRat ≠ 0) &&
          (toNumber (toPrimitive result)).any fun z =>
            decide (x.toRat - y.toRat * truncated = z.toRat)
  | _, _ => false

/-! ## Operators -/

/-- What an operand stands for in the operators that look into it. -/
structure Operand where
  value : Json
  /-- `matchesConstraint(actual, value)` -/
  constraint : Option Json → Bool
  /-- `matchesConstraint` of the items, when the operand is an array. -/
  constraints : Option (List (Option Json → Bool))
  /-- `matchesQuery(object, value)` -/
  query : Json → Bool

def andOperator (actual : Option Json) (constraints : Option (List (Option Json → Bool))) : Bool :=
  constraints.any fun constraints => constraints.all fun constraint => constraint actual

def orOperator (actual : Option Json) (constraints : Option (List (Option Json → Bool))) : Bool :=
  constraints.any fun constraints =>
    (valuesOf actual).any fun value => constraints.any fun constraint => constraint value

/-- `matchesOperator(operator, actual, operand)`; `$cb` takes functions only. -/
def matchesOperator (host : Host) (operator : JsString) (actual : Option Json)
    (operand : Operand) : Bool :=
  if operator = js "$deepEquals" then
    actual.any fun value =>
      decide (stableKey host.collation value = stableKey host.collation operand.value)
  else if operator = js "$eq" ∨ operator = js "$equal" then
    equalTo host.collation actual operand.value
  else if operator = js "$ne" ∨ operator = js "$not" then !operand.constraint actual
  else if operator = js "$nor" then !orOperator actual operand.constraints
  else if operator = js "$and" ∨ operator = js "$all" then andOperator actual operand.constraints
  else if operator = js "$or" ∨ operator = js "$any" then orOperator actual operand.constraints
  else if operator = js "$null" then
    if operand.value.truthy then isNullish actual else !isNullish actual
  else if operator = js "$in" then orOperator actual operand.constraints
  else if operator = js "$likeI" then
    (stringList actual).any fun s =>
      textIncludes (host.toLowerCase s) (host.toLowerCase (toJsString operand.value))
  else if operator = js "$like" then
    (stringList actual).any fun s => textIncludes s (toJsString operand.value)
  else if operator = js "$startsWith" then
    (stringList actual).any fun s => (toJsString operand.value).isPrefixOf s
  else if operator = js "$endsWith" then
    (stringList actual).any fun s => (toJsString operand.value).isSuffixOf s
  else if operator = js "$elemMatch" then
    match actual with
    | some (.arr items) => items.any operand.query
    | _ => false
  else if operator = js "$contains" then containsValue host.collation actual operand.value
  else if operator = js "$nin" then !orOperator actual operand.constraints
  else if operator = js "$gte" then compares host (· ≠ .lt) actual operand.value
  else if operator = js "$gt" then compares host (· = .gt) actual operand.value
  else if operator = js "$lt" then compares host (· = .lt) actual operand.value
  else if operator = js "$lte" then compares host (· ≠ .gt) actual operand.value
  else if operator = js "$before" then beforeAfter host actual operand.value (· ≠ .gt)
  else if operator = js "$after" then beforeAfter host actual operand.value (· ≠ .lt)
  else if operator = js "$type" then decide (operand.value = .str (typeOf actual))
  else if operator = js "$size" then
    match sizeOf? actual, toNumber operand.value with
    | some size, some n => decide (n = JsNumber.ofNat size)
    | _, _ => false
  else if operator = js "$mod" then
    match operand.value with
    | .arr (divisor :: result :: _) => modEquals actual divisor result
    | _ => false
  else if operator = js "$between" then
    match operand.value with
    | .arr (low :: high :: _) =>
        compares host (· = .gt) actual low && compares host (· = .lt) actual high
    | _ => false
  else if operator = js "$exists" then
    decide ((actual.any fun value => decide (value ≠ .null)) = operand.value.truthy)
  else false

/-! ## Queries -/

/-- The predicates of the value of a key in a query. -/
structure QueryPart where
  /-- `matchesConstraint(actual, expected)` -/
  constraint : Option Json → Bool
  /-- `matchesQuery(object, expected)` -/
  query : Json → Bool
  /-- `matchesQuery` of `logicalConstraints(expected)` -/
  queries : List (Json → Bool)
  /-- `matchesQuery` of `expected.$constraints`, and `matchesConstraint` of `expected.$constraint`
  when there is one. -/
  counted : Option (List (Json → Bool)) × Option (Option Json → Bool)

def matchesCount (part : QueryPart) (object : Json) : Bool :=
  match part.counted.1 with
  | none => false
  | some queries =>
      let count := Json.num (JsNumber.ofNat (queries.countP fun query => query object))
      match part.counted.2 with
      | some constraint => constraint (some count)
      | none => nullOperator count

/-- One entry of a query; `$where` takes functions only. -/
def matchesEntry (path : JsString) (part : QueryPart) (object : Json) : Bool :=
  if path ∈ queryControls then true
  else if path = js "$and" then part.queries.all fun query => query object
  else if path = js "$or" then part.queries.any fun query => query object
  else if path = js "$nor" then !part.queries.any fun query => query object
  else if path = js "$not" then !part.query object
  else if path = js "$count" then matchesCount part object
  else if path = js "$where" then false
  else part.constraint (getPathValue object path)

mutual

/-- `matchesConstraint(actual, expected)` -/
def matchesConstraint (host : Host) : Json → Option Json → Bool
  | .arr constraints, actual => orOperator actual (some (constraintList host constraints))
  | .obj fields, actual =>
      if (Assoc.get? fields (js "$regex")).isSome then host.regexMatches fields actual
      else matchesOperators host (.obj fields) fields actual
  | expected, actual =>
      match actual with
      | some (.arr items) => items.any fun item => equal host.collation item expected
      | actual =>
          if isNullishConstraint expected then isNullish actual
          else equalTo host.collation actual expected

/-- The operators of a constraint in turn; a name that is not an operator makes the whole
constraint a value to compare with. -/
def matchesOperators (host : Host) (whole : Json) : Fields → Option Json → Bool
  | [], _ => true
  | (operator, operand) :: rest, actual =>
      if operator ∉ rhsOperators then equalTo host.collation actual whole
      else
        matchesOperator host operator actual ⟨operand, matchesConstraint host operand,
          constraintsOf host operand, matchesQuery host operand⟩ &&
          matchesOperators host whole rest actual

def constraintsOf (host : Host) : Json → Option (List (Option Json → Bool))
  | .arr items => some (constraintList host items)
  | _ => none

def constraintList (host : Host) : List Json → List (Option Json → Bool)
  | [] => []
  | item :: items => matchesConstraint host item :: constraintList host items

/-- `matchesQuery(object, query)` -/
def matchesQuery (host : Host) : Json → Json → Bool
  | .obj fields, object => matchesEntries host fields object
  | _, _ => false

def matchesEntries (host : Host) : Fields → Json → Bool
  | [], _ => true
  | (path, expected) :: rest, object =>
      matchesEntry path ⟨matchesConstraint host expected, matchesQuery host expected,
        queriesOf host expected, countedOf host expected⟩ object && matchesEntries host rest object

/-- `logicalConstraints(value)` -/
def queriesOf (host : Host) : Json → List (Json → Bool)
  | .arr items => queryList host items
  | .obj fields => entryQueries host fields
  | _ => []

def queryList (host : Host) : List Json → List (Json → Bool)
  | [] => []
  | item :: items => matchesQuery host item :: queryList host items

def entryQueries (host : Host) : Fields → List (Json → Bool)
  | [] => []
  | (path, expected) :: rest =>
      matchesEntry path ⟨matchesConstraint host expected, matchesQuery host expected,
        queriesOf host expected, countedOf host expected⟩ :: entryQueries host rest

def countedOf (host : Host) : Json → Option (List (Json → Bool)) × Option (Option Json → Bool)
  | .obj fields => countedFields host fields
  | _ => (none, none)

def countedFields (host : Host) : Fields →
    Option (List (Json → Bool)) × Option (Option Json → Bool)
  | [] => (none, none)
  | (key, value) :: rest =>
      if key = js "$constraints" then (arrayQueries host value, (countedFields host rest).2)
      else if key = js "$constraint" then
        ((countedFields host rest).1, some (matchesConstraint host value))
      else countedFields host rest

def arrayQueries (host : Host) : Json → Option (List (Json → Bool))
  | .arr items => some (queryList host items)
  | _ => none

end

end ObjyDb
