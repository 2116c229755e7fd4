import ObjyDb.Query.Match
import ObjyDb.Store.Collection

/-!
# Planner — answering queries from field indexes

Which rows a query can be answered with from the field indexes, exactly or up to a check of every
row, and `find` and `count` over the rows that the plan yields.  A query that the planner cannot use
is answered by a scan.
-/

namespace ObjyDb

open Js

/-! ## Sets -/

def setIntersection (left right : RidSet) : RidSet :=
  if left.length > right.length then right.filter (· ∈ left) else left.filter (· ∈ right)

def setUnion (left right : RidSet) : RidSet :=
  right.foldl ridSetAdd left

/-! ## What a constraint asks an index for -/

def indexableEqualityValue (value : Json) : Option (List Json) :=
  if isScalarIndexValue value then some [value] else none

def indexableValueList : List Json → Option (List Json)
  | [] => some []
  | value :: values =>
      match indexableEqualityValue value, indexableValueList values with
      | some single, some indexed => some (single ++ indexed)
      | _, _ => none

mutual

/-- `indexableConstraintValues(constraint)`: the first operator it knows decides. -/
def indexableConstraintValues : Json → Option (List Json)
  | .arr values => indexableValueList values
  | .obj fields =>
      match Assoc.get? fields (js "$eq"), Assoc.get? fields (js "$equal"),
        Assoc.get? fields (js "$in"), disjunctionAt (js "$or") fields,
        disjunctionAt (js "$any") fields with
      | some value, _, _, _, _ => indexableEqualityValue value
      | none, some value, _, _, _ => indexableEqualityValue value
      | none, none, some (.arr values), _, _ => indexableValueList values
      | none, none, _, some values, _ => values
      | none, none, _, none, some values => values
      | none, none, _, none, none => none
  | value => indexableEqualityValue value

/-- `indexableDisjunctionValues` of an array at a key; `none` when there is no array. -/
def disjunctionAt (key : JsString) : Fields → Option (Option (List Json))
  | [] => none
  | (k, value) :: rest => if k = key then arrayDisjunction value else disjunctionAt key rest

def arrayDisjunction : Json → Option (Option (List Json))
  | .arr constraints => some (indexableDisjunctionValues constraints)
  | _ => none

def indexableDisjunctionValues : List Json → Option (List Json)
  | [] => some []
  | constraint :: constraints =>
      match indexableConstraintValues constraint, indexableDisjunctionValues constraints with
      | some indexed, some values => some (indexed ++ values)
      | _, _ => none

end

def indexableContainsValue : Json → Option Json
  | .obj [(key, value)] =>
      if key = js "$contains" ∧ isScalarIndexValue value = true then some value else none
  | _ => none

namespace FieldIndex

def idsForValues (index : FieldIndex) (values : List Json) : RidSet :=
  match unique (values.map indexValueKey) with
  | [key] => (Assoc.get? index.lookup key).getD []
  | keys => keys.foldl (fun ids key => setUnion ids ((Assoc.get? index.lookup key).getD [])) []

/-- The index cannot tell the rows whose value is not an array of scalars. -/
def hasContainsState (index : FieldIndex) : Bool :=
  decide (index.containsStringRids ≠ []) || decide (index.containsScalarRids ≠ []) ||
    decide (index.containsNestedArrayRids ≠ [])

def idsForContains (index : FieldIndex) (value : Json) : Option RidSet :=
  if index.hasContainsState then none
  else some ((Assoc.get? index.lookup (indexValueKey value)).getD [])

end FieldIndex

namespace Collection

variable (host : Host) (c : Collection)

/-- `_dirtyAwareIndexedRids(path, expected, indexed)` -/
def dirtyAwareIndexedRids (path : JsString) (expected : Json) (indexed : RidSet) : RidSet :=
  if c.indexDirtyRids.bits = [] then indexed
  else
    let clean := indexed.filter fun rid => !c.indexDirtyRids.has rid
    (c.indexDirtyRids.queue.filter fun rid => c.indexDirtyRids.has rid).foldl (fun out rid =>
      match c.readRid rid with
      | some object =>
          if matchesQuery host (.obj [(path, expected)]) (.obj object) then ridSetAdd out rid
          else out
      | none => out) clean

/-- `has(id)` -/
def has (id : JsString) : Bool :=
  (Assoc.get? c.objects id).any fun m => m.deleted.isNone

/-- `_ridsForObjectIdConstraint(expected)` -/
def ridsForObjectIdConstraint (expected : Json) : Option RidSet :=
  (indexableConstraintValues expected).map fun values =>
    values.foldl (fun rids value =>
      match Assoc.get? c.objects (toJsString value) with
      | some m => if c.has (toJsString value) then ridSetAdd rids m.rid else rids
      | none => rids) []

/-- `_ridsForFieldConstraint(path, expected)` -/
def ridsForFieldConstraint (path : JsString) (expected : Json) : Option RidSet :=
  if path = js "_id" then c.ridsForObjectIdConstraint expected
  else
    match Assoc.get? c.indexes path with
    | none => none
    | some index =>
        match indexableContainsValue expected with
        | some value =>
            (index.idsForContains value).map (c.dirtyAwareIndexedRids host path expected)
        | none =>
            (indexableConstraintValues expected).map fun values =>
              c.dirtyAwareIndexedRids host path expected (index.idsForValues values)

/-- `current === null ? rids : setIntersection(current, rids)` -/
def narrow (current : Option RidSet) (rids : RidSet) : RidSet :=
  match current with
  | none => rids
  | some current => setIntersection current rids

def isEmptyCriteria (criteria : Json) : Bool :=
  decide (criteria = .obj [])

/-- The sets of the children of `$and`: `none` when a child cannot be answered, `some none` when
every child is empty. -/
def andRids (children : List (Json × Option RidSet)) : Option (Option RidSet) :=
  let sets := (children.filter fun child => !isEmptyCriteria child.1).map Prod.snd
  if none ∈ sets then none
  else
    match sets.filterMap id with
    | [] => some none
    | set :: sets => some (some (sets.foldl setIntersection set))

def orRids (children : List (Json × Option RidSet)) : Option RidSet :=
  let sets := children.map Prod.snd
  if none ∈ sets then none
  else
    match sets.filterMap id with
    | [] => some []
    | set :: sets => some (sets.foldl setUnion set)

/-- `Object.entries` of a child that is no object: its items or characters by index. -/
def indexedEntries : Json → Fields
  | .arr items => items.zipIdx.map fun entry => ((JsNumber.ofNat entry.2).toText, entry.1)
  | .str s => s.zipIdx.map fun entry => ((JsNumber.ofNat entry.2).toText, .str [entry.1])
  | _ => []

/-- Entries that constrain fields only. -/
def ridsForFields : Fields → Option RidSet → Option RidSet
  | [], current => current
  | (path, expected) :: rest, current =>
      match c.ridsForFieldConstraint host path expected with
      | none => none
      | some rids => ridsForFields rest (some (narrow current rids))

mutual

/-- `_ridsForCriteria(query)` -/
def ridsForCriteria : Json → Option RidSet
  | .obj fields => ridsForEntries fields none
  | query => c.ridsForFields host (indexedEntries query) none

def ridsForEntries : Fields → Option RidSet → Option RidSet
  | [], current => current
  | (path, expected) :: rest, current =>
      match childRids expected with
      | some children =>
          if path = js "$and" then
            match andRids children with
            | none => none
            | some none => ridsForEntries rest current
            | some (some rids) => ridsForEntries rest (some (narrow current rids))
          else if path = js "$or" then
            match orRids children with
            | none => none
            | some rids => ridsForEntries rest (some (narrow current rids))
          else if (js "$").isPrefixOf path then none
          else
            match c.ridsForFieldConstraint host path expected with
            | none => none
            | some rids => ridsForEntries rest (some (narrow current rids))
      | none =>
          if (js "$").isPrefixOf path then none
          else
            match c.ridsForFieldConstraint host path expected with
            | none => none
            | some rids => ridsForEntries rest (some (narrow current rids))

/-- The items of an array with their sets. -/
def childRids : Json → Option (List (Json × Option RidSet))
  | .arr items => some (itemRids items)
  | _ => none

def itemRids : List Json → List (Json × Option RidSet)
  | [] => []
  | item :: items => (item, ridsForCriteria item) :: itemRids items

end

/-- Entries that constrain fields only, as far as indexes answer them. -/
def partialRidsForFields : Fields → Option RidSet → Option RidSet
  | [], current => current
  | (path, expected) :: rest, current =>
      match c.ridsForFieldConstraint host path expected with
      | none => partialRidsForFields rest current
      | some rids => partialRidsForFields rest (some (narrow current rids))

/-- The children of `$and` in turn. -/
def narrowAll (current : Option RidSet) (children : List (Json × Option RidSet)) :
    Option RidSet :=
  children.foldl (fun current child =>
    if isEmptyCriteria child.1 then current
    else
      match child.2 with
      | some rids => some (narrow current rids)
      | none => current) current

mutual

/-- `_partialRidsForCriteria(query)` -/
def partialRidsForCriteria : Json → Option RidSet
  | .obj fields => partialRidsForEntries fields none
  | query => c.partialRidsForFields host (indexedEntries query) none

def partialRidsForEntries : Fields → Option RidSet → Option RidSet
  | [], current => current
  | (path, expected) :: rest, current =>
      match partialChildRids expected with
      | some children =>
          if path = js "$and" then partialRidsForEntries rest (narrowAll current children)
          else if path = js "$or" then
            match c.ridsForCriteria host (.obj [(js "$or", expected)]) with
            | some rids => partialRidsForEntries rest (some (narrow current rids))
            | none => partialRidsForEntries rest current
          else if (js "$").isPrefixOf path then partialRidsForEntries rest current
          else
            match c.ridsForFieldConstraint host path expected with
            | some rids => partialRidsForEntries rest (some (narrow current rids))
            | none => partialRidsForEntries rest current
      | none =>
          if (js "$").isPrefixOf path then partialRidsForEntries rest current
          else
            match c.ridsForFieldConstraint host path expected with
            | some rids => partialRidsForEntries rest (some (narrow current rids))
            | none => partialRidsForEntries rest current

/-- The items of an array with `_ridsForCriteria(child) || _partialRidsForCriteria(child)`. -/
def partialChildRids : Json → Option (List (Json × Option RidSet))
  | .arr items => some (partialItemRids items)
  | _ => none

def partialItemRids : List Json → List (Json × Option RidSet)
  | [] => []
  | item :: items =>
      (item, (c.ridsForCriteria host item).or (partialRidsForCriteria item)) ::
        partialItemRids items

end

/-! ## Plans -/

inductive ReadPath
  | indexExact
  | indexPartial
  | scan
  deriving DecidableEq

/-- The rows to look at; `ids` is `none` for all live rows. -/
structure ReadPlan where
  path : ReadPath
  ids : Option RidSet
  verify : Bool

/-- `planRead(criteria)`, without a sort field. -/
def planRead (criteria : Fields) : ReadPlan :=
  if criteria = [] then ⟨.scan, none, false⟩
  else
    match c.ridsForCriteria host (.obj criteria), c.partialRidsForCriteria host (.obj criteria) with
    | some rids, _ => ⟨.indexExact, some rids, false⟩
    | none, some rids => ⟨.indexPartial, some rids, true⟩
    | none, none => ⟨.scan, none, false⟩

/-- The object of a row matches the criteria. -/
def matchesRid (criteria : Fields) (rid : Nat) : Bool :=
  (c.readRid rid).any fun object => matchesQuery host (.obj criteria) (.obj object)

/-- `_ridsForPlan(plan, criteria)` -/
def ridsForPlan (plan : ReadPlan) (criteria : Fields) : List Nat :=
  (plan.ids.getD c.liveRids).filter fun rid => !plan.verify || c.matchesRid host criteria rid

/-- The row passes the filter on ids. -/
def includesRid (includeId : Option (JsString → Bool)) (rid : Nat) : Bool :=
  match includeId with
  | none => true
  | some includeId => (c.idForRid rid).any includeId

/-- The rows that `find` goes through. -/
def foundRids (criteria : Fields) (includeId : Option (JsString → Bool)) : List Nat :=
  let plan := c.planRead host criteria
  let verifyScan := decide (plan.path = .scan) && decide (criteria ≠ [])
  (c.ridsForPlan host plan criteria).filter fun rid =>
    c.includesRid includeId rid && (!verifyScan || c.matchesRid host criteria rid)

/-- `find(query, options)`, without a sort field; `limit` is `none` for `Infinity`. -/
def find (query : Fields) (includeId : Option (JsString → Bool)) (offset : Nat)
    (limit : Option Nat) : List Fields :=
  let objects := ((c.foundRids host (stripQueryControls query) includeId).drop offset).filterMap
    c.readRid
  match limit with
  | none => objects
  | some limit => objects.take limit

/-- `count(query, options)`; `includeId` is asked for rows that have an id. -/
def count (query : Fields) (includeId : Option (JsString → Bool)) (includeIds : Option RidSet) :
    Int :=
  let criteria := stripQueryControls query
  if criteria = [] then
    match includeIds, includeId with
    | some rids, some _ => rids.countP (c.includesRid includeId)
    | some rids, none => rids.length
    | none, some _ => c.liveRids.countP (c.includesRid includeId)
    | none, none => c.liveCount
  else
    let plan := c.planRead host criteria
    match plan.path with
    | .indexExact =>
        let rids := match includeIds with
          | some rids => setIntersection (plan.ids.getD []) rids
          | none => plan.ids.getD []
        rids.countP (c.includesRid includeId)
    | _ =>
        let verifyScan := decide (plan.path = .scan)
        (c.ridsForPlan host plan criteria).countP fun rid =>
          includeIds.all (fun rids => decide (rid ∈ rids)) && c.includesRid includeId rid &&
            (!verifyScan || c.matchesRid host criteria rid)

end Collection

end ObjyDb
