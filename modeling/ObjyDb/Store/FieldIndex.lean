import ObjyDb.Store.Path
import ObjyDb.Js.JsonText

/-!
# FieldIndex — rows by the value of one field

The index of a path maps typed keys (`number:1`, `string:"1"`) to the rows whose value at the path
is that scalar or an array holding it at any depth, and remembers each row's value.
-/

namespace ObjyDb

open Js

/-! ## Sets of row ids -/

/-- A JavaScript `Set` of row ids, in insertion order. -/
abbrev RidSet := List Nat

def ridSetAdd (set : RidSet) (rid : Nat) : RidSet :=
  if rid ∈ set then set else set ++ [rid]

def ridSetDelete (set : RidSet) (rid : Nat) : RidSet :=
  set.filter (· ≠ rid)

@[simp] theorem mem_ridSetAdd {set : RidSet} {rid r : Nat} :
    r ∈ ridSetAdd set rid ↔ r ∈ set ∨ r = rid := by
  unfold ridSetAdd
  split_ifs with h
  · constructor
    · exact Or.inl
    · rintro (hr | rfl)
      · exact hr
      · exact h
  · simp

@[simp] theorem mem_ridSetDelete {set : RidSet} {rid r : Nat} :
    r ∈ ridSetDelete set rid ↔ r ∈ set ∧ r ≠ rid := by
  simp [ridSetDelete]

theorem nodup_ridSetAdd {set : RidSet} (h : set.Nodup) (rid : Nat) :
    (ridSetAdd set rid).Nodup := by
  unfold ridSetAdd
  split_ifs with hmem
  · exact h
  · exact List.nodup_append.mpr ⟨h, List.nodup_singleton rid, by
      intro a ha b hb
      rw [List.mem_singleton.mp hb]
      rintro rfl
      exact hmem ha⟩

theorem nodup_ridSetDelete {set : RidSet} (h : set.Nodup) (rid : Nat) :
    (ridSetDelete set rid).Nodup :=
  h.filter _

/-! ## Keys -/

def isScalarIndexValue : Json → Bool
  | .str _ => true
  | .num _ => true
  | .bool _ => true
  | _ => false

/-- `typeof value` of a JSON value. -/
def typeofJson : Json → JsString
  | .str _ => js "string"
  | .num _ => js "number"
  | .bool _ => js "boolean"
  | _ => js "object"

def indexValueKey (value : Json) : JsString :=
  typeofJson value ++ unit ':' :: stringify value

/-- The scalars stored in a value: itself, or those in an array at any depth. -/
def indexedStoredValues : Json → List Json
  | .null => []
  | .bool b => [.bool b]
  | .num n => [.num n]
  | .str s => [.str s]
  | .obj _ => []
  | .arr items => flatMapItems items
where
  flatMapItems : List Json → List Json
    | [] => []
    | item :: items => indexedStoredValues item ++ flatMapItems items

/-! ## The index -/

structure FieldIndex where
  path : JsString
  lookup : List (JsString × RidSet)
  forward : List (Nat × Option Json)
  containsStringRids : RidSet
  containsScalarRids : RidSet
  containsNestedArrayRids : RidSet

namespace FieldIndex

def new (path : JsString) : FieldIndex :=
  ⟨path, [], [], [], [], []⟩

/-- The scalars stored under a value that may be `undefined`. -/
def storedValues (value : Option Json) : List Json :=
  match value with
  | some v => indexedStoredValues v
  | none => []

def isArray : Json → Bool
  | .arr _ => true
  | _ => false

def addContainsState (index : FieldIndex) (rid : Nat) (value : Option Json) : FieldIndex :=
  match value with
  | some (.str _) => { index with containsStringRids := ridSetAdd index.containsStringRids rid }
  | some (.num _) => { index with containsScalarRids := ridSetAdd index.containsScalarRids rid }
  | some (.bool _) => { index with containsScalarRids := ridSetAdd index.containsScalarRids rid }
  | some (.arr items) =>
      if items.any isArray then
        { index with containsNestedArrayRids := ridSetAdd index.containsNestedArrayRids rid }
      else index
  | _ => index

def removeContainsState (index : FieldIndex) (rid : Nat) (value : Option Json) : FieldIndex :=
  match value with
  | some (.str _) => { index with containsStringRids := ridSetDelete index.containsStringRids rid }
  | some (.num _) => { index with containsScalarRids := ridSetDelete index.containsScalarRids rid }
  | some (.bool _) =>
      { index with containsScalarRids := ridSetDelete index.containsScalarRids rid }
  | some (.arr items) =>
      if items.any isArray then
        { index with containsNestedArrayRids := ridSetDelete index.containsNestedArrayRids rid }
      else index
  | _ => index

def addKey (lookup : List (JsString × RidSet)) (rid : Nat) (key : JsString) :
    List (JsString × RidSet) :=
  Assoc.set lookup key (ridSetAdd ((Assoc.get? lookup key).getD []) rid)

def removeKey (lookup : List (JsString × RidSet)) (rid : Nat) (key : JsString) :
    List (JsString × RidSet) :=
  match Assoc.get? lookup key with
  | none => lookup
  | some rids =>
      if ridSetDelete rids rid = [] then Assoc.erase lookup key
      else Assoc.set lookup key (ridSetDelete rids rid)

def addValue (index : FieldIndex) (rid : Nat) (value : Option Json) : FieldIndex :=
  addContainsState
    { index with
      forward := Assoc.set index.forward rid value
      lookup := ((storedValues value).map indexValueKey).foldl (addKey · rid ·) index.lookup }
    rid value

def removeValue (index : FieldIndex) (rid : Nat) (value : Option Json) : FieldIndex :=
  removeContainsState
    { index with
      forward := Assoc.erase index.forward rid
      lookup := ((storedValues value).map indexValueKey).foldl (removeKey · rid ·) index.lookup }
    rid value

def removeRid (index : FieldIndex) (rid : Nat) : FieldIndex :=
  match Assoc.get? index.forward rid with
  | none => index
  | some value => index.removeValue rid value

end FieldIndex

end ObjyDb
