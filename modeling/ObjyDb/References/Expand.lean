import ObjyDb.Js.Conversions
import ObjyDb.Js.Document

/-!
# Expand — references and their objects

A reference is an object of `type: "reference"` that names a collection and a value.  Reading may
attach to it the object it names, as its field `object`; writing strips these fields again.

Every function gives `none` when the code throws (`String(value)` of an object with an own
`toString`), and when an assignment to `__proto__` gives an object another prototype, so that it is
no JSON value any more.
-/

namespace ObjyDb
namespace References

open Js

/-! ## References -/

/-- `String(value)` throws: an own `toString` of a JSON value cannot be called. -/
def stringThrows : Json → Bool
  | .obj fields => (Assoc.get? fields (js "toString")).isSome
  | .arr items => anyThrows items
  | _ => false
where
  anyThrows : List Json → Bool
    | [] => false
    | item :: items => stringThrows item || anyThrows items

/-- `String(value)` -/
def string? (value : Json) : Option JsString :=
  if stringThrows value then none else some (toJsString value)

/-- A field that holds a text. -/
def textField (fields : Fields) (key : JsString) : Option JsString :=
  match Assoc.get? fields key with
  | some (.str s) => some s
  | _ => none

/-- A field that is neither `undefined` nor `null`. -/
def presentField (fields : Fields) (key : JsString) : Option Json :=
  (Assoc.get? fields key).filter fun value => decide (value ≠ .null)

/-- `isReference(value)` of a plain object. -/
def isReference (fields : Fields) : Option Bool :=
  if textField fields (js "type") = some (js "reference") then
    match textField fields (js "collection") with
    | none | some [] => some false
    | some _ =>
        match presentField fields (js "value") with
        | none => some false
        | some value => (string? value).map fun text => decide (text ≠ [])
  else some false

/-- The object a reference names. -/
structure Target where
  database : JsString
  collection : JsString
  id : JsString
  deriving DecidableEq

/-- `String(ref.database)`, or the fallback. -/
def referenceDatabase (ref : Fields) (fallback : Option JsString) : Option (Option JsString) :=
  match presentField ref (js "database") with
  | none => some fallback
  | some database => (string? database).map some

def textOf : Option Json → Option JsString
  | some value => string? value
  | none => some (js "undefined")

/-- `referenceTarget(ref, fallbackDatabase)` of a reference: none inside when there is no database
or it is empty. -/
def referenceTarget (ref : Fields) (fallback : Option JsString) : Option (Option Target) := do
  let database ← referenceDatabase ref fallback
  let collection ← textOf (Assoc.get? ref (js "collection"))
  let id ← textOf (Assoc.get? ref (js "value"))
  match database with
  | none | some [] => return none
  | some database => return some ⟨database, collection, id⟩

/-- `referenceKey({ database, collection, id })` -/
def referenceKey (target : Target) : JsString :=
  target.database ++ [unit '\x00'] ++ target.collection ++ [unit '\x00'] ++ target.id

def objectKey : JsString := js "object"

/-- `out[key] = value` on an object literal `out`. -/
def assignField (out : Fields) (key : JsString) (value : Json) : Option Fields :=
  if key = js "__proto__" then
    -- the setter takes an object or `null`, and ignores anything else
    match value with
    | .obj _ | .arr _ | .null => none
    | _ => some out
  else some (Assoc.set out key value)

def assignAll (out : Fields) (entries : Fields) : Option Fields :=
  entries.foldlM (fun out (entry : JsString × Json) => assignField out entry.1 entry.2) out

/-! ## Stripping -/

structure Stripped (α : Type) where
  value : α
  changed : Bool
  hasReference : Bool
  deriving DecidableEq

def stripReferenceObjectsInner : Json → Option (Stripped Json)
  | .arr items => do
      let out ← stripItems items
      if out.changed then return ⟨.arr out.value, true, out.hasReference⟩
      else return ⟨.arr items, false, out.hasReference⟩
  | .obj fields => do
      let reference ← isReference fields
      let out ← stripEntries reference fields
      if out.changed then
        let value ← assignAll [] out.value
        return ⟨.obj value, true, reference || out.hasReference⟩
      else return ⟨.obj fields, false, reference || out.hasReference⟩
  | value => some ⟨value, false, false⟩
where
  stripItems : List Json → Option (Stripped (List Json))
    | [] => some ⟨[], false, false⟩
    | item :: items => do
        let head ← stripReferenceObjectsInner item
        let rest ← stripItems items
        return ⟨head.value :: rest.value, head.changed || rest.changed,
          head.hasReference || rest.hasReference⟩
  stripEntries (reference : Bool) : Fields → Option (Stripped Fields)
    | [] => some ⟨[], false, false⟩
    | (key, item) :: entries =>
        if reference ∧ key = objectKey then do
          let rest ← stripEntries reference entries
          return ⟨rest.value, true, rest.hasReference⟩
        else do
          let head ← stripReferenceObjectsInner item
          let rest ← stripEntries reference entries
          return ⟨(key, head.value) :: rest.value, head.changed || rest.changed,
            head.hasReference || rest.hasReference⟩

def stripReferenceObjects (value : Json) : Option Json :=
  (stripReferenceObjectsInner value).map Stripped.value

/-! ## Expanding -/

/-- `getObject(database, collection, id)` -/
abbrev Lookup := Target → Option Fields

/-- `cloneReferenceDescriptor(ref)` -/
def cloneReferenceDescriptor (ref : Fields) : Option Fields :=
  ref.foldlM (fun out (entry : JsString × Json) =>
    if entry.1 = objectKey then some out
    else do
      let value ← stripReferenceObjects entry.2
      assignField out entry.1 value) []

/-- `expandReferencesSyncInner(value, context)`, where `expandReference` is `expandReferenceSync` in
this context. -/
def expandReferencesSyncInner (expandReference : Fields → Option Json) : Json → Option Json
  | .arr items => do
      let items ← expandItems items
      return .arr items
  | .obj fields => do
      if ← isReference fields then expandReference fields
      else
        let entries ← expandEntries fields
        return .obj entries
  | value => some value
where
  expandItems : List Json → Option (List Json)
    | [] => some []
    | item :: items => do
        let item ← expandReferencesSyncInner expandReference item
        let items ← expandItems items
        return item :: items
  expandEntries : Fields → Option Fields
    | [] => some []
    | (key, item) :: entries => do
        let item ← expandReferencesSyncInner expandReference item
        let entries ← expandEntries entries
        return (key, item) :: entries

/-- `expandReferenceSync(ref, context)`, where the depth is that of the context. -/
def expandReferenceSync (getObject : Option Lookup) :
    Nat → Option JsString → List JsString → Fields → Option Json
  | 0, _, _, ref => (cloneReferenceDescriptor ref).map .obj
  | depth + 1, database, seen, ref => do
      let clean ← cloneReferenceDescriptor ref
      match getObject with
      | none => return .obj clean
      | some get =>
          match ← referenceTarget ref database with
          | none => return .obj (Assoc.set clean objectKey .null)
          | some target =>
              if referenceKey target ∈ seen then return .obj (Assoc.set clean objectKey .null)
              else
                match get target with
                | none => return .obj (Assoc.set clean objectKey .null)
                | some object => do
                    let expanded ← expandReferencesSyncInner
                      (expandReferenceSync getObject depth (some target.database)
                        (referenceKey target :: seen)) (.obj object)
                    return .obj (Assoc.set clean objectKey expanded)

def maxRefDepth : Nat := 8

/-- `normalizeRefDepth(value, fallback)` -/
def normalizeRefDepth (value : Option Json) (fallback : Nat) : Nat :=
  match value with
  | none | some .null | some (.str []) => fallback
  | some value =>
      match toNumber value with
      | none => fallback
      | some n => if n.toRat < 0 then fallback else min maxRefDepth n.toRat.floor.toNat

/-- `expandReferencesSync(value, { database, depth, getObject })` -/
def expandReferencesSync (getObject : Option Lookup) (database : Option JsString)
    (depth : Option Json) (value : Json) : Option Json := do
  let refDepth := normalizeRefDepth depth 1
  let prepared ← stripReferenceObjectsInner value
  if refDepth = 0 ∨ prepared.hasReference = false then return prepared.value
  else
    expandReferencesSyncInner (expandReferenceSync getObject refDepth database []) prepared.value

/-! ## The asynchronous version -/

/-- An asynchronous computation: it looks objects up, one after another, and goes on with each
answer when it comes. -/
inductive Async (α : Type)
  | done (a : α)
  | throws
  | lookup (target : Target) (resume : Option Fields → Async α)

namespace Async

def bind {α β : Type} (x : Async α) (f : α → Async β) : Async β :=
  match x with
  | done a => f a
  | throws => .throws
  | lookup target resume => .lookup target fun answer => (resume answer).bind f

instance : Monad Async where
  pure := done
  bind := bind

/-- The outcome when every lookup is answered from the same store. -/
def run {α : Type} (get : Lookup) : Async α → Option α
  | done a => some a
  | throws => none
  | lookup target resume => run get (resume (get target))

def ofOption {α : Type} : Option α → Async α
  | some a => done a
  | none => throws

def getObject (target : Target) : Async (Option Fields) :=
  lookup target done

@[simp] theorem run_pure {α : Type} (get : Lookup) (a : α) : run get (pure a) = some a := rfl

@[simp] theorem run_ofOption {α : Type} (get : Lookup) (x : Option α) :
    run get (ofOption x) = x := by
  cases x <;> rfl

@[simp] theorem run_getObject (get : Lookup) (target : Target) :
    run get (getObject target) = some (get target) := rfl

@[simp] theorem run_bind {α β : Type} (get : Lookup) (x : Async α) (f : α → Async β) :
    run get (x >>= f) = (run get x).bind fun a => run get (f a) := by
  induction x with
  | done a => rfl
  | throws => rfl
  | lookup target resume ih => exact ih (get target)

end Async

/-- `expandReferencesInner(value, context)`, where `expandReference` is that of this context. -/
def expandReferencesInner (expandReference : Fields → Async Json) : Json → Async Json
  | .arr items => do
      let items ← expandItems items
      return .arr items
  | .obj fields => do
      if ← Async.ofOption (isReference fields) then expandReference fields
      else
        let out ← expandEntries [] fields
        return .obj out
  | value => pure value
where
  expandItems : List Json → Async (List Json)
    | [] => pure []
    | item :: items => do
        let item ← expandReferencesInner expandReference item
        let items ← expandItems items
        return item :: items
  expandEntries (out : Fields) : Fields → Async Fields
    | [] => pure out
    | (key, item) :: entries => do
        let item ← expandReferencesInner expandReference item
        let out ← Async.ofOption (assignField out key item)
        expandEntries out entries

/-- `expandReference(ref, context)`, where the depth is that of the context. -/
def expandReference (hasGetObject : Bool) :
    Nat → Option JsString → List JsString → Fields → Async Json
  | 0, _, _, ref => do
      let clean ← Async.ofOption (cloneReferenceDescriptor ref)
      return .obj clean
  | depth + 1, database, seen, ref => do
      let clean ← Async.ofOption (cloneReferenceDescriptor ref)
      if hasGetObject = false then return .obj clean
      else
        match ← Async.ofOption (referenceTarget ref database) with
        | none => return .obj (Assoc.set clean objectKey .null)
        | some target =>
            if referenceKey target ∈ seen then return .obj (Assoc.set clean objectKey .null)
            else
              match ← Async.getObject target with
              | none => return .obj (Assoc.set clean objectKey .null)
              | some object => do
                  let expanded ← expandReferencesInner
                    (expandReference hasGetObject depth (some target.database)
                      (referenceKey target :: seen)) (.obj object)
                  return .obj (Assoc.set clean objectKey expanded)

/-- `expandReferences(value, { database, depth, getObject })` -/
def expandReferences (hasGetObject : Bool) (database : Option JsString) (depth : Option Json)
    (value : Json) : Async Json := do
  let refDepth := normalizeRefDepth depth 1
  let prepared ← Async.ofOption (stripReferenceObjectsInner value)
  if refDepth = 0 ∨ prepared.hasReference = false then return prepared.value
  else
    expandReferencesInner (expandReference hasGetObject refDepth database []) prepared.value

end References
end ObjyDb
