import ObjyDb.Js.Conversions
import ObjyDb.Store.Store
import ObjyDb.Lib.Fallible

/-!
# Metadata — what collections are configured with

The metadata of a collection lists its field indexes and columns, and may configure tiering and
object hooks.  Normalisation checks every part and throws on the first one that is wrong.
-/

namespace ObjyDb

open Js

/-! ## Errors -/

/-- The type errors of the normalisation, by the label they name. -/
inductive MetaError
  /-- `${label} must be a plain object` -/
  | notPlainObject (label : JsString)
  /-- `collection meta ${label} must be an array` -/
  | notArray (label : JsString)
  /-- `collection meta ${label} must contain strings or { path } objects` -/
  | badPath (label : JsString)
  /-- `${label} must contain non-empty strings` -/
  | badName (label : JsString)
  /-- `collection meta hooks.${key} is not supported` -/
  | unsupportedHooksKey (key : JsString)
  /-- `collection meta hooks.enabled must be a boolean` -/
  | enabledNotBoolean
  /-- `collection meta tiering.mode must be compressedMemory or off` -/
  | badTieringMode
  /-- `collection meta tiering must use keep or offload, not both` -/
  | keepAndOffload
  /-- `compressed memory tiering requires a compression adapter` -/
  | noCompressionAdapter
  | store (err : StoreError)
  deriving DecidableEq

/-- `value === undefined || value === null` does not hold. -/
def given (value : Option Json) : Option Json :=
  value.filter (· ≠ .null)

/-! ## Index lists -/

/-- An entry of an index list: a path, or an object with one. -/
def indexPath (label : JsString) : Json → Except MetaError JsString
  | .str path => .ok path
  | .obj fields =>
      match Assoc.get? fields (js "path") with
      | some (.str path) => .ok path
      | _ => .error (.badPath label)
  | _ => .error (.badPath label)

def normalizeIndexList (indexes : Option Json) (label : JsString) :
    Except MetaError (List JsString) :=
  match given indexes with
  | none => .ok []
  | some (.arr entries) => do
      let paths ← entries.mapM (indexPath label)
      return unique ((paths.map trim).filter (· ≠ []))
  | some _ => .error (.notArray label)

/-! ## Tiering -/

/-- `DEFAULT_TIERING_MIN_BYTES` -/
def defaultTieringMinBytes : Nat := 4096

/-- `Math.max(0, Math.floor(Number(minBytes ?? DEFAULT_TIERING_MIN_BYTES) || 0))` -/
def tieringMinBytes (minBytes : Option Json) : Nat :=
  match given minBytes with
  | none => defaultTieringMinBytes
  | some minBytes =>
      match toNumber minBytes with
      | none => 0
      | some n => n.toRat.floor.toNat

def normalizeTieringMeta (tiering : Option Json) : Except MetaError (Option Tiering) :=
  match given tiering with
  | none => .ok none
  | some (.bool false) => .ok none
  | some (.obj fields) =>
      let mode := ((Assoc.get? fields (js "mode")).map toJsString).getD (js "compressedMemory")
      if mode = js "off" then .ok none
      else if mode ≠ js "compressedMemory" then .error .badTieringMode
      else do
        let keep ← normalizeIndexList (Assoc.get? fields (js "keep")) (js "tiering.keep")
        let offload ← normalizeIndexList (Assoc.get? fields (js "offload")) (js "tiering.offload")
        if exclusive : keep = [] ∨ offload = [] then
          return some ⟨keep, offload, tieringMinBytes (Assoc.get? fields (js "minBytes")), exclusive⟩
        else throw .keepAndOffload
  | some _ => .error (.notPlainObject (js "collection meta tiering"))

def pathsJson (paths : List JsString) : Json :=
  .arr (paths.map .str)

def Tiering.toJson (tiering : Tiering) : Json :=
  .obj ((js "mode", .str (js "compressedMemory")) ::
    ((if tiering.keep = [] then [] else [(js "keep", pathsJson tiering.keep)]) ++
      (if tiering.offload = [] then [] else [(js "offload", pathsJson tiering.offload)]) ++
        [(js "minBytes", .num (JsNumber.ofNat tiering.minBytes))]))

/-! ## Object hooks -/

/-- What object hooks can run on. -/
inductive HookOperation
  | create
  | read
  | update
  | delete
  deriving DecidableEq

namespace HookOperation

def name : HookOperation → JsString
  | .create => js "create"
  | .read => js "read"
  | .update => js "update"
  | .delete => js "delete"

/-- `OPERATIONS` -/
def all : List HookOperation := [.create, .read, .update, .delete]

end HookOperation

/-- `["use", ...OPERATIONS]` -/
def hookLists : List JsString :=
  js "use" :: HookOperation.all.map HookOperation.name

/-- Hook metadata: the hook names of each list that has any. -/
structure HooksMeta where
  enabled : Bool
  lists : List (JsString × List JsString)
  deriving DecidableEq

/-- The names in a list; none when there is no such list. -/
def HooksMeta.names (hooks : HooksMeta) (list : JsString) : List JsString :=
  (Assoc.get? hooks.lists list).getD []

def HooksMeta.toJson (hooks : HooksMeta) : Json :=
  .obj ((js "enabled", .bool hooks.enabled) ::
    hooks.lists.map fun entry => (entry.1, pathsJson entry.2))

def normalizeName (value : Json) (label : JsString) : Except MetaError JsString :=
  match value with
  | .str text => if trim text = [] then .error (.badName label) else .ok (trim text)
  | _ => .error (.badName label)

def normalizeNames (value : Option Json) (label : JsString) : Except MetaError (List JsString) :=
  match given value with
  | none => .ok []
  | some (.arr names) => do
      return unique (← names.mapM fun name => normalizeName name label)
  | some _ => .error (.notArray label)

/-- The lists of names, without the empty ones. -/
def normalizeHookLists (value : Fields) (lists : List JsString) :
    Except MetaError (List (JsString × List JsString)) := do
  let found ← lists.mapM fun list => do
    return (list, ← normalizeNames (Assoc.get? value list) (js "hooks." ++ list))
  return found.filter (·.2 ≠ [])

/-- `value.enabled !== false`, after the check that it is a boolean. -/
def normalizeEnabled : Option Json → Except MetaError Bool
  | none => .ok true
  | some (.bool enabled) => .ok enabled
  | some _ => .error .enabledNotBoolean

def normalizeObjectHooksMeta (value : Option Json) : Except MetaError (Option HooksMeta) :=
  match given value with
  | none => .ok none
  | some (.obj fields) => do
      match (Assoc.keys fields).find? (fun key => key ∉ js "enabled" :: hookLists) with
      | some key => throw (.unsupportedHooksKey key)
      | none =>
          let enabled ← normalizeEnabled (Assoc.get? fields (js "enabled"))
          return some ⟨enabled, ← normalizeHookLists fields hookLists⟩
  | some _ => .error (.notPlainObject (js "collection meta hooks"))

/-! ## Metadata of collections and databases -/

/-- Normalised metadata of a collection; `rest` are the other properties as they were. -/
structure NormalMeta where
  rest : Fields
  indexes : List JsString
  columns : List JsString
  tiering : Option Tiering
  hooks : Option HooksMeta

/-- `{ ...next, indexes, columns }`, and `tiering` and `hooks` when there are any. -/
def NormalMeta.toJson (m : NormalMeta) : Json :=
  let out := Assoc.set (Assoc.set m.rest (js "indexes") (pathsJson m.indexes)) (js "columns")
    (pathsJson m.columns)
  let out := match m.tiering with
    | none => out
    | some tiering => Assoc.set out (js "tiering") tiering.toJson
  .obj (match m.hooks with
    | none => out
    | some hooks => Assoc.set out (js "hooks") hooks.toJson)

/-- `normalizeCollectionMeta(meta)`; a missing argument is the empty object. -/
def normalizeCollectionMeta (collectionMeta : Option Json) : Except MetaError NormalMeta :=
  match collectionMeta.getD (.obj []) with
  | .obj fields => do
      let rest := Assoc.erase (Assoc.erase (Assoc.erase fields (js "columnIndexes"))
        (js "tiering")) (js "hooks")
      let indexes ← normalizeIndexList (Assoc.get? fields (js "indexes")) (js "indexes")
      let columns ← normalizeIndexList (Assoc.get? fields (js "columns")) (js "columns")
      let tiering ← normalizeTieringMeta (Assoc.get? fields (js "tiering"))
      let hooks ← normalizeObjectHooksMeta (Assoc.get? fields (js "hooks"))
      return ⟨rest, indexes, columns, tiering, hooks⟩
  | _ => .error (.notPlainObject (js "collection meta"))

/-- The check of `Database.setMeta(meta)`. -/
def normalizeDatabaseMeta (databaseMeta : Option Json) : Except MetaError Json :=
  match databaseMeta.getD (.obj []) with
  | .obj fields => .ok (.obj fields)
  | _ => .error (.notPlainObject (js "database meta"))

end ObjyDb
