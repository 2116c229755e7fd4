import ObjyDb.Persist.MetaCalls

/-!
# Runner — the object hooks of a node

Hooks are registered by name, and the metadata of a collection says which of them run around its
operations.  The runner keeps the configuration of every collection and the chain of hooks for
every operation that was run, and drops what a change notification makes stale.
-/

namespace ObjyDb
namespace Hooks

open Js Persist

/-! ## Registry -/

/-- A registered hook: what it can run on, and the metadata its `validateMeta` throws for. -/
structure HookDefinition where
  operations : List HookOperation
  rejects : Json → Bool

structure ObjectHookRegistry where
  definitions : List (JsString × HookDefinition)
  revision : Nat

inductive HookError
  | invalid (err : MetaError)
  /-- `object hook is already registered: ${key}` -/
  | alreadyRegistered (name : JsString)
  /-- `object hook operations must be an array or 'all'` -/
  | operationsNotArray
  /-- `unsupported object hook operation: ${operation}` -/
  | unsupportedOperation (operation : JsString)
  /-- `object hook is not registered: ${name}` -/
  | notRegistered (name : JsString)
  /-- `object hook ${name} does not support ${operation}` -/
  | unsupported (name : JsString) (operation : HookOperation)
  /-- What the `validateMeta` of a hook throws. -/
  | rejected (name : JsString)
  deriving DecidableEq

/-- `OPERATION_SET.has(operation)` -/
def operationNamed (name : JsString) : Option HookOperation :=
  HookOperation.all.find? fun operation => operation.name = name

def normalizeOperation (operation : Json) : Except HookError HookOperation :=
  match operationNamed (toJsString operation) with
  | none => .error (.unsupportedOperation (toJsString operation))
  | some operation => .ok operation

def normalizeOperations : Option Json → Except HookError (List HookOperation)
  | none => .ok HookOperation.all
  | some (.arr operations) => operations.mapM normalizeOperation
  | some value => if value = .str (js "all") then .ok HookOperation.all else .error .operationsNotArray

namespace ObjectHookRegistry

/-- `new ObjectHookRegistry()` -/
def empty : ObjectHookRegistry := ⟨[], 0⟩

def get (registry : ObjectHookRegistry) (name : JsString) : Except HookError HookDefinition :=
  match Assoc.get? registry.definitions name with
  | none => .error (.notRegistered name)
  | some hook => .ok hook

/-- `register(name, definition)`, for a definition with a handler. -/
def register (registry : ObjectHookRegistry) (name : Json) (operations : Option Json)
    (rejects : Json → Bool) : Except HookError ObjectHookRegistry := do
  let key ← (normalizeName name (js "hook name")).mapError .invalid
  if (Assoc.get? registry.definitions key).isSome then throw (.alreadyRegistered key)
  let operations ← normalizeOperations operations
  return ⟨Assoc.set registry.definitions key ⟨operations, rejects⟩, registry.revision + 1⟩

end ObjectHookRegistry

/-! ## Configuration -/

/-- `normalizeObjectHooksMeta(meta?.hooks)` -/
def hooksOfMeta : Json → Except MetaError (Option HooksMeta)
  | .obj fields => normalizeObjectHooksMeta (Assoc.get? fields (js "hooks"))
  | _ => .ok none

/-- `configuredNames(config)` -/
def configuredNames (config : HooksMeta) : List JsString :=
  unique (hookLists.flatMap config.names)

namespace ObjectHookRegistry

/-- One configured name: the hook is there, and its `validateMeta` lets the metadata pass. -/
def validateName (registry : ObjectHookRegistry) (collectionMeta : Json) (name : JsString) :
    Except HookError Unit := do
  let hook ← registry.get name
  if hook.rejects collectionMeta then throw (.rejected name)

/-- One name in the list of an operation. -/
def validateOperation (registry : ObjectHookRegistry) (operation : HookOperation)
    (name : JsString) : Except HookError Unit :=
  match Assoc.get? registry.definitions name with
  | none => .error (.unsupported name operation)
  | some hook =>
      if operation ∈ hook.operations then .ok () else .error (.unsupported name operation)

def validateConfig (registry : ObjectHookRegistry) (collectionMeta : Json) (config : HooksMeta) :
    Except HookError Unit := do
  (configuredNames config).forM (registry.validateName collectionMeta)
  HookOperation.all.forM fun operation =>
    (config.names operation.name).forM (registry.validateOperation operation)

/-- `validateMeta(meta)` of the runner. -/
def validateMeta (registry : ObjectHookRegistry) (collectionMeta : Json) :
    Except HookError (Option HooksMeta) := do
  match ← (hooksOfMeta collectionMeta).mapError .invalid with
  | none => return none
  | some config =>
      if config.enabled then registry.validateConfig collectionMeta config
      return some config

end ObjectHookRegistry

/-! ## Chains -/

namespace ObjectHookRegistry

/-- A hook of the `use` list: it is in the chain of the operations it supports. -/
def useHook (registry : ObjectHookRegistry) (operation : HookOperation) (chain : List JsString)
    (name : JsString) : Except HookError (List JsString) := do
  let hook ← registry.get name
  return if operation ∈ hook.operations then chain ++ [name] else chain

/-- A hook of the operation's own list. -/
def operationHook (registry : ObjectHookRegistry) (operation : HookOperation)
    (chain : List JsString) (name : JsString) : Except HookError (List JsString) := do
  let hook ← registry.get name
  if operation ∉ hook.operations then throw (.unsupported name operation)
  return if name ∈ chain then chain else chain ++ [name]

/-- The loops of `_plan`; a hook stands in the chain by its name. -/
def buildChain (registry : ObjectHookRegistry) (config : HooksMeta) (operation : HookOperation) :
    Except HookError (List JsString) := do
  let chain ← (config.names (js "use")).foldlM (registry.useHook operation) []
  (config.names operation.name).foldlM (registry.operationHook operation) chain

/-- The chain for a configuration, with nothing remembered. -/
def chain (registry : ObjectHookRegistry) (config : Option HooksMeta)
    (operation : HookOperation) : Except HookError (List JsString) :=
  if registry.definitions = [] then .ok []
  else
    match config with
    | none => .ok []
    | some config => if config.enabled then registry.buildChain config operation else .ok []

end ObjectHookRegistry

/-! ## Runner -/

/-- `${scope}\0${operation}` -/
def planKey (scope : JsString) (operation : HookOperation) : JsString :=
  scope ++ 0 :: operation.name

structure ObjectHookRunner where
  /-- By the key of a collection, which is its names joined with NUL. -/
  configs : List (JsString × HooksMeta)
  plans : List (JsString × List JsString)
  registryRevision : Nat

namespace ObjectHookRunner

/-- One collection of `_loadExistingCollections`. -/
def loadCollection (m : Memory) (registry : ObjectHookRegistry) (runner : ObjectHookRunner)
    (target : JsString × JsString) : Except HookError ObjectHookRunner := do
  let config ← registry.validateMeta ((m.getCollectionMeta target.1 target.2).getD (.obj []))
  match config with
  | none => return runner
  | some config =>
      return { runner with
        configs := Assoc.set runner.configs (storeCollectionKey target.1 target.2) config }

/-- The collections of all databases. -/
def collectionsOf (m : Memory) : List (JsString × JsString) :=
  m.dbNames.flatMap fun database =>
    (m.collectionNames database).map fun collection => (database, collection)

/-- `new ObjectHookRunner(node, registry)`, which throws when a collection's metadata does not
pass. -/
def load (m : Memory) (registry : ObjectHookRegistry) : Except HookError ObjectHookRunner :=
  (collectionsOf m).foldlM (loadCollection m registry) ⟨[], [], registry.revision⟩

/-- The check of every configuration against a registry that has changed. -/
def validateConfigs (runner : ObjectHookRunner) (registry : ObjectHookRegistry) :
    Except HookError Unit :=
  runner.configs.forM fun entry => do
    discard (registry.validateMeta (.obj [(js "hooks", entry.2.toJson)]))

/-- The start of `_plan`: when the registry has changed, no plan is kept. -/
def refresh (runner : ObjectHookRunner) (registry : ObjectHookRegistry) :
    ObjectHookRunner × Except HookError Unit :=
  if runner.registryRevision = registry.revision then (runner, .ok ())
  else
    ({ runner with registryRevision := registry.revision, plans := [] },
      runner.validateConfigs registry)

/-- The lookup of `_plan` in the plans, and the chain when there is none. -/
def planFor (runner : ObjectHookRunner) (registry : ObjectHookRegistry) (scope : JsString)
    (operation : HookOperation) : ObjectHookRunner × Except HookError (List JsString) :=
  let key := planKey scope operation
  match Assoc.get? runner.plans key with
  | some chain => (runner, .ok chain)
  | none =>
      match Assoc.get? runner.configs scope with
      | none => ({ runner with plans := Assoc.set runner.plans key [] }, .ok [])
      | some config =>
          if config.enabled then
            match registry.buildChain config operation with
            | .error err => (runner, .error err)
            | .ok chain => ({ runner with plans := Assoc.set runner.plans key chain }, .ok chain)
          else ({ runner with plans := Assoc.set runner.plans key [] }, .ok [])

/-- `_plan(database, collection, operation)` -/
def plan (runner : ObjectHookRunner) (registry : ObjectHookRegistry)
    (database collection : JsString) (operation : HookOperation) :
    ObjectHookRunner × Except HookError (List JsString) :=
  if registry.definitions = [] then (runner, .ok [])
  else
    match runner.refresh registry with
    | (runner, .error err) => (runner, .error err)
    | (runner, .ok ()) =>
        runner.planFor registry (storeCollectionKey database collection) operation

/-! ### Notifications -/

/-- `_invalidateScope(scope)` -/
def invalidateScope (runner : ObjectHookRunner) (scope : JsString) : ObjectHookRunner :=
  { runner with
    plans := HookOperation.all.foldl
      (fun plans operation => Assoc.erase plans (planKey scope operation)) runner.plans }

/-- A `meta` change; what the listener throws is caught by the node. -/
def onMeta (runner : ObjectHookRunner) (database collection : JsString)
    (collectionMeta : Json) : ObjectHookRunner :=
  let key := storeCollectionKey database collection
  match hooksOfMeta collectionMeta with
  | .error _ => runner
  | .ok none =>
      ObjectHookRunner.invalidateScope { runner with configs := Assoc.erase runner.configs key } key
  | .ok (some config) =>
      ObjectHookRunner.invalidateScope
        { runner with configs := Assoc.set runner.configs key config } key

/-- A `dropCollection` change. -/
def onDropCollection (runner : ObjectHookRunner) (database collection : JsString) :
    ObjectHookRunner :=
  let key := storeCollectionKey database collection
  ObjectHookRunner.invalidateScope { runner with configs := Assoc.erase runner.configs key } key

/-- A `dropDatabase` change. -/
def onDropDatabase (runner : ObjectHookRunner) (database : JsString) : ObjectHookRunner :=
  let keep (key : JsString) : Bool := !(storeCollectionKey database []).isPrefixOf key
  { runner with
    configs := runner.configs.filter fun entry => keep entry.1
    plans := runner.plans.filter fun entry => keep entry.1 }

end ObjectHookRunner

end Hooks
end ObjyDb
