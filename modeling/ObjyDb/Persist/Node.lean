import ObjyDb.Persist.Flush
import ObjyDb.Persist.Restore

/-!
# Node — a node, its persistence manager and object storage

The public operations change the store and tell the manager; a flush writes call by call, and a
call may fail, with or without effect.  A run is a list of such events.
-/

namespace ObjyDb
namespace Persist

open Js

structure Node where
  memory : Memory
  flusher : Flusher
  storage : Storage

/-! ## Operations -/

inductive Event
  | createDatabase (database : JsString) (databaseMeta : Json)
  | removeDatabase (database : JsString)
  /-- `createCollection` and `setCollectionMeta`, the metadata as `setMeta` returns it. -/
  | setCollectionMeta (database collection : JsString) (collectionMeta : Json)
  | removeCollection (database collection : JsString)
  /-- `collection(db, coll)`, which inserting, replacing and updating do first. -/
  | openCollection (database collection : JsString)
  /-- Local or replicated operations are applied. -/
  | applyOps (ops : List Op)
  | flush
  /-- The next call of the flush in flight succeeds. -/
  | storageCall
  /-- It fails; see `applyPartly`. -/
  | storageFails (reached : Bool) (survives : StorageKey → Bool)
  /-- The flush in flight has made all its calls. -/
  | flushEnds

namespace Node

def start : Node := ⟨.empty, .idle, []⟩

/-- The manager hears of a change. -/
def queue (n : Node) (change : Queues → Queues) : Node :=
  { n with flusher := { n.flusher with queues := change n.flusher.queues } }

def createDatabase (n : Node) (database : JsString) (databaseMeta : Json) : Node :=
  { n with memory := n.memory.setDatabaseMeta database databaseMeta }.queue
    (·.queueDatabase database databaseMeta)

def removeDatabase (n : Node) (database : JsString) : Node :=
  let alreadyDeleted := n.memory.isDatabaseDeleted database
  let (memory, removed) := n.memory.deleteDatabase database
  if removed || !alreadyDeleted then
    { n with memory := memory }.queue (·.queueDatabaseDrop database)
  else { n with memory := memory }

def setCollectionMeta (n : Node) (database collection : JsString) (collectionMeta : Json) : Node :=
  match n.memory.setCollectionMeta database collection collectionMeta with
  | (memory, .ok ()) =>
      { n with memory := memory }.queue (·.queueMeta database collection collectionMeta)
  | (memory, .error _) => { n with memory := memory }

def removeCollection (n : Node) (database collection : JsString) : Node :=
  let alreadyDeleted := n.memory.isCollectionDeleted database collection
  let (memory, removed) := n.memory.deleteCollection database collection
  if removed || !alreadyDeleted then
    { n with memory := memory }.queue (·.queueCollectionDrop database collection)
  else { n with memory := memory }

/-- A missing collection is created, a deleted one is an error. -/
def openCollection (n : Node) (database collection : JsString) : Node :=
  if n.memory.isDatabaseDeleted database || n.memory.isCollectionDeleted database collection then n
  else
    { n with
      memory := n.memory.setCollection database collection
        (n.memory.collectionOf database collection) }

/-- `_applyOps` and `_notifyOps` -/
def applyOps (config : Config) (n : Node) (ops : List Op) : Node :=
  let (memory, applied) := n.memory.applyOps ops
  { n with memory := memory, flusher := n.flusher.queueOps config applied }

/-! ## Steps -/

/-- The node after an event; `none` when the event cannot happen. -/
def step (config : Config) (n : Node) : Event → Option Node
  | .createDatabase database databaseMeta => some (n.createDatabase database databaseMeta)
  | .removeDatabase database => some (n.removeDatabase database)
  | .setCollectionMeta database collection collectionMeta =>
      some (n.setCollectionMeta database collection collectionMeta)
  | .removeCollection database collection => some (n.removeCollection database collection)
  | .openCollection database collection => some (n.openCollection database collection)
  | .applyOps ops => some (n.applyOps config ops)
  | .flush => some { n with flusher := n.flusher.flush config }
  | .storageCall =>
      match n.flusher.flushing with
      | some ⟨batch, call :: calls⟩ =>
          some { n with
            storage := call.apply n.storage
            flusher := { n.flusher with flushing := some ⟨batch, calls⟩ } }
      | _ => none
  | .storageFails reached survives =>
      match n.flusher.flushing with
      | some ⟨batch, call :: calls⟩ =>
          some { n with
            storage := call.applyPartly reached survives n.storage
            flusher := n.flusher.fail ⟨batch, call :: calls⟩ }
      | _ => none
  | .flushEnds =>
      match n.flusher.flushing with
      | some ⟨_, []⟩ => some { n with flusher := { n.flusher with flushing := none } }
      | _ => none

def run (config : Config) (events : List Event) : Option Node :=
  events.foldlM (step config) start

end Node

end Persist
end ObjyDb
