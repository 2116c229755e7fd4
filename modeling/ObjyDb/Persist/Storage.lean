import ObjyDb.Persist.Chunks
import ObjyDb.Persist.Queues

/-!
# Storage — the files in object storage

Every file lies under a key made of the percent-encoded names it is about, which are kept here as
they are.  Storage is put, deleted and listed key by key; everything of a database but its
tombstone lies under `db/<database>/`, and everything of a collection but its tombstone under
`db/<database>/collection/<collection>/`.
-/

namespace ObjyDb
namespace Persist

open Js

/-! ## Keys and files -/

inductive StorageKey
  /-- `database-tombstones/<database>.json` -/
  | databaseTombstone (database : JsString)
  /-- `db/<database>/meta.json` -/
  | databaseMeta (database : JsString)
  /-- `db/<database>/collection-tombstones/<collection>.json` -/
  | collectionTombstone (database collection : JsString)
  /-- `db/<database>/collection/<collection>/meta.json` -/
  | collectionMeta (database collection : JsString)
  /-- `<scope>/journal/<node>/<now>-<firstSeq>-<lastSeq>-<uuid>.jsonl` -/
  | journal (scope : Scope) (node : JsString) (firstSeq lastSeq uuid : Nat)
  /-- `<scope>/latest.json` -/
  | latest (scope : Scope)
  deriving DecidableEq

/-- The rows of a snapshot: an object id and the newest write of the object. -/
abbrev SnapshotRows := List (JsString × Write)

/-- What restoring reads of a manifest and its segments. -/
structure Manifest where
  node : JsString
  seq : Nat
  databaseMeta : Json
  collectionMeta : Json
  cursors : List (JsString × Nat)
  rows : SnapshotRows

inductive StorageFile
  | tombstone
  | json (body : Json)
  | ops (ops : List Op)
  | manifest (manifest : Manifest)

/-- `db/<database>/` or `db/<database>/collection/<collection>/` -/
inductive StoragePrefix
  | database (database : JsString)
  | collection (database collection : JsString)

def StoragePrefix.covers : StoragePrefix → StorageKey → Bool
  | .database _, .databaseTombstone _ => false
  | .database d, .databaseMeta d' => decide (d' = d)
  | .database d, .collectionTombstone d' _ => decide (d' = d)
  | .database d, .collectionMeta d' _ => decide (d' = d)
  | .database d, .journal scope _ _ _ _ => decide (scope.database = d)
  | .database d, .latest scope => decide (scope.database = d)
  | .collection _ _, .databaseTombstone _ => false
  | .collection _ _, .databaseMeta _ => false
  | .collection _ _, .collectionTombstone _ _ => false
  | .collection d c, .collectionMeta d' c' => decide (d' = d ∧ c' = c)
  | .collection d c, .journal scope _ _ _ _ =>
      decide (scope.database = d ∧ scope.collection = c)
  | .collection d c, .latest scope => decide (scope.database = d ∧ scope.collection = c)

abbrev Storage := List (StorageKey × StorageFile)

/-- `randomUUID()`: a number that no file of the storage has. -/
def freshUuid (s : Storage) : Nat :=
  (s.map fun entry =>
    match entry.1 with
    | .journal _ _ _ _ uuid => uuid + 1
    | _ => 0).foldr max 0

/-! ## Calls -/

inductive StorageCall
  | put (key : StorageKey) (file : StorageFile)
  /-- `_writeJournalSegment` -/
  | putJournal (scope : Scope) (node : JsString) (ops : List Op)
  | delete (key : StorageKey)
  | deletePrefix (keys : StoragePrefix)

/-- `Math.min(...seqs)`, 0 without operations. -/
def firstSeq (ops : List Op) : Nat :=
  ((ops.map Op.seq).min?).getD 0

/-- `Math.max(...seqs)`, 0 without operations. -/
def lastSeq (ops : List Op) : Nat :=
  ((ops.map Op.seq).max?).getD 0

namespace StorageCall

def apply (call : StorageCall) (s : Storage) : Storage :=
  match call with
  | .put key file => Assoc.set s key file
  | .putJournal scope node ops =>
      Assoc.set s (.journal scope node (firstSeq ops) (lastSeq ops) (freshUuid s)) (.ops ops)
  | .delete key => Assoc.erase s key
  | .deletePrefix keys => s.filter fun entry => !keys.covers entry.1

/-- What a call leaves that fails: `reached` says whether a put or a delete took effect all the
same, and `survives` are the files that a failed `deletePrefix` did not get to. -/
def applyPartly (call : StorageCall) (reached : Bool) (survives : StorageKey → Bool)
    (s : Storage) : Storage :=
  match call with
  | .deletePrefix keys => s.filter fun entry => !keys.covers entry.1 || survives entry.1
  | call => if reached then call.apply s else s

end StorageCall

def applyCalls (calls : List StorageCall) (s : Storage) : Storage :=
  calls.foldl (fun s call => call.apply s) s

/-! ## The calls of a flush -/

/-- What the manager is configured with. -/
structure Config where
  node : JsString
  opBatchSize : Nat
  journalMaxBytes : Nat
  /-- The number of bytes of the JSON text of an operation. -/
  opBytes : Op → Nat

/-- `_deleteDatabase` -/
def deleteDatabaseCalls (database : JsString) : List StorageCall :=
  [.deletePrefix (.database database), .put (.databaseTombstone database) .tombstone]

/-- `_deleteCollection` -/
def deleteCollectionCalls (target : JsString × JsString) : List StorageCall :=
  [.deletePrefix (.collection target.1 target.2),
    .put (.collectionTombstone target.1 target.2) .tombstone]

/-- `_writeDatabaseMeta` -/
def writeDatabaseMetaCalls (database : JsString) (databaseMeta : Json) : List StorageCall :=
  [.delete (.databaseTombstone database), .put (.databaseMeta database) (.json databaseMeta)]

/-- `_writeCollectionMeta` -/
def writeCollectionMetaCalls (target : JsString × JsString) (collectionMeta : Json) :
    List StorageCall :=
  [.delete (.collectionTombstone target.1 target.2),
    .put (.collectionMeta target.1 target.2) (.json collectionMeta)]

/-- `_writeJournalBatch` -/
def writeJournalBatchCalls (config : Config) (scope : Scope) (ops : List Op) : List StorageCall :=
  (chunkOpsForRecord config.opBytes config.journalMaxBytes config.opBatchSize ops).map
    (.putJournal scope config.node)

/-- The storage calls of `_flushOnce`, in their order. -/
def flushCalls (config : Config) (batch : Queues) : List StorageCall :=
  batch.pendingDatabaseDrops.flatMap deleteDatabaseCalls ++
  (batch.pendingCollectionDrops.flatMap (fun key => deleteCollectionCalls (parseCollectionKey key)) ++
  (batch.pendingDatabases.flatMap (fun entry => writeDatabaseMetaCalls entry.1 entry.2) ++
  (batch.pendingMeta.flatMap
      (fun entry => writeCollectionMetaCalls (parseCollectionKey entry.1) entry.2) ++
  batch.pending.flatMap
      (fun entry => writeJournalBatchCalls config (parseScopeKey entry.1) entry.2))))

end Persist
end ObjyDb
