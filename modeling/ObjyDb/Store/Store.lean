import ObjyDb.Store.Builds

/-!
# Store — databases of collections

The store applies batches of operations and of snapshot rows to its collections.  `applyOps` cuts
a batch into runs of one collection and one kind, which it identifies by a key joined with NUL.
-/

namespace ObjyDb

open Js

/-! ## Operations -/

inductive OpKind
  | putObj
  | touch
  | delObj
  deriving DecidableEq

structure Op where
  kind : OpKind
  db : JsString
  coll : JsString
  id : JsString
  value : Option Fields
  ts : Ts
  seq : Nat
  shard : Option JsString
  deriving DecidableEq

/-- `op.kind === "touch" ? {} : op.value || {}` -/
def Op.storedValue (op : Op) : Fields :=
  if op.kind = .touch then [] else op.value.getD []

def Op.isDelete (op : Op) : Bool :=
  decide (op.kind = .delObj)

/-- The row that `applyOps` hands to the collection. -/
def Op.row (op : Op) : Collection.Row Op :=
  ⟨op.id, op.storedValue, op.ts, op.shard, op⟩

/-! ## State -/

abbrev Database := List (JsString × Collection)

structure Store where
  vectorField : Option JsString
  compression : Option Compression
  dbs : List (JsString × Database)
  databaseTombstones : List JsString
  collectionTombstones : List JsString
  bulkLoadDepth : Nat
  /-- The collections changed by the bulk load, by database and name. -/
  bulkLoadDirty : List (JsString × JsString)

inductive StoreError
  | databaseDeleted
  | collectionDeleted
  | collection (err : CollectionError)
  deriving DecidableEq

/-- `${database}\0${collection}` -/
def storeCollectionKey (database collection : JsString) : JsString :=
  database ++ 0 :: collection

namespace Store

def new (vectorField : Option JsString) (compression : Option Compression) : Store :=
  ⟨vectorField, compression, [], [], [], 0, []⟩

def isDatabaseDeleted (s : Store) (db : JsString) : Bool :=
  decide (db ∈ s.databaseTombstones)

def isCollectionDeleted (s : Store) (db coll : JsString) : Bool :=
  decide (storeCollectionKey db coll ∈ s.collectionTombstones)

/-- `getCollection(db, coll)` -/
def getCollection (s : Store) (db coll : JsString) : Option Collection :=
  (Assoc.get? s.dbs db).bind fun collections => Assoc.get? collections coll

/-- The collection, new if there is none. -/
def collectionOf (s : Store) (db coll : JsString) : Collection :=
  (s.getCollection db coll).getD (Collection.new s.vectorField s.compression)

def setCollection (s : Store) (db coll : JsString) (c : Collection) : Store :=
  { s with dbs := Assoc.set s.dbs db (Assoc.set ((Assoc.get? s.dbs db).getD []) coll c) }

/-- `collection(db, coll)`: throws for a deleted one, and creates a missing one. -/
def collection (s : Store) (db coll : JsString) : Except StoreError Collection :=
  if s.isDatabaseDeleted db then .error .databaseDeleted
  else if s.isCollectionDeleted db coll then .error .collectionDeleted
  else .ok (s.collectionOf db coll)

def read (s : Store) (db coll id : JsString) : Option Fields :=
  (s.getCollection db coll).bind fun c => c.read id

def getVector (s : Store) (db coll id : JsString) : Option (List JsNumber) :=
  (s.getCollection db coll).bind fun c => c.getVector id

/-! ## `applyOps` -/

/-- A run of operations on one collection and of one kind. -/
structure OpRun where
  key : JsString
  ops : List Op

def OpKind.runName (kind : OpKind) : JsString :=
  if kind = .delObj then js "delObj" else js "putObj"

/-- `${op.db}\0${op.coll}\0${kind}` -/
def runKey (op : Op) : JsString :=
  op.db ++ 0 :: (op.coll ++ 0 :: OpKind.runName op.kind)

/-- Apply a run to the collection its key names: the applied operations. -/
def flushRun (s : Store) (run : OpRun) : Store × Except StoreError (List Op) :=
  let parts := split 0 run.key
  let db := parts.getD 0 []
  let coll := parts.getD 1 []
  let kind := parts.getD 2 []
  match s.collection db coll with
  | .error err => (s, .error err)
  | .ok c =>
      let rows := run.ops.map Op.row
      if kind = js "delObj" then
        let (c, applied) := c.deleteObjects rows
        (s.setCollection db coll c, .ok (applied.map Collection.Row.op))
      else
        match c.putObjects rows with
        | (c, .ok applied) => (s.setCollection db coll c, .ok (applied.map Collection.Row.op))
        | (c, .error err) => (s.setCollection db coll c, .error (.collection err))

/-- Cut the operations into runs, leaving out those of deleted databases and collections. -/
def opRuns (s : Store) : List Op → List OpRun
  | [] => []
  | op :: rest =>
      if s.isDatabaseDeleted op.db || s.isCollectionDeleted op.db op.coll then opRuns s rest
      else
        match opRuns s rest with
        | [] => [⟨runKey op, [op]⟩]
        | run :: runs =>
            if run.key = runKey op then ⟨run.key, op :: run.ops⟩ :: runs
            else ⟨runKey op, [op]⟩ :: run :: runs

/-- Apply runs in order; an exception ends the batch. -/
def flushRuns : Store → List OpRun → Store × Except StoreError (List Op)
  | s, [] => (s, .ok [])
  | s, run :: runs =>
      match s.flushRun run with
      | (s, .error err) => (s, .error err)
      | (s, .ok applied) =>
          match flushRuns s runs with
          | (s, .error err) => (s, .error err)
          | (s, .ok more) => (s, .ok (applied ++ more))

/-- `applyOps(ops)`: the operations that were applied.  Applying operations changes no tombstone,
so the runs may be cut before the first one is applied. -/
def applyOps (s : Store) (ops : List Op) : Store × Except StoreError (List Op) :=
  s.flushRuns (s.opRuns ops)

/-! ## Snapshots and bulk loads -/

/-- `applySnapshotObjects(db, coll, rows)`: how many rows were applied. -/
def applySnapshotObjects (s : Store) (db coll : JsString) (rows : List Collection.SnapshotRow) :
    Store × Except StoreError Nat :=
  if s.isCollectionDeleted db coll then (s, .ok 0)
  else
    match s.collection db coll with
    | .error err => (s, .error err)
    | .ok c =>
        match c.applySnapshotObjects rows (decide (s.bulkLoadDepth > 0)) with
        | (c, .error err) => (s.setCollection db coll c, .error (.collection err))
        | (c, .ok applied) =>
            let s := s.setCollection db coll c
            (if applied ≠ 0 ∧ s.bulkLoadDepth > 0 ∧ (db, coll) ∉ s.bulkLoadDirty then
              { s with bulkLoadDirty := s.bulkLoadDirty ++ [(db, coll)] }
            else s, .ok applied)

/-- `collectionSnapshotObjects(db, coll)` -/
def collectionSnapshotObjects (s : Store) (db coll : JsString) : List Collection.SnapshotRow :=
  match s.getCollection db coll with
  | none => []
  | some c => c.snapshotObjects

def beginBulkLoad (s : Store) : Store :=
  { s with bulkLoadDepth := s.bulkLoadDepth + 1 }

/-- The end of the outermost bulk load recounts the collections it changed. -/
def finishBulkLoad (s : Store) (key : JsString × JsString) : Store :=
  match s.getCollection key.1 key.2 with
  | none => s
  | some c => s.setCollection key.1 key.2 { c.rebuildCoreState with indexBuildPending := true }

def endBulkLoad (s : Store) : Store :=
  if s.bulkLoadDepth = 0 then s
  else if s.bulkLoadDepth > 1 then { s with bulkLoadDepth := s.bulkLoadDepth - 1 }
  else s.bulkLoadDirty.foldl finishBulkLoad { s with bulkLoadDepth := 0, bulkLoadDirty := [] }

end Store

end ObjyDb
