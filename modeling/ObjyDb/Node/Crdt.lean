import ObjyDb.Cluster.ShardMap
import ObjyDb.Js.Conversions
import ObjyDb.Store.Catalog

/-!
# Crdt — one replica

A node stamps local writes with its clock, logs them, applies them to its store and tells its
change listeners.  Operations and snapshot rows of other nodes advance the clock before they are
applied.  Every function returns the node as it is left, also when it throws.
-/

namespace ObjyDb

open Js

/-! ## References -/

/-- `isReference(value)` of a plain object. -/
def isReference (fields : Fields) : Bool :=
  decide (Assoc.get? fields (js "type") = some (.str (js "reference"))) &&
    (match Assoc.get? fields (js "collection") with
      | some (.str collection) => decide (collection ≠ [])
      | _ => false) &&
    (match Assoc.get? fields (js "value") with
      | none => false
      | some .null => false
      | some value => decide (toJsString value ≠ []))

mutual

/-- `stripReferenceObjectsInner(value)`: the value, and whether it changed. -/
def stripReferenceObjectsInner : Json → Json × Bool
  | .arr items =>
      let out := stripItems items
      if out.2 then (.arr out.1, true) else (.arr items, false)
  | .obj fields =>
      let out := stripEntries (isReference fields) fields
      if out.2 then (.obj (out.1.foldl (fun value entry => assign value entry.1 entry.2) []), true)
      else (.obj fields, false)
  | value => (value, false)

def stripItems : List Json → List Json × Bool
  | [] => ([], false)
  | item :: items =>
      let head := stripReferenceObjectsInner item
      let rest := stripItems items
      (head.1 :: rest.1, head.2 || rest.2)

def stripEntries (reference : Bool) : Fields → Fields × Bool
  | [] => ([], false)
  | (key, item) :: entries =>
      let rest := stripEntries reference entries
      if reference ∧ key = js "object" then (rest.1, true)
      else
        let head := stripReferenceObjectsInner item
        ((key, head.1) :: rest.1, head.2 || rest.2)

end

def stripReferenceObjects (value : Fields) : Fields :=
  match (stripReferenceObjectsInner (.obj value)).1 with
  | .obj fields => fields
  | _ => []

/-! ## State -/

inductive NodeError
  | store (err : StoreError)
  /-- `objects must be an array` and `ids must be an array` -/
  | notArray
  /-- `item at index ${index} must be an object` -/
  | notObject (index : Nat)
  /-- `item at index ${index} must include _id` -/
  | missingId (index : Nat)
  /-- `item at index ${index} must include a non-empty _id when _id is provided` and
  `id at index ${index} must be non-empty` -/
  | emptyId (index : Nat)
  /-- `duplicate _id in bulk request: ${id}` -/
  | duplicateId (index : Nat) (id : JsString)
  /-- `object already exists: ${item.id}` -/
  | alreadyExists (id : JsString)
  deriving DecidableEq

/-- What the change listeners are called with. -/
inductive Change
  | ops (ops : List Op)
  | snapshot
  | database (db : JsString)
  | dropDatabase (db : JsString)
  | metadata (db coll : JsString)
  | dropCollection (db coll : JsString)
  deriving DecidableEq

structure CRDTNode where
  id : JsString
  clock : Clock
  operationLog : Bool
  db : Store
  log : List Op
  seq : Nat
  shards : ShardNames
  lastSeen : List (JsString × Nat)
  /-- The calls of the change listeners, in order. -/
  changes : List Change

namespace CRDTNode

/-- A new node; it may be given a clock. -/
def new (id : JsString) (clock : Clock) (operationLog : Bool) (shards : ShardNames)
    (vectorField : Option JsString) (compression : Option Compression) : CRDTNode :=
  ⟨id, clock, operationLog, Store.new vectorField compression, [], 0, shards, [], []⟩

def notifyChange (n : CRDTNode) (change : Change) : CRDTNode :=
  { n with changes := n.changes ++ [change] }

def notifyOps (n : CRDTNode) (ops : List Op) : CRDTNode :=
  if ops = [] then n else n.notifyChange (.ops ops)

/-! ## Operations -/

/-- `op.shard || this.shardForObject(op.db, op.coll, op.id)` -/
def shardOf (n : CRDTNode) (op : Op) : JsString :=
  (normalizeShard op.shard).getD (shardForObject n.shards op.id)

def logOp (n : CRDTNode) (op : Op) : CRDTNode × Op :=
  let op := { op with shard := some (n.shardOf op), seq := n.seq + 1 }
  ({ n with seq := n.seq + 1, log := if n.operationLog then n.log ++ [op] else n.log }, op)

def logOps : CRDTNode → List Op → CRDTNode × List Op
  | n, [] => (n, [])
  | n, op :: ops =>
      let (n, op) := n.logOp op
      let (n, ops) := n.logOps ops
      (n, op :: ops)

/-- The operations that `_applyOps` lets through. -/
def isOp (op : Op) : Bool :=
  decide (op.db ≠ []) && decide (op.coll ≠ []) && decide (op.id ≠ [])

def applyOps (n : CRDTNode) (ops : List Op) : Store × Except StoreError (List Op) :=
  n.db.applyOps (ops.filter isOp)

structure Committed where
  ops : List Op
  applied : List Op

def commitLocalOps (n : CRDTNode) (ops : List Op) : CRDTNode × Except NodeError Committed :=
  let (n, logged) := n.logOps ops
  match n.applyOps logged with
  | (db, .error err) => ({ n with db }, .error (.store err))
  | (db, .ok applied) => (notifyOps { n with db } applied, .ok ⟨logged, applied⟩)

def touchOp (clock : Clock) (op : Op) : Clock :=
  touch clock (some op.ts)

/-- `applyRemote(fromId, ops, cursorKey)`: how many operations were applied. -/
def applyRemote (n : CRDTNode) (ops : List Op) (cursorKey : JsString) :
    CRDTNode × Except NodeError Nat :=
  let incoming := ops.map fun op => { op with shard := some (n.shardOf op) }
  let n := { n with clock := ops.foldl touchOp n.clock }
  match n.applyOps incoming with
  | (db, .error err) => ({ n with db }, .error (.store err))
  | (db, .ok applied) =>
      let seen := max ((Assoc.get? n.lastSeen cursorKey).getD 0)
        ((incoming.getLast?.map Op.seq).getD 0)
      ({ notifyOps { n with db } applied with lastSeen := Assoc.set n.lastSeen cursorKey seen },
        .ok applied.length)

/-! ## Snapshots -/

/-- The clock hears of both timestamps of a row. -/
def touchRow (clock : Clock) (row : Collection.SnapshotRow) : Clock :=
  match row.deleted with
  | some _ => touch (touch clock row.ts) row.deleted
  | none => touch clock row.ts

/-- `obj.shard || shard || this.shardForObject(database, collection, obj.id)` -/
def withShard (n : CRDTNode) (shard : Option JsString) (row : Collection.SnapshotRow) :
    Collection.SnapshotRow :=
  { row with
    shard := some (((normalizeShard row.shard).or (normalizeShard shard)).getD
      (shardForObject n.shards row.id)) }

/-- `applySnapshotObjects(fromId, { database, collection, objects, lastSeq, scope }, cursorKey)`:
how many rows were applied. -/
def applySnapshotObjects (n : CRDTNode) (database collection : JsString)
    (objects : List Collection.SnapshotRow) (lastSeq : Nat) (scopeShard : Option JsString)
    (cursorKey : JsString) : CRDTNode × Except NodeError Nat :=
  if database = [] ∨ collection = [] then (n, .ok 0)
  else
    let rows := objects.map (n.withShard scopeShard)
    let n := { n with clock := rows.foldl touchRow n.clock }
    match n.db.applySnapshotObjects database collection rows with
    | (db, .error err) => ({ n with db }, .error (.store err))
    | (db, .ok count) =>
        let n := { n with db, lastSeen := Assoc.set n.lastSeen cursorKey lastSeq }
        (if count = 0 then n else n.notifyChange .snapshot, .ok count)

/-- A collection of a snapshot, and what is gathered of one. -/
structure SnapshotCollection where
  db : JsString
  coll : JsString
  shard : Option JsString
  objects : List Collection.SnapshotRow

def touchRows (clock : Clock) (c : SnapshotCollection) : Clock :=
  c.objects.foldl touchRow clock

/-- The rows of a collection join the batch of its key. -/
def addToBatches (n : CRDTNode) (batches : List (JsString × SnapshotCollection))
    (c : SnapshotCollection) : List (JsString × SnapshotCollection) :=
  c.objects.foldl (fun batches row =>
    let key := storeCollectionKey c.db c.coll
    let batch := (Assoc.get? batches key).getD ⟨c.db, c.coll, none, []⟩
    Assoc.set batches key { batch with objects := batch.objects ++ [n.withShard c.shard row] })
    batches

def applyBatches (s : Store) : List SnapshotCollection → Store × Except StoreError Nat
  | [] => (s, .ok 0)
  | batch :: batches =>
      match s.applySnapshotObjects batch.db batch.coll batch.objects with
      | (s, .error err) => (s, .error err)
      | (s, .ok count) =>
          match applyBatches s batches with
          | (s, .error err) => (s, .error err)
          | (s, .ok more) => (s, .ok (count + more))

/-- `applySnapshot(fromId, snap, cursorKey)` -/
def applySnapshot (n : CRDTNode) (collections : List SnapshotCollection) (lastSeq : Nat)
    (cursorKey : JsString) : CRDTNode × Except NodeError Nat :=
  let batches := collections.foldl n.addToBatches []
  let n := { n with clock := collections.foldl touchRows n.clock }
  match applyBatches n.db (batches.map Prod.snd) with
  | (db, .error err) => ({ n with db }, .error (.store err))
  | (db, .ok count) =>
      let n := { n with db, lastSeen := Assoc.set n.lastSeen cursorKey lastSeq }
      (if count = 0 then n else n.notifyChange .snapshot, .ok count)

/-! ## Items of a bulk request -/

/-- `{ _id, ...rest } = object || {}`, the rest; a text and an array have their indices as keys. -/
def withoutObjectId : Option Json → Fields
  | some (.obj fields) => Assoc.erase fields (js "_id")
  | some (.arr items) =>
      items.mapIdx fun index item => (toJsString (.num (JsNumber.ofNat index)), item)
  | some (.str text) =>
      text.mapIdx fun index unit => (toJsString (.num (JsNumber.ofNat index)), .str [unit])
  | _ => []

/-- `object._id`, when it is neither missing nor null. -/
def objectId : Option Json → Option Json
  | some (.obj fields) => (Assoc.get? fields (js "_id")).filter (· ≠ .null)
  | _ => none

/-- `assertUniqueIds(ids)`, for the ids from an index on. -/
def assertUniqueIds (seen : List JsString) : List JsString → Except NodeError Unit
  | [] => .ok ()
  | id :: ids =>
      if id ∈ seen then .error (.duplicateId seen.length id)
      else assertUniqueIds (seen ++ [id]) ids

/-- One item of `normalizeInsertObjects`; `generated` is what `createObjectId` gives for it. -/
def insertItem (generated : Nat → JsString) (object : Option Json) (index : Nat) :
    Except NodeError (JsString × Fields) :=
  let id := ((objectId object).map toJsString).getD (generated index)
  if id = [] then .error (.emptyId index) else .ok (id, withoutObjectId object)

def normalizeInsertObjects (generated : Nat → JsString) (objects : List (Option Json)) :
    Except NodeError (List (JsString × Fields)) := do
  let items ← objects.zipIdx.mapM fun entry => insertItem generated entry.1 entry.2
  assertUniqueIds [] (items.map Prod.fst)
  return items

/-- One item of `normalizeObjectsWithIds`. -/
def itemWithId (object : Option Json) (index : Nat) : Except NodeError (JsString × Fields) :=
  match object with
  | some (.obj fields) =>
      match (objectId object).map toJsString with
      | none => .error (.missingId index)
      | some [] => .error (.missingId index)
      | some id => .ok (id, Assoc.erase fields (js "_id"))
  | _ => .error (.notObject index)

/-- `normalizeObjectsWithIds(objects)`; `none` is what is not an array. -/
def normalizeObjectsWithIds (objects : Option (List (Option Json))) :
    Except NodeError (List (JsString × Fields)) :=
  match objects with
  | none => .error .notArray
  | some objects => do
      let items ← objects.zipIdx.mapM fun entry => itemWithId entry.1 entry.2
      assertUniqueIds [] (items.map Prod.fst)
      return items

def normalizeId (rawId : Option Json) (index : Nat) : Except NodeError JsString :=
  let id := (rawId.map toJsString).getD (js "undefined")
  if id = [] then .error (.emptyId index) else .ok id

def normalizeIds (ids : Option (List (Option Json))) : Except NodeError (List JsString) :=
  match ids with
  | none => .error .notArray
  | some ids => do
      let normalized ← ids.zipIdx.mapM fun entry => normalizeId entry.1 entry.2
      assertUniqueIds [] normalized
      return normalized

/-! ## Local writes -/

/-- `_prepareWriteValue(db, coll, value)` -/
def prepareWriteValue (n : CRDTNode) (db coll : JsString) (value : Fields) :
    CRDTNode × Except NodeError Fields :=
  let prepared := stripReferenceObjects (withoutObjectId (some (.obj value)))
  match n.db.openCollection db coll with
  | (s, .error err) => ({ n with db := s }, .error (.store err))
  | (s, .ok ()) =>
      match (s.collectionOf db coll).prepareStoredValue prepared with
      | .error err => ({ n with db := s }, .error (.store (.collection err)))
      | .ok _ => ({ n with db := s }, .ok prepared)

/-- The operations of `_writeMany`, in order: each value is prepared before its timestamp is
taken. -/
def writeOps (n : CRDTNode) (db coll : JsString) :
    List (JsString × Fields) → CRDTNode × Except NodeError (List Op)
  | [] => (n, .ok [])
  | (id, value) :: items =>
      match n.prepareWriteValue db coll value with
      | (n, .error err) => (n, .error err)
      | (n, .ok prepared) =>
          let kind := if value = [] then OpKind.touch else OpKind.putObj
          let op : Op := ⟨kind, db, coll, id, some prepared, (nextTs n.clock).2, 0, none⟩
          match writeOps { n with clock := (nextTs n.clock).1 } db coll items with
          | (n, .error err) => (n, .error err)
          | (n, .ok ops) => (n, .ok (op :: ops))

def writeMany (n : CRDTNode) (db coll : JsString) (items : List (JsString × Fields)) :
    CRDTNode × Except NodeError Committed :=
  match n.db.collection db coll with
  | .error err => (n, .error (.store err))
  | .ok _ =>
      match n.writeOps db coll items with
      | (n, .error err) => (n, .error err)
      | (n, .ok ops) => n.commitLocalOps ops

/-- `collection.has(id)` -/
def has (s : Store) (db coll id : JsString) : Bool :=
  match (s.getCollection db coll).bind fun c => Assoc.get? c.objects id with
  | none => false
  | some m => m.deleted.isNone

/-- `_commitInsertMany(db, coll, objects)` -/
def commitInsertMany (n : CRDTNode) (db coll : JsString) (generated : Nat → JsString)
    (objects : List (Option Json)) :
    CRDTNode × Except NodeError (List (JsString × Fields) × Committed) :=
  match normalizeInsertObjects generated objects with
  | .error err => (n, .error err)
  | .ok items =>
      match n.db.openCollection db coll with
      | (s, .error err) => ({ n with db := s }, .error (.store err))
      | (s, .ok ()) =>
          match items.find? fun item => has s db coll item.1 with
          | some item => ({ n with db := s }, .error (.alreadyExists item.1))
          | none =>
              match writeMany { n with db := s } db coll items with
              | (n, .error err) => (n, .error err)
              | (n, .ok committed) => (n, .ok (items, committed))

/-- `insertMany(db, coll, objects)`: the objects as they read afterwards. -/
def insertMany (n : CRDTNode) (db coll : JsString) (generated : Nat → JsString)
    (objects : List (Option Json)) : CRDTNode × Except NodeError (List Fields × Committed) :=
  match n.commitInsertMany db coll generated objects with
  | (n, .error err) => (n, .error err)
  | (n, .ok (items, committed)) =>
      (n, .ok (items.map fun item =>
        (n.db.read db coll item.1).getD [(js "_id", .str item.1)], committed))

/-- `this.db.preserveVector(db, coll, id, value)`, in a collection. -/
def preserveVector (c : Collection) (id : JsString) (value : Fields) : Fields :=
  match c.vectorField with
  | none => value
  | some field =>
      if (Assoc.get? value field).isSome then value
      else
        match c.getVector id with
        | none => value
        | some vector => Assoc.set value field (.arr (vector.map .num))

/-- The values of a replace or an update before they are written; the collection is made. -/
def preserveVectors (n : CRDTNode) (db coll : JsString) (merge : JsString → Fields → Fields) :
    List (JsString × Fields) → CRDTNode × Except NodeError (List (JsString × Fields))
  | [] => (n, .ok [])
  | (id, value) :: items =>
      match n.db.openCollection db coll with
      | (s, .error err) => ({ n with db := s }, .error (.store err))
      | (s, .ok ()) =>
          match preserveVectors { n with db := s } db coll merge items with
          | (n, .error err) => (n, .error err)
          | (n, .ok rest) =>
              (n, .ok ((id, preserveVector (s.collectionOf db coll) id (merge id value)) :: rest))

/-- `replaceMany(db, coll, objects)` -/
def replaceMany (n : CRDTNode) (db coll : JsString) (objects : Option (List (Option Json))) :
    CRDTNode × Except NodeError (List Fields × Committed) :=
  match normalizeObjectsWithIds objects with
  | .error err => (n, .error err)
  | .ok items =>
      match n.preserveVectors db coll (fun _ value => value) items with
      | (n, .error err) => (n, .error err)
      | (n, .ok values) =>
          match n.writeMany db coll values with
          | (n, .error err) => (n, .error err)
          | (n, .ok committed) =>
              (n, .ok (items.filterMap fun item => n.db.read db coll item.1, committed))

/-- `{ ...withoutObjectId(current), ...withoutObjectId(object) }` -/
def mergeOver (s : Store) (db coll : JsString) (id : JsString) (value : Fields) : Fields :=
  value.foldl (fun out entry => Assoc.set out entry.1 entry.2)
    (Assoc.erase ((s.read db coll id).getD []) (js "_id"))

/-- `updateMany(db, coll, objects)` -/
def updateMany (n : CRDTNode) (db coll : JsString) (objects : Option (List (Option Json))) :
    CRDTNode × Except NodeError (List Fields × Committed) :=
  match normalizeObjectsWithIds objects with
  | .error err => (n, .error err)
  | .ok items =>
      match n.preserveVectors db coll (mergeOver n.db db coll) items with
      | (n, .error err) => (n, .error err)
      | (n, .ok values) =>
          match n.writeMany db coll values with
          | (n, .error err) => (n, .error err)
          | (n, .ok committed) =>
              (n, .ok (items.filterMap fun item => n.db.read db coll item.1, committed))

/-- The deletes of `removeMany` for the objects that are there. -/
def removeOps (s : Store) (db coll : JsString) : Clock → List JsString → Clock × List Op
  | clock, [] => (clock, [])
  | clock, id :: ids =>
      if has s db coll id then
        let (next, ts) := nextTs clock
        let rest := removeOps s db coll next ids
        (rest.1, ⟨.delObj, db, coll, id, none, ts, 0, none⟩ :: rest.2)
      else removeOps s db coll clock ids

/-- What `removeMany` returns: the removed ids and the skipped ones. -/
structure Removed where
  ids : List JsString
  skipped : List JsString

/-- `removeMany(db, coll, ids)` -/
def removeMany (n : CRDTNode) (db coll : JsString) (ids : Option (List (Option Json))) :
    CRDTNode × Except NodeError (Removed × Committed) :=
  match normalizeIds ids with
  | .error err => (n, .error err)
  | .ok normalized =>
      let (clock, ops) := removeOps n.db db coll n.clock normalized
      match commitLocalOps { n with clock } ops with
      | (n', .error err) => (n', .error err)
      | (n', .ok committed) =>
          (n', .ok (⟨committed.applied.map Op.id,
            normalized.filter fun id => !has n.db db coll id⟩, committed))

/-! ## Databases and collections -/

def createDatabase (n : CRDTNode) (db : JsString) : CRDTNode :=
  notifyChange { n with db := n.db.createDatabase db } (.database db)

def removeDatabase (n : CRDTNode) (db : JsString) : CRDTNode :=
  let (s, removed) := n.db.deleteDatabase db
  if removed || !n.db.isDatabaseDeleted db then
    notifyChange { n with db := s, log := n.log.filter fun op => op.db ≠ db } (.dropDatabase db)
  else { n with db := s }

/-- `createCollection(db, coll, meta)` and `setCollectionMeta(db, coll, meta)`, for valid
metadata. -/
def setCollectionMeta (n : CRDTNode) (db coll : JsString) (next : CollectionMeta) : CRDTNode :=
  match n.db.setCollectionMeta db coll next with
  | (s, .error _) => { n with db := s }
  | (s, .ok ()) => notifyChange { n with db := s } (.metadata db coll)

def removeCollection (n : CRDTNode) (db coll : JsString) : CRDTNode :=
  let (s, removed) := n.db.deleteCollection db coll
  if removed || !n.db.isCollectionDeleted db coll then
    notifyChange { n with
      db := s
      log := n.log.filter fun op => ¬(op.db = db ∧ op.coll = coll) } (.dropCollection db coll)
  else { n with db := s }

/-- `createIndex(db, coll, path)` and `dropIndex(db, coll, path)`: work on the collection, which
is made if it is missing. -/
def changeIndexes (n : CRDTNode) (db coll : JsString) (work : Collection → Collection) :
    CRDTNode :=
  match n.db.openCollection db coll with
  | (s, .error _) => { n with db := s }
  | (s, .ok ()) => notifyChange { n with db := s.onCollection db coll work } (.metadata db coll)

def createIndex (n : CRDTNode) (db coll path : JsString) : CRDTNode :=
  n.changeIndexes db coll fun c => c.createIndex path

def dropIndex (n : CRDTNode) (db coll path : JsString) : CRDTNode :=
  n.changeIndexes db coll fun c => c.dropIndex path

/-- The part of `prune` and `receiveAck` that cuts the log. -/
def prune (n : CRDTNode) (cut : Nat) : CRDTNode :=
  { n with log := n.log.filter fun op => op.seq > cut }

end CRDTNode
end ObjyDb
