import ObjyDb.Store.Clock
import ObjyDb.Store.Tiering
import ObjyDb.Store.Column
import ObjyDb.Store.FieldIndex

/-!
# Collection — rows, metadata and derived state of one collection

The state of a `Collection` and its synchronous operations: reads, put, delete and snapshot
batches, and the rebuild of the derived state.  Maps are insertion-ordered; row ids are positions
in `idByRid`.  Background jobs are only scheduled here; they run in `Builds`.
-/

namespace ObjyDb

open Js

/-! ## State -/

/-- An entry of `meta`. -/
structure RowMeta where
  ts : Option Ts
  deleted : Option Ts
  rid : Nat
  shard : Option JsString
  deriving DecidableEq

/-- The metadata of a collection as `normalizeCollectionMeta` leaves it. -/
structure CollectionMeta where
  indexes : List JsString
  columns : List JsString
  tiering : Option Tiering
  indexes_nodup : indexes.Nodup
  columns_nodup : columns.Nodup

def CollectionMeta.empty : CollectionMeta :=
  ⟨[], [], none, List.nodup_nil, List.nodup_nil⟩

/-- The compressed cold part of a row. -/
structure ColdEntry where
  bytes : Nat
  compressed : List Byte

structure CompressionTotals where
  objects : Int
  uncompressedBytes : Int
  compressedBytes : Int

/-- A change recorded for a field build; `none` is `NO_VALUE`. -/
structure FieldChange where
  before : Option (Option Json)
  after : Option (Option Json)

/-- A field index being built; `id` is its identity as an object. -/
structure FieldBuild where
  path : JsString
  id : Nat
  pending : List (Nat × FieldChange)

/-- `RidBitmapQueue`: the dirty rows and the order in which they were marked. -/
structure RidBitmapQueue where
  bits : RidSet
  queue : List Nat

namespace RidBitmapQueue

def empty : RidBitmapQueue := ⟨[], []⟩

def has (q : RidBitmapQueue) (rid : Nat) : Bool :=
  decide (rid ∈ q.bits)

def add (q : RidBitmapQueue) (rid : Nat) : RidBitmapQueue :=
  if rid ∈ q.bits then q else ⟨ridSetAdd q.bits rid, q.queue ++ [rid]⟩

def compactQueue (q : RidBitmapQueue) : RidBitmapQueue :=
  if q.bits = [] then ⟨[], []⟩ else q

def delete (q : RidBitmapQueue) (rid : Nat) : RidBitmapQueue :=
  compactQueue ⟨ridSetDelete q.bits rid, q.queue⟩

/-- At most `limit` dirty rows from the head of the queue, and what is left of it. -/
def takeFrom (bits : RidSet) : Nat → List Nat → List Nat × List Nat
  | _, [] => ([], [])
  | 0, queue => ([], queue)
  | limit + 1, rid :: queue =>
      if rid ∈ bits then
        let taken := takeFrom bits limit queue
        (rid :: taken.1, taken.2)
      else takeFrom bits (limit + 1) queue

def take (q : RidBitmapQueue) (limit : Nat) : List Nat × RidBitmapQueue :=
  let taken := takeFrom q.bits limit q.queue
  (taken.1, compactQueue ⟨q.bits, taken.2⟩)

end RidBitmapQueue

/-- A background job of the collection, between two of its rows. -/
inductive Job
  /-- `_runColumnBuild`: the build id of each path, what is built so far, and the rows scanned. -/
  | columns (targets : List (JsString × Nat)) (built : List (JsString × TypedRidColumn))
      (scanned : Nat)
  /-- `_stripBaseValuesForColumns` -/
  | strip (paths : List JsString) (scanned : Nat)
  /-- `_runFieldIndexBuild`: the identity of each path's build. -/
  | fields (targets : List (JsString × Nat)) (built : List (JsString × FieldIndex))
      (scanned : Nat)
  /-- `_runDirtyIndexCatchup` -/
  | catchup

structure Collection where
  /-- The vector field, when vectors are enabled. -/
  vectorField : Option JsString
  compression : Option Compression
  rows : List (JsString × Fields)
  vectors : List (JsString × List JsNumber)
  objects : List (JsString × RowMeta)
  idByRid : List JsString
  indexes : List (JsString × FieldIndex)
  fieldBuilds : List (JsString × FieldBuild)
  columns : List (JsString × TypedRidColumn)
  columnBuilds : List Nat
  indexDirtyRids : RidBitmapQueue
  indexDirtyBuild : Option Nat
  indexBuildPending : Bool
  shardIds : List (JsString × RidSet)
  unshardedLiveCount : Int
  compressedCold : List (Nat × ColdEntry)
  compressionTotals : CompressionTotals
  collectionMeta : CollectionMeta
  liveCount : Int
  /-- The scheduled jobs and the identity of the next one. -/
  jobs : List (Nat × Job)
  nextJob : Nat

/-- The `TypeError` of an invalid vector, with the field it names. -/
inductive CollectionError
  | invalidVector (field : JsString)
  deriving DecidableEq

/-- `INDEX_DEFER_MIN_ROWS` -/
def indexDeferMinRows : Nat := 5000

/-- `INDEX_DIRTY_BUILD_BATCH_SIZE` -/
def indexDirtyBuildBatchSize : Nat := 4096

def normalizeShard (shard : Option JsString) : Option JsString :=
  match shard with
  | some [] => none
  | other => other

namespace Collection

def new (vectorField : Option JsString) (compression : Option Compression) : Collection where
  vectorField := vectorField
  compression := compression
  rows := []
  vectors := []
  objects := []
  idByRid := []
  indexes := []
  fieldBuilds := []
  columns := []
  columnBuilds := []
  indexDirtyRids := .empty
  indexDirtyBuild := none
  indexBuildPending := false
  shardIds := []
  unshardedLiveCount := 0
  compressedCold := []
  compressionTotals := ⟨0, 0, 0⟩
  collectionMeta := .empty
  liveCount := 0
  jobs := []
  nextJob := 0

/-! ## Row ids -/

def idForRid (c : Collection) (rid : Nat) : Option JsString :=
  c.idByRid[rid]?

/-- `_ensureMeta(id)` -/
def ensureMeta (c : Collection) (id : JsString) : Collection × RowMeta :=
  match Assoc.get? c.objects id with
  | some m => (c, m)
  | none =>
      let m : RowMeta := ⟨none, none, c.idByRid.length, none⟩
      ({ c with objects := Assoc.set c.objects id m, idByRid := c.idByRid ++ [id] }, m)

def liveRids (c : Collection) : List Nat :=
  (c.objects.filter fun entry => entry.2.deleted.isNone).map fun entry => entry.2.rid

/-! ## Reading -/

/-- What `JSON.parse` gives for a compressed cold part. -/
def coldValue (compression : Compression) (entry : ColdEntry) : Fields :=
  fieldsOf (parse (compression.decodeUtf8 (compression.decompress entry.compressed)))

def hydrateCompressedCold (c : Collection) (value : Fields) (rid : Nat) : Fields :=
  match Assoc.get? c.compressedCold rid, c.compression with
  | some entry, some compression => mergePlainObjects (coldValue compression entry) value
  | _, _ => value

def hydrateColumns (c : Collection) (value : Fields) (rid : Nat) (id : JsString) : Fields :=
  let out := Assoc.set value (js "_id") (.str id)
  if c.indexDirtyRids.has rid then out
  else
    c.columns.foldl (fun out entry =>
      match entry.2.valueFor rid with
      | some v => setPath out entry.1 v
      | none => out) out

def hydrateStoredValue (c : Collection) (value : Fields) (rid : Nat) (id : JsString) : Fields :=
  c.hydrateColumns (c.hydrateCompressedCold value rid) rid id

/-- `read(id)`; `readForQuery(id)` gives the same object without copying it. -/
def read (c : Collection) (id : JsString) : Option Fields :=
  match Assoc.get? c.objects id with
  | none => none
  | some m =>
      if m.deleted.isSome then none
      else some (c.hydrateStoredValue ((Assoc.get? c.rows id).getD []) m.rid id)

def readRid (c : Collection) (rid : Nat) : Option Fields :=
  match c.idForRid rid with
  | none => none
  | some id => c.read id

def getVector (c : Collection) (id : JsString) : Option (List JsNumber) :=
  Assoc.get? c.vectors id

/-! ## Vectors -/

inductive VectorUpdate
  | absent
  | remove
  | value (vector : List JsNumber)

def vectorOf : Json → Option (List JsNumber)
  | .arr items =>
      if items = [] then none
      else items.mapM fun item =>
        match item with
        | .num n => some n
        | _ => none
  | _ => none

/-- `_prepareStoredValue(value)` -/
def prepareStoredValue (c : Collection) (value : Fields) :
    Except CollectionError (Fields × VectorUpdate) :=
  match c.vectorField with
  | none => .ok (value, .absent)
  | some field =>
      match Assoc.get? value field with
      | none => .ok (value, .absent)
      | some .null => .ok (Assoc.erase value field, .remove)
      | some raw =>
          match vectorOf raw with
          | some vector => .ok (Assoc.erase value field, .value vector)
          | none => .error (.invalidVector field)

def applyVectorUpdate (c : Collection) (id : JsString) (update : VectorUpdate) : Collection :=
  if c.vectorField.isNone then c
  else
    match update with
    | .value vector => { c with vectors := Assoc.set c.vectors id vector }
    | _ => { c with vectors := Assoc.erase c.vectors id }

def removeVector (c : Collection) (id : JsString) : Collection :=
  { c with vectors := Assoc.erase c.vectors id }

/-! ## Writing a base value -/

/-- `_setCompressedCold(rid, entry)` -/
def setCompressedCold (c : Collection) (rid : Nat) (entry : Option ColdEntry) : Collection :=
  let totals := c.compressionTotals
  let totals := match Assoc.get? c.compressedCold rid with
    | some previous =>
        ⟨totals.objects - 1, totals.uncompressedBytes - previous.bytes,
          totals.compressedBytes - previous.compressed.length⟩
    | none => totals
  match entry with
  | some entry =>
      { c with
        compressedCold := Assoc.set c.compressedCold rid entry
        compressionTotals := ⟨totals.objects + 1, totals.uncompressedBytes + entry.bytes,
          totals.compressedBytes + entry.compressed.length⟩ }
  | none =>
      { c with compressedCold := Assoc.erase c.compressedCold rid, compressionTotals := totals }

def forcedHotTieringPaths (c : Collection) : List JsString :=
  unique (c.collectionMeta.indexes ++ c.collectionMeta.columns)

/-- `_tierBaseValue(rid, value)`: what stays in the row. -/
def tierBaseValue (c : Collection) (rid : Nat) (value : Fields) : Collection × Fields :=
  match c.collectionMeta.tiering, c.compression with
  | some tiering, some compression =>
      match splitTieredValue value tiering c.forcedHotTieringPaths with
      | (_, none) => (c.setCompressedCold rid none, value)
      | (hot, some cold) =>
          let encoded := compression.encodeUtf8 (stringify (.obj cold))
          if encoded.length < tiering.minBytes then (c.setCompressedCold rid none, value)
          else
            (c.setCompressedCold rid (some ⟨encoded.length, compression.compress encoded⟩), hot)
  | _, _ => (c.setCompressedCold rid none, value)

/-- `ObjectRowStore.rebuild(id, live)` -/
def rebuildRow (rows : List (JsString × Fields)) (id : JsString) (live : Fields) :
    List (JsString × Fields) :=
  if live = [] then Assoc.erase rows id
  else
    Assoc.set (Assoc.erase rows id) id
      (live.foldl (fun value entry => assign value entry.1 entry.2) [])

def writeBaseValue (c : Collection) (id : JsString) (rid : Nat) (value : Fields) : Collection :=
  let tiered := c.tierBaseValue rid value
  { tiered.1 with
    rows := rebuildRow tiered.1.rows id (tiered.2.filter fun entry => entry.1 ≠ js "_id") }

/-- `_baseValueForStorage(value, paths)`: the paths given, or those of the ready columns. -/
def baseValueForStorage (c : Collection) (value : Fields) (paths : Option (List JsString)) :
    Fields :=
  match paths with
  | some paths => unsetPaths value paths
  | none => unsetPaths value ((c.columns.filter fun entry => entry.2.ready).map Prod.fst)

def rewriteBaseValueForColumns (c : Collection) (rid : Nat) (object : Fields)
    (paths : Option (List JsString)) : Collection :=
  match c.idForRid rid with
  | none => c
  | some id =>
      c.writeBaseValue id rid (c.baseValueForStorage (Assoc.erase object (js "_id")) paths)

/-! ## Counters -/

def addShardRid (c : Collection) (rid : Nat) (shard : Option JsString) : Collection :=
  match normalizeShard shard with
  | none => { c with unshardedLiveCount := c.unshardedLiveCount + 1 }
  | some shard =>
      { c with
        shardIds := Assoc.set c.shardIds shard
          (ridSetAdd ((Assoc.get? c.shardIds shard).getD []) rid) }

def removeShardRid (c : Collection) (rid : Nat) (shard : Option JsString) : Collection :=
  match normalizeShard shard with
  | none =>
      if c.unshardedLiveCount > 0 then { c with unshardedLiveCount := c.unshardedLiveCount - 1 }
      else c
  | some shard =>
      match Assoc.get? c.shardIds shard with
      | none => c
      | some rids =>
          if ridSetDelete rids rid = [] then { c with shardIds := Assoc.erase c.shardIds shard }
          else { c with shardIds := Assoc.set c.shardIds shard (ridSetDelete rids rid) }

/-! ## Derived state of one write -/

/-- One accepted write: the object before it and after it. -/
structure IndexDelta where
  rid : Nat
  before : Option Fields
  after : Option Fields

/-- The value of a path in an object that may be missing. -/
def valueAt (object : Option Fields) (path : JsString) : Option Json :=
  object.bind fun fields => getPathValue (.obj fields) path

/-- `_recordFieldBuildDelta(rid, before, after)` -/
def recordFieldBuildDelta (c : Collection) (delta : IndexDelta) : Collection :=
  let record (build : FieldBuild) : FieldBuild :=
    let before := match Assoc.get? build.pending delta.rid with
      | some current => current.before
      | none => delta.before.map fun fields => getPathValue (.obj fields) build.path
    let after := delta.after.map fun fields => getPathValue (.obj fields) build.path
    { build with pending := Assoc.set build.pending delta.rid ⟨before, after⟩ }
  { c with fieldBuilds := Assoc.mapValues (fun _ build => record build) c.fieldBuilds }

/-- What a column keeps of the object after a write. -/
def columnAfter (column : TypedRidColumn) (rid : Nat) (after : Option Fields) : TypedRidColumn :=
  match after with
  | some fields =>
      column.updateScalarState rid (columnScalarState (getPathValue (.obj fields) column.path))
  | none => column.remove rid

/-- `_recordColumnBuildDelta(rid, after)` -/
def recordColumnBuildDelta (c : Collection) (rid : Nat) (after : Option Fields) : Collection :=
  { c with
    columns := Assoc.mapValues (fun _ column =>
      if column.status ≠ .building then column else columnAfter column rid after) c.columns }

def refreshIndex (index : FieldIndex) (delta : IndexDelta) : FieldIndex :=
  let index := match delta.before with
    | some before => index.removeValue delta.rid (getPathValue (.obj before) index.path)
    | none => index
  match delta.after with
  | some after => index.addValue delta.rid (getPathValue (.obj after) index.path)
  | none => index

/-- One delta of `_applyIndexDeltas`, when the batch is not deferred. -/
def applyIndexDelta (c : Collection) (delta : IndexDelta) : Collection :=
  let c := (c.recordFieldBuildDelta delta).recordColumnBuildDelta delta.rid delta.after
  if c.indexDirtyRids.has delta.rid then c
  else
    { c with
      indexes := Assoc.mapValues (fun _ index => refreshIndex index delta) c.indexes
      columns := Assoc.mapValues (fun _ column =>
        if column.status = .building then column
        else columnAfter column delta.rid delta.after) c.columns }

/-- `_markIndexDirty(delta)` -/
def markIndexDirty (c : Collection) (delta : IndexDelta) : Collection :=
  let c := (c.recordFieldBuildDelta delta).recordColumnBuildDelta delta.rid delta.after
  { c with indexDirtyRids := c.indexDirtyRids.add delta.rid }

def schedule (c : Collection) (job : Job) : Collection :=
  { c with jobs := c.jobs ++ [(c.nextJob, job)], nextJob := c.nextJob + 1 }

/-- `_scheduleDirtyIndexCatchup()` -/
def scheduleDirtyIndexCatchup (c : Collection) : Collection :=
  if c.indexDirtyBuild.isSome ∨ c.indexDirtyRids.bits = [] then c
  else { c.schedule .catchup with indexDirtyBuild := some c.nextJob }

def hasIndexWork (c : Collection) : Bool :=
  decide (c.indexes ≠ []) || decide (c.columns.length ≠ 0) || decide (c.fieldBuilds.length ≠ 0) ||
    decide (c.columnBuilds ≠ [])

def shouldDeferIndexDeltasForCount (c : Collection) (count : Nat) : Bool :=
  decide (indexDeferMinRows ≤ count) && c.hasIndexWork

def applyIndexDeltas (c : Collection) (deltas : List IndexDelta) : Collection :=
  if deltas.length = 0 then c
  else if c.shouldDeferIndexDeltasForCount deltas.length then
    (deltas.foldl markIndexDirty c).scheduleDirtyIndexCatchup
  else deltas.foldl applyIndexDelta c

def hasDirtyIndexes (c : Collection) : Bool :=
  decide (c.indexDirtyRids.bits ≠ [])

/-! ## Put and delete -/

/-- A row of a batch; `op` is carried along. -/
structure Row (ω : Type) where
  id : JsString
  value : Fields
  ts : Ts
  shard : Option JsString
  op : ω

/-- `{ ...value, _id: id }` without the value's own `_id`. -/
def queryObjectFromStoredValue (id : JsString) (value : Fields) : Fields :=
  Assoc.set (Assoc.erase value (js "_id")) (js "_id") (.str id)

/-- The state after writing the metadata entry of `id`. -/
def setRowMeta (c : Collection) (id : JsString) (m : RowMeta) : Collection :=
  { c with objects := Assoc.set c.objects id m }

/-- `_putObject`: the delta of an accepted row, `none` of a rejected one. -/
def putObject {ω : Type} (c : Collection) (row : Row ω) (keepColumnFields : Bool) :
    Collection × Except CollectionError (Option IndexDelta) :=
  let (c, m) := c.ensureMeta row.id
  if m.deleted.isSome && !gt (some row.ts) m.deleted then (c, .ok none)
  else
    let wasLive := m.ts.isSome && m.deleted.isNone
    let previousShard := if wasLive then m.shard else none
    let before := if wasLive then c.read row.id else none
    if m.ts.isSome && !gt (some row.ts) m.ts then (c, .ok none)
    else
      let nextShard := (normalizeShard row.shard).or m.shard
      match c.prepareStoredValue row.value with
      | .error err => (c, .error err)
      | .ok (value, vector) =>
          let base := if keepColumnFields || c.hasDirtyIndexes then value
            else c.baseValueForStorage value none
          let c := c.setRowMeta row.id { m with ts := some row.ts, deleted := none, shard := nextShard }
          let c := (c.writeBaseValue row.id m.rid base).applyVectorUpdate row.id vector
          let after := queryObjectFromStoredValue row.id value
          let c :=
            if !wasLive then
              ({ c with liveCount := c.liveCount + 1 }).addShardRid m.rid nextShard
            else if previousShard ≠ nextShard then
              (c.removeShardRid m.rid previousShard).addShardRid m.rid nextShard
            else c
          (c, .ok (some ⟨m.rid, before, some after⟩))

/-- The rows of a put batch in order; an exception leaves the rows before it written. -/
def putRows {ω : Type} (keepColumnFields : Bool) :
    Collection → List (Row ω) →
      Collection × Except CollectionError (List (Row ω) × List IndexDelta)
  | c, [] => (c, .ok ([], []))
  | c, row :: rest =>
      match c.putObject row keepColumnFields with
      | (c, .error err) => (c, .error err)
      | (c, .ok delta) =>
          match putRows keepColumnFields c rest with
          | (c, .error err) => (c, .error err)
          | (c, .ok (applied, deltas)) =>
              match delta with
              | none => (c, .ok (applied, deltas))
              | some delta => (c, .ok (row :: applied, delta :: deltas))

/-- `putObjects(rows)`: the applied rows. -/
def putObjects {ω : Type} (c : Collection) (rows : List (Row ω)) :
    Collection × Except CollectionError (List (Row ω)) :=
  match putRows (c.shouldDeferIndexDeltasForCount rows.length) c rows with
  | (c, .error err) => (c, .error err)
  | (c, .ok (applied, deltas)) => (c.applyIndexDeltas deltas, .ok applied)

/-- `_deleteObject`: the delta of an accepted row. -/
def deleteObject {ω : Type} (c : Collection) (row : Row ω) : Collection × Option IndexDelta :=
  let (c, m) := c.ensureMeta row.id
  let last := m.deleted.or m.ts
  if last.isSome && !gt (some row.ts) last then (c, none)
  else
    let wasLive := m.ts.isSome && m.deleted.isNone
    let previousShard := if wasLive then m.shard else none
    let before := if wasLive then c.read row.id else none
    let c := c.setRowMeta row.id { m with
      deleted := some row.ts
      shard := (normalizeShard row.shard).or m.shard }
    let c := { c with rows := Assoc.erase c.rows row.id }
    let c := (c.setCompressedCold m.rid none).removeVector row.id
    let c :=
      if wasLive then ({ c with liveCount := c.liveCount - 1 }).removeShardRid m.rid previousShard
      else c
    (c, some ⟨m.rid, before, none⟩)

def deleteRows {ω : Type} : Collection → List (Row ω) →
    Collection × List (Row ω) × List IndexDelta
  | c, [] => (c, [], [])
  | c, row :: rest =>
      let (c, delta) := c.deleteObject row
      let (c, applied, deltas) := deleteRows c rest
      match delta with
      | none => (c, applied, deltas)
      | some delta => (c, row :: applied, delta :: deltas)

def deleteObjects {ω : Type} (c : Collection) (rows : List (Row ω)) : Collection × List (Row ω) :=
  let (c, applied, deltas) := deleteRows c rows
  (c.applyIndexDeltas deltas, applied)

/-! ## Rebuilding the derived state -/

/-- `rebuildCoreState()` -/
def rebuildCoreState (c : Collection) : Collection :=
  c.objects.foldl (fun c entry =>
    if entry.2.deleted.isSome then c
    else ({ c with liveCount := c.liveCount + 1 }).addShardRid entry.2.rid entry.2.shard)
    { c with liveCount := 0, shardIds := [], unshardedLiveCount := 0 }

/-- The loop state of `rebuildDerivedState`. -/
structure Rebuild where
  collection : Collection
  fieldIndexes : List (JsString × FieldIndex)
  columnData : List (JsString × TypedRidColumn)

def rebuildRowState (columnPaths : List JsString) (s : Rebuild) (entry : JsString × RowMeta) :
    Rebuild :=
  if entry.2.deleted.isSome then s
  else
    let c := ({ s.collection with liveCount := s.collection.liveCount + 1 }).addShardRid
      entry.2.rid entry.2.shard
    match c.read entry.1 with
    | none => { s with collection := c }
    | some object =>
        { collection := c.rewriteBaseValueForColumns entry.2.rid object (some columnPaths)
          fieldIndexes := Assoc.mapValues (fun path index =>
            index.addValue entry.2.rid (getPathValue (.obj object) path)) s.fieldIndexes
          columnData := Assoc.mapValues (fun path column =>
            column.updateScalarState entry.2.rid
              (columnScalarState (getPathValue (.obj object) path))) s.columnData }

/-- `rebuildDerivedState()` -/
def rebuildDerivedState (c : Collection) : Collection :=
  let paths := c.collectionMeta.columns
  let s := c.objects.foldl (rebuildRowState paths)
    { collection := { c with liveCount := 0, shardIds := [], unshardedLiveCount := 0 }
      fieldIndexes := c.collectionMeta.indexes.map fun path => (path, FieldIndex.new path)
      columnData := paths.map fun path => (path, TypedRidColumn.new path) }
  { s.collection with
    indexes := s.fieldIndexes
    fieldBuilds := []
    columns := s.columnData
    columnBuilds := []
    indexDirtyRids := .empty
    indexDirtyBuild := none }

/-! ## Snapshot rows -/

structure SnapshotRow where
  id : JsString
  ts : Option Ts
  deleted : Option Ts
  value : Fields
  shard : Option JsString

/-- `_refreshColumns(rid, after)` -/
def refreshColumns (c : Collection) (rid : Nat) (after : Option Fields) : Collection :=
  c.applyIndexDeltas [⟨rid, none, after⟩]

/-- `_applySnapshotObject`: whether the row was applied. -/
def applySnapshotObject (c : Collection) (row : SnapshotRow) (deferDerivedIndexes : Bool) :
    Collection × Except CollectionError Bool :=
  let (c, m) := c.ensureMeta row.id
  match row.deleted with
  | some deleted =>
      let last := m.deleted.or m.ts
      if last.isSome && !gt (some deleted) last then (c, .ok false)
      else
        let c := c.setRowMeta row.id { m with
          ts := row.ts.or m.ts
          deleted := some deleted
          shard := (normalizeShard row.shard).or m.shard }
        let c := { c with rows := Assoc.erase c.rows row.id }
        let c := (c.setCompressedCold m.rid none).removeVector row.id
        (c.refreshColumns m.rid none, .ok true)
  | none =>
      match row.ts with
      | none => (c, .ok false)
      | some ts =>
          if m.deleted.isSome && !gt (some ts) m.deleted then (c, .ok false)
          else if m.ts.isSome && !gt (some ts) m.ts then (c, .ok false)
          else
            match c.prepareStoredValue row.value with
            | .error err => (c, .error err)
            | .ok (value, vector) =>
                let base := if deferDerivedIndexes then value else c.baseValueForStorage value none
                let c := c.setRowMeta row.id { m with
                  ts := some ts
                  deleted := none
                  shard := (normalizeShard row.shard).or m.shard }
                let c := (c.writeBaseValue row.id m.rid base).applyVectorUpdate row.id vector
                (c.refreshColumns m.rid (some value), .ok true)

def applySnapshotRows (deferDerivedIndexes : Bool) :
    Collection → List SnapshotRow → Collection × Except CollectionError Nat
  | c, [] => (c, .ok 0)
  | c, row :: rest =>
      match c.applySnapshotObject row deferDerivedIndexes with
      | (c, .error err) => (c, .error err)
      | (c, .ok applied) =>
          match applySnapshotRows deferDerivedIndexes c rest with
          | (c, .error err) => (c, .error err)
          | (c, .ok n) => (c, .ok (if applied then n + 1 else n))

/-- `applySnapshotObjects(rows, options)`: how many rows were applied. -/
def applySnapshotObjects (c : Collection) (rows : List SnapshotRow) (deferDerivedIndexes : Bool) :
    Collection × Except CollectionError Nat :=
  match applySnapshotRows deferDerivedIndexes c rows with
  | (c, .error err) => (c, .error err)
  | (c, .ok applied) =>
      (if applied ≠ 0 ∧ deferDerivedIndexes = false then c.rebuildDerivedState else c, .ok applied)

/-- One row of `snapshotObjects()`. -/
def snapshotRow (c : Collection) (id : JsString) (m : RowMeta) : SnapshotRow :=
  if m.deleted.isSome then ⟨id, m.ts, m.deleted, [], normalizeShard m.shard⟩
  else
    let value := Assoc.erase ((c.read id).getD []) (js "_id")
    let value := match c.getVector id, c.vectorField with
      | some vector, some field => assign value field (.arr (vector.map .num))
      | _, _ => value
    ⟨id, m.ts, none, value, normalizeShard m.shard⟩

def snapshotObjects (c : Collection) : List SnapshotRow :=
  c.objects.map fun entry => c.snapshotRow entry.1 entry.2

end Collection

end ObjyDb
