import ObjyDb.Store.Collection

/-!
# Builds — metadata changes and background jobs

`setMeta` and `scheduleIndexBuildsFromMeta` start builds of field indexes and columns; these and
the dirty-row catch-up run as jobs.  `stepJob` runs one row of a job (one batch of a catch-up), so
a run of steps may interleave several jobs and all other operations between any two rows.
-/

namespace ObjyDb

open Js

namespace Collection

/-! ## Starting builds -/

/-- `_createIndexFromMeta(path)` -/
def createIndexFromMeta (c : Collection) (path : JsString) : Collection :=
  let index := c.liveRids.foldl (fun index rid =>
    match c.readRid rid with
    | some object => index.addValue rid (getPathValue (.obj object) path)
    | none => index) (FieldIndex.new path)
  { c with
    fieldBuilds := Assoc.erase c.fieldBuilds path
    indexes := Assoc.set c.indexes path index }

/-- `_startFieldIndexBuild(paths)`; the builds are identified by the job. -/
def startFieldIndexBuild (c : Collection) (paths : List JsString) : Collection :=
  if paths = [] then c
  else
    let c := paths.foldl (fun c path =>
      { c with
        indexes := Assoc.erase c.indexes path
        fieldBuilds := Assoc.set c.fieldBuilds path ⟨path, c.nextJob, []⟩ }) c
    c.schedule (.fields (paths.map fun path => (path, c.nextJob))
      (paths.map fun path => (path, FieldIndex.new path)) 0)

/-- One path of `_applyMetaIndexes`, and whether it must be built in the background. -/
def applyMetaIndex (background rebuild : Bool) (s : Collection × List JsString)
    (path : JsString) : Collection × List JsString :=
  let (c, toBuild) := s
  if (Assoc.get? c.indexes path).isSome && !rebuild then (c, toBuild)
  else if (Assoc.get? c.fieldBuilds path).isSome && !rebuild then (c, toBuild)
  else if c.liveCount = 0 then
    ({ c with
        fieldBuilds := Assoc.erase c.fieldBuilds path
        indexes := Assoc.set c.indexes path (FieldIndex.new path) }, toBuild)
  else if background then (c, toBuild ++ [path])
  else (c.createIndexFromMeta path, toBuild)

/-- `_applyMetaIndexes({ background, rebuild })` -/
def applyMetaIndexes (c : Collection) (background rebuild : Bool) : Collection :=
  let wanted := c.collectionMeta.indexes
  let c := { c with
    indexes := c.indexes.filter fun entry => entry.1 ∈ wanted
    fieldBuilds := c.fieldBuilds.filter fun entry => entry.1 ∈ wanted }
  let (c, toBuild) := wanted.foldl (applyMetaIndex background rebuild) (c, [])
  c.startFieldIndexBuild toBuild

/-- `_startColumnBuild(paths)` -/
def startColumnBuild (c : Collection) (paths : List JsString) : Collection :=
  let start (s : Collection × List (JsString × Nat)) (path : JsString) :
      Collection × List (JsString × Nat) :=
    match Assoc.get? s.1.columns path with
    | none => s
    | some column =>
        ({ s.1 with columns := Assoc.set s.1.columns path column.startBuild },
          s.2 ++ [(path, column.startBuild.buildId)])
  let (c, targets) := paths.foldl start (c, [])
  if targets = [] then c
  else
    { c.schedule (.columns targets
        (targets.map fun target => (target.1, TypedRidColumn.new target.1)) 0) with
      columnBuilds := c.columnBuilds ++ [c.nextJob] }

/-- One wanted path of `_applyMetaColumns`, and whether it must be built. -/
def applyMetaColumn (rebuild : Bool) (s : Collection × List JsString) (path : JsString) :
    Collection × List JsString :=
  let (c, toBuild) := s
  let existing := Assoc.get? c.columns path
  let column := existing.getD (TypedRidColumn.new path)
  if c.liveCount = 0 then
    let started := column.startBuild
    let installed := (started.install (TypedRidColumn.new path) started.buildId).getD started
    ({ c with columns := Assoc.set c.columns path installed }, toBuild)
  else
    let c := { c with columns := Assoc.set c.columns path column }
    if existing.isNone || rebuild || decide (column.status = .error) then (c, toBuild ++ [path])
    else (c, toBuild)

/-- `_applyMetaColumns({ rebuild })` -/
def applyMetaColumns (c : Collection) (rebuild : Bool) : Collection :=
  let wanted := c.collectionMeta.columns
  let c := { c with columns := c.columns.filter fun entry => entry.1 ∈ wanted }
  let (c, toBuild) := wanted.foldl (applyMetaColumn rebuild) (c, [])
  if toBuild = [] then c else c.startColumnBuild toBuild

/-- `_deferMetaIndexes()` -/
def deferMetaIndexes (c : Collection) : Collection :=
  { c with
    indexes := []
    fieldBuilds := []
    indexBuildPending := true
    columns := c.columns.filter fun entry => entry.1 ∈ c.collectionMeta.columns }

/-- `scheduleIndexBuildsFromMeta()` -/
def scheduleIndexBuildsFromMeta (c : Collection) : Collection :=
  let c := (c.applyMetaIndexes true true).applyMetaColumns true
  { c with indexBuildPending := false }

/-- `_retierBaseValues()` -/
def retierBaseValues (c : Collection) : Collection :=
  c.liveRids.foldl (fun c rid =>
    match c.readRid rid with
    | some object => c.rewriteBaseValueForColumns rid object none
    | none => c) c

/-- `setMeta(meta, { deferIndexes })` for valid metadata. -/
def setMeta (c : Collection) (next : CollectionMeta) (deferIndexes : Bool) : Collection :=
  let previousTiering := c.collectionMeta.tiering
  let c := { c with collectionMeta := next }
  let c := if deferIndexes then c.deferMetaIndexes
    else (c.applyMetaIndexes false false).applyMetaColumns false
  if previousTiering.map (fun t => (t.keep, t.offload, t.minBytes)) ≠
      c.collectionMeta.tiering.map (fun t => (t.keep, t.offload, t.minBytes)) then
    c.retierBaseValues
  else c

/-! ## Running jobs -/

def setJob (c : Collection) (id : Nat) (job : Job) : Collection :=
  { c with jobs := Assoc.set c.jobs id job }

/-- A job ends; the callbacks on its promise run. -/
def endJob (c : Collection) (id : Nat) : Collection :=
  { c with
    jobs := Assoc.erase c.jobs id
    columnBuilds := c.columnBuilds.filter (· ≠ id) }

/-- One row of the scan of `_runColumnBuild`. -/
def scanColumnRow (c : Collection) (m : RowMeta) (built : List (JsString × TypedRidColumn)) :
    List (JsString × TypedRidColumn) :=
  match c.readRid m.rid with
  | none => built
  | some object =>
      Assoc.mapValues (fun path column =>
        column.updateScalarState m.rid (columnScalarState (getPathValue (.obj object) path))) built

/-- The installation at the end of `_runColumnBuild`: the paths installed. -/
def installColumn (built : List (JsString × TypedRidColumn)) (s : Collection × List JsString)
    (target : JsString × Nat) : Collection × List JsString :=
  match Assoc.get? s.1.columns target.1, Assoc.get? built target.1 with
  | some column, some source =>
      match column.install source target.2 with
      | some installed =>
          ({ s.1 with columns := Assoc.set s.1.columns target.1 installed }, s.2 ++ [target.1])
      | none => s
  | _, _ => s

def scanFieldRow (c : Collection) (targets : List (JsString × Nat)) (m : RowMeta)
    (built : List (JsString × FieldIndex)) : List (JsString × FieldIndex) :=
  match c.readRid m.rid with
  | none => built
  | some object =>
      Assoc.mapValues (fun path index =>
        if (Assoc.get? c.fieldBuilds path).map FieldBuild.id = Assoc.get? targets path then
          index.addValue m.rid (getPathValue (.obj object) path)
        else index) built

def applyFieldChange (index : FieldIndex) (change : Nat × FieldChange) : FieldIndex :=
  let index := match change.2.before with
    | some before => index.removeValue change.1 before
    | none => index
  match change.2.after with
  | some after => index.addValue change.1 after
  | none => index

def installFieldIndex (built : List (JsString × FieldIndex)) (c : Collection)
    (target : JsString × Nat) : Collection :=
  match Assoc.get? c.fieldBuilds target.1, Assoc.get? built target.1 with
  | some build, some index =>
      if build.id ≠ target.2 then c
      else
        { c with
          indexes := Assoc.set c.indexes target.1 (build.pending.foldl applyFieldChange index)
          fieldBuilds := Assoc.erase c.fieldBuilds target.1 }
  | _, _ => c

/-- `_refreshReadyIndexesForRid(rid)` -/
def refreshReadyIndexesForRid (c : Collection) (rid : Nat) : Collection :=
  let object := c.readRid rid
  let c := { c with
    indexes := Assoc.mapValues (fun _ index =>
      match object with
      | some fields => (index.removeRid rid).addValue rid (getPathValue (.obj fields) index.path)
      | none => index.removeRid rid) c.indexes
    columns := Assoc.mapValues (fun _ column => columnAfter column rid object) c.columns }
  match object with
  | some fields => c.rewriteBaseValueForColumns rid fields none
  | none => c

/-- One row of the catch-up batch. -/
def catchUpRow (c : Collection) (rid : Nat) : Collection :=
  let c := c.refreshReadyIndexesForRid rid
  { c with indexDirtyRids := c.indexDirtyRids.delete rid }

/-- The end of a catch-up job; another one is scheduled while rows are dirty. -/
def endCatchup (c : Collection) (id : Nat) : Collection :=
  let c := c.endJob id
  if c.indexDirtyBuild = some id then
    ({ c with indexDirtyBuild := none }).scheduleDirtyIndexCatchup
  else c.scheduleDirtyIndexCatchup

/-- One batch of `_runDirtyIndexCatchup`. -/
def stepCatchup (c : Collection) (id : Nat) : Collection :=
  if c.indexDirtyRids.bits = [] then c.endCatchup id
  else
    let (batch, queue) := c.indexDirtyRids.take indexDirtyBuildBatchSize
    let c := { c with indexDirtyRids := queue }
    if batch = [] then ({ c with indexDirtyRids := .empty }).endCatchup id
    else batch.foldl catchUpRow c

/-- One row of a job, or its end. -/
def stepJob (c : Collection) (id : Nat) : Collection :=
  match Assoc.get? c.jobs id with
  | none => c
  | some (.columns targets built scanned) =>
      match c.objects[scanned]? with
      | some entry =>
          let built := if entry.2.deleted.isSome then built else c.scanColumnRow entry.2 built
          c.setJob id (.columns targets built (scanned + 1))
      | none =>
          let (c, installed) := targets.foldl (installColumn built) (c, [])
          if installed = [] then c.endJob id else c.setJob id (.strip installed 0)
  | some (.strip paths scanned) =>
      match c.objects[scanned]? with
      | some entry =>
          let c := if entry.2.deleted.isSome then c
            else
              match c.readRid entry.2.rid with
              | some object => c.rewriteBaseValueForColumns entry.2.rid object (some paths)
              | none => c
          c.setJob id (.strip paths (scanned + 1))
      | none => c.endJob id
  | some (.fields targets built scanned) =>
      match c.objects[scanned]? with
      | some entry =>
          let built := if entry.2.deleted.isSome then built
            else c.scanFieldRow targets entry.2 built
          c.setJob id (.fields targets built (scanned + 1))
      | none => (targets.foldl (installFieldIndex built) c).endJob id
  | some .catchup => c.stepCatchup id

end Collection

end ObjyDb
