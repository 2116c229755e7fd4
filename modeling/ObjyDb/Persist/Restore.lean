import ObjyDb.Persist.Storage

/-!
# Restore — a store out of object storage

`restore` brings a node up from what storage holds: tombstones first, then the metadata of the
databases and collections that are not deleted, then the snapshot of every scope, then the journal
segments that no snapshot covers.  `restoreScope` does the same for a node that is running, with
the tombstones and the metadata of all scopes and the rows and operations of those asked for.
-/

namespace ObjyDb
namespace Persist

open Js

/-! ## What storage lists -/

/-- `databaseTombstones(keys)` -/
def databaseTombstones (s : Storage) : List JsString :=
  s.filterMap fun entry =>
    match entry.1 with
    | .databaseTombstone database => some database
    | _ => none

/-- `collectionTombstones(keys)`, a set of collection keys. -/
def collectionTombstones (s : Storage) : List JsString :=
  (s.filterMap fun entry =>
    match entry.1 with
    | .collectionTombstone database collection => some (collectionKey database collection)
    | _ => none).foldl setAdd []

/-- The scope a key lies under. -/
def StorageKey.scope? : StorageKey → Option Scope
  | .journal scope _ _ _ _ => some scope
  | .latest scope => some scope
  | _ => none

/-- `uniqueScopes(keys)`: by scope key, whose order is the order of restoring. -/
def uniqueScopes (s : Storage) : List Scope :=
  ((s.filterMap fun entry => entry.1.scope?).foldl
    (fun scopes scope => Assoc.set scopes (scopeKey scope) scope) []).map Prod.snd

/-- A scope to restore; `*` stands for every name. -/
def matchesRestoreTarget (scope target : Scope) : Bool :=
  decide (target.database = globalDatabase ∨ target.database = scope.database) &&
    decide (target.collection = globalCollection ∨ target.collection = scope.collection) &&
    decide (target.shard = scope.shard)

/-! ## Tombstones and metadata -/

/-- `_restoreDatabaseTombstones` -/
def restoreDatabaseTombstones (tombstones : List JsString) (m : Memory) : Memory :=
  tombstones.foldl (fun m database => (m.deleteDatabase database).1) m

/-- `_restoreCollectionTombstones` -/
def restoreCollectionTombstones (tombstones : List JsString) (m : Memory) : Memory :=
  tombstones.foldl
    (fun m key =>
      let target := parseCollectionKey key
      (m.deleteCollection target.1 target.2).1) m

/-- `_restoreDatabaseMetadata`, one file. -/
def restoreDatabaseMeta (m : Memory) (entry : StorageKey × StorageFile) : Memory :=
  match entry with
  | (.databaseMeta database, .json body) =>
      if m.isDatabaseDeleted database then m else m.setDatabaseMeta database body
  | _ => m

/-- `_restoreMetadata`, one file. -/
def restoreMeta (m : Memory) (entry : StorageKey × StorageFile) : Memory :=
  match entry with
  | (.collectionMeta database collection, .json body) =>
      if m.isDatabaseDeleted database || m.isCollectionDeleted database collection then m
      else (m.setCollectionMeta database collection body).1
  | _ => m

def restoreDatabaseMetadata (s : Storage) (m : Memory) : Memory :=
  s.foldl restoreDatabaseMeta m

def restoreMetadata (s : Storage) (m : Memory) : Memory :=
  s.foldl restoreMeta m

/-! ## Snapshots and journals -/

/-- The `latest.json` of a scope. -/
def latestManifest (s : Storage) (scope : Scope) : Option Manifest :=
  match Assoc.get? s (.latest scope) with
  | some (.manifest manifest) => some manifest
  | _ => none

/-- `_ensureRestoreManifestContext` -/
def ensureRestoreManifestContext (scope : Scope) (manifest : Manifest) (m : Memory) : Memory :=
  let m :=
    if (m.getDatabaseMeta scope.database).isNone then
      m.setDatabaseMeta scope.database manifest.databaseMeta
    else m
  if (m.getCollectionMeta scope.database scope.collection).isNone then
    (m.setCollectionMeta scope.database scope.collection manifest.collectionMeta).1
  else m

/-- `_restoreSnapshot`; an exception ends the restore. -/
def restoreSnapshot (s : Storage) (scope : Scope) (m : Memory) : Memory × Except StoreError Unit :=
  match latestManifest s scope with
  | none => (m, .ok ())
  | some manifest =>
      (ensureRestoreManifestContext scope manifest m).applySnapshotObjects
        scope.database scope.collection manifest.rows

/-- `normalizeSnapshotCursors(manifest)` -/
def normalizeSnapshotCursors (manifest : Manifest) : List (JsString × Nat) :=
  if manifest.node = [] then manifest.cursors
  else Assoc.set manifest.cursors manifest.node
    (max ((Assoc.get? manifest.cursors manifest.node).getD 0) manifest.seq)

/-- How far the snapshot of the scope covers the segments a node wrote. -/
def coveredSeq (s : Storage) (scope : Scope) (node : JsString) : Nat :=
  match latestManifest s scope with
  | none => 0
  | some manifest => (Assoc.get? (normalizeSnapshotCursors manifest) node).getD 0

/-- The operations of one segment that the snapshot of the scope does not cover. -/
def uncoveredOps (s : Storage) (scope : Scope) (entry : StorageKey × StorageFile) : List Op :=
  match entry with
  | (.journal segmentScope node _ last _, .ops ops) =>
      let covered := coveredSeq s scope node
      if segmentScope ≠ scope then []
      -- the key alone says that the whole segment is covered
      else if last ≠ 0 ∧ last ≤ covered then []
      else ops.filter fun op => decide (covered < op.seq)
  | _ => []

/-- The operations that `_restoreScopeSet` applies for a scope. -/
def restoredOps (s : Storage) (scope : Scope) : List Op :=
  s.flatMap (uncoveredOps s scope)

/-- The first loop of `_restoreScopeSet`. -/
def restoreSnapshots (s : Storage) : List Scope → Memory → Memory × Except StoreError Unit
  | [], m => (m, .ok ())
  | scope :: scopes, m =>
      match restoreSnapshot s scope m with
      | (m, .error err) => (m, .error err)
      | (m, .ok ()) => restoreSnapshots s scopes m

/-- `_restoreScopeSet` -/
def restoreScopeSet (s : Storage) (scopes : List Scope) (m : Memory) :
    Memory × Except StoreError Unit :=
  match restoreSnapshots s scopes m with
  | (m, .error err) => (m, .error err)
  | (m, .ok ()) => ((m.applyOps (scopes.flatMap (restoredOps s))).1, .ok ())

/-! ## `restore` and `restoreScope` -/

/-- The scopes that are neither in a deleted database nor of a deleted collection. -/
def liveScopes (s : Storage) (scopes : List Scope) : List Scope :=
  scopes.filter fun scope =>
    decide (scope.database ∉ databaseTombstones s) &&
      decide (collectionKey scope.database scope.collection ∉ collectionTombstones s)

/-- Tombstones and metadata, then the rows and operations of `scopes`. -/
def restoreFrom (s : Storage) (scopes : List Scope) (m : Memory) :
    Memory × Except StoreError Unit :=
  let m := restoreDatabaseTombstones (databaseTombstones s) m
  let m := restoreCollectionTombstones (collectionTombstones s) m
  let m := restoreDatabaseMetadata s m
  let m := restoreMetadata s m
  restoreScopeSet s (liveScopes s scopes) m

/-- `restore()` of a new node that serves every shard. -/
def restore (s : Storage) : Memory × Except StoreError Unit :=
  restoreFrom s (uniqueScopes s) Memory.empty

/-- `restoreScope(scope)` -/
def restoreScope (s : Storage) (target : Scope) (m : Memory) : Memory × Except StoreError Unit :=
  restoreFrom s ((uniqueScopes s).filter fun scope => matchesRestoreTarget scope target) m

end Persist
end ObjyDb
