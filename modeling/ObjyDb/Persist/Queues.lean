import ObjyDb.Persist.Memory

/-!
# Queues — what the persistence manager still has to store

Every change of the node lands in one of five queues: operations by scope, database metadata,
collection metadata, dropped databases and dropped collections.  A flush takes all five; a failed
one puts its batch back under what was queued since.
-/

namespace ObjyDb
namespace Persist

open Js

/-! ## State -/

structure Queues where
  /-- `pending`: the operations of each scope key. -/
  pending : List (JsString × List Op)
  pendingDatabases : List (JsString × Json)
  pendingDatabaseDrops : List JsString
  /-- The metadata of each collection key. -/
  pendingMeta : List (JsString × Json)
  /-- Collection keys. -/
  pendingCollectionDrops : List JsString

/-- The scope an operation is queued and journaled under. -/
def opScope (op : Op) : Scope :=
  ⟨op.db, op.coll, op.shard.getD []⟩

namespace Queues

def empty : Queues := ⟨[], [], [], [], []⟩

/-- No queue has an entry. -/
def isEmpty (q : Queues) : Bool :=
  q.pending.isEmpty && q.pendingDatabases.isEmpty && q.pendingDatabaseDrops.isEmpty &&
    q.pendingMeta.isEmpty && q.pendingCollectionDrops.isEmpty

/-! ## `_queueDatabase` … `_queueOp` -/

/-- `_queueDatabase`: the database no longer has to be dropped. -/
def queueDatabase (q : Queues) (database : JsString) (databaseMeta : Json) : Queues :=
  if database = [] then q
  else
    { q with
      pendingDatabases := Assoc.set q.pendingDatabases database databaseMeta
      pendingDatabaseDrops := q.pendingDatabaseDrops.filter (· ≠ database) }

/-- `_queueDatabaseDrop`: nothing of the database has to be stored any more. -/
def queueDatabaseDrop (q : Queues) (database : JsString) : Queues :=
  if database = [] then q
  else
    { pending := q.pending.filter fun entry => (parseScopeKey entry.1).database ≠ database
      pendingDatabases := Assoc.erase q.pendingDatabases database
      pendingDatabaseDrops := setAdd q.pendingDatabaseDrops database
      pendingMeta := q.pendingMeta.filter fun entry => (parseCollectionKey entry.1).1 ≠ database
      pendingCollectionDrops :=
        q.pendingCollectionDrops.filter fun key => (parseCollectionKey key).1 ≠ database }

/-- `_queueMeta`: a drop of the collection stays queued, and is stored before the metadata. -/
def queueMeta (q : Queues) (database collection : JsString) (collectionMeta : Json) : Queues :=
  if database = [] ∨ collection = [] then q
  else
    { q with
      pendingMeta := Assoc.set q.pendingMeta (collectionKey database collection) collectionMeta }

/-- `_queueCollectionDrop` -/
def queueCollectionDrop (q : Queues) (database collection : JsString) : Queues :=
  if database = [] ∨ collection = [] then q
  else
    let key := collectionKey database collection
    { q with
      pending := q.pending.filter fun entry =>
        ¬((parseScopeKey entry.1).database = database ∧
          (parseScopeKey entry.1).collection = collection)
      pendingMeta := Assoc.erase q.pendingMeta key
      pendingCollectionDrops := setAdd q.pendingCollectionDrops key }

/-- `!op?.db || !op.coll || !op.id || !op.shard` does not hold. -/
def queueable (op : Op) : Bool :=
  decide (op.db ≠ [] ∧ op.coll ≠ [] ∧ op.id ≠ [] ∧ op.shard.getD [] ≠ [])

/-- The operations queued under a key. -/
def opsAt (q : Queues) (key : JsString) : List Op :=
  (Assoc.get? q.pending key).getD []

/-- The push of `_queueOp`. -/
def queueOp (q : Queues) (op : Op) : Queues :=
  if queueable op then
    let key := scopeKey (opScope op)
    { q with pending := Assoc.set q.pending key (q.opsAt key ++ [op]) }
  else q

/-! ## After a failed flush -/

/-- `_requeueBatches`: the operations of the batch go in front. -/
def requeueBatches (pending batches : List (JsString × List Op)) : List (JsString × List Op) :=
  batches.foldl
    (fun pending entry =>
      Assoc.set pending entry.1 (entry.2 ++ (Assoc.get? pending entry.1).getD [])) pending

/-- `_requeueDatabases` and `_requeueMetadata`: what was queued since wins. -/
def requeueMissing (queued batch : List (JsString × Json)) : List (JsString × Json) :=
  batch.foldl
    (fun queued entry =>
      if (Assoc.get? queued entry.1).isSome then queued
      else Assoc.set queued entry.1 entry.2) queued

/-- `_requeueDatabaseDrops` and `_requeueCollectionDrops` -/
def requeueDrops (queued batch : List JsString) : List JsString :=
  batch.foldl setAdd queued

/-- The queues after the flush of `batch` failed. -/
def requeue (q batch : Queues) : Queues where
  pending := requeueBatches q.pending batch.pending
  pendingDatabases := requeueMissing q.pendingDatabases batch.pendingDatabases
  pendingDatabaseDrops := requeueDrops q.pendingDatabaseDrops batch.pendingDatabaseDrops
  pendingMeta := requeueMissing q.pendingMeta batch.pendingMeta
  pendingCollectionDrops := requeueDrops q.pendingCollectionDrops batch.pendingCollectionDrops

end Queues

end Persist
end ObjyDb
