import ObjyDb.Store.Frames
import ObjyDb.Store.NormalMeta
import ObjyDb.Store.Store

/-!
# Catalog — databases and collections come and go

What `Store` does besides applying operations and rows: databases and collections are created,
configured and deleted, and what is deleted leaves a tombstone.
-/

namespace ObjyDb

open Js

/-! ## Indexes of a collection -/

namespace Collection

/-- The metadata with these index paths, normalised. -/
def withIndexes (c : Collection) (paths : List JsString) : Collection :=
  { c with collectionMeta := { c.collectionMeta with
      indexes := unique ((paths.map trim).filter (· ≠ []))
      indexes_nodup := nodup_unique _ } }

/-- `createIndex(path)` -/
def createIndex (c : Collection) (path : JsString) : Collection :=
  (c.createIndexFromMeta path).withIndexes (unique (c.collectionMeta.indexes ++ [path]))

/-- `dropIndex(path)` -/
def dropIndex (c : Collection) (path : JsString) : Collection :=
  withIndexes { c with
    indexes := Assoc.erase c.indexes path
    fieldBuilds := Assoc.erase c.fieldBuilds path }
    (c.collectionMeta.indexes.filter (· ≠ path))

theorem reworked_createIndex (c : Collection) (path : JsString) :
    Reworked c (c.createIndex path) :=
  .same ⟨rfl, rfl, rfl, rfl, rfl, rfl, rfl, rfl⟩ rfl rfl

theorem reworked_dropIndex (c : Collection) (path : JsString) : Reworked c (c.dropIndex path) :=
  .same ⟨rfl, rfl, rfl, rfl, rfl, rfl, rfl, rfl⟩ rfl rfl

end Collection

namespace Store

/-- `set.add(key)` for the keys of tombstones. -/
def addTombstone (tombstones : List JsString) (key : JsString) : List JsString :=
  if key ∈ tombstones then tombstones else tombstones ++ [key]

/-- `db(name)`: a missing database is made. -/
def openDatabase (s : Store) (db : JsString) : Store :=
  { s with dbs := Assoc.set s.dbs db ((Assoc.get? s.dbs db).getD []) }

/-- `createDatabase(db, meta)`, apart from the metadata of the database. -/
def createDatabase (s : Store) (db : JsString) : Store :=
  openDatabase { s with databaseTombstones := s.databaseTombstones.filter (· ≠ db) } db

/-- `deleteDatabase(db)`, and whether there was one; its collections are disposed of. -/
def deleteDatabase (s : Store) (db : JsString) : Store × Bool :=
  ({ s with
      dbs := Assoc.erase s.dbs db
      databaseTombstones := addTombstone s.databaseTombstones db
      bulkLoadDirty := s.bulkLoadDirty.filter (·.1 ≠ db) },
    (Assoc.get? s.dbs db).isSome)

/-- `collection(db, coll)`, which makes a missing one. -/
def openCollection (s : Store) (db coll : JsString) : Store × Except StoreError Unit :=
  match s.collection db coll with
  | .error err => (s, .error err)
  | .ok c => (s.setCollection db coll c, .ok ())

/-- `createCollection(db, coll, meta)` and `setCollectionMeta(db, coll, meta)`, the metadata as
`setMeta` returns it. -/
def setCollectionMeta (s : Store) (db coll : JsString) (next : CollectionMeta) :
    Store × Except StoreError Unit :=
  let key := storeCollectionKey db coll
  let s := { s with collectionTombstones := s.collectionTombstones.filter (· ≠ key) }
  match s.collection db coll with
  | .error err => (s, .error err)
  | .ok c =>
      let s := s.setCollection db coll (c.setMeta next (decide (s.bulkLoadDepth > 0)))
      (if s.bulkLoadDepth > 0 ∧ (db, coll) ∉ s.bulkLoadDirty then
        { s with bulkLoadDirty := s.bulkLoadDirty ++ [(db, coll)] }
      else s, .ok ())

/-- `deleteCollection(db, coll)`, and whether there was one. -/
def deleteCollection (s : Store) (db coll : JsString) : Store × Bool :=
  let s := { s with
    collectionTombstones := addTombstone s.collectionTombstones (storeCollectionKey db coll) }
  match Assoc.get? s.dbs db with
  | none => (s, false)
  | some collections =>
      ({ s with
          dbs := Assoc.set s.dbs db (Assoc.erase collections coll)
          bulkLoadDirty := s.bulkLoadDirty.filter (· ≠ (db, coll)) },
        (Assoc.get? collections coll).isSome)

/-- Work on one collection that is there. -/
def onCollection (s : Store) (db coll : JsString) (work : Collection → Collection) : Store :=
  match s.getCollection db coll with
  | none => s
  | some c => s.setCollection db coll (work c)

/-! ## Lookups after a change -/

theorem getCollection_setCollection (s : Store) (db coll : JsString) (c : Collection)
    (db' coll' : JsString) :
    (s.setCollection db coll c).getCollection db' coll' =
      if db = db' ∧ coll = coll' then some c else s.getCollection db' coll' := by
  rw [getCollection, setCollection, Assoc.get?_set, getCollection]
  by_cases hdb : db = db'
  · subst hdb
    rw [if_pos rfl, Option.bind_some, Assoc.get?_set]
    simp only [true_and]
    split_ifs
    · rfl
    · cases Assoc.get? s.dbs db <;> rfl
  · rw [if_neg hdb, if_neg fun h => hdb h.1]

theorem getCollection_openDatabase (s : Store) (db db' coll : JsString) :
    (s.openDatabase db).getCollection db' coll = s.getCollection db' coll := by
  rw [getCollection, openDatabase, Assoc.get?_set, getCollection]
  split_ifs with hdb
  · subst hdb
    cases Assoc.get? s.dbs db <;> rfl
  · rfl

theorem getCollection_deleteDatabase (s : Store) (db db' coll : JsString) :
    (s.deleteDatabase db).1.getCollection db' coll =
      if db = db' then none else s.getCollection db' coll := by
  rw [getCollection, deleteDatabase, Assoc.get?_erase, getCollection]
  split_ifs <;> rfl

theorem getCollection_deleteCollection (s : Store) (db coll db' coll' : JsString) :
    (s.deleteCollection db coll).1.getCollection db' coll' =
      if db = db' ∧ coll = coll' then none else s.getCollection db' coll' := by
  rw [deleteCollection]
  dsimp only
  cases hdb : Assoc.get? s.dbs db with
  | none =>
      change s.getCollection db' coll' = _
      split_ifs with hsame
      · rw [getCollection, ← hsame.1, hdb]
        rfl
      · rfl
  | some collections =>
      dsimp only
      rw [getCollection, Assoc.get?_set, getCollection]
      by_cases hdb' : db = db'
      · subst hdb'
        rw [if_pos rfl, Option.bind_some, Assoc.get?_erase, hdb, Option.bind_some]
        simp
      · rw [if_neg hdb', if_neg fun h => hdb' h.1]

theorem collection_eq_ok {s : Store} {db coll : JsString} {c : Collection} :
    s.collection db coll = .ok c ↔
      s.isDatabaseDeleted db = false ∧ s.isCollectionDeleted db coll = false ∧
        s.collectionOf db coll = c := by
  rw [collection]
  cases s.isDatabaseDeleted db <;> cases s.isCollectionDeleted db coll <;> simp

end Store
end ObjyDb
