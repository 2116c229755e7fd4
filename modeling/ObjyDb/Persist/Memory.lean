import ObjyDb.Store.Convergence
import ObjyDb.Persist.Names

/-!
# Memory — a node's store as persistence sees it

Persistence needs to know which databases and collections a node has, their metadata and
tombstones, and of every object its newest write.  A collection is here the list of its rows in
the order in which the objects came, each with its newest write; `row_applyOps` and
`Store.Received.represents` say that the store holds the same.
-/

namespace ObjyDb
namespace Persist

open Js

/-! ## State -/

/-- The objects of a collection, the deleted ones among them, with their newest writes. -/
abbrev Rows := List (JsString × Write)

structure HeldCollection where
  collectionMeta : Json
  rows : Rows

structure HeldDatabase where
  databaseMeta : Json
  collections : List (JsString × HeldCollection)

structure Memory where
  dbs : List (JsString × HeldDatabase)
  databaseTombstones : List JsString
  /-- Keys joined with NUL. -/
  collectionTombstones : List JsString

/-- The metadata of a database that nobody created explicitly. -/
def defaultDatabaseMeta : Json := .obj []

/-- `normalizeCollectionMeta({})` -/
def defaultCollectionMeta : Json :=
  .obj [(js "indexes", .arr []), (js "columns", .arr [])]

namespace Rows

/-- A write arrives at an object; says whether it was accepted. -/
def arrive (rows : Rows) (id : JsString) (w : Write) : Rows × Bool :=
  match Assoc.get? rows id with
  | none => (Assoc.set rows id w, true)
  | some held => if held.ts < w.ts then (Assoc.set rows id w, true) else (rows, false)

end Rows

/-- Keys of plain names are joined without loss. -/
theorem storeCollectionKey_inj {d c d' c' : JsString} (hd : PlainName d) (hd' : PlainName d')
    (h : storeCollectionKey d c = storeCollectionKey d' c') : d = d' ∧ c = c' := by
  have hsplit := congrArg (split 0) h
  rw [storeCollectionKey, storeCollectionKey, split_append_sep hd.noNul,
    split_append_sep hd'.noNul] at hsplit
  have hdb : d = d' := (List.cons.inj hsplit).1
  subst hdb
  simpa [storeCollectionKey] using h

namespace Memory

def empty : Memory := ⟨[], [], []⟩

/-! ## Lookups -/

def isDatabaseDeleted (m : Memory) (database : JsString) : Bool :=
  decide (database ∈ m.databaseTombstones)

def isCollectionDeleted (m : Memory) (database collection : JsString) : Bool :=
  decide (storeCollectionKey database collection ∈ m.collectionTombstones)

def getDatabase (m : Memory) (database : JsString) : Option HeldDatabase :=
  Assoc.get? m.dbs database

def getDatabaseMeta (m : Memory) (database : JsString) : Option Json :=
  (m.getDatabase database).map HeldDatabase.databaseMeta

def getCollection (m : Memory) (database collection : JsString) : Option HeldCollection :=
  (m.getDatabase database).bind fun d => Assoc.get? d.collections collection

def getCollectionMeta (m : Memory) (database collection : JsString) : Option Json :=
  (m.getCollection database collection).map HeldCollection.collectionMeta

/-- The newest write of an object. -/
def row (m : Memory) (database collection id : JsString) : Option Write :=
  (m.getCollection database collection).bind fun c => Assoc.get? c.rows id

/-- The value of a live object. -/
def live (m : Memory) (database collection id : JsString) : Option Fields :=
  (m.row database collection id).bind Write.value

def dbNames (m : Memory) : List JsString := Assoc.keys m.dbs

def collectionNames (m : Memory) (database : JsString) : List JsString :=
  match m.getDatabase database with
  | none => []
  | some d => Assoc.keys d.collections

/-! ## Databases and collections -/

/-- `db(name)`: the database, new if there is none. -/
def databaseOf (m : Memory) (database : JsString) : HeldDatabase :=
  (m.getDatabase database).getD ⟨defaultDatabaseMeta, []⟩

/-- `db(name).collection(name)` -/
def collectionOf (m : Memory) (database collection : JsString) : HeldCollection :=
  (m.getCollection database collection).getD ⟨defaultCollectionMeta, []⟩

def setDatabase (m : Memory) (database : JsString) (d : HeldDatabase) : Memory :=
  { m with dbs := Assoc.set m.dbs database d }

def setCollection (m : Memory) (database collection : JsString) (c : HeldCollection) : Memory :=
  let d := m.databaseOf database
  m.setDatabase database { d with collections := Assoc.set d.collections collection c }

/-- `createDatabase(db, meta)` and `setDatabaseMeta(db, meta)`, the metadata as `setMeta`
returns it. -/
def setDatabaseMeta (m : Memory) (database : JsString) (databaseMeta : Json) : Memory :=
  let m := { m with databaseTombstones := m.databaseTombstones.filter (· ≠ database) }
  m.setDatabase database { m.databaseOf database with databaseMeta := databaseMeta }

/-- `deleteDatabase(db)`, and whether there was one. -/
def deleteDatabase (m : Memory) (database : JsString) : Memory × Bool :=
  ({ m with
      dbs := Assoc.erase m.dbs database
      databaseTombstones := setAdd m.databaseTombstones database },
    (m.getDatabase database).isSome)

/-- `createCollection(db, coll, meta)` and `setCollectionMeta(db, coll, meta)`, the metadata as
`setMeta` returns it.  The tombstone of the collection goes before the database is looked at. -/
def setCollectionMeta (m : Memory) (database collection : JsString) (collectionMeta : Json) :
    Memory × Except StoreError Unit :=
  let key := storeCollectionKey database collection
  let m := { m with collectionTombstones := m.collectionTombstones.filter (· ≠ key) }
  if m.isDatabaseDeleted database then (m, .error .databaseDeleted)
  else
    (m.setCollection database collection
      { m.collectionOf database collection with collectionMeta := collectionMeta }, .ok ())

/-- `deleteCollection(db, coll)`, and whether there was one. -/
def deleteCollection (m : Memory) (database collection : JsString) : Memory × Bool :=
  let key := storeCollectionKey database collection
  let marked := { m with collectionTombstones := setAdd m.collectionTombstones key }
  match m.getDatabase database with
  | none => (marked, false)
  | some d =>
      (marked.setDatabase database { d with collections := Assoc.erase d.collections collection },
        (Assoc.get? d.collections collection).isSome)

/-! ## Writes -/

/-- One operation of a batch: those of deleted databases and collections are skipped. -/
def applyOp (m : Memory) (op : Op) : Memory × Bool :=
  if m.isDatabaseDeleted op.db || m.isCollectionDeleted op.db op.coll then (m, false)
  else
    let c := m.collectionOf op.db op.coll
    let (rows, accepted) := Rows.arrive c.rows op.id op.write
    (m.setCollection op.db op.coll { c with rows := rows }, accepted)

/-- `applyOps(ops)`, and the operations that were applied. -/
def applyOps (m : Memory) : List Op → Memory × List Op
  | [] => (m, [])
  | op :: ops =>
      let (m, accepted) := m.applyOp op
      let (m, applied) := m.applyOps ops
      (m, if accepted then op :: applied else applied)

/-- `applySnapshotObjects(db, coll, rows)`; it throws for a deleted database. -/
def applySnapshotObjects (m : Memory) (database collection : JsString)
    (rows : List (JsString × Write)) : Memory × Except StoreError Unit :=
  if m.isCollectionDeleted database collection then (m, .ok ())
  else if m.isDatabaseDeleted database then (m, .error .databaseDeleted)
  else
    let c := m.collectionOf database collection
    let held := rows.foldl (fun held row => (Rows.arrive held row.1 row.2).1) c.rows
    (m.setCollection database collection { c with rows := held }, .ok ())

/-! ## Lookups after a change -/

section

variable (m : Memory) (d c : JsString)

theorem getDatabase_setDatabase (x : HeldDatabase) (d' : JsString) :
    (m.setDatabase d x).getDatabase d' = if d = d' then some x else m.getDatabase d' :=
  Assoc.get?_set ..

theorem getCollection_eq (d' c' : JsString) :
    m.getCollection d' c' = (m.getDatabase d').bind fun x => Assoc.get? x.collections c' := rfl

theorem get?_databaseOf (d' c' : JsString) :
    Assoc.get? (m.databaseOf d').collections c' = m.getCollection d' c' := by
  rw [databaseOf, getCollection_eq]
  cases m.getDatabase d' <;> rfl

@[simp]
theorem getCollection_setCollection (x : HeldCollection) (d' c' : JsString) :
    (m.setCollection d c x).getCollection d' c' =
      if d = d' ∧ c = c' then some x else m.getCollection d' c' := by
  rw [setCollection, getCollection_eq, getDatabase_setDatabase]
  by_cases hd : d = d'
  · subst hd
    rw [if_pos rfl, Option.bind_some, Assoc.get?_set, get?_databaseOf]
    simp
  · rw [if_neg hd, if_neg fun h => hd h.1, getCollection_eq]

@[simp]
theorem getDatabaseMeta_setCollection (x : HeldCollection) (d' : JsString) :
    (m.setCollection d c x).getDatabaseMeta d' =
      if d = d' then some (m.databaseOf d).databaseMeta else m.getDatabaseMeta d' := by
  rw [setCollection, getDatabaseMeta, getDatabase_setDatabase]
  split_ifs <;> rfl

theorem databaseMeta_databaseOf :
    (m.databaseOf d).databaseMeta = (m.getDatabaseMeta d).getD defaultDatabaseMeta := by
  rw [databaseOf, getDatabaseMeta]
  cases m.getDatabase d <;> rfl

theorem collectionMeta_collectionOf :
    (m.collectionOf d c).collectionMeta = (m.getCollectionMeta d c).getD defaultCollectionMeta := by
  rw [collectionOf, getCollectionMeta]
  cases m.getCollection d c <;> rfl

theorem get?_collectionOf (id : JsString) :
    Assoc.get? (m.collectionOf d c).rows id = m.row d c id := by
  rw [collectionOf, row]
  cases m.getCollection d c <;> rfl

@[simp]
theorem getDatabaseMeta_setDatabaseMeta (b : Json) (d' : JsString) :
    (m.setDatabaseMeta d b).getDatabaseMeta d' =
      if d = d' then some b else m.getDatabaseMeta d' := by
  rw [setDatabaseMeta, getDatabaseMeta, getDatabase_setDatabase]
  split_ifs <;> rfl

@[simp]
theorem getCollection_setDatabaseMeta (b : Json) (d' c' : JsString) :
    (m.setDatabaseMeta d b).getCollection d' c' = m.getCollection d' c' := by
  rw [setDatabaseMeta, getCollection_eq, getDatabase_setDatabase]
  by_cases hd : d = d'
  · subst hd
    rw [if_pos rfl, Option.bind_some]
    exact get?_databaseOf ..
  · rw [if_neg hd]
    rfl

theorem getDatabase_deleteDatabase (d' : JsString) :
    (m.deleteDatabase d).1.getDatabase d' = if d = d' then none else m.getDatabase d' :=
  Assoc.get?_erase ..

@[simp]
theorem getDatabaseMeta_deleteDatabase (d' : JsString) :
    (m.deleteDatabase d).1.getDatabaseMeta d' =
      if d = d' then none else m.getDatabaseMeta d' := by
  rw [getDatabaseMeta, getDatabase_deleteDatabase]
  split_ifs <;> rfl

@[simp]
theorem getCollection_deleteDatabase (d' c' : JsString) :
    (m.deleteDatabase d).1.getCollection d' c' =
      if d = d' then none else m.getCollection d' c' := by
  rw [getCollection_eq, getDatabase_deleteDatabase]
  split_ifs <;> rfl

@[simp]
theorem getCollection_deleteCollection (d' c' : JsString) :
    (m.deleteCollection d c).1.getCollection d' c' =
      if d = d' ∧ c = c' then none else m.getCollection d' c' := by
  rw [deleteCollection, getCollection_eq m]
  cases hd : m.getDatabase d with
  | none =>
      by_cases hk : d = d' ∧ c = c'
      · rcases hk with ⟨rfl, rfl⟩
        simp only [and_self, if_true]
        exact congrArg (Option.bind · _) hd
      · rw [if_neg hk]
        rfl
  | some x =>
      dsimp only
      rw [getCollection_eq, getDatabase_setDatabase]
      by_cases hd' : d = d'
      · subst hd'
        rw [if_pos rfl, hd, Option.bind_some, Option.bind_some, Assoc.get?_erase]
        simp
      · rw [if_neg hd', if_neg fun h => hd' h.1]
        rfl

@[simp]
theorem getDatabaseMeta_deleteCollection (d' : JsString) :
    (m.deleteCollection d c).1.getDatabaseMeta d' = m.getDatabaseMeta d' := by
  rw [deleteCollection]
  cases hd : m.getDatabase d with
  | none => rfl
  | some x =>
      dsimp only
      rw [getDatabaseMeta, getDatabase_setDatabase]
      by_cases hd' : d = d'
      · subst hd'
        rw [if_pos rfl, getDatabaseMeta, hd]
        rfl
      · rw [if_neg hd']
        rfl

/-! ## One operation -/

theorem applyOp_deleted {op : Op}
    (h : (m.isDatabaseDeleted op.db || m.isCollectionDeleted op.db op.coll) = true) :
    m.applyOp op = (m, false) :=
  if_pos h

theorem applyOp_live {op : Op}
    (h : ¬(m.isDatabaseDeleted op.db || m.isCollectionDeleted op.db op.coll) = true) :
    m.applyOp op =
      (m.setCollection op.db op.coll { m.collectionOf op.db op.coll with
        rows := (Rows.arrive (m.collectionOf op.db op.coll).rows op.id op.write).1 },
        (Rows.arrive (m.collectionOf op.db op.coll).rows op.id op.write).2) :=
  if_neg h

/-! ## Tombstones after a change -/

theorem isDatabaseDeleted_deleteDatabase (d' : JsString) :
    (m.deleteDatabase d).1.isDatabaseDeleted d' = true ↔
      m.isDatabaseDeleted d' = true ∨ d' = d := by
  simp [deleteDatabase, isDatabaseDeleted]

theorem isDatabaseDeleted_setDatabaseMeta (b : Json) (d' : JsString) :
    (m.setDatabaseMeta d b).isDatabaseDeleted d' = true ↔
      m.isDatabaseDeleted d' = true ∧ d' ≠ d := by
  simp [setDatabaseMeta, isDatabaseDeleted, setDatabase]

theorem isCollectionDeleted_deleteCollection (d' c' : JsString) :
    (m.deleteCollection d c).1.isCollectionDeleted d' c' = true ↔
      m.isCollectionDeleted d' c' = true ∨ storeCollectionKey d' c' = storeCollectionKey d c := by
  rw [deleteCollection]
  cases m.getDatabase d <;> simp [isCollectionDeleted, setDatabase]

theorem isDatabaseDeleted_deleteCollection (d' : JsString) :
    (m.deleteCollection d c).1.isDatabaseDeleted d' = m.isDatabaseDeleted d' := by
  rw [deleteCollection]
  cases m.getDatabase d <;> rfl

end

end Memory

end Persist
end ObjyDb
