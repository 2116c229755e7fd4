import ObjyDb.Persist.Memory
import ObjyDb.Store.Metadata

/-!
# MetaCalls — calls that configure databases and collections

`createDatabase`, `setDatabaseMeta`, `createCollection` and `setCollectionMeta` of the store, with
metadata that may be invalid.  They remove tombstones and make containers before they look at the
metadata.

- `MetaCall.atomic_iff`: a call that throws leaves everything as it was exactly when there was
  nothing to remove and nothing to make
-/

namespace ObjyDb
namespace Persist

open Js

/-! ## Calls -/

inductive MetaCall
  | createDatabase (database : JsString) (databaseMeta : Option Json)
  | setDatabaseMeta (database : JsString) (databaseMeta : Option Json)
  | createCollection (database collection : JsString) (collectionMeta : Option Json)
  | setCollectionMeta (database collection : JsString) (collectionMeta : Option Json)

namespace Memory

/-- `this.databaseTombstones.delete(database)` -/
def untombDatabase (m : Memory) (database : JsString) : Memory :=
  { m with databaseTombstones := m.databaseTombstones.filter (· ≠ database) }

/-- `this.collectionTombstones.delete(storeCollectionKey(database, collection))` -/
def untombCollection (m : Memory) (database collection : JsString) : Memory :=
  { m with
    collectionTombstones :=
      m.collectionTombstones.filter (· ≠ storeCollectionKey database collection) }

/-- `db(name)`: a missing database is made. -/
def openDatabase (m : Memory) (database : JsString) : Memory :=
  m.setDatabase database (m.databaseOf database)

/-- `collection(dbName, collName)`: throws for a deleted one, makes a missing one. -/
def openCollection (m : Memory) (database collection : JsString) : Except StoreError Memory :=
  if m.isDatabaseDeleted database then .error .databaseDeleted
  else if m.isCollectionDeleted database collection then .error .collectionDeleted
  else .ok (m.setCollection database collection (m.collectionOf database collection))

/-- `this.db(dbName).setMeta(meta)` -/
def putDatabaseMeta (m : Memory) (database : JsString) (databaseMeta : Option Json) :
    Memory × Except MetaError Json :=
  let m := m.openDatabase database
  match normalizeDatabaseMeta databaseMeta with
  | .error err => (m, .error err)
  | .ok next =>
      (m.setDatabase database { m.databaseOf database with databaseMeta := next }, .ok next)

/-- `Collection.setMeta`: the checks, with the adapter that tiering needs. -/
def checkedCollectionMeta (adapter : Bool) (collectionMeta : Option Json) :
    Except MetaError Json := do
  let next ← normalizeCollectionMeta collectionMeta
  if next.tiering.isSome ∧ adapter = false then throw .noCompressionAdapter
  return next.toJson

/-- `this.collection(dbName, collName).setMeta(meta)` -/
def putCollectionMeta (adapter : Bool) (m : Memory) (database collection : JsString)
    (collectionMeta : Option Json) : Memory × Except MetaError Json :=
  match m.openCollection database collection with
  | .error err => (m, .error (.store err))
  | .ok m =>
      match checkedCollectionMeta adapter collectionMeta with
      | .error err => (m, .error err)
      | .ok next =>
          (m.setCollection database collection
            { m.collectionOf database collection with collectionMeta := next }, .ok next)

/-- The store after a call, and what the call returns or throws. -/
def call (adapter : Bool) (m : Memory) : MetaCall → Memory × Except MetaError Json
  | .createDatabase database databaseMeta =>
      (m.untombDatabase database).putDatabaseMeta database databaseMeta
  | .setDatabaseMeta database databaseMeta =>
      (m.untombDatabase database).putDatabaseMeta database databaseMeta
  | .createCollection database collection collectionMeta =>
      (m.untombCollection database collection).putCollectionMeta adapter database collection
        collectionMeta
  | .setCollectionMeta database collection collectionMeta =>
      (m.untombCollection database collection).putCollectionMeta adapter database collection
        collectionMeta

end Memory

/-! ## Atomic calls -/

/-- The databases and collections, their metadata, the tombstones, and what may be written are the
same. -/
structure Memory.SameCatalog (m m' : Memory) : Prop where
  databases : ∀ d, m'.getDatabaseMeta d = m.getDatabaseMeta d
  collections : ∀ d c, m'.getCollectionMeta d c = m.getCollectionMeta d c
  databaseTombstones : ∀ d, m'.isDatabaseDeleted d = m.isDatabaseDeleted d
  collectionTombstones : ∀ d c, m'.isCollectionDeleted d c = m.isCollectionDeleted d c
  writes : ∀ op, (m'.applyOp op).2 = (m.applyOp op).2

/-- There is no tombstone for the call to remove, and no container for it to make. -/
def MetaCall.InPlace (m : Memory) : MetaCall → Prop
  | .createDatabase database _ =>
      m.isDatabaseDeleted database = false ∧ (m.getDatabase database).isSome
  | .setDatabaseMeta database _ =>
      m.isDatabaseDeleted database = false ∧ (m.getDatabase database).isSome
  | .createCollection database collection _ =>
      m.isCollectionDeleted database collection = false ∧
        (m.isDatabaseDeleted database = true ∨ (m.getCollection database collection).isSome)
  | .setCollectionMeta database collection _ =>
      m.isCollectionDeleted database collection = false ∧
        (m.isDatabaseDeleted database = true ∨ (m.getCollection database collection).isSome)

theorem Memory.SameCatalog.refl (m : Memory) : m.SameCatalog m :=
  ⟨fun _ => rfl, fun _ _ => rfl, fun _ => rfl, fun _ _ => rfl, fun _ => rfl⟩

namespace Memory

theorem untombDatabase_of_live {m : Memory} {database : JsString}
    (h : m.isDatabaseDeleted database = false) : m.untombDatabase database = m := by
  have hnew : database ∉ m.databaseTombstones := by simpa [isDatabaseDeleted] using h
  have hfilter : m.databaseTombstones.filter (· ≠ database) = m.databaseTombstones := by
    rw [List.filter_eq_self]
    intro d hd
    exact decide_eq_true fun heq => hnew (heq ▸ hd)
  rw [untombDatabase, hfilter]

theorem untombCollection_of_live {m : Memory} {database collection : JsString}
    (h : m.isCollectionDeleted database collection = false) :
    m.untombCollection database collection = m := by
  have hnew : storeCollectionKey database collection ∉ m.collectionTombstones := by
    simpa [isCollectionDeleted] using h
  have hfilter : m.collectionTombstones.filter (· ≠ storeCollectionKey database collection) =
      m.collectionTombstones := by
    rw [List.filter_eq_self]
    intro key hkey
    exact decide_eq_true fun heq => hnew (heq ▸ hkey)
  rw [untombCollection, hfilter]

theorem isDatabaseDeleted_untombDatabase (m : Memory) (database : JsString) :
    (m.untombDatabase database).isDatabaseDeleted database = false := by
  simp [untombDatabase, isDatabaseDeleted]

theorem isCollectionDeleted_untombCollection (m : Memory) (database collection : JsString) :
    (m.untombCollection database collection).isCollectionDeleted database collection = false := by
  simp [untombCollection, isCollectionDeleted]

theorem openDatabase_of_isSome {m : Memory} {database : JsString}
    (h : (m.getDatabase database).isSome) : m.openDatabase database = m := by
  rcases Option.isSome_iff_exists.mp h with ⟨x, hx⟩
  have hset : Assoc.set m.dbs database x = m.dbs := Assoc.set_of_get? hx
  rw [openDatabase, databaseOf, hx, Option.getD_some, setDatabase, hset]

theorem setCollection_of_isSome {m : Memory} {database collection : JsString}
    (h : (m.getCollection database collection).isSome) :
    m.setCollection database collection (m.collectionOf database collection) = m := by
  rcases Option.isSome_iff_exists.mp h with ⟨x, hx⟩
  rcases Option.bind_eq_some_iff.mp hx with ⟨d, hd, hc⟩
  have hinner : Assoc.set d.collections collection x = d.collections := Assoc.set_of_get? hc
  have hset : Assoc.set m.dbs database d = m.dbs := Assoc.set_of_get? hd
  rw [setCollection, collectionOf, hx, databaseOf, hd]
  simp only [Option.getD_some, hinner, setDatabase, hset]

/-! ### Calls on databases -/

theorem putDatabaseMeta_error {m : Memory} {database : JsString} {databaseMeta : Option Json}
    {err : MetaError} (h : (m.putDatabaseMeta database databaseMeta).2 = .error err) :
    (m.putDatabaseMeta database databaseMeta).1 = m.openDatabase database := by
  rw [putDatabaseMeta] at h ⊢
  cases hnext : normalizeDatabaseMeta databaseMeta with
  | error e => rfl
  | ok next =>
      rw [hnext] at h
      cases h

theorem databaseCall_atomic_iff {m : Memory} {database : JsString} {databaseMeta : Option Json}
    {err : MetaError}
    (h : ((m.untombDatabase database).putDatabaseMeta database databaseMeta).2 = .error err) :
    m.SameCatalog ((m.untombDatabase database).putDatabaseMeta database databaseMeta).1 ↔
      m.isDatabaseDeleted database = false ∧ (m.getDatabase database).isSome := by
  rw [putDatabaseMeta_error h]
  constructor
  · intro hsame
    constructor
    · rw [← hsame.databaseTombstones database]
      exact isDatabaseDeleted_untombDatabase m database
    · -- the database is there after the call
      have hmeta := hsame.databases database
      rw [openDatabase, getDatabaseMeta, getDatabase_setDatabase, if_pos rfl] at hmeta
      have hsome : (m.getDatabaseMeta database).isSome := by
        rw [← hmeta]
        rfl
      simpa [getDatabaseMeta] using hsome
  · rintro ⟨hlive, hsome⟩
    rw [untombDatabase_of_live hlive, openDatabase_of_isSome hsome]
    exact .refl m

/-! ### Calls on collections -/

theorem putCollectionMeta_error {adapter : Bool} {m : Memory} {database collection : JsString}
    {collectionMeta : Option Json} {err : MetaError}
    (h : (m.putCollectionMeta adapter database collection collectionMeta).2 = .error err) :
    (m.putCollectionMeta adapter database collection collectionMeta).1 =
      if m.isDatabaseDeleted database = true ∨ m.isCollectionDeleted database collection = true
      then m
      else m.setCollection database collection (m.collectionOf database collection) := by
  rw [putCollectionMeta] at h ⊢
  rw [openCollection] at h ⊢
  by_cases hdatabase : m.isDatabaseDeleted database = true
  · simp only [hdatabase, if_true, true_or]
  · by_cases hcollection : m.isCollectionDeleted database collection = true
    · simp only [hdatabase, hcollection, if_true, or_true]
      rfl
    · simp only [hdatabase, hcollection, or_self, if_false] at h ⊢
      cases hnext : checkedCollectionMeta adapter collectionMeta with
      | error e => rfl
      | ok next =>
          rw [hnext] at h
          cases h

theorem collectionCall_atomic_iff {adapter : Bool} {m : Memory} {database collection : JsString}
    {collectionMeta : Option Json} {err : MetaError}
    (h : ((m.untombCollection database collection).putCollectionMeta adapter database collection
      collectionMeta).2 = .error err) :
    m.SameCatalog ((m.untombCollection database collection).putCollectionMeta adapter database
      collection collectionMeta).1 ↔
        m.isCollectionDeleted database collection = false ∧
          (m.isDatabaseDeleted database = true ∨ (m.getCollection database collection).isSome) := by
  rw [putCollectionMeta_error h]
  have hdatabase : (m.untombCollection database collection).isDatabaseDeleted database =
      m.isDatabaseDeleted database := rfl
  have hlive := isCollectionDeleted_untombCollection m database collection
  simp only [hdatabase, hlive, Bool.false_eq_true, or_false]
  constructor
  · intro hsame
    have htomb : m.isCollectionDeleted database collection = false := by
      rw [← hsame.collectionTombstones database collection]
      split_ifs
      · exact hlive
      · exact hlive
    refine ⟨htomb, ?_⟩
    by_cases hdeleted : m.isDatabaseDeleted database = true
    · exact Or.inl hdeleted
    · -- the collection is there after the call
      have hmeta := hsame.collections database collection
      rw [if_neg hdeleted, getCollectionMeta, getCollection_setCollection,
        if_pos ⟨rfl, rfl⟩] at hmeta
      have hsome : (m.getCollectionMeta database collection).isSome := by
        rw [← hmeta]
        rfl
      exact Or.inr (by simpa [getCollectionMeta] using hsome)
  · rintro ⟨htomb, hplace⟩
    rw [untombCollection_of_live htomb]
    split_ifs with hdeleted
    · exact .refl m
    · rcases hplace with hplace | hsome
      · exact absurd hplace hdeleted
      · rw [setCollection_of_isSome hsome]
        exact .refl m

end Memory

/-- A call that throws changes nothing if and only if it finds everything in place. -/
theorem MetaCall.atomic_iff (adapter : Bool) (m : Memory) (call : MetaCall) (err : MetaError)
    (h : (m.call adapter call).2 = .error err) :
    m.SameCatalog (m.call adapter call).1 ↔ call.InPlace m := by
  cases call with
  | createDatabase database databaseMeta => exact Memory.databaseCall_atomic_iff h
  | setDatabaseMeta database databaseMeta => exact Memory.databaseCall_atomic_iff h
  | createCollection database collection collectionMeta =>
      exact Memory.collectionCall_atomic_iff h
  | setCollectionMeta database collection collectionMeta =>
      exact Memory.collectionCall_atomic_iff h

/-- Hooks that are not an object, on a collection that exists. -/
theorem atomic_badHooks :
    (Memory.empty.setCollection (js "d") (js "c") ⟨defaultCollectionMeta, []⟩).SameCatalog
      ((Memory.empty.setCollection (js "d") (js "c") ⟨defaultCollectionMeta, []⟩).call true
        (.setCollectionMeta (js "d") (js "c") (some (.obj [(js "hooks", .bool true)])))).1 := by
  apply (MetaCall.atomic_iff true _ _ (.notPlainObject (js "collection meta hooks")) ?_).mpr
  · exact ⟨by decide, Or.inr (by decide)⟩
  · decide +kernel

/-- Invalid metadata for a deleted database: the database is back, and takes writes again. -/
theorem createDatabase_revives :
    ¬∀ (m : Memory) (call : MetaCall) (err : MetaError), (m.call false call).2 = .error err →
      m.SameCatalog (m.call false call).1 := by
  intro h
  have hsame := h (Memory.empty.deleteDatabase (js "d")).1
    (.createDatabase (js "d") (some (.arr []))) (.notPlainObject (js "database meta")) (by decide)
  have htomb := hsame.databaseTombstones (js "d")
  exact absurd htomb (by decide)

end Persist
end ObjyDb
