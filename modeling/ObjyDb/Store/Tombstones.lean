import ObjyDb.Store.Catalog
import ObjyDb.Store.Convergence

/-!
# Tombstones — what is deleted has no rows

Applying operations and rows, and work on collections, make collections only where writing is
allowed.  Together with the changes of the catalog this keeps every deleted database and
collection without rows, as far as the names contain no NUL: the key of a collection joins its
names with NUL, and a tombstone may be another collection's otherwise.

- `Store.Grows`: `applyOps_grows`, `applySnapshotObjects_grows`, `onCollection_grows`
- `Store.NoGhosts`
-/

namespace ObjyDb

open Js

/-- The key of a collection determines the collection when the names contain no NUL. -/
theorem eq_of_storeCollectionKey_eq {db coll db' coll' : JsString} (hdb : (0 : CodeUnit) ∉ db)
    (hcoll : (0 : CodeUnit) ∉ coll) (hkey : storeCollectionKey db' coll' = storeCollectionKey db coll) :
    db' = db ∧ coll' = coll := by
  rw [storeCollectionKey, storeCollectionKey] at hkey
  induction db generalizing db' with
  | nil =>
      cases db' with
      | nil => exact ⟨rfl, (List.cons.inj hkey).2⟩
      | cons unit rest =>
          -- a NUL of the longer name would be in the collection's
          refine absurd ?_ hcoll
          rw [List.cons_append, List.nil_append] at hkey
          rw [← (List.cons.inj hkey).2]
          exact List.mem_append_right _ List.mem_cons_self
  | cons unit db ih =>
      cases db' with
      | nil => exact absurd ((List.cons.inj hkey).1 ▸ List.mem_cons_self) hdb
      | cons unit' db' =>
          rcases List.cons.inj hkey with ⟨hunit, hrest⟩
          rcases ih (fun h => hdb (List.mem_cons_of_mem _ h)) hrest with ⟨hdb', hcoll'⟩
          exact ⟨by rw [hunit, hdb'], hcoll'⟩

namespace Store

variable {s t u : Store} {db coll : JsString}

/-- Neither the database nor the collection is deleted. -/
def Writable (s : Store) (db coll : JsString) : Prop :=
  s.isDatabaseDeleted db = false ∧ s.isCollectionDeleted db coll = false

/-- `t` has the tombstones of `s`, and new collections only where writing is allowed. -/
structure Grows (s t : Store) : Prop where
  databases : t.databaseTombstones = s.databaseTombstones
  collections : t.collectionTombstones = s.collectionTombstones
  here : ∀ db coll, (t.getCollection db coll).isSome →
    (s.getCollection db coll).isSome ∨ s.Writable db coll

theorem Grows.refl (s : Store) : Grows s s :=
  ⟨rfl, rfl, fun _ _ h => .inl h⟩

theorem Grows.writable (h : Grows s t) : t.Writable db coll ↔ s.Writable db coll := by
  rw [Writable, Writable, isDatabaseDeleted, isCollectionDeleted, h.databases, h.collections]
  rfl

theorem Grows.trans (hst : Grows s t) (htu : Grows t u) : Grows s u := by
  refine ⟨htu.databases.trans hst.databases, htu.collections.trans hst.collections, ?_⟩
  intro db coll hu
  rcases htu.here db coll hu with ht | hwritable
  · exact hst.here db coll ht
  · exact .inr (hst.writable.mp hwritable)

theorem Grows.collection (h : Grows s t) (hof : t.collectionOf db coll = s.collectionOf db coll) :
    t.collection db coll = s.collection db coll := by
  rw [Store.collection, Store.collection, isDatabaseDeleted, isCollectionDeleted, h.databases,
    h.collections, hof]
  rfl

theorem setCollection_grows (h : (s.getCollection db coll).isSome ∨ s.Writable db coll)
    (c : Collection) : Grows s (s.setCollection db coll c) := by
  refine ⟨rfl, rfl, ?_⟩
  intro db' coll' hset
  rw [getCollection_setCollection] at hset
  split_ifs at hset with hsame
  · rw [← hsame.1, ← hsame.2]
    exact h
  · exact .inl hset

theorem writable_of_collection {c : Collection} (h : s.collection db coll = .ok c) :
    s.Writable db coll :=
  ⟨(collection_eq_ok.mp h).1, (collection_eq_ok.mp h).2.1⟩

/-! ## Operations and rows -/

theorem flushRun_grows (s : Store) (run : OpRun) : Grows s (s.flushRun run).1 := by
  rw [flushRun]
  dsimp only
  generalize (split 0 run.key).getD 0 [] = db
  generalize (split 0 run.key).getD 1 [] = coll
  cases hcollection : s.collection db coll with
  | error err => exact .refl s
  | ok c =>
      have hset := setCollection_grows (.inr (writable_of_collection hcollection))
      dsimp only
      split_ifs
      · exact hset _
      · cases hresult : c.putObjects (run.ops.map Op.row) with
        | mk d result => cases result <;> exact hset d

theorem flushRuns_grows (runs : List OpRun) (s : Store) : Grows s (s.flushRuns runs).1 := by
  induction runs generalizing s with
  | nil => exact .refl s
  | cons run runs ih =>
      have hflush := flushRun_grows s run
      rw [flushRuns]
      cases hresult : s.flushRun run with
      | mk s' result =>
          rw [hresult] at hflush
          cases result with
          | error err => exact hflush
          | ok applied =>
              have hrest := hflush.trans (ih s')
              dsimp only
              cases hmore : s'.flushRuns runs with
              | mk s'' more =>
                  rw [hmore] at hrest
                  cases more <;> exact hrest

theorem applyOps_grows (s : Store) (ops : List Op) : Grows s (s.applyOps ops).1 :=
  flushRuns_grows _ s

theorem applySnapshotObjects_grows (s : Store) (db coll : JsString)
    (rows : List Collection.SnapshotRow) : Grows s (s.applySnapshotObjects db coll rows).1 := by
  rw [applySnapshotObjects]
  split_ifs
  · exact .refl s
  · cases hcollection : s.collection db coll with
    | error err => exact .refl s
    | ok c =>
        have hset := setCollection_grows (.inr (writable_of_collection hcollection))
        dsimp only
        cases hresult : c.applySnapshotObjects rows (decide (s.bulkLoadDepth > 0)) with
        | mk d result =>
            cases result with
            | error err => exact hset d
            | ok applied =>
                dsimp only
                split_ifs
                · exact ⟨rfl, rfl, (hset d).here⟩
                · exact hset d

/-! ## Work on collections -/

theorem openCollection_grows (s : Store) (db coll : JsString) :
    Grows s (s.openCollection db coll).1 := by
  rw [openCollection]
  cases hcollection : s.collection db coll with
  | error err => exact .refl s
  | ok c => exact setCollection_grows (.inr (writable_of_collection hcollection)) c

theorem onCollection_grows (s : Store) (db coll : JsString) (work : Collection → Collection) :
    Grows s (s.onCollection db coll work) := by
  rw [onCollection]
  cases hget : s.getCollection db coll with
  | none => exact .refl s
  | some c => exact setCollection_grows (.inl (by rw [hget]; rfl)) _

theorem endBulkLoad_grows (s : Store) : Grows s s.endBulkLoad := by
  have hfinish : ∀ s key, Grows s (finishBulkLoad s key) := by
    intro s key
    rw [finishBulkLoad]
    cases hget : s.getCollection key.1 key.2 with
    | none => exact .refl s
    | some c => exact setCollection_grows (.inl (by rw [hget]; rfl)) _
  have hloop : ∀ (keys : List (JsString × JsString)) (s : Store),
      Grows s (keys.foldl finishBulkLoad s) := by
    intro keys
    induction keys with
    | nil => exact fun s => .refl s
    | cons key keys ih => exact fun s => (hfinish s key).trans (ih _)
  rw [endBulkLoad]
  split_ifs
  · exact .refl s
  · exact ⟨rfl, rfl, fun _ _ h => .inl h⟩
  · have hcleared : Grows s { s with bulkLoadDepth := 0, bulkLoadDirty := [] } :=
      ⟨rfl, rfl, fun _ _ h => .inl h⟩
    exact hcleared.trans (hloop _ _)

/-! ## Deleted databases and collections -/

/-- A deleted database or collection has no rows, when the names contain no NUL. -/
def NoGhosts (s : Store) : Prop :=
  ∀ db coll, (0 : CodeUnit) ∉ db → (0 : CodeUnit) ∉ coll → (s.getCollection db coll).isSome →
    s.Writable db coll

theorem NoGhosts.grows (h : NoGhosts s) (hst : Grows s t) : NoGhosts t := by
  intro db coll hdb hcoll ht
  rcases hst.here db coll ht with hs | hwritable
  · exact hst.writable.mpr (h db coll hdb hcoll hs)
  · exact hst.writable.mpr hwritable

theorem createDatabase_noGhosts (h : NoGhosts s) (db : JsString) : NoGhosts (s.createDatabase db) := by
  intro db' coll hdb hcoll hhere
  rw [createDatabase, getCollection_openDatabase] at hhere
  rcases h db' coll hdb hcoll hhere with ⟨hdatabase, hcollection⟩
  refine ⟨?_, hcollection⟩
  rw [isDatabaseDeleted, decide_eq_false_iff_not] at hdatabase ⊢
  exact fun hmem => hdatabase (List.mem_of_mem_filter hmem)

theorem mem_addTombstone {tombstones : List JsString} {key key' : JsString}
    (h : key' ∈ addTombstone tombstones key) : key' ∈ tombstones ∨ key' = key := by
  rw [addTombstone] at h
  split_ifs at h
  · exact .inl h
  · simpa using h

theorem deleteDatabase_noGhosts (h : NoGhosts s) (db : JsString) :
    NoGhosts (s.deleteDatabase db).1 := by
  intro db' coll hdb hcoll hhere
  rw [getCollection_deleteDatabase] at hhere
  split_ifs at hhere with hsame
  · cases hhere
  · rcases h db' coll hdb hcoll hhere with ⟨hdatabase, hcollection⟩
    refine ⟨?_, hcollection⟩
    rw [isDatabaseDeleted, decide_eq_false_iff_not] at hdatabase ⊢
    intro hmem
    rcases mem_addTombstone hmem with hold | hnew
    · exact hdatabase hold
    · exact hsame hnew.symm

theorem deleteCollection_tombstones (s : Store) (db coll : JsString) :
    (s.deleteCollection db coll).1.databaseTombstones = s.databaseTombstones ∧
      (s.deleteCollection db coll).1.collectionTombstones =
        addTombstone s.collectionTombstones (storeCollectionKey db coll) := by
  rw [deleteCollection]
  dsimp only
  split <;> exact ⟨rfl, rfl⟩

theorem deleteCollection_noGhosts (h : NoGhosts s) (db coll : JsString) :
    NoGhosts (s.deleteCollection db coll).1 := by
  intro db' coll' hdb hcoll hhere
  rw [getCollection_deleteCollection] at hhere
  split_ifs at hhere with hsame
  · cases hhere
  · rcases h db' coll' hdb hcoll hhere with ⟨hdatabase, hcollection⟩
    rcases deleteCollection_tombstones s db coll with ⟨hdatabases, hcollections⟩
    refine ⟨by rw [isDatabaseDeleted, hdatabases]; exact hdatabase, ?_⟩
    rw [isCollectionDeleted, decide_eq_false_iff_not] at hcollection ⊢
    rw [hcollections]
    intro hmem
    rcases mem_addTombstone hmem with hold | hnew
    · exact hcollection hold
    · rcases eq_of_storeCollectionKey_eq hdb hcoll hnew.symm with ⟨hdb', hcoll'⟩
      exact hsame ⟨hdb', hcoll'⟩

theorem setCollectionMeta_noGhosts (h : NoGhosts s) (db coll : JsString) (next : CollectionMeta) :
    NoGhosts (s.setCollectionMeta db coll next).1 := by
  have hrevived : NoGhosts { s with
      collectionTombstones := s.collectionTombstones.filter (· ≠ storeCollectionKey db coll) } := by
    intro db' coll' hdb hcoll hhere
    rcases h db' coll' hdb hcoll hhere with ⟨hdatabase, hcollection⟩
    refine ⟨hdatabase, ?_⟩
    rw [isCollectionDeleted, decide_eq_false_iff_not] at hcollection ⊢
    exact fun hmem => hcollection (List.mem_of_mem_filter hmem)
  rw [setCollectionMeta]
  dsimp only
  split
  · exact hrevived
  · rename_i c hcollection
    have hset := hrevived.grows (setCollection_grows (.inr (writable_of_collection hcollection))
      (c.setMeta next (decide (s.bulkLoadDepth > 0))))
    split_ifs
    · exact hset
    · exact hset

end Store
end ObjyDb
