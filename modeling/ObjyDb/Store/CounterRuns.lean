import ObjyDb.Store.Tallies
import ObjyDb.Store.Tombstones

/-!
# CounterRuns — the counters over runs of a store

A run of a store interleaves operations, snapshot rows, bulk loads, rebuilds, background work and
changes of the catalog.  When no row leaves an entry for an object that was never written, every
collection that does not wait for the recount of an open bulk load has the counters that counting
its entries gives.

- `Store.Event`, `Store.SafeRun`
- `Store.Counting`: the invariant
- `Store.run_recounted`
-/

namespace ObjyDb

open Js

/-! ## What the counters stand for -/

namespace Collection

variable {c d : Collection}

/-- `find({})` without options. -/
def findAll (c : Collection) : List Fields :=
  c.liveRids.filterMap c.readRid

/-- `count({})` without options. -/
def countAll (c : Collection) : Int :=
  c.liveCount

/-- The counters equal their recomputation from the entries. -/
structure Recounted (c : Collection) : Prop where
  liveCount : c.liveCount = c.liveEntries
  found : c.countAll = c.findAll.length
  unsharded : c.unshardedLiveCount = c.objects.countP isUnsharded
  shards : ∀ shard rid, rid ∈ c.ridsOf shard ↔ ∃ id m, Assoc.get? c.objects id = some m ∧
    m.wasLive = true ∧ m.rid = rid ∧ normalizeShard m.shard = some shard
  nonempty : ∀ shard, Assoc.get? c.shardIds shard ≠ some []
  /-- Every live row is in the set of its shard only, or in none when it has no shard. -/
  once : ∀ id m, Assoc.get? c.objects id = some m → m.wasLive = true →
    ∀ shard, m.rid ∈ c.ridsOf shard ↔ normalizeShard m.shard = some shard
  cold : c.ColdOk

theorem findAll_length (h : c.Orderly) : c.findAll.length = c.liveEntries := by
  have hread : ∀ rid ∈ c.liveRids, (c.readRid rid).isSome := by
    intro rid hrid
    rcases List.mem_map.mp hrid with ⟨entry, hentry, rfl⟩
    rcases List.mem_filter.mp hentry with ⟨hmem, hdeleted⟩
    have hget := h.rids.get?_of_mem hmem
    exact (readRid_isSome_iff c entry.2.rid).mpr
      ⟨entry.1, entry.2, h.rids.owned hget, hget, by simpa using hdeleted⟩
  have hall : ∀ rids : List Nat, (∀ rid ∈ rids, (c.readRid rid).isSome) →
      (rids.filterMap c.readRid).length = rids.length := by
    intro rids
    induction rids with
    | nil => exact fun _ => rfl
    | cons rid rids ih =>
        intro hrids
        rcases Option.isSome_iff_exists.mp (hrids rid List.mem_cons_self) with ⟨object, hobject⟩
        rw [List.filterMap_cons_some hobject, List.length_cons, List.length_cons,
          ih fun r hr => hrids r (List.mem_cons_of_mem _ hr)]
  rw [findAll, hall _ hread, liveRids, List.length_map, liveEntries, List.countP_eq_length_filter]
  refine congrArg List.length (List.filter_congr fun entry hentry => ?_)
  exact (isLiveEntry_of_noPhantoms h.phantoms hentry).symm

theorem Tallied.recounted (htallied : c.Tallied) (h : c.Orderly) : c.Recounted := by
  have hshards : ∀ shard rid, rid ∈ c.ridsOf shard ↔ ∃ id m, Assoc.get? c.objects id = some m ∧
      m.wasLive = true ∧ m.rid = rid ∧ normalizeShard m.shard = some shard := by
    intro shard rid
    rw [htallied.shards.rids]
    constructor
    · rintro ⟨⟨id, m⟩, hmem, hlive, hrid, hshard⟩
      exact ⟨id, m, h.rids.get?_of_mem hmem, hlive, hrid, hshard⟩
    · rintro ⟨id, m, hm, hlive, hrid, hshard⟩
      exact ⟨(id, m), Assoc.mem_of_get?_eq_some hm, hlive, hrid, hshard⟩
  refine ⟨htallied.live, ?_, htallied.shards.unsharded, hshards, htallied.shards.nonempty, ?_,
    h.cold⟩
  · rw [countAll, findAll_length h]
    exact htallied.live
  · intro id m hm hlive shard
    rw [hshards]
    constructor
    · rintro ⟨id', m', hm', -, hrid, hshard⟩
      -- a row id belongs to one entry
      have hid : id' = id := by
        by_contra hne
        exact h.rids.rid_ne hm' hm hne hrid
      subst hid
      rw [hm] at hm'
      cases hm'
      exact hshard
    · exact fun hshard => ⟨id, m, hm, hlive, rfl, hshard⟩

end Collection

namespace Store

variable {s t : Store}

/-! ## Runs -/

/-- What can happen to a store. -/
inductive Event
  | applyOps (ops : List Op)
  | applySnapshotObjects (db coll : JsString) (rows : List Collection.SnapshotRow)
  | beginBulkLoad
  | endBulkLoad
  | rebuildDerivedState (db coll : JsString)
  | rebuildCoreState (db coll : JsString)
  | createDatabase (db : JsString)
  | deleteDatabase (db : JsString)
  | openCollection (db coll : JsString)
  | setCollectionMeta (db coll : JsString) (next : CollectionMeta)
  | deleteCollection (db coll : JsString)
  | createIndex (db coll path : JsString)
  | dropIndex (db coll path : JsString)
  | scheduleIndexBuilds (db coll : JsString)
  | stepJob (db coll : JsString) (job : Nat)

def Event.step (s : Store) : Event → Store
  | .applyOps ops => (s.applyOps ops).1
  | .applySnapshotObjects db coll rows => (s.applySnapshotObjects db coll rows).1
  | .beginBulkLoad => s.beginBulkLoad
  | .endBulkLoad => s.endBulkLoad
  | .rebuildDerivedState db coll => s.onCollection db coll Collection.rebuildDerivedState
  | .rebuildCoreState db coll => s.onCollection db coll Collection.rebuildCoreState
  | .createDatabase db => s.createDatabase db
  | .deleteDatabase db => (s.deleteDatabase db).1
  | .openCollection db coll => (s.openCollection db coll).1
  | .setCollectionMeta db coll next => (s.setCollectionMeta db coll next).1
  | .deleteCollection db coll => (s.deleteCollection db coll).1
  | .createIndex db coll path => s.onCollection db coll fun c => c.createIndex path
  | .dropIndex db coll path => s.onCollection db coll fun c => c.dropIndex path
  | .scheduleIndexBuilds db coll => s.onCollection db coll Collection.scheduleIndexBuildsFromMeta
  | .stepJob db coll job => s.onCollection db coll fun c => c.stepJob job

def runEvents (s : Store) (events : List Event) : Store :=
  events.foldl Event.step s

/-- The collection that the run of an operation is applied to. -/
def landing (s : Store) (key : JsString) : Collection :=
  s.collectionOf ((split 0 key).getD 0 []) ((split 0 key).getD 1 [])

/-- A put has a valid vector field, or its object is known. -/
def SafeOp (s : Store) (op : Op) : Prop :=
  (split 0 (runKey op)).getD 2 [] = js "delObj" ∨ (s.landing (runKey op)).SafeRow op.row

/-- No row of the event leaves an entry for an object that was never written. -/
def SafeEvent (s : Store) : Event → Prop
  | .applyOps ops => ∀ op ∈ ops, s.SafeOp op
  | .applySnapshotObjects db coll rows =>
      ∀ row ∈ rows, (s.collectionOf db coll).SafeSnapshotRow row
  | _ => True

def SafeRun : Store → List Event → Prop
  | _, [] => True
  | s, e :: events => SafeEvent s e ∧ SafeRun (e.step s) events

/-! ## The invariant -/

/-- A collection of the store is in order, and its counters agree unless it waits for a recount. -/
structure CountedIn (s : Store) (db coll : JsString) (c : Collection) : Prop where
  orderly : c.Orderly
  vectorField : c.vectorField = s.vectorField
  tallied : (db, coll) ∉ s.bulkLoadDirty → c.Tallied

/-- The collections are in order; only a bulk load makes any wait for a recount. -/
structure Counting (s : Store) : Prop where
  collections : ∀ db coll c, s.getCollection db coll = some c → s.CountedIn db coll c
  dirty : s.bulkLoadDepth = 0 → s.bulkLoadDirty = []

theorem counting_new (vectorField : Option JsString) (compression : Option Compression) :
    Counting (Store.new vectorField compression) :=
  ⟨fun _ _ _ hc => (by cases hc), fun _ => rfl⟩

theorem Counting.collectionOf (h : Counting s) (db coll : JsString) :
    s.CountedIn db coll (s.collectionOf db coll) := by
  rw [Store.collectionOf]
  cases hget : s.getCollection db coll with
  | none =>
      refine ⟨Collection.orderly_new _ _, rfl, fun _ => ?_⟩
      exact ⟨rfl, rfl, fun _ _ => by simp [Collection.ridsOf, Collection.new],
        fun _ hshard => by cases hshard⟩
  | some c => exact h.collections db coll c hget

theorem Counting.setCollection (h : Counting s) {db coll : JsString} {c : Collection}
    (hc : s.CountedIn db coll c) : Counting (s.setCollection db coll c) := by
  refine ⟨?_, h.dirty⟩
  intro db' coll' c' hc'
  rw [getCollection_setCollection] at hc'
  split_ifs at hc' with hsame
  · cases hc'
    rw [← hsame.1, ← hsame.2]
    exact ⟨hc.orderly, hc.vectorField, hc.tallied⟩
  · have hold := h.collections db' coll' c' hc'
    exact ⟨hold.orderly, hold.vectorField, hold.tallied⟩

theorem CountedIn.advances {db coll : JsString} {c d : Collection} (h : s.CountedIn db coll c)
    (hcd : c.Advances d) (htallied : (db, coll) ∉ s.bulkLoadDirty → c.Tallied → d.Tallied) :
    s.CountedIn db coll d :=
  ⟨hcd.orderly, hcd.vectorField.trans h.vectorField,
    fun hclean => htallied hclean (h.tallied hclean)⟩

/-- Only the catalog and the tombstones differ. -/
theorem Counting.congr (h : Counting s)
    (hget : ∀ db coll c, t.getCollection db coll = some c → s.getCollection db coll = some c)
    (hfield : t.vectorField = s.vectorField) (hdepth : t.bulkLoadDepth = s.bulkLoadDepth)
    (hdirty : t.bulkLoadDirty = s.bulkLoadDirty) : Counting t := by
  constructor
  · intro db coll c hc
    have hold := h.collections db coll c (hget db coll c hc)
    exact ⟨hold.orderly, hold.vectorField.trans hfield.symm, hdirty ▸ hold.tallied⟩
  · rw [hdepth, hdirty]
    exact h.dirty

/-- A collection joins those that wait for a recount, during a bulk load. -/
theorem Counting.addDirty (h : Counting s) (hdepth : s.bulkLoadDepth > 0)
    (keys : List (JsString × JsString)) :
    Counting { s with bulkLoadDirty := s.bulkLoadDirty ++ keys } := by
  constructor
  · intro db coll c hc
    have hold := h.collections db coll c hc
    exact ⟨hold.orderly, hold.vectorField, fun hclean => hold.tallied fun hmem =>
      hclean (List.mem_append_left _ hmem)⟩
  · intro hzero
    have hpos : s.bulkLoadDepth = 0 := hzero
    omega

theorem collection_ok {db coll : JsString} {c : Collection} (h : s.collection db coll = .ok c) :
    s.collectionOf db coll = c :=
  (collection_eq_ok.mp h).2.2

/-! ## Operations -/

/-- Every collection of `t` is a state that the one of `s` may lead to. -/
def AllAdvance (s t : Store) : Prop :=
  ∀ db coll, (s.collectionOf db coll).Advances (t.collectionOf db coll)

theorem SafeOp.advances {op : Op} (h : s.SafeOp op) (hst : AllAdvance s t) : t.SafeOp op := by
  rcases h with hdelete | hput
  · exact .inl hdelete
  · exact .inr (hput.advances (hst _ _))

theorem allAdvance_setCollection (h : Counting s) {db coll : JsString} {c : Collection}
    (hc : (s.collectionOf db coll).Advances c) : AllAdvance s (s.setCollection db coll c) := by
  intro db' coll'
  rw [collectionOf_setCollection]
  split_ifs with hsame
  · rw [← hsame.1, ← hsame.2]
    exact hc
  · exact .refl (h.collectionOf db' coll').orderly

theorem flushRun_counting (h : Counting s) {run : OpRun}
    (hkey : ∀ op ∈ run.ops, runKey op = run.key)
    (hsafe : ∀ op ∈ run.ops, s.SafeOp op) :
    Counting (s.flushRun run).1 ∧ AllAdvance s (s.flushRun run).1 := by
  have hrefl : AllAdvance s s := fun db coll => .refl (h.collectionOf db coll).orderly
  rw [flushRun]
  dsimp only
  cases hcollection : s.collection ((split 0 run.key).getD 0 []) ((split 0 run.key).getD 1 []) with
  | error err => exact ⟨h, hrefl⟩
  | ok c =>
      have hof := collection_ok hcollection
      have hcounted := hof ▸ h.collectionOf ((split 0 run.key).getD 0 [])
        ((split 0 run.key).getD 1 [])
      dsimp only
      split_ifs with hdelete
      · rcases Collection.deleteObjects_advances hcounted.orderly (run.ops.map Op.row) with
          ⟨hadvances, htallied⟩
        exact ⟨h.setCollection (hcounted.advances hadvances fun _ => htallied),
          allAdvance_setCollection h (by rw [hof]; exact hadvances)⟩
      · have hrows : ∀ row ∈ run.ops.map Op.row, c.SafeRow row := by
          intro row hrow
          rcases List.mem_map.mp hrow with ⟨op, hop, rfl⟩
          rcases hsafe op hop with hkind | hput
          · rw [hkey op hop] at hkind
            exact absurd hkind hdelete
          · rw [landing, hkey op hop, hof] at hput
            exact hput
        rcases Collection.putObjects_advances hcounted.orderly hrows with ⟨hadvances, htallied⟩
        have hset := h.setCollection (hcounted.advances hadvances fun _ => htallied)
        have hall : AllAdvance s (s.setCollection _ _ (c.putObjects (run.ops.map Op.row)).1) :=
          allAdvance_setCollection h (by rw [hof]; exact hadvances)
        cases hresult : c.putObjects (run.ops.map Op.row) with
        | mk d result =>
            rw [hresult] at hset hall
            cases result <;> exact ⟨hset, hall⟩

theorem flushRuns_counting {runs : List OpRun} (h : Counting s)
    (hruns : ∀ run ∈ runs, ∀ op ∈ run.ops, runKey op = run.key ∧ s.SafeOp op) :
    Counting (s.flushRuns runs).1 := by
  induction runs generalizing s with
  | nil => exact h
  | cons run runs ih =>
      have hops := hruns run List.mem_cons_self
      rcases flushRun_counting h (fun op hop => (hops op hop).1) fun op hop =>
        (hops op hop).2 with ⟨hflush, hall⟩
      rw [flushRuns]
      cases hresult : s.flushRun run with
      | mk s' result =>
          rw [hresult] at hflush hall
          cases result with
          | error err => exact hflush
          | ok applied =>
              have hrest := ih hflush fun r hr op hop =>
                ⟨(hruns r (List.mem_cons_of_mem _ hr) op hop).1,
                  (hruns r (List.mem_cons_of_mem _ hr) op hop).2.advances hall⟩
              dsimp only
              cases hmore : s'.flushRuns runs with
              | mk s'' more =>
                  rw [hmore] at hrest
                  cases more <;> exact hrest

theorem applyOps_counting (h : Counting s) {ops : List Op} (hsafe : ∀ op ∈ ops, s.SafeOp op) :
    Counting (s.applyOps ops).1 := by
  refine flushRuns_counting h fun run hrun => ?_
  rcases mem_opRuns hrun with ⟨-, hops⟩
  exact fun op hop => ⟨(hops op hop).2, hsafe op (hops op hop).1⟩

/-! ## Snapshot rows -/

theorem applySnapshotObjects_counting (h : Counting s) {db coll : JsString}
    {rows : List Collection.SnapshotRow}
    (hsafe : ∀ row ∈ rows, (s.collectionOf db coll).SafeSnapshotRow row) :
    Counting (s.applySnapshotObjects db coll rows).1 := by
  rw [applySnapshotObjects]
  split_ifs
  · exact h
  · cases hcollection : s.collection db coll with
    | error err => exact h
    | ok c =>
        have hof := collection_ok hcollection
        have hcounted := hof ▸ h.collectionOf db coll
        rcases Collection.applySnapshotObjects_advances (decide (s.bulkLoadDepth > 0))
          hcounted.orderly (hof ▸ hsafe) with ⟨d, applied, hrows, hadvances, htallied⟩
        simp only [hrows]
        split_ifs with hdirty
        · -- the collection waits for the recount from now on
          constructor
          · intro db' coll' c' hc'
            have hc' : (s.setCollection db coll d).getCollection db' coll' = some c' := hc'
            rw [getCollection_setCollection] at hc'
            split_ifs at hc' with hsame
            · cases hc'
              rw [← hsame.1, ← hsame.2]
              exact ⟨hadvances.orderly, hadvances.vectorField.trans hcounted.vectorField,
                fun hclean => absurd (List.mem_append_right _ List.mem_cons_self) hclean⟩
            · have hold := h.collections db' coll' c' hc'
              exact ⟨hold.orderly, hold.vectorField, fun hclean => hold.tallied fun hmem =>
                hclean (List.mem_append_left _ hmem)⟩
          · intro hzero
            have hnone : s.bulkLoadDepth = 0 := hzero
            have hdepth : s.bulkLoadDepth > 0 := hdirty.2.1
            omega
        · refine h.setCollection (hcounted.advances hadvances fun hclean => htallied ?_)
          by_cases hzero : applied = 0
          · exact .inl hzero
          · right
            by_contra hdeferred
            have hdepth : s.bulkLoadDepth > 0 := by simpa [Nat.pos_iff_ne_zero] using hdeferred
            exact hdirty ⟨hzero, hdepth, hclean⟩

/-! ## Bulk loads -/

theorem finishBulkLoad_counting (keys : List (JsString × JsString))
    (hall : ∀ db coll c, s.getCollection db coll = some c → c.Orderly ∧
      c.vectorField = s.vectorField ∧ ((db, coll) ∉ keys → c.Tallied))
    (db coll : JsString) (c : Collection)
    (hc : (keys.foldl finishBulkLoad s).getCollection db coll = some c) :
    c.Orderly ∧ c.vectorField = s.vectorField ∧ c.Tallied := by
  induction keys generalizing s with
  | nil =>
      rcases hall db coll c hc with ⟨horderly, hfield, htallied⟩
      exact ⟨horderly, hfield, htallied List.not_mem_nil⟩
  | cons key keys ih =>
      have hfield : (finishBulkLoad s key).vectorField = s.vectorField := by
        rw [finishBulkLoad]
        split <;> rfl
      rw [← hfield]
      refine ih ?_ hc
      intro db' coll' c' hc'
      rw [hfield]
      rw [finishBulkLoad] at hc'
      cases hget : s.getCollection key.1 key.2 with
      | none =>
          rw [hget] at hc'
          rcases hall db' coll' c' hc' with ⟨horderly, hfield', htallied⟩
          refine ⟨horderly, hfield', fun hclean => htallied fun hmem => ?_⟩
          rcases List.mem_cons.mp hmem with heq | hmem
          · rw [← heq] at hget
            cases hget.symm.trans hc'
          · exact hclean hmem
      | some held =>
          rw [hget] at hc'
          dsimp only at hc'
          rw [getCollection_setCollection] at hc'
          split_ifs at hc' with hsame
          · cases hc'
            rcases hall key.1 key.2 held hget with ⟨horderly, hfield', -⟩
            have hadvances := Collection.orderly_rebuildCoreState horderly
            have hpending := (Collection.Reworked.same (c := held.rebuildCoreState)
              (d := { held.rebuildCoreState with indexBuildPending := true })
              ⟨rfl, rfl, rfl, rfl, rfl, rfl, rfl, rfl⟩ rfl rfl)
            refine ⟨(hpending.advances hadvances.orderly).orderly,
              hadvances.vectorField.trans hfield', fun _ => ?_⟩
            exact (Collection.tallied_rebuildCoreState horderly.phantoms).kept hpending.kept
          · rcases hall db' coll' c' hc' with ⟨horderly, hfield', htallied⟩
            refine ⟨horderly, hfield', fun hclean => htallied fun hmem => ?_⟩
            rcases List.mem_cons.mp hmem with heq | hmem
            · exact hsame ⟨by rw [← heq], by rw [← heq]⟩
            · exact hclean hmem

theorem foldl_finishBulkLoad_frame (keys : List (JsString × JsString)) (s : Store) :
    (keys.foldl finishBulkLoad s).vectorField = s.vectorField ∧
      (keys.foldl finishBulkLoad s).bulkLoadDirty = s.bulkLoadDirty := by
  induction keys generalizing s with
  | nil => exact ⟨rfl, rfl⟩
  | cons key keys ih =>
      have hfinish : (finishBulkLoad s key).vectorField = s.vectorField ∧
          (finishBulkLoad s key).bulkLoadDirty = s.bulkLoadDirty := by
        rw [finishBulkLoad]
        split <;> exact ⟨rfl, rfl⟩
      rw [List.foldl_cons]
      exact ⟨(ih _).1.trans hfinish.1, (ih _).2.trans hfinish.2⟩

theorem endBulkLoad_counting (h : Counting s) : Counting s.endBulkLoad := by
  rw [endBulkLoad]
  split_ifs with hzero hmore
  · exact h
  · constructor
    · intro db coll c hc
      have hold := h.collections db coll c hc
      exact ⟨hold.orderly, hold.vectorField, hold.tallied⟩
    · intro hdepth
      have hone : s.bulkLoadDepth - 1 = 0 := hdepth
      omega
  · rcases foldl_finishBulkLoad_frame s.bulkLoadDirty
      { s with bulkLoadDepth := 0, bulkLoadDirty := [] } with ⟨hfield, hdirty⟩
    constructor
    · intro db coll c hc
      rcases finishBulkLoad_counting (s := { s with bulkLoadDepth := 0, bulkLoadDirty := [] })
        s.bulkLoadDirty (fun db' coll' c' hc' =>
          ⟨(h.collections db' coll' c' hc').orderly, (h.collections db' coll' c' hc').vectorField,
            (h.collections db' coll' c' hc').tallied⟩) db coll c hc with
        ⟨horderly, hvector, htallied⟩
      exact ⟨horderly, hvector.trans hfield.symm, fun _ => htallied⟩
    · exact fun _ => hdirty

/-! ## The catalog -/

theorem onCollection_counting (h : Counting s) (db coll : JsString) {work : Collection → Collection}
    (hwork : ∀ c : Collection, c.Orderly → c.Advances (work c))
    (htallied : ∀ c : Collection, c.Orderly → c.Tallied → (work c).Tallied) :
    Counting (s.onCollection db coll work) := by
  rw [onCollection]
  cases hget : s.getCollection db coll with
  | none => exact h
  | some c =>
      have hc := h.collections db coll c hget
      exact h.setCollection (hc.advances (hwork c hc.orderly) fun _ => htallied c hc.orderly)

theorem reworked_counting (h : Counting s) (db coll : JsString) {work : Collection → Collection}
    (hwork : ∀ c : Collection, c.Reworked (work c)) : Counting (s.onCollection db coll work) :=
  onCollection_counting h db coll (fun c hc => (hwork c).advances hc)
    fun c _ htallied => htallied.kept (hwork c).kept

theorem openCollection_counting (h : Counting s) (db coll : JsString) :
    Counting (s.openCollection db coll).1 := by
  rw [openCollection]
  cases hcollection : s.collection db coll with
  | error err => exact h
  | ok c => exact h.setCollection (collection_ok hcollection ▸ h.collectionOf db coll)

theorem setCollectionMeta_counting (h : Counting s) (db coll : JsString) (next : CollectionMeta) :
    Counting (s.setCollectionMeta db coll next).1 := by
  have hrevived : Counting { s with
      collectionTombstones := s.collectionTombstones.filter (· ≠ storeCollectionKey db coll) } :=
    h.congr (fun _ _ _ hc => hc) rfl rfl rfl
  rw [setCollectionMeta]
  dsimp only
  split
  · exact hrevived
  · rename_i c hcollection
    have hcounted := collection_ok hcollection ▸ hrevived.collectionOf db coll
    have hset := Collection.reworked_setMeta c next (decide (s.bulkLoadDepth > 0))
    have hcounting := hrevived.setCollection (hcounted.advances (hset.advances hcounted.orderly)
      fun _ htallied => htallied.kept hset.kept)
    split_ifs with hdirty
    · exact hcounting.addDirty hdirty.1 _
    · exact hcounting

theorem deleteDatabase_counting (h : Counting s) (db : JsString) :
    Counting (s.deleteDatabase db).1 := by
  constructor
  · intro db' coll c hc
    rw [getCollection_deleteDatabase] at hc
    split_ifs at hc with hsame
    have hold := h.collections db' coll c hc
    refine ⟨hold.orderly, hold.vectorField, fun hclean => hold.tallied fun hmem => hclean ?_⟩
    exact List.mem_filter.mpr ⟨hmem, by simpa using Ne.symm hsame⟩
  · intro hdepth
    have hempty := h.dirty hdepth
    rw [deleteDatabase]
    dsimp only
    rw [hempty]
    rfl

theorem deleteCollection_counting (h : Counting s) (db coll : JsString) :
    Counting (s.deleteCollection db coll).1 := by
  have hframe : (s.deleteCollection db coll).1.vectorField = s.vectorField ∧
      (s.deleteCollection db coll).1.bulkLoadDepth = s.bulkLoadDepth ∧
      (∀ key, key ≠ (db, coll) → key ∈ s.bulkLoadDirty →
        key ∈ (s.deleteCollection db coll).1.bulkLoadDirty) ∧
      (s.bulkLoadDirty = [] → (s.deleteCollection db coll).1.bulkLoadDirty = []) := by
    rw [deleteCollection]
    dsimp only
    split
    · exact ⟨rfl, rfl, fun _ _ hmem => hmem, fun hempty => hempty⟩
    · refine ⟨rfl, rfl, fun key hne hmem => ?_, fun hempty => ?_⟩
      · exact List.mem_filter.mpr ⟨hmem, by simpa using hne⟩
      · dsimp only
        rw [hempty]
        rfl
  rcases hframe with ⟨hfield, hdepth, hmem, hempty⟩
  constructor
  · intro db' coll' c hc
    rw [getCollection_deleteCollection] at hc
    split_ifs at hc with hsame
    have hold := h.collections db' coll' c hc
    refine ⟨hold.orderly, hold.vectorField.trans hfield.symm, fun hclean => hold.tallied
      fun hdirty => hclean (hmem _ ?_ hdirty)⟩
    intro heq
    cases heq
    exact hsame ⟨rfl, rfl⟩
  · intro hzero
    exact hempty (h.dirty (hdepth ▸ hzero))

/-! ## Every run -/

theorem step_counting (h : Counting s) {e : Event} (hsafe : SafeEvent s e) :
    Counting (e.step s) := by
  cases e with
  | applyOps ops => exact applyOps_counting h hsafe
  | applySnapshotObjects db coll rows => exact applySnapshotObjects_counting h hsafe
  | beginBulkLoad =>
      constructor
      · intro db coll c hc
        have hold := h.collections db coll c hc
        exact ⟨hold.orderly, hold.vectorField, hold.tallied⟩
      · exact fun hzero => absurd hzero (Nat.succ_ne_zero s.bulkLoadDepth)
  | endBulkLoad => exact endBulkLoad_counting h
  | rebuildDerivedState db coll =>
      exact onCollection_counting h db coll (fun c hc => Collection.orderly_rebuildDerivedState hc)
        fun c hc _ => Collection.tallied_rebuildDerivedState hc.phantoms
  | rebuildCoreState db coll =>
      exact onCollection_counting h db coll (fun c hc => Collection.orderly_rebuildCoreState hc)
        fun c hc _ => Collection.tallied_rebuildCoreState hc.phantoms
  | createDatabase db =>
      refine h.congr (fun db' coll c hc => ?_) rfl rfl rfl
      rw [Event.step, createDatabase, getCollection_openDatabase] at hc
      exact hc
  | deleteDatabase db => exact deleteDatabase_counting h db
  | openCollection db coll => exact openCollection_counting h db coll
  | setCollectionMeta db coll next => exact setCollectionMeta_counting h db coll next
  | deleteCollection db coll => exact deleteCollection_counting h db coll
  | createIndex db coll path =>
      exact reworked_counting h db coll fun c => c.reworked_createIndex path
  | dropIndex db coll path => exact reworked_counting h db coll fun c => c.reworked_dropIndex path
  | scheduleIndexBuilds db coll =>
      exact reworked_counting h db coll fun c => c.reworked_scheduleIndexBuildsFromMeta
  | stepJob db coll job => exact reworked_counting h db coll fun c => c.reworked_stepJob job

theorem runEvents_counting {events : List Event} (h : Counting s) (hsafe : SafeRun s events) :
    Counting (s.runEvents events) := by
  induction events generalizing s with
  | nil => exact h
  | cons e events ih => exact ih (step_counting h hsafe.1) hsafe.2

/-- A restore in a bulk load, and a delete in between. -/
def restoredRun : List Event :=
  [.beginBulkLoad,
    .applySnapshotObjects (js "d") (js "c")
      [⟨js "x", some ⟨1, js "n"⟩, none, [], some (js "s")⟩,
        ⟨js "y", some ⟨2, js "n"⟩, none, [], none⟩],
    .applyOps [⟨.delObj, js "d", js "c", js "x", none, ⟨3, js "n"⟩, 1, none⟩],
    .endBulkLoad]

theorem safe_restoredRun : SafeRun (Store.new none none) restoredRun := by
  have hvalid : ∀ value, ValidVector none value := fun _ _ _ hfield => by cases hfield
  refine ⟨trivial, ?_, ?_, trivial, trivial⟩
  · intro row hrow
    rcases List.mem_cons.mp hrow with rfl | hrow
    · exact ⟨.inl rfl, .inr (hvalid _)⟩
    · rw [List.mem_singleton.mp hrow]
      exact ⟨.inl rfl, .inr (hvalid _)⟩
  · intro op hop
    rw [List.mem_singleton.mp hop]
    exact .inl (by decide)

end Store
end ObjyDb
