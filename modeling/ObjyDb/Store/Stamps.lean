import ObjyDb.Store.Catalog

/-!
# Stamps — where the stored timestamps come from

A collection stores no timestamp that did not come with a row, whether the row is put, deleted or
restored, and whether the batch runs to its end or stops at an exception.  So what holds of all
timestamps that arrive holds of all that are stored.

- `Collection.Stamped`, `Store.Stamped`
- `Store.applyOps_stamped`, `Store.applySnapshotObjects_stamped`
-/

namespace ObjyDb

open Js

/-! ## Entries -/

/-- Both timestamps of a metadata entry satisfy `P`. -/
structure RowMeta.Stamped (P : Ts → Prop) (m : RowMeta) : Prop where
  ts : ∀ t, m.ts = some t → P t
  deleted : ∀ t, m.deleted = some t → P t

theorem RowMeta.Stamped.mono {P Q : Ts → Prop} {m : RowMeta} (h : m.Stamped P)
    (hPQ : ∀ t, P t → Q t) : m.Stamped Q :=
  ⟨fun t ht => hPQ t (h.ts t ht), fun t ht => hPQ t (h.deleted t ht)⟩

namespace Collection

variable {P : Ts → Prop} {c d : Collection} {ω : Type}

/-- Every stored timestamp satisfies `P`. -/
def Stamped (P : Ts → Prop) (c : Collection) : Prop :=
  ∀ id m, Assoc.get? c.objects id = some m → m.Stamped P

theorem Stamped.mono {Q : Ts → Prop} (h : c.Stamped P) (hPQ : ∀ t, P t → Q t) : c.Stamped Q :=
  fun id m hm => (h id m hm).mono hPQ

theorem stamped_new (P : Ts → Prop) (vectorField : Option JsString)
    (compression : Option Compression) : (Collection.new vectorField compression).Stamped P :=
  fun _ _ hm => nomatch hm

theorem Stamped.of_objects (h : c.Stamped P) (hobjects : d.objects = c.objects) : d.Stamped P := by
  intro id m hm
  rw [hobjects] at hm
  exact h id m hm

theorem Stamped.entered (h : c.Stamped P) {id : JsString} {m : RowMeta} (he : Entered c id d m) :
    d.Stamped P := by
  intro id' m' hm'
  by_cases hid : id' = id
  · subst hid
    have hsame : m' = m := Option.some.inj (hm'.symm.trans he.here)
    subst hsame
    rcases he.fresh with hheld | ⟨-, hts, hdeleted, -⟩
    · exact h id' m' hheld
    · -- the entry is new and holds no timestamp
      exact ⟨fun _ ht => (nomatch hts.symm.trans ht), fun _ ht => nomatch hdeleted.symm.trans ht⟩
  · rw [he.elsewhere hid] at hm'
    exact h id' m' hm'

theorem Stamped.set (h : c.Stamped P) {id : JsString} {next : RowMeta} (hnext : next.Stamped P)
    (hobjects : d.objects = Assoc.set c.objects id next) : d.Stamped P := by
  intro id' m' hm'
  rw [hobjects, Assoc.get?_set] at hm'
  split_ifs at hm'
  · cases hm'
    exact hnext
  · exact h id' m' hm'

theorem objects_counted {c d : Collection} (h : Counted c d) : d.objects = c.objects :=
  h.rows_eq.2.2.1

/-! ## Rows -/

theorem putObject_stamped (h : c.Stamped P) (row : Row ω) (keep : Bool) (hrow : P row.ts) :
    (c.putObject row keep).1.Stamped P := by
  have he := ensureMeta_entered c row.id
  cases hensure : c.ensureMeta row.id with
  | mk d m =>
      rw [hensure] at he
      have hd := h.entered he
      rcases c.putObject_cases row keep hensure with
        ⟨-, heq⟩ | ⟨-, err, -, heq⟩ | ⟨-, value, vector, after, next, -, hts, hdeleted, -,
          hcounted, -, heq⟩
      · rw [heq]
        exact hd
      · rw [heq]
        exact hd
      · rw [heq]
        have hnext : next.Stamped P := by
          constructor
          · intro t ht
            cases hts.symm.trans ht
            exact hrow
          · exact fun t ht => nomatch hdeleted.symm.trans ht
        exact hd.set hnext ((objects_counted hcounted).trans (objects_overwrite ..))

theorem putRows_stamped (keep : Bool) (rows : List (Row ω)) {c : Collection} (h : c.Stamped P)
    (hrows : ∀ row ∈ rows, P row.ts) : (putRows keep c rows).1.Stamped P := by
  induction rows generalizing c with
  | nil => exact h
  | cons row rest ih =>
      have hput := putObject_stamped h row keep (hrows row List.mem_cons_self)
      rw [putRows]
      cases hresult : c.putObject row keep with
      | mk d result =>
          rw [hresult] at hput
          cases result with
          | error err => exact hput
          | ok delta =>
              have hrest := ih hput fun r hr => hrows r (List.mem_cons_of_mem _ hr)
              dsimp only
              cases hmore : putRows keep d rest with
              | mk e more =>
                  rw [hmore] at hrest
                  cases more with
                  | error err => exact hrest
                  | ok more => cases delta <;> exact hrest

theorem putObjects_stamped (h : c.Stamped P) {rows : List (Row ω)}
    (hrows : ∀ row ∈ rows, P row.ts) : (c.putObjects rows).1.Stamped P := by
  have hput := putRows_stamped (c.shouldDeferIndexDeltasForCount rows.length) rows h hrows
  rw [putObjects]
  cases hresult : putRows (c.shouldDeferIndexDeltasForCount rows.length) c rows with
  | mk d result =>
      rw [hresult] at hput
      cases result with
      | error err => exact hput
      | ok applied => exact hput.of_objects (kept_applyIndexDeltas ..).objects

theorem deleteObject_stamped (h : c.Stamped P) (row : Row ω) (hrow : P row.ts) :
    (c.deleteObject row).1.Stamped P := by
  have he := ensureMeta_entered c row.id
  cases hensure : c.ensureMeta row.id with
  | mk d m =>
      rw [hensure] at he
      have hd := h.entered he
      rcases c.deleteObject_cases row hensure with
        ⟨-, heq⟩ | ⟨-, after, next, hts, hdeleted, -, hcounted, -, heq⟩
      · rw [heq]
        exact hd
      · rw [heq]
        have hnext : next.Stamped P := by
          constructor
          · exact fun t ht => (hd _ _ he.here).ts t (hts.symm.trans ht)
          · intro t ht
            cases hdeleted.symm.trans ht
            exact hrow
        exact hd.set hnext ((objects_counted hcounted).trans (objects_clear ..))

theorem deleteObjects_stamped (h : c.Stamped P) {rows : List (Row ω)}
    (hrows : ∀ row ∈ rows, P row.ts) : (c.deleteObjects rows).1.Stamped P := by
  have hdelete : (deleteRows c rows).1.Stamped P := by
    induction rows generalizing c with
    | nil => exact h
    | cons row rest ih =>
        have hrest := ih (deleteObject_stamped h row (hrows row List.mem_cons_self))
          fun r hr => hrows r (List.mem_cons_of_mem _ hr)
        rw [deleteRows]
        dsimp only
        cases (c.deleteObject row).2 <;> exact hrest
  exact hdelete.of_objects (kept_applyIndexDeltas ..).objects

/-! ## Snapshot rows -/

theorem applySnapshotObject_stamped (h : c.Stamped P) (row : SnapshotRow) (deferred : Bool)
    (hts : ∀ t, row.ts = some t → P t) (hdeleted : ∀ t, row.deleted = some t → P t) :
    (c.applySnapshotObject row deferred).1.Stamped P := by
  have he := ensureMeta_entered c row.id
  cases hensure : c.ensureMeta row.id with
  | mk d m =>
      rw [hensure] at he
      have hd := h.entered he
      rcases c.applySnapshotObject_cases row deferred hensure with
        ⟨-, heq⟩ | ⟨-, err, -, heq⟩ | ⟨e, after, hwrite, heq⟩
      · rw [heq]
        exact hd
      · rw [heq]
        exact hd
      · rw [heq]
        have hwritten : e.Stamped P := by
          cases hwrite with
          | deleted next hrow _ hnextTs hnextDeleted _ =>
              refine hd.set ⟨?_, ?_⟩ (objects_clear ..)
              · intro t ht
                rw [hnextTs] at ht
                rcases Option.or_eq_some_iff.mp ht with ht | ⟨-, ht⟩
                · exact hts t ht
                · exact (hd _ _ he.here).ts t ht
              · intro t ht
                rw [hnextDeleted, ← hrow] at ht
                exact hdeleted t ht
          | live next _ hrowTs _ _ hnextTs hnextDeleted _ =>
              refine hd.set ⟨?_, ?_⟩ (objects_overwrite ..)
              · intro t ht
                rw [hnextTs, ← hrowTs] at ht
                exact hts t ht
              · exact fun t ht => nomatch hnextDeleted.symm.trans ht
        exact hwritten.of_objects (kept_applyIndexDeltas ..).objects

theorem applySnapshotRows_stamped (deferred : Bool) (rows : List SnapshotRow) {c : Collection}
    (h : c.Stamped P) (hrows : ∀ row ∈ rows, (∀ t, row.ts = some t → P t) ∧
      ∀ t, row.deleted = some t → P t) :
    (applySnapshotRows deferred c rows).1.Stamped P := by
  induction rows generalizing c with
  | nil => exact h
  | cons row rest ih =>
      rcases hrows row List.mem_cons_self with ⟨hts, hdeleted⟩
      have hrow := applySnapshotObject_stamped h row deferred hts hdeleted
      rw [applySnapshotRows]
      cases hresult : c.applySnapshotObject row deferred with
      | mk d result =>
          rw [hresult] at hrow
          cases result with
          | error err => exact hrow
          | ok applied =>
              have hrest := ih hrow fun r hr => hrows r (List.mem_cons_of_mem _ hr)
              dsimp only
              cases hmore : applySnapshotRows deferred d rest with
              | mk e more =>
                  rw [hmore] at hrest
                  cases more <;> exact hrest

/-! ## Rebuilding -/

theorem objects_addShardRid (c : Collection) (rid : Nat) (shard : Option JsString) :
    (c.addShardRid rid shard).objects = c.objects :=
  objects_counted (counted_addShardRid c rid shard)

theorem objects_rebuildCoreState (c : Collection) : c.rebuildCoreState.objects = c.objects := by
  unfold rebuildCoreState
  generalize c.objects = entries
  have hloop : ∀ d : Collection, (entries.foldl (fun c entry =>
      if entry.2.deleted.isSome then c
      else ({ c with liveCount := c.liveCount + 1 }).addShardRid entry.2.rid entry.2.shard)
        d).objects = d.objects := by
    induction entries with
    | nil => exact fun _ => rfl
    | cons entry entries ih =>
        intro d
        rw [List.foldl_cons, ih]
        split_ifs
        · rfl
        · exact objects_addShardRid ..
  exact hloop _

theorem objects_rebuildDerivedState (c : Collection) :
    c.rebuildDerivedState.objects = c.objects := by
  unfold rebuildDerivedState
  dsimp only
  generalize c.objects = entries
  have hloop : ∀ s : Rebuild, (entries.foldl (rebuildRowState c.collectionMeta.columns)
      s).collection.objects = s.collection.objects := by
    induction entries with
    | nil => exact fun _ => rfl
    | cons entry entries ih =>
        intro s
        rw [List.foldl_cons, ih]
        unfold rebuildRowState
        dsimp only
        split_ifs
        · rfl
        · split
          · exact objects_addShardRid ..
          · exact (kept_rewriteBaseValueForColumns ..).objects.trans (objects_addShardRid ..)
  exact hloop _

theorem applySnapshotObjects_stamped (h : c.Stamped P) {rows : List SnapshotRow} (deferred : Bool)
    (hrows : ∀ row ∈ rows, (∀ t, row.ts = some t → P t) ∧ ∀ t, row.deleted = some t → P t) :
    (c.applySnapshotObjects rows deferred).1.Stamped P := by
  have happlied := applySnapshotRows_stamped deferred rows h hrows
  rw [applySnapshotObjects]
  cases hresult : applySnapshotRows deferred c rows with
  | mk d result =>
      rw [hresult] at happlied
      cases result with
      | error err => exact happlied
      | ok applied =>
          dsimp only
          split_ifs
          · exact happlied.of_objects (objects_rebuildDerivedState d)
          · exact happlied

end Collection

/-! ## Stores -/

namespace Store

variable {P : Ts → Prop} {s : Store}

def Stamped (P : Ts → Prop) (s : Store) : Prop :=
  ∀ db coll c, s.getCollection db coll = some c → c.Stamped P

theorem Stamped.mono {Q : Ts → Prop} (h : s.Stamped P) (hPQ : ∀ t, P t → Q t) : s.Stamped Q :=
  fun db coll c hc => (h db coll c hc).mono hPQ

theorem Stamped.collectionOf (h : s.Stamped P) (db coll : JsString) :
    (s.collectionOf db coll).Stamped P := by
  rw [Store.collectionOf]
  cases hget : s.getCollection db coll with
  | none => exact Collection.stamped_new P s.vectorField s.compression
  | some c => exact h db coll c hget

theorem Stamped.setCollection (h : s.Stamped P) {c : Collection} (hc : c.Stamped P)
    (db coll : JsString) : (s.setCollection db coll c).Stamped P := by
  intro db' coll' c' hc'
  rw [getCollection_setCollection] at hc'
  split_ifs at hc'
  · cases hc'
    exact hc
  · exact h db' coll' c' hc'

/-- The operations of a run are operations of the batch, and all have the key of the run. -/
theorem mem_opRuns {ops : List Op} {run : OpRun} (h : run ∈ s.opRuns ops) :
    run.ops ≠ [] ∧ ∀ op ∈ run.ops, op ∈ ops ∧ runKey op = run.key := by
  induction ops generalizing run with
  | nil => cases h
  | cons op rest ih =>
      have hweaken : ∀ run ∈ s.opRuns rest,
          run.ops ≠ [] ∧ ∀ op' ∈ run.ops, op' ∈ op :: rest ∧ runKey op' = run.key := by
        intro run hrun
        rcases ih hrun with ⟨hne, hops⟩
        exact ⟨hne, fun op' hop' => ⟨List.mem_cons_of_mem _ (hops op' hop').1, (hops op' hop').2⟩⟩
      have hnew : ∀ op' ∈ [op], op' ∈ op :: rest ∧ runKey op' = runKey op := by
        intro op' hop'
        rw [List.mem_singleton.mp hop']
        exact ⟨List.mem_cons_self, rfl⟩
      rw [opRuns] at h
      split_ifs at h with hdeleted
      · exact hweaken run h
      · cases hrest : s.opRuns rest with
        | nil =>
            rw [hrest] at h
            rw [List.mem_singleton.mp h]
            exact ⟨by simp, hnew⟩
        | cons first more =>
            rw [hrest] at h hweaken
            dsimp only at h
            split_ifs at h with hkey
            · -- the operation joins the first run
              rcases List.mem_cons.mp h with rfl | hmore
              · rcases hweaken first List.mem_cons_self with ⟨-, hfirst⟩
                refine ⟨by simp, ?_⟩
                intro op' hop'
                rcases List.mem_cons.mp hop' with rfl | hop'
                · exact ⟨List.mem_cons_self, hkey.symm⟩
                · exact hfirst op' hop'
              · exact hweaken run (List.mem_cons_of_mem _ hmore)
            · rcases List.mem_cons.mp h with rfl | hmore
              · exact ⟨by simp, hnew⟩
              · exact hweaken run hmore

theorem flushRun_stamped (h : s.Stamped P) {run : OpRun} (hrun : ∀ op ∈ run.ops, P op.ts) :
    (s.flushRun run).1.Stamped P := by
  have hrows : ∀ row ∈ run.ops.map Op.row, P row.ts := by
    intro row hrow
    rcases List.mem_map.mp hrow with ⟨op, hop, rfl⟩
    exact hrun op hop
  rw [flushRun]
  dsimp only
  generalize (split 0 run.key).getD 0 [] = db
  generalize (split 0 run.key).getD 1 [] = coll
  cases hcollection : s.collection db coll with
  | error err => exact h
  | ok c =>
      have hc : c.Stamped P := (collection_eq_ok.mp hcollection).2.2 ▸ h.collectionOf db coll
      dsimp only
      split_ifs
      · exact h.setCollection (Collection.deleteObjects_stamped hc hrows) db coll
      · have hput := Collection.putObjects_stamped hc hrows
        cases hresult : c.putObjects (run.ops.map Op.row) with
        | mk d result =>
            rw [hresult] at hput
            cases result <;> exact h.setCollection hput db coll

theorem flushRuns_stamped {runs : List OpRun} (h : s.Stamped P)
    (hruns : ∀ run ∈ runs, ∀ op ∈ run.ops, P op.ts) : (s.flushRuns runs).1.Stamped P := by
  induction runs generalizing s with
  | nil => exact h
  | cons run runs ih =>
      have hflush := flushRun_stamped h (hruns run List.mem_cons_self)
      rw [flushRuns]
      cases hresult : s.flushRun run with
      | mk s' result =>
          rw [hresult] at hflush
          cases result with
          | error err => exact hflush
          | ok applied =>
              have hrest := ih hflush fun r hr => hruns r (List.mem_cons_of_mem _ hr)
              dsimp only
              cases hmore : s'.flushRuns runs with
              | mk s'' more =>
                  rw [hmore] at hrest
                  cases more <;> exact hrest

theorem applyOps_stamped (h : s.Stamped P) {ops : List Op} (hops : ∀ op ∈ ops, P op.ts) :
    (s.applyOps ops).1.Stamped P :=
  flushRuns_stamped h fun _ hrun op hop => hops op ((mem_opRuns hrun).2 op hop).1

theorem applySnapshotObjects_stamped (h : s.Stamped P) (db coll : JsString)
    {rows : List Collection.SnapshotRow}
    (hrows : ∀ row ∈ rows, (∀ t, row.ts = some t → P t) ∧ ∀ t, row.deleted = some t → P t) :
    (s.applySnapshotObjects db coll rows).1.Stamped P := by
  rw [applySnapshotObjects]
  split_ifs
  · exact h
  · cases hcollection : s.collection db coll with
    | error err => exact h
    | ok c =>
        have hc : c.Stamped P := (collection_eq_ok.mp hcollection).2.2 ▸ h.collectionOf db coll
        have happlied := Collection.applySnapshotObjects_stamped hc
          (decide (s.bulkLoadDepth > 0)) hrows
        dsimp only
        cases hresult : c.applySnapshotObjects rows (decide (s.bulkLoadDepth > 0)) with
        | mk d result =>
            rw [hresult] at happlied
            cases result with
            | error err => exact h.setCollection happlied db coll
            | ok applied =>
                dsimp only
                split_ifs <;> exact h.setCollection happlied db coll

/-! ### Catalog -/

theorem openCollection_stamped (h : s.Stamped P) (db coll : JsString) :
    (s.openCollection db coll).1.Stamped P := by
  rw [openCollection]
  cases hcollection : s.collection db coll with
  | error err => exact h
  | ok c =>
      exact h.setCollection ((collection_eq_ok.mp hcollection).2.2 ▸ h.collectionOf db coll) db coll

theorem createDatabase_stamped (h : s.Stamped P) (db : JsString) :
    (s.createDatabase db).Stamped P := by
  intro db' coll c hc
  rw [createDatabase, getCollection_openDatabase] at hc
  exact h db' coll c hc

theorem deleteDatabase_stamped (h : s.Stamped P) (db : JsString) :
    (s.deleteDatabase db).1.Stamped P := by
  intro db' coll c hc
  rw [getCollection_deleteDatabase] at hc
  split_ifs at hc
  exact h db' coll c hc

theorem setCollectionMeta_stamped (h : s.Stamped P) (db coll : JsString) (next : CollectionMeta) :
    (s.setCollectionMeta db coll next).1.Stamped P := by
  have hrevived : Stamped P { s with
      collectionTombstones := s.collectionTombstones.filter (· ≠ storeCollectionKey db coll) } := h
  rw [setCollectionMeta]
  dsimp only
  split
  · exact hrevived
  · rename_i c hcollection
    have hc : c.Stamped P := (collection_eq_ok.mp hcollection).2.2 ▸ hrevived.collectionOf db coll
    have hset := hrevived.setCollection (hc.of_objects
      (Collection.kept_setMeta c next (decide (s.bulkLoadDepth > 0))).objects) db coll
    split_ifs <;> exact hset

theorem deleteCollection_stamped (h : s.Stamped P) (db coll : JsString) :
    (s.deleteCollection db coll).1.Stamped P := by
  intro db' coll' c hc
  rw [getCollection_deleteCollection] at hc
  split_ifs at hc
  exact h db' coll' c hc

theorem onCollection_stamped (h : s.Stamped P) (db coll : JsString)
    {work : Collection → Collection} (hwork : ∀ c, (work c).objects = c.objects) :
    (s.onCollection db coll work).Stamped P := by
  rw [onCollection]
  cases hget : s.getCollection db coll with
  | none => exact h
  | some c => exact h.setCollection ((h db coll c hget).of_objects (hwork c)) db coll

theorem endBulkLoad_stamped (h : s.Stamped P) : s.endBulkLoad.Stamped P := by
  rw [endBulkLoad]
  split_ifs
  · exact h
  · exact h
  · have hloop : ∀ (keys : List (JsString × JsString)) {s : Store}, s.Stamped P →
        (keys.foldl finishBulkLoad s).Stamped P := by
      intro keys
      induction keys with
      | nil => exact fun h => h
      | cons key keys ih =>
          intro s h
          apply ih
          rw [finishBulkLoad]
          cases hget : s.getCollection key.1 key.2 with
          | none => exact h
          | some c =>
              refine h.setCollection ?_ key.1 key.2
              exact (h _ _ c hget).of_objects (Collection.objects_rebuildCoreState c)
    exact hloop s.bulkLoadDirty h

end Store
end ObjyDb
