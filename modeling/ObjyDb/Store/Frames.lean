import ObjyDb.Store.Batches
import ObjyDb.Store.Builds

/-!
# Frames — what work on the derived state leaves alone

Index deltas, changes of the metadata and background jobs may move the fields of an object between
its row, its columns and its cold part.  They touch neither the metadata entries and the row ids
nor the vectors, and they count nothing.

- `Kept`: the frame; `Reworked`: what such work does, as a relation
- `reworked_applyIndexDeltas`, `reworked_setMeta`, `reworked_stepJob`
-/

namespace ObjyDb

open Js

namespace Collection

/-- `d` has the entries, the vectors and the live counters of `c`. -/
structure Kept (c d : Collection) : Prop where
  vectorField : d.vectorField = c.vectorField
  compression : d.compression = c.compression
  objects : d.objects = c.objects
  idByRid : d.idByRid = c.idByRid
  vectors : d.vectors = c.vectors
  liveCount : d.liveCount = c.liveCount
  shardIds : d.shardIds = c.shardIds
  unshardedLiveCount : d.unshardedLiveCount = c.unshardedLiveCount

theorem Kept.refl (c : Collection) : Kept c c := ⟨rfl, rfl, rfl, rfl, rfl, rfl, rfl, rfl⟩

theorem Kept.trans {c d e : Collection} (hcd : Kept c d) (hde : Kept d e) : Kept c e where
  vectorField := hde.vectorField.trans hcd.vectorField
  compression := hde.compression.trans hcd.compression
  objects := hde.objects.trans hcd.objects
  idByRid := hde.idByRid.trans hcd.idByRid
  vectors := hde.vectors.trans hcd.vectors
  liveCount := hde.liveCount.trans hcd.liveCount
  shardIds := hde.shardIds.trans hcd.shardIds
  unshardedLiveCount := hde.unshardedLiveCount.trans hcd.unshardedLiveCount

/-! ## Base values -/

theorem kept_setCompressedCold (c : Collection) (rid : Nat) (entry : Option ColdEntry) :
    Kept c (c.setCompressedCold rid entry) := by
  cases entry <;> exact ⟨rfl, rfl, rfl, rfl, rfl, rfl, rfl, rfl⟩

theorem kept_tierBaseValue (c : Collection) (rid : Nat) (value : Fields) :
    Kept c (c.tierBaseValue rid value).1 := by
  rw [tierBaseValue_eq]
  exact kept_setCompressedCold ..

theorem kept_writeBaseValue (c : Collection) (id : JsString) (rid : Nat) (value : Fields) :
    Kept c (c.writeBaseValue id rid value) := by
  have h := c.kept_tierBaseValue rid value
  exact ⟨h.vectorField, h.compression, h.objects, h.idByRid, h.vectors, h.liveCount, h.shardIds,
    h.unshardedLiveCount⟩

theorem kept_rewriteBaseValueForColumns (c : Collection) (rid : Nat) (object : Fields)
    (paths : Option (List JsString)) : Kept c (c.rewriteBaseValueForColumns rid object paths) := by
  unfold rewriteBaseValueForColumns
  split
  · exact .refl c
  · exact kept_writeBaseValue ..

theorem readRid_isSome_iff (c : Collection) (rid : Nat) : (c.readRid rid).isSome ↔
    ∃ id m, c.idByRid[rid]? = some id ∧ Assoc.get? c.objects id = some m ∧ m.deleted = none := by
  rw [readRid, idForRid]
  cases hid : c.idByRid[rid]? with
  | none => simp
  | some id =>
      dsimp only
      rw [read]
      cases hm : Assoc.get? c.objects id with
      | none => simp [hm]
      | some m => cases hdeleted : m.deleted <;> simp [hm, hdeleted]

theorem Kept.readRid_isSome {c d : Collection} (h : Kept c d) {rid : Nat}
    (hread : (c.readRid rid).isSome) : (d.readRid rid).isSome := by
  rw [readRid_isSome_iff] at hread ⊢
  rw [h.idByRid, h.objects]
  exact hread

/-! ## Rework -/

/-- Work on the derived state: it keeps the entries and the counters, and rewrites base values of
rows that can be read. -/
inductive Reworked : Collection → Collection → Prop
  | same {c d} (hkept : Kept c d) (hcold : d.compressedCold = c.compressedCold)
      (htotals : d.compressionTotals = c.compressionTotals) : Reworked c d
  | rewrite (c rid object paths) (hread : (c.readRid rid).isSome) :
      Reworked c (c.rewriteBaseValueForColumns rid object paths)
  | trans {c d e} (hcd : Reworked c d) (hde : Reworked d e) : Reworked c e

theorem Reworked.refl (c : Collection) : Reworked c c :=
  .same (.refl c) rfl rfl

theorem Reworked.kept {c d : Collection} (h : Reworked c d) : Kept c d := by
  induction h with
  | same hkept _ _ => exact hkept
  | rewrite => exact kept_rewriteBaseValueForColumns ..
  | trans _ _ ihcd ihde => exact ihcd.trans ihde

theorem reworked_foldl {α : Type} {step : Collection → α → Collection}
    (hstep : ∀ c a, Reworked c (step c a)) (as : List α) (c : Collection) :
    Reworked c (as.foldl step c) := by
  induction as generalizing c with
  | nil => exact .refl c
  | cons a as ih => exact (hstep c a).trans (ih _)

/-- A loop that carries something along with the collection. -/
theorem reworked_foldl_fst {α β : Type} {step : Collection × β → α → Collection × β}
    (hstep : ∀ s a, Reworked s.1 (step s a).1) (as : List α) (s : Collection × β) :
    Reworked s.1 (as.foldl step s).1 := by
  induction as generalizing s with
  | nil => exact .refl s.1
  | cons a as ih => exact (hstep s a).trans (ih _)

/-! ## Index deltas -/

theorem reworked_applyIndexDelta (c : Collection) (delta : IndexDelta) :
    Reworked c (c.applyIndexDelta delta) := by
  unfold applyIndexDelta
  dsimp only
  split_ifs <;> exact .same ⟨rfl, rfl, rfl, rfl, rfl, rfl, rfl, rfl⟩ rfl rfl

theorem reworked_markIndexDirty (c : Collection) (delta : IndexDelta) :
    Reworked c (c.markIndexDirty delta) := .same ⟨rfl, rfl, rfl, rfl, rfl, rfl, rfl, rfl⟩ rfl rfl

theorem reworked_schedule (c : Collection) (job : Job) : Reworked c (c.schedule job) :=
  .same ⟨rfl, rfl, rfl, rfl, rfl, rfl, rfl, rfl⟩ rfl rfl

theorem reworked_scheduleDirtyIndexCatchup (c : Collection) :
    Reworked c c.scheduleDirtyIndexCatchup := by
  unfold scheduleDirtyIndexCatchup
  split_ifs <;> exact .same ⟨rfl, rfl, rfl, rfl, rfl, rfl, rfl, rfl⟩ rfl rfl

theorem reworked_applyIndexDeltas (c : Collection) (deltas : List IndexDelta) :
    Reworked c (c.applyIndexDeltas deltas) := by
  unfold applyIndexDeltas
  split_ifs
  · exact .refl c
  · exact (reworked_foldl reworked_markIndexDirty deltas c).trans (reworked_scheduleDirtyIndexCatchup _)
  · exact reworked_foldl reworked_applyIndexDelta deltas c

/-! ## Metadata -/

theorem reworked_createIndexFromMeta (c : Collection) (path : JsString) :
    Reworked c (c.createIndexFromMeta path) := .same ⟨rfl, rfl, rfl, rfl, rfl, rfl, rfl, rfl⟩ rfl rfl

theorem reworked_startFieldIndexBuild (c : Collection) (paths : List JsString) :
    Reworked c (c.startFieldIndexBuild paths) := by
  unfold startFieldIndexBuild
  split_ifs
  · exact .refl c
  · refine Reworked.trans (reworked_foldl ?_ paths c) (reworked_schedule _ _)
    exact fun _ _ => .same ⟨rfl, rfl, rfl, rfl, rfl, rfl, rfl, rfl⟩ rfl rfl

theorem reworked_applyMetaIndex (background rebuild : Bool) (s : Collection × List JsString)
    (path : JsString) : Reworked s.1 (applyMetaIndex background rebuild s path).1 := by
  rcases s with ⟨c, toBuild⟩
  unfold applyMetaIndex
  dsimp only
  split_ifs
  · exact .refl c
  · exact .refl c
  · exact .same ⟨rfl, rfl, rfl, rfl, rfl, rfl, rfl, rfl⟩ rfl rfl
  · exact .refl c
  · exact reworked_createIndexFromMeta c path

theorem reworked_applyMetaIndexes (c : Collection) (background rebuild : Bool) :
    Reworked c (c.applyMetaIndexes background rebuild) := by
  unfold applyMetaIndexes
  dsimp only
  refine Reworked.trans ?_ (reworked_startFieldIndexBuild _ _)
  refine Reworked.trans ?_ (reworked_foldl_fst (reworked_applyMetaIndex background rebuild) _ _)
  exact .same ⟨rfl, rfl, rfl, rfl, rfl, rfl, rfl, rfl⟩ rfl rfl

theorem reworked_startedColumns (c : Collection) (paths : List JsString) :
    Reworked c (paths.foldl
      (fun (s : Collection × List (JsString × Nat)) (path : JsString) =>
        match Assoc.get? s.1.columns path with
        | none => s
        | some column =>
            ({ s.1 with columns := Assoc.set s.1.columns path column.startBuild },
              s.2 ++ [(path, column.startBuild.buildId)])) (c, [])).1 := by
  refine reworked_foldl_fst ?_ paths (c, [])
  intro s path
  dsimp only
  split
  · exact .refl s.1
  · exact .same ⟨rfl, rfl, rfl, rfl, rfl, rfl, rfl, rfl⟩ rfl rfl

theorem reworked_startColumnBuild (c : Collection) (paths : List JsString) :
    Reworked c (c.startColumnBuild paths) := by
  have hstart := reworked_startedColumns c paths
  unfold startColumnBuild
  dsimp only
  split_ifs
  · exact hstart
  · exact hstart.trans (.same ⟨rfl, rfl, rfl, rfl, rfl, rfl, rfl, rfl⟩ rfl rfl)

theorem reworked_applyMetaColumn (rebuild : Bool) (s : Collection × List JsString)
    (path : JsString) : Reworked s.1 (applyMetaColumn rebuild s path).1 := by
  rcases s with ⟨c, toBuild⟩
  unfold applyMetaColumn
  dsimp only
  split_ifs <;> exact .same ⟨rfl, rfl, rfl, rfl, rfl, rfl, rfl, rfl⟩ rfl rfl

theorem reworked_applyMetaColumns (c : Collection) (rebuild : Bool) :
    Reworked c (c.applyMetaColumns rebuild) := by
  unfold applyMetaColumns
  dsimp only
  have hfold : Reworked c (c.collectionMeta.columns.foldl (applyMetaColumn rebuild)
      ({ c with columns := c.columns.filter fun entry => entry.1 ∈ c.collectionMeta.columns },
        [])).1 := by
    refine Reworked.trans ?_ (reworked_foldl_fst (reworked_applyMetaColumn rebuild) _ _)
    exact .same ⟨rfl, rfl, rfl, rfl, rfl, rfl, rfl, rfl⟩ rfl rfl
  split_ifs
  · exact hfold
  · exact hfold.trans (reworked_startColumnBuild _ _)

theorem reworked_scheduleIndexBuildsFromMeta (c : Collection) :
    Reworked c c.scheduleIndexBuildsFromMeta := by
  have hindexes := c.reworked_applyMetaIndexes true true
  have hcolumns := hindexes.trans (reworked_applyMetaColumns _ true)
  exact hcolumns.trans (.same ⟨rfl, rfl, rfl, rfl, rfl, rfl, rfl, rfl⟩ rfl rfl)

theorem reworked_retierBaseValues (c : Collection) : Reworked c c.retierBaseValues := by
  refine reworked_foldl ?_ c.liveRids c
  intro c rid
  split
  · rename_i object hread
    exact .rewrite c rid object none (by rw [hread]; rfl)
  · exact .refl c

theorem reworked_setMeta (c : Collection) (next : CollectionMeta) (deferIndexes : Bool) :
    Reworked c (c.setMeta next deferIndexes) := by
  unfold setMeta
  dsimp only
  have hset : Reworked c (if deferIndexes then ({ c with collectionMeta := next }).deferMetaIndexes
      else (({ c with collectionMeta := next }).applyMetaIndexes false false).applyMetaColumns
        false) := by
    have hnext : Reworked c { c with collectionMeta := next } :=
      .same ⟨rfl, rfl, rfl, rfl, rfl, rfl, rfl, rfl⟩ rfl rfl
    split_ifs
    · exact hnext.trans (.same ⟨rfl, rfl, rfl, rfl, rfl, rfl, rfl, rfl⟩ rfl rfl)
    · exact (hnext.trans (reworked_applyMetaIndexes _ false false)).trans
        (reworked_applyMetaColumns _ false)
  split_ifs at hset ⊢
  · exact hset.trans (reworked_retierBaseValues _)
  · exact hset
  · exact hset.trans (reworked_retierBaseValues _)
  · exact hset

/-! ## Jobs -/

theorem reworked_setJob (c : Collection) (id : Nat) (job : Job) : Reworked c (c.setJob id job) :=
  .same ⟨rfl, rfl, rfl, rfl, rfl, rfl, rfl, rfl⟩ rfl rfl

theorem reworked_endJob (c : Collection) (id : Nat) : Reworked c (c.endJob id) :=
  .same ⟨rfl, rfl, rfl, rfl, rfl, rfl, rfl, rfl⟩ rfl rfl

theorem reworked_installColumn (built : List (JsString × TypedRidColumn))
    (s : Collection × List JsString) (target : JsString × Nat) :
    Reworked s.1 (installColumn built s target).1 := by
  unfold installColumn
  split
  · split
    · exact .same ⟨rfl, rfl, rfl, rfl, rfl, rfl, rfl, rfl⟩ rfl rfl
    · exact .refl s.1
  · exact .refl s.1

theorem reworked_installFieldIndex (built : List (JsString × FieldIndex)) (c : Collection)
    (target : JsString × Nat) : Reworked c (installFieldIndex built c target) := by
  unfold installFieldIndex
  split
  · split_ifs
    · exact .refl c
    · exact .same ⟨rfl, rfl, rfl, rfl, rfl, rfl, rfl, rfl⟩ rfl rfl
  · exact .refl c

theorem reworked_catchUpRow (c : Collection) (rid : Nat) : Reworked c (c.catchUpRow rid) := by
  have hrefresh : Reworked c (c.refreshReadyIndexesForRid rid) := by
    unfold refreshReadyIndexesForRid
    dsimp only
    split
    · rename_i object hread
      refine Reworked.trans ?_ (.rewrite _ rid object none ?_)
      · exact .same ⟨rfl, rfl, rfl, rfl, rfl, rfl, rfl, rfl⟩ rfl rfl
      · refine Kept.readRid_isSome (c := c) ?_ (by rw [hread]; rfl)
        exact ⟨rfl, rfl, rfl, rfl, rfl, rfl, rfl, rfl⟩
    · exact .same ⟨rfl, rfl, rfl, rfl, rfl, rfl, rfl, rfl⟩ rfl rfl
  exact hrefresh.trans (.same ⟨rfl, rfl, rfl, rfl, rfl, rfl, rfl, rfl⟩ rfl rfl)

theorem reworked_endCatchup (c : Collection) (id : Nat) : Reworked c (c.endCatchup id) := by
  unfold endCatchup
  dsimp only
  split_ifs
  · refine Reworked.trans ?_ (reworked_scheduleDirtyIndexCatchup _)
    exact .same ⟨rfl, rfl, rfl, rfl, rfl, rfl, rfl, rfl⟩ rfl rfl
  · exact (reworked_endJob c id).trans (reworked_scheduleDirtyIndexCatchup _)

theorem reworked_stepCatchup (c : Collection) (id : Nat) : Reworked c (c.stepCatchup id) := by
  unfold stepCatchup
  dsimp only
  split_ifs
  · exact reworked_endCatchup c id
  · refine Reworked.trans ?_ (reworked_endCatchup _ id)
    exact .same ⟨rfl, rfl, rfl, rfl, rfl, rfl, rfl, rfl⟩ rfl rfl
  · refine Reworked.trans ?_ (reworked_foldl reworked_catchUpRow _ _)
    exact .same ⟨rfl, rfl, rfl, rfl, rfl, rfl, rfl, rfl⟩ rfl rfl

theorem reworked_stepJob (c : Collection) (id : Nat) : Reworked c (c.stepJob id) := by
  unfold stepJob
  split
  · exact .refl c
  · rename_i targets built scanned _
    split
    · exact reworked_setJob ..
    · have hinstall := reworked_foldl_fst (reworked_installColumn built) targets
        (c, ([] : List JsString))
      dsimp only
      split_ifs
      · exact hinstall.trans (reworked_endJob _ id)
      · exact hinstall.trans (reworked_setJob _ id _)
  · split
    · dsimp only
      split_ifs
      · exact reworked_setJob ..
      · split
        · rename_i object hread
          exact (Reworked.rewrite c _ object (some _) (by rw [hread]; rfl)).trans
            (reworked_setJob ..)
        · exact reworked_setJob ..
    · exact reworked_endJob c id
  · split
    · exact reworked_setJob ..
    · exact (reworked_foldl (reworked_installFieldIndex _) _ c).trans (reworked_endJob _ id)
  · exact reworked_stepCatchup c id

/-! ## What is kept -/

theorem kept_applyIndexDeltas (c : Collection) (deltas : List IndexDelta) :
    Kept c (c.applyIndexDeltas deltas) :=
  (reworked_applyIndexDeltas c deltas).kept

theorem kept_setMeta (c : Collection) (next : CollectionMeta) (deferIndexes : Bool) :
    Kept c (c.setMeta next deferIndexes) :=
  (reworked_setMeta c next deferIndexes).kept

theorem kept_scheduleIndexBuildsFromMeta (c : Collection) :
    Kept c c.scheduleIndexBuildsFromMeta :=
  (reworked_scheduleIndexBuildsFromMeta c).kept

theorem kept_stepJob (c : Collection) (id : Nat) : Kept c (c.stepJob id) :=
  (reworked_stepJob c id).kept

end Collection
end ObjyDb
