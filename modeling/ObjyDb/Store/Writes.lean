import ObjyDb.Lib.Lww
import ObjyDb.Store.Collection

/-!
# Writes — what one accepted or rejected row does to a collection

Case lemmas for the three row operations.  Each accepts a row or leaves everything but the new
metadata entry as it was; an accepted put is `overwrite`, an accepted delete is `clear`, up to the
counters of the collection.

- `putObject_cases`, `deleteObject_cases`, `applySnapshotObject_cases`
- `SameDerived`: the frame that writing a row keeps
- `Recorded`: the metadata entry of an object as a last-writer-wins register
-/

namespace ObjyDb

open Js

/-! ## Frames -/

/-- `d` is `c` up to the counters. -/
def Counted (c d : Collection) : Prop :=
  ∃ live shards unsharded totals, d = { c with
    liveCount := live
    shardIds := shards
    unshardedLiveCount := unsharded
    compressionTotals := totals }

/-- `d` has the configuration, the indexes, the columns and the jobs of `c`. -/
structure SameDerived (c d : Collection) : Prop where
  vectorField : d.vectorField = c.vectorField
  compression : d.compression = c.compression
  indexes : d.indexes = c.indexes
  fieldBuilds : d.fieldBuilds = c.fieldBuilds
  columns : d.columns = c.columns
  columnBuilds : d.columnBuilds = c.columnBuilds
  indexDirtyRids : d.indexDirtyRids = c.indexDirtyRids
  indexDirtyBuild : d.indexDirtyBuild = c.indexDirtyBuild
  collectionMeta : d.collectionMeta = c.collectionMeta
  jobs : d.jobs = c.jobs
  nextJob : d.nextJob = c.nextJob

theorem SameDerived.refl (c : Collection) : SameDerived c c :=
  ⟨rfl, rfl, rfl, rfl, rfl, rfl, rfl, rfl, rfl, rfl, rfl⟩

theorem SameDerived.trans {c d e : Collection} (hcd : SameDerived c d) (hde : SameDerived d e) :
    SameDerived c e where
  vectorField := hde.vectorField.trans hcd.vectorField
  compression := hde.compression.trans hcd.compression
  indexes := hde.indexes.trans hcd.indexes
  fieldBuilds := hde.fieldBuilds.trans hcd.fieldBuilds
  columns := hde.columns.trans hcd.columns
  columnBuilds := hde.columnBuilds.trans hcd.columnBuilds
  indexDirtyRids := hde.indexDirtyRids.trans hcd.indexDirtyRids
  indexDirtyBuild := hde.indexDirtyBuild.trans hcd.indexDirtyBuild
  collectionMeta := hde.collectionMeta.trans hcd.collectionMeta
  jobs := hde.jobs.trans hcd.jobs
  nextJob := hde.nextJob.trans hcd.nextJob

namespace Counted

theorem refl (c : Collection) : Counted c c := ⟨_, _, _, _, rfl⟩

theorem trans {c d e : Collection} (hcd : Counted c d) (hde : Counted d e) : Counted c e := by
  obtain ⟨_, _, _, _, rfl⟩ := hcd
  obtain ⟨_, _, _, _, rfl⟩ := hde
  exact ⟨_, _, _, _, rfl⟩

theorem sameDerived {c d : Collection} (h : Counted c d) : SameDerived c d := by
  obtain ⟨_, _, _, _, rfl⟩ := h
  exact ⟨rfl, rfl, rfl, rfl, rfl, rfl, rfl, rfl, rfl, rfl, rfl⟩

/-- The rows and their metadata do not depend on the counters. -/
theorem rows_eq {c d : Collection} (h : Counted c d) :
    d.rows = c.rows ∧ d.vectors = c.vectors ∧ d.objects = c.objects ∧ d.idByRid = c.idByRid ∧
      d.compressedCold = c.compressedCold := by
  obtain ⟨_, _, _, _, rfl⟩ := h
  exact ⟨rfl, rfl, rfl, rfl, rfl⟩

end Counted

namespace Collection

theorem counted_addShardRid (c : Collection) (rid : Nat) (shard : Option JsString) :
    Counted c (c.addShardRid rid shard) := by
  unfold addShardRid
  cases normalizeShard shard <;> exact ⟨_, _, _, _, rfl⟩

theorem counted_removeShardRid (c : Collection) (rid : Nat) (shard : Option JsString) :
    Counted c (c.removeShardRid rid shard) := by
  unfold removeShardRid
  cases normalizeShard shard with
  | none =>
      dsimp only
      split_ifs
      · exact ⟨_, _, _, _, rfl⟩
      · exact .refl c
  | some shard =>
      dsimp only
      cases Assoc.get? c.shardIds shard with
      | none => exact .refl c
      | some rids =>
          dsimp only
          split_ifs <;> exact ⟨_, _, _, _, rfl⟩

theorem counted_liveCount (c : Collection) (n : Int) : Counted c { c with liveCount := n } :=
  ⟨_, _, _, _, rfl⟩

theorem liveCount_addShardRid (c : Collection) (rid : Nat) (shard : Option JsString) :
    (c.addShardRid rid shard).liveCount = c.liveCount := by
  unfold addShardRid
  cases normalizeShard shard <;> rfl

theorem liveCount_removeShardRid (c : Collection) (rid : Nat) (shard : Option JsString) :
    (c.removeShardRid rid shard).liveCount = c.liveCount := by
  unfold removeShardRid
  cases normalizeShard shard with
  | none =>
      dsimp only
      split_ifs <;> rfl
  | some shard =>
      dsimp only
      cases Assoc.get? c.shardIds shard with
      | none => rfl
      | some rids =>
          dsimp only
          split_ifs <;> rfl

/-- The live row count and the shard sets after a put. -/
theorem counted_put (c : Collection) (wasLive : Bool) (rid : Nat)
    (previousShard nextShard : Option JsString) :
    Counted c (if !wasLive then
        ({ c with liveCount := c.liveCount + 1 }).addShardRid rid nextShard
      else if previousShard ≠ nextShard then
        (c.removeShardRid rid previousShard).addShardRid rid nextShard
      else c) := by
  split_ifs
  · refine (counted_liveCount c (c.liveCount + 1)).trans ?_
    exact counted_addShardRid _ _ _
  · exact (counted_removeShardRid _ _ _).trans (counted_addShardRid _ _ _)
  · exact .refl c

theorem counted_delete (c : Collection) (wasLive : Bool) (rid : Nat)
    (previousShard : Option JsString) :
    Counted c (if wasLive then
        ({ c with liveCount := c.liveCount - 1 }).removeShardRid rid previousShard
      else c) := by
  split_ifs
  · refine (counted_liveCount c (c.liveCount - 1)).trans ?_
    exact counted_removeShardRid _ _ _
  · exact .refl c

theorem liveCount_put (c : Collection) (wasLive : Bool) (rid : Nat)
    (previousShard nextShard : Option JsString) :
    (if !wasLive then ({ c with liveCount := c.liveCount + 1 }).addShardRid rid nextShard
      else if previousShard ≠ nextShard then
        (c.removeShardRid rid previousShard).addShardRid rid nextShard
      else c).liveCount = c.liveCount + if wasLive then 0 else 1 := by
  cases wasLive with
  | false => exact liveCount_addShardRid _ _ _
  | true =>
      simp only [Bool.not_true, Bool.false_eq_true, if_false, if_true, add_zero]
      split_ifs
      · rw [liveCount_addShardRid, liveCount_removeShardRid]
      · rfl

theorem liveCount_delete (c : Collection) (wasLive : Bool) (rid : Nat)
    (previousShard : Option JsString) :
    (if wasLive then ({ c with liveCount := c.liveCount - 1 }).removeShardRid rid previousShard
      else c).liveCount = c.liveCount - if wasLive then 1 else 0 := by
  cases wasLive with
  | false => exact (sub_zero c.liveCount).symm
  | true => exact liveCount_removeShardRid _ _ _

/-! ## Metadata entries -/

/-- Every entry of `meta` owns its row id, and no id has two entries. -/
structure RidsOk (c : Collection) : Prop where
  nodup : (Assoc.keys c.objects).Nodup
  owned : ∀ {id m}, Assoc.get? c.objects id = some m → c.idByRid[m.rid]? = some id

theorem RidsOk.rid_ne {c : Collection} (h : c.RidsOk) {id id' : JsString} {m m' : RowMeta}
    (hm : Assoc.get? c.objects id = some m) (hm' : Assoc.get? c.objects id' = some m')
    (hne : id ≠ id') : m.rid ≠ m'.rid := by
  intro heq
  have howned := h.owned hm
  rw [heq, h.owned hm'] at howned
  exact hne (Option.some.inj howned).symm

theorem RidsOk.get?_of_mem {c : Collection} (h : c.RidsOk) {entry : JsString × RowMeta}
    (hmem : entry ∈ c.objects) : Assoc.get? c.objects entry.1 = some entry.2 :=
  Assoc.get?_eq_some_of_mem h.nodup hmem

theorem countP_set {α β : Type} [DecidableEq α] (p : α × β → Bool) {entries : List (α × β)}
    {key : α} {old : β} (hnodup : (Assoc.keys entries).Nodup)
    (hold : Assoc.get? entries key = some old) (value : β) :
    (Assoc.set entries key value).countP p + (if p (key, old) then 1 else 0) =
      entries.countP p + if p (key, value) then 1 else 0 := by
  induction entries with
  | nil => cases hold
  | cons entry rest ih =>
      obtain ⟨k, v⟩ := entry
      obtain ⟨-, hrest⟩ := List.nodup_cons.mp hnodup
      rw [Assoc.get?_cons] at hold
      by_cases hk : k = key
      · subst hk
        rw [if_pos rfl] at hold
        obtain rfl := Option.some.inj hold
        rw [Assoc.set, if_pos rfl, List.countP_cons, List.countP_cons]
        omega
      · rw [if_neg hk] at hold
        have hset := ih hrest hold
        rw [Assoc.set, if_neg hk, List.countP_cons, List.countP_cons]
        omega

def isLiveEntry (entry : JsString × RowMeta) : Bool :=
  entry.2.ts.isSome && entry.2.deleted.isNone

/-- How many objects are live, by their metadata. -/
def liveEntries (c : Collection) : Nat :=
  c.objects.countP isLiveEntry

theorem liveEntries_set {c d : Collection} (h : c.RidsOk) {id : JsString} {m next : RowMeta}
    (hm : Assoc.get? c.objects id = some m) (hd : d.objects = Assoc.set c.objects id next) :
    d.liveEntries + (if m.ts.isSome && m.deleted.isNone then 1 else 0) =
      c.liveEntries + if next.ts.isSome && next.deleted.isNone then 1 else 0 := by
  unfold liveEntries
  rw [hd]
  exact countP_set isLiveEntry h.nodup hm next

/-- `d` is `c` with an entry for `id`. -/
structure Entered (c : Collection) (id : JsString) (d : Collection) (m : RowMeta) : Prop where
  here : Assoc.get? d.objects id = some m
  elsewhere : ∀ {id'}, id' ≠ id → Assoc.get? d.objects id' = Assoc.get? c.objects id'
  fresh : Assoc.get? c.objects id = some m ∨
    Assoc.get? c.objects id = none ∧ m.ts = none ∧ m.deleted = none ∧
      m.rid = c.idByRid.length
  same : SameDerived c d
  data : d.rows = c.rows ∧ d.vectors = c.vectors ∧ d.compressedCold = c.compressedCold
  rids : c.RidsOk → d.RidsOk
  counters : d.liveCount = c.liveCount
  keys : Assoc.keys d.objects = Assoc.keys c.objects ∨
    Assoc.get? c.objects id = none ∧ Assoc.keys d.objects = Assoc.keys c.objects ++ [id]
  live : d.liveEntries = c.liveEntries

theorem ensureMeta_entered (c : Collection) (id : JsString) :
    Entered c id (c.ensureMeta id).1 (c.ensureMeta id).2 := by
  unfold ensureMeta
  cases hget : Assoc.get? c.objects id with
  | some m =>
      exact ⟨hget, fun _ => rfl, .inl hget, .refl c, ⟨rfl, rfl, rfl⟩, fun h => h, rfl, .inl rfl, rfl⟩
  | none =>
      have hnew : id ∉ Assoc.keys c.objects := Assoc.get?_eq_none_iff.mp hget
      refine ⟨by simp, fun hne => by simp [Ne.symm hne], .inr ⟨hget, rfl, rfl, rfl⟩,
        ⟨rfl, rfl, rfl, rfl, rfl, rfl, rfl, rfl, rfl, rfl, rfl⟩, ⟨rfl, rfl, rfl⟩, ?_, rfl,
        .inr ⟨hget, (Assoc.keys_set _ _ _).trans (if_neg hnew)⟩, ?_⟩
      rotate_left
      · unfold liveEntries
        dsimp only
        rw [Assoc.set_of_notMem _ hnew, List.countP_append]
        rfl
      intro hrids
      refine ⟨Assoc.nodup_keys_set _ _ hrids.nodup, ?_⟩
      intro id' m' hm'
      rw [Assoc.get?_set] at hm'
      split_ifs at hm' with heq
      · -- the new entry has the next row id
        obtain rfl := Option.some.inj hm'
        rw [← heq]
        exact List.getElem?_concat_length
      · have howned := hrids.owned hm'
        have hlt : m'.rid < c.idByRid.length := (List.getElem?_eq_some_iff.mp howned).1
        exact (List.getElem?_append_left hlt).trans howned

theorem ridsOk_setRowMeta {c : Collection} (h : c.RidsOk) {id : JsString} {m m' : RowMeta}
    (hm : Assoc.get? c.objects id = some m) (hrid : m'.rid = m.rid) :
    (c.setRowMeta id m').RidsOk := by
  refine ⟨Assoc.nodup_keys_set _ _ h.nodup, ?_⟩
  intro id' m'' hm''
  change Assoc.get? (Assoc.set c.objects id m') id' = some m'' at hm''
  rw [Assoc.get?_set] at hm''
  split_ifs at hm'' with heq
  · obtain rfl := Option.some.inj hm''
    rw [← heq]
    exact hrid ▸ h.owned hm
  · exact h.owned hm''

/-! ## Writing a base value -/

/-- The cold and the hot part of a base value under metadata. -/
def tiered (compression : Option Compression) (collectionMeta : CollectionMeta)
    (value : Fields) : Option ColdEntry × Fields :=
  match collectionMeta.tiering, compression with
  | some tiering, some compression =>
      match splitTieredValue value tiering
          (unique (collectionMeta.indexes ++ collectionMeta.columns)) with
      | (_, none) => (none, value)
      | (hot, some cold) =>
          let encoded := compression.encodeUtf8 (stringify (.obj cold))
          if encoded.length < tiering.minBytes then (none, value)
          else (some ⟨encoded.length, compression.compress encoded⟩, hot)
  | _, _ => (none, value)

theorem tierBaseValue_eq (c : Collection) (rid : Nat) (value : Fields) :
    c.tierBaseValue rid value =
      (c.setCompressedCold rid (tiered c.compression c.collectionMeta value).1,
        (tiered c.compression c.collectionMeta value).2) := by
  unfold tierBaseValue tiered forcedHotTieringPaths
  cases c.collectionMeta.tiering with
  | none => rfl
  | some tiering =>
      cases c.compression with
      | none => rfl
      | some compression =>
          dsimp only
          rcases splitTieredValue value tiering _ with ⟨hot, - | cold⟩
          · rfl
          · dsimp only
            split_ifs <;> rfl

/-- The cold entries after a write of row `rid`. -/
def nextCold (cold : List (Nat × ColdEntry)) (rid : Nat) (entry : Option ColdEntry) :
    List (Nat × ColdEntry) :=
  match entry with
  | some entry => Assoc.set cold rid entry
  | none => Assoc.erase cold rid

@[simp] theorem get?_nextCold (cold : List (Nat × ColdEntry)) (rid : Nat)
    (entry : Option ColdEntry) (r : Nat) :
    Assoc.get? (nextCold cold rid entry) r = if rid = r then entry else Assoc.get? cold r := by
  cases entry <;> simp [nextCold]

/-- The vectors after a write of `id`. -/
def nextVectors (vectorField : Option JsString) (vectors : List (JsString × List JsNumber))
    (id : JsString) (update : VectorUpdate) : List (JsString × List JsNumber) :=
  if vectorField.isNone then vectors
  else
    match update with
    | .value vector => Assoc.set vectors id vector
    | _ => Assoc.erase vectors id

theorem applyVectorUpdate_eq (c : Collection) (id : JsString) (update : VectorUpdate) :
    c.applyVectorUpdate id update =
      { c with vectors := nextVectors c.vectorField c.vectors id update } := by
  unfold applyVectorUpdate nextVectors
  split_ifs
  · rfl
  · cases update <;> rfl

/-- The row that is left of a hot part. -/
def nextRows (rows : List (JsString × Fields)) (id : JsString) (hot : Fields) :
    List (JsString × Fields) :=
  rebuildRow rows id (hot.filter fun entry => entry.1 ≠ js "_id")

theorem writeBaseValue_counted (c : Collection) (id : JsString) (rid : Nat) (value : Fields) :
    Counted { c with
      compressedCold :=
        nextCold c.compressedCold rid (tiered c.compression c.collectionMeta value).1
      rows := nextRows c.rows id (tiered c.compression c.collectionMeta value).2 }
      (c.writeBaseValue id rid value) := by
  unfold writeBaseValue
  rw [tierBaseValue_eq]
  dsimp only
  cases (tiered c.compression c.collectionMeta value).1 <;> exact ⟨_, _, _, _, rfl⟩

/-- An accepted put of a prepared value. -/
def overwrite (c : Collection) (id : JsString) (m : RowMeta) (base : Fields)
    (vector : VectorUpdate) : Collection :=
  ((c.setRowMeta id m).writeBaseValue id m.rid base).applyVectorUpdate id vector

/-- An accepted delete. -/
def clear (c : Collection) (id : JsString) (m : RowMeta) : Collection :=
  (({ c.setRowMeta id m with rows := Assoc.erase c.rows id }).setCompressedCold m.rid
    none).removeVector id

theorem overwrite_counted (c : Collection) (id : JsString) (m : RowMeta) (base : Fields)
    (vector : VectorUpdate) :
    Counted { c with
      objects := Assoc.set c.objects id m
      compressedCold :=
        nextCold c.compressedCold m.rid (tiered c.compression c.collectionMeta base).1
      rows := nextRows c.rows id (tiered c.compression c.collectionMeta base).2
      vectors := nextVectors c.vectorField c.vectors id vector } (c.overwrite id m base vector) := by
  obtain ⟨live, shards, unsharded, totals, h⟩ :=
    (c.setRowMeta id m).writeBaseValue_counted id m.rid base
  rw [overwrite, applyVectorUpdate_eq, h]
  exact ⟨_, _, _, _, rfl⟩

theorem clear_counted (c : Collection) (id : JsString) (m : RowMeta) :
    Counted { c with
      objects := Assoc.set c.objects id m
      compressedCold := Assoc.erase c.compressedCold m.rid
      rows := Assoc.erase c.rows id
      vectors := Assoc.erase c.vectors id } (c.clear id m) :=
  ⟨_, _, _, _, rfl⟩

theorem sameDerived_overwrite (c : Collection) (id : JsString) (m : RowMeta) (base : Fields)
    (vector : VectorUpdate) : SameDerived c (c.overwrite id m base vector) := by
  have h := (c.overwrite_counted id m base vector).sameDerived
  exact ⟨h.vectorField, h.compression, h.indexes, h.fieldBuilds, h.columns, h.columnBuilds,
    h.indexDirtyRids, h.indexDirtyBuild, h.collectionMeta, h.jobs, h.nextJob⟩

theorem sameDerived_clear (c : Collection) (id : JsString) (m : RowMeta) :
    SameDerived c (c.clear id m) :=
  ⟨rfl, rfl, rfl, rfl, rfl, rfl, rfl, rfl, rfl, rfl, rfl⟩

theorem objects_overwrite (c : Collection) (id : JsString) (m : RowMeta) (base : Fields)
    (vector : VectorUpdate) :
    (c.overwrite id m base vector).objects = Assoc.set c.objects id m :=
  (c.overwrite_counted id m base vector).rows_eq.2.2.1

theorem objects_clear (c : Collection) (id : JsString) (m : RowMeta) :
    (c.clear id m).objects = Assoc.set c.objects id m := rfl

theorem liveCount_setCompressedCold (c : Collection) (rid : Nat) (entry : Option ColdEntry) :
    (c.setCompressedCold rid entry).liveCount = c.liveCount := by
  cases entry <;> rfl

theorem liveCount_writeBaseValue (c : Collection) (id : JsString) (rid : Nat) (value : Fields) :
    (c.writeBaseValue id rid value).liveCount = c.liveCount := by
  unfold writeBaseValue
  rw [tierBaseValue_eq]
  exact liveCount_setCompressedCold _ _ _

theorem liveCount_overwrite (c : Collection) (id : JsString) (m : RowMeta) (base : Fields)
    (vector : VectorUpdate) : (c.overwrite id m base vector).liveCount = c.liveCount := by
  rw [overwrite, applyVectorUpdate_eq]
  exact liveCount_writeBaseValue (c.setRowMeta id m) id m.rid base

theorem liveCount_clear (c : Collection) (id : JsString) (m : RowMeta) :
    (c.clear id m).liveCount = c.liveCount := rfl

theorem overwrite_elsewhere (c : Collection) (id : JsString) (m : RowMeta) (base : Fields)
    (vector : VectorUpdate) {id' : JsString} (hne : id' ≠ id) :
    Assoc.get? (c.overwrite id m base vector).objects id' = Assoc.get? c.objects id' := by
  rw [(c.overwrite_counted id m base vector).rows_eq.2.2.1]
  simp [Ne.symm hne]

theorem clear_elsewhere (c : Collection) (id : JsString) (m : RowMeta) {id' : JsString}
    (hne : id' ≠ id) : Assoc.get? (c.clear id m).objects id' = Assoc.get? c.objects id' := by
  rw [(c.clear_counted id m).rows_eq.2.2.1]
  simp [Ne.symm hne]

/-! ## Rows -/

theorem get?_rebuildRow (rows : List (JsString × Fields)) (id : JsString) (live : Fields)
    (k : JsString) :
    (Assoc.get? (rebuildRow rows id live) k).getD [] =
      if id = k then live.foldl (fun value entry => assign value entry.1 entry.2) []
      else (Assoc.get? rows k).getD [] := by
  unfold rebuildRow
  by_cases hlive : live = []
  · rw [if_pos hlive, Assoc.get?_erase, hlive]
    split_ifs <;> rfl
  · rw [if_neg hlive, Assoc.get?_set, Assoc.get?_erase]
    split_ifs <;> rfl

/-! ## Case lemmas -/

/-- The entry holds nothing that a write at `ts` does not supersede. -/
structure Older (m : RowMeta) (ts : Ts) : Prop where
  deleted : ∀ {d}, m.deleted = some d → d < ts
  written : ∀ {t}, m.ts = some t → t < ts

theorem stale_iff (last : Option Ts) (ts : Ts) :
    (last.isSome && !gt (some ts) last) = false ↔ ∀ t, last = some t → t < ts := by
  cases last with
  | none => simp
  | some last => simp [gt_some_iff]

/-- The object that a delta shows before the write. -/
def shownBefore (c : Collection) (id : JsString) (m : RowMeta) : Option Fields :=
  if m.ts.isSome && m.deleted.isNone then c.read id else none

/-- The base value that a put writes. -/
def putBase (c : Collection) (keepColumnFields : Bool) (value : Fields) : Fields :=
  if keepColumnFields || c.hasDirtyIndexes then value else c.baseValueForStorage value none

theorem putObject_cases {ω : Type} (c : Collection) (row : Row ω) (keep : Bool)
    {d : Collection} {m : RowMeta} (hm : c.ensureMeta row.id = (d, m)) :
    (¬ Older m row.ts ∧ c.putObject row keep = (d, .ok none)) ∨
    (Older m row.ts ∧ ∃ err, d.prepareStoredValue row.value = .error err ∧
      c.putObject row keep = (d, .error err)) ∨
    (Older m row.ts ∧ ∃ value vector after, ∃ next : RowMeta,
      d.prepareStoredValue row.value = .ok (value, vector) ∧
      next.ts = some row.ts ∧ next.deleted = none ∧ next.rid = m.rid ∧
      Counted (d.overwrite row.id next (d.putBase keep value) vector) after ∧
      after.liveCount = d.liveCount + (if m.ts.isSome && m.deleted.isNone then 0 else 1) ∧
      c.putObject row keep = (after, .ok (some
        ⟨m.rid, d.shownBefore row.id m, some (queryObjectFromStoredValue row.id value)⟩))) := by
  unfold putObject
  rw [hm]
  dsimp only
  by_cases hdel : (m.deleted.isSome && !gt (some row.ts) m.deleted) = true
  · left
    refine ⟨fun hold => ?_, if_pos hdel⟩
    rw [(stale_iff _ _).mpr fun _ => hold.deleted] at hdel
    cases hdel
  rw [if_neg hdel]
  by_cases hts : (m.ts.isSome && !gt (some row.ts) m.ts) = true
  · left
    refine ⟨fun hold => ?_, if_pos hts⟩
    rw [(stale_iff _ _).mpr fun _ => hold.written] at hts
    cases hts
  rw [if_neg hts]
  have hold : Older m row.ts :=
    ⟨fun {d} => (stale_iff _ _).mp (Bool.eq_false_iff.mpr hdel) d,
      fun {t} => (stale_iff _ _).mp (Bool.eq_false_iff.mpr hts) t⟩
  cases hprep : d.prepareStoredValue row.value with
  | error err => exact .inr (.inl ⟨hold, err, rfl, rfl⟩)
  | ok prepared =>
      obtain ⟨value, vector⟩ := prepared
      let next : RowMeta := { m with
        ts := some row.ts, deleted := none, shard := (normalizeShard row.shard).or m.shard }
      refine .inr (.inr ⟨hold, value, vector, _, next, rfl, rfl, rfl, rfl, ?_, ?_, rfl⟩)
      · exact counted_put (d.overwrite row.id next (d.putBase keep value) vector) _ _ _ _
      · refine (liveCount_put (d.overwrite row.id next (d.putBase keep value) vector) _ _ _ _).trans ?_
        rw [liveCount_overwrite]

theorem deleteObject_cases {ω : Type} (c : Collection) (row : Row ω)
    {d : Collection} {m : RowMeta} (hm : c.ensureMeta row.id = (d, m)) :
    ((∃ last, m.deleted.or m.ts = some last ∧ row.ts ≤ last) ∧
      c.deleteObject row = (d, none)) ∨
    ((∀ last, m.deleted.or m.ts = some last → last < row.ts) ∧ ∃ after, ∃ next : RowMeta,
      next.ts = m.ts ∧ next.deleted = some row.ts ∧ next.rid = m.rid ∧
      Counted (d.clear row.id next) after ∧
      after.liveCount = d.liveCount - (if m.ts.isSome && m.deleted.isNone then 1 else 0) ∧
      c.deleteObject row = (after, some ⟨m.rid, d.shownBefore row.id m, none⟩)) := by
  unfold deleteObject
  rw [hm]
  dsimp only
  by_cases hstale : ((m.deleted.or m.ts).isSome && !gt (some row.ts) (m.deleted.or m.ts)) = true
  · left
    refine ⟨?_, if_pos hstale⟩
    cases hlast : m.deleted.or m.ts with
    | none => simp [hlast] at hstale
    | some last =>
        refine ⟨last, rfl, not_lt.mp fun hlt => ?_⟩
        rw [hlast, (stale_iff _ _).mpr fun t ht => Option.some.inj ht ▸ hlt] at hstale
        cases hstale
  · right
    rw [if_neg hstale]
    let next : RowMeta := { m with
      deleted := some row.ts, shard := (normalizeShard row.shard).or m.shard }
    refine ⟨(stale_iff _ _).mp (Bool.eq_false_iff.mpr hstale), _, next, rfl, rfl, rfl, ?_, ?_, rfl⟩
    · exact counted_delete (d.clear row.id next) _ _ _
    · exact liveCount_delete (d.clear row.id next) _ _ _

/-- What an applied snapshot row does before the columns are refreshed. -/
inductive SnapshotWrite (d : Collection) (m : RowMeta) (row : SnapshotRow) (deferred : Bool) :
    Collection → Option Fields → Prop
  | deleted {ts} (next : RowMeta) (hrow : row.deleted = some ts)
      (hnewer : ∀ last, m.deleted.or m.ts = some last → last < ts)
      (hts : next.ts = row.ts.or m.ts) (hdeleted : next.deleted = some ts)
      (hrid : next.rid = m.rid) :
      SnapshotWrite d m row deferred (d.clear row.id next) none
  | live {ts value vector} (next : RowMeta) (hrow : row.deleted = none) (hrowTs : row.ts = some ts)
      (hnewer : Older m ts) (hprep : d.prepareStoredValue row.value = .ok (value, vector))
      (hts : next.ts = some ts) (hdeleted : next.deleted = none) (hrid : next.rid = m.rid) :
      SnapshotWrite d m row deferred
        (d.overwrite row.id next
          (if deferred then value else d.baseValueForStorage value none) vector) (some value)

/-- A snapshot row that the entry makes superfluous. -/
def SnapshotStale (m : RowMeta) (row : SnapshotRow) : Prop :=
  (∃ ts last, row.deleted = some ts ∧ m.deleted.or m.ts = some last ∧ ts ≤ last) ∨
    row.deleted = none ∧ ∀ ts, row.ts = some ts → ¬ Older m ts

theorem applySnapshotObject_cases (c : Collection) (row : SnapshotRow) (deferred : Bool)
    {d : Collection} {m : RowMeta} (hm : c.ensureMeta row.id = (d, m)) :
    (SnapshotStale m row ∧ c.applySnapshotObject row deferred = (d, .ok false)) ∨
    (row.deleted = none ∧ ∃ err, d.prepareStoredValue row.value = .error err ∧
      c.applySnapshotObject row deferred = (d, .error err)) ∨
    ∃ e after, SnapshotWrite d m row deferred e after ∧
      c.applySnapshotObject row deferred = (e.refreshColumns m.rid after, .ok true) := by
  unfold applySnapshotObject
  rw [hm]
  dsimp only
  cases hdel : row.deleted with
  | some ts =>
      dsimp only
      by_cases hstale : ((m.deleted.or m.ts).isSome && !gt (some ts) (m.deleted.or m.ts)) = true
      · left
        refine ⟨.inl ?_, if_pos hstale⟩
        cases hlast : m.deleted.or m.ts with
        | none => simp [hlast] at hstale
        | some last =>
            refine ⟨ts, last, hdel, rfl, not_lt.mp fun hlt => ?_⟩
            rw [hlast, (stale_iff _ _).mpr fun t ht => Option.some.inj ht ▸ hlt] at hstale
            cases hstale
      · right; right
        rw [if_neg hstale]
        let next : RowMeta := { m with
          ts := row.ts.or m.ts, deleted := some ts
          shard := (normalizeShard row.shard).or m.shard }
        exact ⟨d.clear row.id next, none, .deleted next hdel
          ((stale_iff _ _).mp (Bool.eq_false_iff.mpr hstale)) rfl rfl rfl, rfl⟩
  | none =>
      dsimp only
      cases hts : row.ts with
      | none =>
          left
          exact ⟨.inr ⟨hdel, fun ts h => by rw [hts] at h; cases h⟩, rfl⟩
      | some ts =>
          dsimp only
          by_cases hdeleted : (m.deleted.isSome && !gt (some ts) m.deleted) = true
          · left
            refine ⟨.inr ⟨hdel, fun ts' h hold => ?_⟩, if_pos hdeleted⟩
            obtain rfl := Option.some.inj (hts.symm.trans h)
            rw [(stale_iff _ _).mpr fun _ => hold.deleted] at hdeleted
            cases hdeleted
          rw [if_neg hdeleted]
          by_cases hwritten : (m.ts.isSome && !gt (some ts) m.ts) = true
          · left
            refine ⟨.inr ⟨hdel, fun ts' h hold => ?_⟩, if_pos hwritten⟩
            obtain rfl := Option.some.inj (hts.symm.trans h)
            rw [(stale_iff _ _).mpr fun _ => hold.written] at hwritten
            cases hwritten
          rw [if_neg hwritten]
          have hold : Older m ts :=
            ⟨fun {d} => (stale_iff _ _).mp (Bool.eq_false_iff.mpr hdeleted) d,
              fun {t} => (stale_iff _ _).mp (Bool.eq_false_iff.mpr hwritten) t⟩
          right
          cases hprep : d.prepareStoredValue row.value with
          | error err => exact .inl ⟨rfl, err, rfl, rfl⟩
          | ok prepared =>
              obtain ⟨value, vector⟩ := prepared
              let next : RowMeta := { m with
                ts := some ts, deleted := none, shard := (normalizeShard row.shard).or m.shard }
              exact .inr ⟨_, _, .live next hdel hts hold hprep rfl rfl rfl, rfl⟩

end Collection

/-! ## Prepared values -/

/-- The value without the vector field. -/
def withoutVector (vectorField : Option JsString) (value : Fields) : Fields :=
  match vectorField with
  | none => value
  | some field => Assoc.erase value field

/-- The vector kept of a value. -/
def storedVector (vectorField : Option JsString) (value : Fields) : Option (List JsNumber) :=
  vectorField.bind fun field => (Assoc.get? value field).bind Collection.vectorOf

/-- The vector field of a value is absent, null or a vector. -/
def ValidVector (vectorField : Option JsString) (value : Fields) : Prop :=
  ∀ field raw, vectorField = some field → Assoc.get? value field = some raw →
    raw = .null ∨ ∃ vector, Collection.vectorOf raw = some vector

namespace Collection

theorem erase_of_get?_none {value : Fields} {key : JsString} (h : Assoc.get? value key = none) :
    Assoc.erase value key = value := by
  have hnone : key ∉ Assoc.keys value := Assoc.get?_eq_none_iff.mp h
  refine List.filter_eq_self.mpr fun entry hentry => ?_
  have hne : entry.1 ≠ key := fun heq => hnone (heq ▸ List.mem_map_of_mem hentry)
  simpa using hne

/-- A value with a valid vector field is accepted, and its vector is the one kept. -/
theorem prepareStoredValue_valid {vectorField : Option JsString} {c : Collection}
    (hfield : c.vectorField = vectorField) {value : Fields}
    (hvalid : ValidVector vectorField value) :
    ∃ vector, c.prepareStoredValue value = .ok (withoutVector vectorField value, vector) ∧
      ∀ id, (vectorField = none → Assoc.get? c.vectors id = none) →
        Assoc.get? (nextVectors vectorField c.vectors id vector) id =
          storedVector vectorField value := by
  subst hfield
  unfold prepareStoredValue withoutVector storedVector nextVectors
  cases hfield : c.vectorField with
  | none => exact ⟨.absent, rfl, fun id h => by simpa using h rfl⟩
  | some field =>
      dsimp only
      cases hget : Assoc.get? value field with
      | none =>
          refine ⟨.absent, ?_, fun id _ => by simp [hget]⟩
          rw [erase_of_get?_none hget]
      | some raw =>
          rcases hvalid field raw hfield hget with rfl | ⟨vector, hvector⟩
          · exact ⟨.remove, rfl, fun id _ => by simp [hget, vectorOf]⟩
          · cases raw with
            | null => cases hvector
            | _ => exact ⟨.value vector, by simp only [hvector], fun id _ => by simp [hget, hvector]⟩

end Collection

/-! ## Registers -/

/-- The effect of an operation on its object: the new value, or none for a delete. -/
structure Write where
  ts : Ts
  value : Option Fields

namespace Collection

/-- The metadata entry records the write as the newest one of `id`. -/
inductive Recorded (c : Collection) (id : JsString) : Option Write → Prop
  | nothing (hentry : ∀ m, Assoc.get? c.objects id = some m → m.ts = none ∧ m.deleted = none) :
      Recorded c id none
  | deleted {w m} (hentry : Assoc.get? c.objects id = some m) (hdeleted : m.deleted = some w.ts)
      (hts : ∀ t, m.ts = some t → t < w.ts) (hvalue : w.value = none) : Recorded c id (some w)
  | live {w m value} (hentry : Assoc.get? c.objects id = some m) (hdeleted : m.deleted = none)
      (hts : m.ts = some w.ts) (hvalue : w.value = some value) : Recorded c id (some w)

/-- A write arrives at the register of `id`. -/
def arrive (registers : JsString → Option Write) (id : JsString) (w : Write) :
    JsString → Option Write :=
  Function.update registers id (Lww.later Write.ts (registers id) w)

variable {c d : Collection} {registers : JsString → Option Write}

theorem Recorded.congr {id : JsString} {register : Option Write} (h : Recorded c id register)
    (hentry : Assoc.get? d.objects id = Assoc.get? c.objects id) : Recorded d id register := by
  cases h with
  | nothing h => exact .nothing fun m hm => h m (hentry ▸ hm)
  | deleted h hd ht hw => exact .deleted (hentry.trans h) hd ht hw
  | live h hd ht hw => exact .live (hentry.trans h) hd ht hw

/-- A write is accepted exactly when it is newer than the register. -/
theorem Recorded.older_iff {id : JsString} {register : Option Write}
    (h : Recorded c id register) {m : RowMeta} (hm : Assoc.get? c.objects id = some m)
    (ts : Ts) : Older m ts ↔ ∀ w, register = some w → w.ts < ts := by
  cases h with
  | nothing hnothing =>
      obtain ⟨hts, hdeleted⟩ := hnothing m hm
      constructor
      · intro _ w hw
        cases hw
      · intro _
        exact ⟨fun hd => (nomatch hdeleted.symm.trans hd),
          fun ht => (nomatch hts.symm.trans ht)⟩
  | @deleted w m' hentry hdeleted hts _ =>
      obtain rfl := Option.some.inj (hm.symm.trans hentry)
      constructor
      · intro hold w' hw
        exact Option.some.inj hw ▸ hold.deleted hdeleted
      · intro hnewer
        have hlt := hnewer w rfl
        exact ⟨fun hd => Option.some.inj (hdeleted.symm.trans hd) ▸ hlt,
          fun ht => (hts _ ht).trans hlt⟩
  | @live w m' _ hentry hdeleted hts _ =>
      obtain rfl := Option.some.inj (hm.symm.trans hentry)
      constructor
      · intro hold w' hw
        exact Option.some.inj hw ▸ hold.written hts
      · intro hnewer
        exact ⟨fun hd => (nomatch hdeleted.symm.trans hd),
          fun ht => Option.some.inj (hts.symm.trans ht) ▸ hnewer w rfl⟩

theorem Recorded.last_iff {id : JsString} {register : Option Write}
    (h : Recorded c id register) {m : RowMeta} (hm : Assoc.get? c.objects id = some m) :
    m.deleted.or m.ts = register.map Write.ts := by
  cases h with
  | nothing hnothing =>
      obtain ⟨hts, hdeleted⟩ := hnothing m hm
      rw [hdeleted, hts]
      rfl
  | deleted hentry hdeleted _ _ =>
      obtain rfl := Option.some.inj (hm.symm.trans hentry)
      rw [hdeleted]
      rfl
  | live hentry hdeleted hts _ =>
      obtain rfl := Option.some.inj (hm.symm.trans hentry)
      rw [hdeleted, hts]
      rfl

theorem Recorded.ts_le {id : JsString} {register : Option Write}
    (h : Recorded c id register) {m : RowMeta} (hm : Assoc.get? c.objects id = some m)
    {t : Ts} (ht : m.ts = some t) : ∃ w, register = some w ∧ t ≤ w.ts := by
  cases h with
  | nothing hnothing => rw [(hnothing m hm).1] at ht; cases ht
  | deleted hentry _ hts _ =>
      obtain rfl := Option.some.inj (hm.symm.trans hentry)
      exact ⟨_, rfl, (hts t ht).le⟩
  | live hentry _ hts _ =>
      obtain rfl := Option.some.inj (hm.symm.trans hentry)
      exact ⟨_, rfl, (Option.some.inj (hts.symm.trans ht)).ge⟩

theorem later_of_newer {register : Option Write} {w : Write}
    (h : ∀ held, register = some held → held.ts < w.ts) :
    Lww.later Write.ts register w = some w := by
  cases register with
  | none => rfl
  | some held => exact Lww.later_of_lt Write.ts (h held rfl)

theorem later_of_not_newer {register : Option Write} {w : Write}
    (h : ¬ ∀ held, register = some held → held.ts < w.ts) :
    Lww.later Write.ts register w = register := by
  cases register with
  | none => exact absurd (fun held hheld => by cases hheld) h
  | some held =>
      refine Lww.later_of_le Write.ts (not_lt.mp fun hlt => h ?_)
      intro w hw
      exact Option.some.inj hw ▸ hlt

theorem arrive_newer {id : JsString} {w : Write}
    (hnewer : ∀ held, registers id = some held → held.ts < w.ts) :
    arrive registers id w = Function.update registers id (some w) := by
  rw [arrive, later_of_newer hnewer]

end Collection
end ObjyDb
