import ObjyDb.Store.Batches

/-!
# Rewrites — rows written back without the paths of their columns

Background work reads a row and writes it back without the fields that columns hold.  Nothing is
lost when the columns really hold them.  `rebuildDerivedState` does so for all rows at once and
builds the columns from the same reads.

- `rewrite_liveOk`: one row written back
- `rebuildDerivedState_inv`
-/

namespace ObjyDb

open Js

namespace Collection

variable {vectorField : Option JsString} {c d : Collection}
  {columns : List (JsString × TypedRidColumn)} {dirty : Nat → Bool}
  {registers : JsString → Option Write}

/-! ## One row -/

/-- `d` differs from `c` in the base value of one row. -/
structure SameButRow (c : Collection) (id : JsString) (rid : Nat) (d : Collection) : Prop where
  same : SameDerived c d
  objects : d.objects = c.objects
  idByRid : d.idByRid = c.idByRid
  liveCount : d.liveCount = c.liveCount
  base : ∀ {id' rid'}, id' ≠ id → rid' ≠ rid → d.base id' rid' = c.base id' rid'

theorem rewrite_frame {id : JsString} {rid : Nat} (hid : c.idForRid rid = some id)
    (object : Fields) (paths : Option (List JsString)) :
    SameButRow c id rid (c.rewriteBaseValueForColumns rid object paths) := by
  unfold rewriteBaseValueForColumns
  rw [hid]
  dsimp only
  have hcounted := c.writeBaseValue_counted id rid
    (c.baseValueForStorage (Assoc.erase object (js "_id")) paths)
  obtain ⟨hrows, -, hobjects, hids, hcold⟩ := hcounted.rows_eq
  have hsame := hcounted.sameDerived
  exact ⟨⟨hsame.vectorField, hsame.compression, hsame.indexes, hsame.fieldBuilds, hsame.columns,
      hsame.columnBuilds, hsame.indexDirtyRids, hsame.indexDirtyBuild, hsame.collectionMeta,
      hsame.jobs, hsame.nextJob⟩, hobjects, hids, liveCount_writeBaseValue _ _ _ _,
    fun hne hrid => base_elsewhere hrows hcold hsame.compression hne hrid⟩

theorem view_erase_id {id : JsString} {object value : Fields} (h : Shows id object value) :
    ∀ q, ApartFromId q →
      (Json.obj (Assoc.erase object (js "_id"))).at q = (Json.obj value).at q :=
  fun q hq => (at_erase_id hq).trans (h.view q hq)

theorem lookup_none_of_view {object value : Fields} {path : JsString} (hpath : PlainPath path)
    (hview : ∀ q, ApartFromId q → (Json.obj object).at q = (Json.obj value).at q) :
    lookup (.obj object) (pathParts path) = none ↔ lookup (.obj value) (pathParts path) = none := by
  rw [lookup_eq_none_iff, lookup_eq_none_iff, hview _ (hpath.apart (.inl List.prefix_rfl))]

/-- A row written back without some paths shows what it showed, when its columns hold them. -/
theorem rewrite_liveOk {id : JsString} {rid : Nat} (hid : c.idForRid rid = some id)
    {object value : Fields} (hwf : (Json.obj object).WellFormed) (hshows : Shows id object value)
    (hvalue : ValueOk c.collectionMeta value) (hcolumns : ColumnsOk c.collectionMeta columns)
    {paths : List JsString} (hpaths : ∀ p ∈ paths, p ∈ c.collectionMeta.columns) {dirtyRow : Bool}
    (hwhole : dirtyRow = true → ∀ p ∈ paths, lookup (.obj value) (pathParts p) = none)
    (hkept : dirtyRow = false → ∀ p ∈ paths, lookup (.obj value) (pathParts p) ≠ none →
      ∃ column, (p, column) ∈ columns ∧ (column.valueFor rid).isSome)
    (hcells : dirtyRow = false → ∀ path column x, (path, column) ∈ columns →
      column.valueFor rid = some x → HoldsValue (some x) value path) :
    LiveOk ((c.rewriteBaseValueForColumns rid object (some paths)).base id rid) columns dirtyRow
      rid value := by
  set kept := Assoc.erase object (js "_id") with hkeptDef
  have hview := view_erase_id hshows
  have hwfKept : (Json.obj kept).WellFormed := wellFormed_filter hwf _
  have hnoId : js "_id" ∉ Assoc.keys kept := by
    rw [← Assoc.get?_eq_none_iff, hkeptDef, Assoc.get?_erase, if_pos rfl]
  have hplain : ∀ p ∈ paths, PlainPath p := fun p hp => (hvalue.columns p (hpaths p hp)).plain
  have hok := (hvalue.of_view hwfKept hview hnoId).unsetPaths hplain
  have hcounted := c.writeBaseValue_counted id rid (unsetPaths kept paths)
  obtain ⟨hrows, -, -, -, hcold⟩ := hcounted.rows_eq
  have hrewrite : c.rewriteBaseValueForColumns rid object (some paths) =
      c.writeBaseValue id rid (unsetPaths kept paths) := by
    unfold rewriteBaseValueForColumns
    rw [hid]
    rfl
  obtain ⟨hbaseWf, hbase⟩ := base_written hrows hcold hcounted.sameDerived.compression hok
  rw [← hrewrite] at hbaseWf hbase
  refine liveOk_written hcolumns hvalue hbaseWf hbase hview hplain ?_ ?_ hcells
  · intro hdirty p hp
    exact (lookup_none_of_view (hplain p hp) hview).mpr (hwhole hdirty p hp)
  · intro hclean p hp hsome
    refine hkept hclean p hp fun hnone => ?_
    rw [(lookup_none_of_view (hplain p hp) hview).mpr hnone] at hsome
    cases hsome

/-- What the rows of a collection are after one of them was written back. -/
theorem RowsOk.sameButRow (h : RowsOk vectorField c columns dirty registers) {id : JsString}
    {m : RowMeta} (hm : Assoc.get? c.objects id = some m) (hd : SameButRow c id m.rid d)
    {columns' : List (JsString × TypedRidColumn)} {dirty' : Nat → Bool}
    (hcolumns : ColumnsOk c.collectionMeta columns')
    (helsewhere : ∀ {r}, r ≠ m.rid → cellsAt columns' r = cellsAt columns r ∧ dirty' r = dirty r)
    (hhere : ∀ {value}, LiveRow c registers id m value →
      LiveOk (d.base id m.rid) columns' (dirty' m.rid) m.rid (withoutVector vectorField value)) :
    RowsOk vectorField d columns' dirty' registers where
  field := hd.same.vectorField.trans h.field
  rids := ⟨hd.objects ▸ h.rids.nodup, fun {id m} hm => by
    rw [hd.idByRid]
    exact h.rids.owned (hd.objects ▸ hm)⟩
  recorded := fun id => (h.recorded id).congr (by rw [hd.objects])
  columnsOk := hd.same.collectionMeta ▸ hcolumns
  values := fun hw hv => hd.same.collectionMeta ▸ h.values hw hv
  live := by
    intro id' m' value hlive
    have hlive' : LiveRow c registers id' m' value := ⟨hd.objects ▸ hlive.entry, hlive.newest⟩
    by_cases hid : id' = id
    · subst hid
      obtain rfl := Option.some.inj (hm.symm.trans hlive'.entry)
      exact hhere hlive'
    · have hne : m'.rid ≠ m.rid := h.rids.rid_ne hlive'.entry hm hid
      obtain ⟨hcells, hdirty⟩ := helsewhere hne
      rw [hd.base hid hne, hdirty]
      exact (h.live hlive').of_cells hcells

/-! ## Rebuilding the derived state -/

/-- The rebuild has read the entries of `done`: their rows show their values with the new columns,
the other rows are as they were. -/
structure Rebuilding (vectorField : Option JsString) (c : Collection)
    (registers : JsString → Option Write) (done : List (JsString × RowMeta)) (s : Rebuild) :
    Prop where
  same : SameDerived c s.collection
  objects : s.collection.objects = c.objects
  idByRid : s.collection.idByRid = c.idByRid
  liveCount : s.collection.liveCount = done.countP isLiveEntry
  columnsOk : ColumnsOk c.collectionMeta s.columnData
  keys : Assoc.keys s.columnData = c.collectionMeta.columns
  fresh : ∀ {path column}, (path, column) ∈ s.columnData →
    column.status = .ready ∧ column.buildId = 0 ∧ column.pending = []
  read : ∀ {id m value}, LiveRow c registers id m value → (id, m) ∈ done →
    LiveOk (s.collection.base id m.rid) s.columnData false m.rid (withoutVector vectorField value)
  unread : ∀ {id m}, Assoc.get? c.objects id = some m → id ∉ Assoc.keys done →
    s.collection.base id m.rid = c.base id m.rid

/-- An entry that is not deleted is a live row. -/
theorem Sound.liveRow (h : Sound vectorField c columns dirty registers) {id : JsString}
    {m : RowMeta} (hm : Assoc.get? c.objects id = some m) (hdeleted : m.deleted = none) :
    ∃ value, LiveRow c registers id m value := by
  refine (h.rows.recorded id).liveRow hm hdeleted ?_
  have hlast := (h.rows.recorded id).last_iff hm
  cases hregister : registers id with
  | none => cases (h.absent hregister).symm.trans hm
  | some w =>
      rw [hdeleted, hregister] at hlast
      exact Option.isSome_iff_exists.mpr ⟨w.ts, hlast⟩

theorem rebuilt_columns {collectionMeta : CollectionMeta} (h : ColumnsOk collectionMeta columns)
    (rid : Nat) (object : Fields) :
    Assoc.mapValues (fun path column => column.updateScalarState rid
      (columnScalarState (getPathValue (.obj object) path))) columns =
        updateColumns false columns rid (some object) := by
  refine List.map_congr_left fun entry hentry => Prod.ext rfl ?_
  have hpath := (h.each (show (entry.1, entry.2) ∈ columns from hentry)).path_eq
  simp [columnUpdate, columnAfter, hpath]

/-- What a row read with all columns up to date leaves to them. -/
theorem holds_updated {collectionMeta : CollectionMeta} (h : ColumnsOk collectionMeta columns)
    {object value : Fields} (hvalue : ValueOk collectionMeta value)
    (hview : ∀ q, ApartFromId q → (Json.obj object).at q = (Json.obj value).at q)
    {path : JsString} {column : TypedRidColumn} (hmem : (path, column) ∈ columns)
    (hready : column.status ≠ .building) (rid : Nat) :
    HoldsValue ((columnUpdate false column rid (some object)).valueFor rid) value path := by
  have hcolumn := h.each hmem
  rw [valueFor_columnUpdate, if_pos ⟨hready, rfl, rfl⟩, Option.bind_some, hcolumn.path_eq]
  exact holdsValue_getPathValue (hvalue.columns path hcolumn.wanted) hview

theorem HoldsValue.isSome {kept : Option Json} {value : Fields} {path : JsString}
    (h : HoldsValue kept value path) (hsome : lookup (.obj value) (pathParts path) ≠ none) :
    kept.isSome = true := by
  cases kept with
  | none => exact absurd h hsome
  | some x => rfl

theorem Rebuilding.step (h : Sound vectorField c c.columns c.indexDirtyRids.has registers)
    {done : List (JsString × RowMeta)} {s : Rebuild}
    (hs : Rebuilding vectorField c registers done s) {entry : JsString × RowMeta}
    (hentry : Assoc.get? c.objects entry.1 = some entry.2) (hnew : entry.1 ∉ Assoc.keys done) :
    Rebuilding vectorField c registers (done ++ [entry])
      (rebuildRowState c.collectionMeta.columns s entry) := by
  obtain ⟨id, m⟩ := entry
  dsimp only at hentry hnew
  unfold rebuildRowState
  dsimp only
  have hkeys : ∀ {id'}, id' ∉ Assoc.keys (done ++ [(id, m)]) → id' ≠ id ∧ id' ∉ Assoc.keys done := by
    intro id' hid
    simp only [Assoc.keys, List.map_append, List.map_cons, List.map_nil, List.mem_append,
      List.mem_singleton, not_or] at hid
    exact ⟨hid.2, hid.1⟩
  cases hdeleted : m.deleted with
  | some ts =>
      rw [Option.isSome_some, if_pos rfl]
      refine { hs with liveCount := ?_, read := ?_, unread := ?_ }
      · rw [hs.liveCount, List.countP_append]
        simp [isLiveEntry, hdeleted]
      · intro id' m' value hlive hmem
        rcases List.mem_append.mp hmem with hmem | hmem
        · exact hs.read hlive hmem
        · obtain ⟨rfl, rfl⟩ := Prod.mk.inj (List.mem_singleton.mp hmem)
          cases (hlive.deleted_none h.rows.recorded).1.symm.trans hdeleted
      · exact fun hm hid => hs.unread hm (hkeys hid).2
  | none =>
      rw [Option.isSome_none, if_neg (by simp)]
      obtain ⟨value, hlive⟩ := h.liveRow hentry hdeleted
      have hts := (hlive.deleted_none h.rows.recorded).2
      obtain ⟨w, hw, hwvalue⟩ := hlive.newest
      have hvalue := h.rows.values hw hwvalue
      have hcounted : Counted s.collection (({ s.collection with
          liveCount := s.collection.liveCount + 1 }).addShardRid m.rid m.shard) :=
        (counted_liveCount s.collection _).trans (counted_addShardRid _ _ _)
      have hcount : (({ s.collection with liveCount := s.collection.liveCount + 1 }).addShardRid
          m.rid m.shard).liveCount = s.collection.liveCount + 1 := liveCount_addShardRid _ _ _
      revert hcounted hcount
      generalize ({ s.collection with liveCount := s.collection.liveCount + 1 }).addShardRid
        m.rid m.shard = c₁
      intro hcounted hcount
      obtain ⟨hrows₁, -, hobjects₁, hids₁, hcold₁⟩ := hcounted.rows_eq
      have hbase₁ := base_of_same hrows₁ hcold₁ hcounted.sameDerived.compression
      have hsame₁ := hs.same.trans hcounted.sameDerived
      have hm₁ : Assoc.get? c₁.objects id = some m := by rw [hobjects₁, hs.objects, hentry]
      have hid₁ : c₁.idForRid m.rid = some id := by
        unfold idForRid
        rw [hids₁, hs.idByRid]
        exact h.rows.rids.owned hentry
      -- the row is read with the old columns
      have hshown : LiveOk (c₁.base id m.rid) c₁.columns (c₁.indexDirtyRids.has m.rid) m.rid
          (withoutVector vectorField value) := by
        rw [hbase₁, hs.unread hentry hnew, hsame₁.columns, hsame₁.indexDirtyRids]
        exact h.rows.live hlive
      have hvalue₁ : ValueOk c₁.collectionMeta (withoutVector vectorField value) :=
        hsame₁.collectionMeta.symm ▸ hvalue
      obtain ⟨object, hread, hwf, hshows⟩ := LiveOk.shows hm₁ hdeleted
        (by rw [hsame₁.collectionMeta, hsame₁.columns]; exact h.rows.columnsOk) hvalue₁ hshown
      rw [hread]
      dsimp only
      rw [rebuilt_columns hs.columnsOk m.rid object]
      have hframe := rewrite_frame hid₁ object (some c.collectionMeta.columns)
      have hcolumns' : ColumnsOk c.collectionMeta
          (updateColumns false s.columnData m.rid (some object)) := by
        refine hs.columnsOk.update false m.rid fun fields hfields path hpath x hx => ?_
        obtain rfl := Option.some.inj hfields
        exact wellFormed_getPathValue hwf ((hvalue.columns path hpath).of_view hshows.view) hx
      have hholds : ∀ {path column}, (path, column) ∈ s.columnData →
          HoldsValue ((columnUpdate false column m.rid (some object)).valueFor m.rid)
            (withoutVector vectorField value) path := fun hmem =>
        holds_updated hs.columnsOk hvalue hshows.view hmem (by rw [(hs.fresh hmem).1]; decide) m.rid
      refine ⟨hsame₁.trans hframe.same, hframe.objects.trans (hobjects₁.trans hs.objects),
        hframe.idByRid.trans (hids₁.trans hs.idByRid), ?_, hcolumns', ?_, ?_, ?_, ?_⟩
      · dsimp only
        rw [hframe.liveCount, hcount, hs.liveCount, List.countP_append]
        simp [isLiveEntry, hdeleted, hts]
      · dsimp only
        rw [keys_updateColumns, hs.keys]
      · intro path column hmem
        obtain ⟨old, hold, rfl⟩ := mem_updateColumns.mp hmem
        obtain ⟨hready, hbuild, hpending⟩ := hs.fresh hold
        obtain ⟨hstatus, hbuildId, -⟩ := columnUpdate_frame false old m.rid (some object)
        refine ⟨hstatus.trans hready, hbuildId.trans hbuild, ?_⟩
        exact (pending_columnUpdate_of_not_building (by rw [hready]; decide) _ _ _).trans hpending
      · intro id' m' value' hlive' hmem
        dsimp only
        rcases List.mem_append.mp hmem with hmem | hmem
        · -- a row that was read before
          have hne : id' ≠ id := fun heq => hnew (heq ▸ List.mem_map_of_mem hmem)
          have hrid : m'.rid ≠ m.rid := h.rows.rids.rid_ne hlive'.entry hentry hne
          rw [hframe.base hne hrid, hbase₁]
          exact (hs.read hlive' hmem).of_cells (cellsAt_updateColumns_ne _ _ _ _ hrid)
        · obtain ⟨rfl, rfl⟩ := Prod.mk.inj (List.mem_singleton.mp hmem)
          obtain ⟨w', hw', hwvalue'⟩ := hlive'.newest
          obtain rfl := Option.some.inj (hw'.symm.trans hw)
          obtain rfl := Option.some.inj (hwvalue'.symm.trans hwvalue)
          refine rewrite_liveOk hid₁ hwf hshows hvalue₁ (hsame₁.collectionMeta.symm ▸ hcolumns')
            (fun p hp => hsame₁.collectionMeta.symm ▸ hp) (fun h => by cases h) ?_ ?_
          · intro _ p hp hsome
            rw [← hs.keys] at hp
            obtain ⟨⟨p, column⟩, hcolumn, rfl⟩ := List.mem_map.mp hp
            exact ⟨_, mem_updateColumns.mpr ⟨column, hcolumn, rfl⟩, (hholds hcolumn).isSome hsome⟩
          · intro _ path column x hcolumn hx
            obtain ⟨old, hold, rfl⟩ := mem_updateColumns.mp hcolumn
            exact hx ▸ hholds hold
      · intro id' m' hm' hid
        obtain ⟨hne, hdone⟩ := hkeys hid
        have hrid : m'.rid ≠ m.rid := h.rows.rids.rid_ne hm' hentry hne
        dsimp only
        rw [hframe.base hne hrid, hbase₁]
        exact hs.unread hm' hdone

theorem Rebuilding.foldl (h : Sound vectorField c c.columns c.indexDirtyRids.has registers)
    (rest done : List (JsString × RowMeta)) {s : Rebuild}
    (hs : Rebuilding vectorField c registers done s) (hall : c.objects = done ++ rest) :
    Rebuilding vectorField c registers c.objects
      (rest.foldl (rebuildRowState c.collectionMeta.columns) s) := by
  induction rest generalizing done s with
  | nil =>
      rw [List.append_nil] at hall
      rw [List.foldl_nil, hall]
      exact hs
  | cons entry rest ih =>
      have hmem : entry ∈ c.objects := by
        rw [hall]
        exact List.mem_append_right _ List.mem_cons_self
      have hnodup : (Assoc.keys done ++ entry.1 :: Assoc.keys rest).Nodup := by
        have hnodup := h.rows.rids.nodup
        rw [hall] at hnodup
        simpa [Assoc.keys] using hnodup
      have hnew : entry.1 ∉ Assoc.keys done := fun hold =>
        (List.nodup_append.mp hnodup).2.2 _ hold _ List.mem_cons_self rfl
      rw [List.foldl_cons]
      exact ih (done ++ [entry]) (hs.step h (h.rows.rids.get?_of_mem hmem) hnew) (by simp [hall])

/-- `rebuildDerivedState` loses nothing, and leaves ready columns and the right count. -/
theorem rebuildDerivedState_inv
    (h : Sound vectorField c c.columns c.indexDirtyRids.has registers) :
    Inv vectorField c.rebuildDerivedState registers := by
  -- the rebuild starts from new columns and no counts, and goes through all rows
  have hstart : Rebuilding vectorField c registers [] {
      collection := { c with liveCount := 0, shardIds := [], unshardedLiveCount := 0 }
      fieldIndexes := c.collectionMeta.indexes.map fun path => (path, FieldIndex.new path)
      columnData := c.collectionMeta.columns.map fun path => (path, TypedRidColumn.new path) } := by
    have hkeys : Assoc.keys (c.collectionMeta.columns.map fun path =>
        (path, TypedRidColumn.new path)) = c.collectionMeta.columns := by
      rw [Assoc.keys, List.map_map]
      exact List.map_id _
    have hnew : ∀ {path column}, (path, column) ∈ c.collectionMeta.columns.map (fun path =>
        (path, TypedRidColumn.new path)) → path ∈ c.collectionMeta.columns ∧
          column = TypedRidColumn.new path := by
      intro path column hmem
      obtain ⟨p, hp, heq⟩ := List.mem_map.mp hmem
      obtain ⟨rfl, rfl⟩ := Prod.mk.inj heq
      exact ⟨hp, rfl⟩
    refine ⟨⟨rfl, rfl, rfl, rfl, rfl, rfl, rfl, rfl, rfl, rfl, rfl⟩, rfl, rfl, rfl,
      ⟨?_, fun hmem => ?_⟩, hkeys, fun hmem => ?_, fun _ hmem => (by cases hmem), fun _ _ => rfl⟩
    · rw [hkeys]
      exact c.collectionMeta.columns_nodup
    · obtain ⟨hp, rfl⟩ := hnew hmem
      exact ⟨rfl, hp, fun hstatus => (by cases hstatus), List.nodup_nil,
        fun hx => (by cases hx), fun hx _ => by cases hx⟩
    · obtain ⟨-, rfl⟩ := hnew hmem
      exact ⟨rfl, rfl, rfl⟩
  have hs := Rebuilding.foldl h c.objects [] hstart rfl
  unfold rebuildDerivedState
  dsimp only
  revert hs
  generalize c.objects.foldl (rebuildRowState c.collectionMeta.columns) _ = s
  intro hs
  set e : Collection := { s.collection with
    indexes := s.fieldIndexes
    fieldBuilds := []
    columns := s.columnData
    columnBuilds := []
    indexDirtyRids := .empty
    indexDirtyBuild := none } with he
  have hobjects : e.objects = c.objects := hs.objects
  have hmeta : e.collectionMeta = c.collectionMeta := hs.same.collectionMeta
  have hjobs : e.jobs = c.jobs := hs.same.jobs
  -- nothing is dirty afterwards, so that every row is as the columns have it
  have hclean : e.indexDirtyRids.has = fun _ => false := by
    funext r
    simp [he, RidBitmapQueue.has, RidBitmapQueue.empty]
  refine ⟨⟨⟨hs.same.vectorField.trans h.rows.field, ?_, ?_, hmeta ▸ hs.columnsOk, ?_, ?_⟩, ?_,
    fun hnone => hobjects ▸ h.absent hnone, h.owners.congr hobjects hs.idByRid⟩, ?_,
    fun r hr => ?_⟩
  · exact ⟨hobjects ▸ h.rows.rids.nodup, fun {id m} hm => by
      change s.collection.idByRid[m.rid]? = some id
      rw [hs.idByRid]
      exact h.rows.rids.owned (hobjects ▸ hm)⟩
  · exact fun id => (h.rows.recorded id).congr (by rw [hobjects])
  · exact fun hw hv => hmeta ▸ h.rows.values hw hv
  · intro id m value hlive
    have hlive' : LiveRow c registers id m value := ⟨hobjects ▸ hlive.entry, hlive.newest⟩
    rw [hclean]
    exact hs.read hlive' (Assoc.mem_of_get?_eq_some hlive'.entry)
  · -- a job from before the rebuild has no column to install into
    have hno : ∀ {job targets built scanned path buildId column},
        Assoc.get? c.jobs job = some (.columns targets built scanned) → (path, buildId) ∈ targets →
        Assoc.get? e.columns path = some column → column.buildId ≠ buildId := by
      intro job targets built scanned path buildId column hget hmem hcolumn heq
      have hzero := (hs.fresh (Assoc.mem_of_get?_eq_some hcolumn)).2.1
      have hone := (h.scans.scans hget hmem).1
      omega
    refine ⟨hjobs ▸ h.scans.jobsNodup, ?_, fun hget => h.scans.targetsNodup (hjobs ▸ hget), ?_, ?_,
      fun hget => hmeta ▸ h.scans.strips (hjobs ▸ hget)⟩
    · intro id hid
      have hlt := h.scans.jobsFresh (hjobs ▸ hid)
      rw [← hs.same.nextJob] at hlt
      exact hlt
    · intro job targets built scanned path buildId hget hmem
      obtain ⟨hone, hwanted, source, hsource, hok, -⟩ := h.scans.scans (hjobs ▸ hget) hmem
      exact ⟨hone, hmeta ▸ hwanted, source, hsource, hok, fun column hcolumn hid =>
        absurd hid (hno (hjobs ▸ hget) hmem hcolumn)⟩
    · intro job job' targets targets' built built' scanned scanned' path buildId column hget hmem
        _ _ hcolumn hid
      exact absurd hid (hno (hjobs ▸ hget) hmem hcolumn)
  · change s.collection.liveCount = s.collection.objects.countP isLiveEntry
    rw [hs.liveCount, hs.objects]
  · rw [hclean] at hr
    cases hr

end Collection
end ObjyDb
