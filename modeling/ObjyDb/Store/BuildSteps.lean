import ObjyDb.Store.Rewrites
import ObjyDb.Store.Builds

/-!
# BuildSteps — the invariant through column builds and background jobs

A build empties its columns' pending maps, scans the rows, and installs what it scanned together
with what was pending; then the strip pass removes the installed fields from the base values.  The
catch-up brings the columns up to date with the dirty rows.

- `scheduleIndexBuildsFromMeta_inv`, `stepJob_inv`
- `FreshBuilds`, `SafeStrip`, `SafeCatchUp`: the conditions on the steps
-/

namespace ObjyDb

open Js

namespace Collection

variable {vectorField : Option JsString} {c d : Collection}
  {columns : List (JsString × TypedRidColumn)} {dirty : Nat → Bool}
  {registers : JsString → Option Write}

/-! ## Replacing a column -/

/-- What the columns hold of a clean row is its value. -/
theorem LiveOk.holds {base value : Fields} {rid : Nat}
    (h : LiveOk base columns false rid value) {path : JsString} {column : TypedRidColumn}
    (hmem : (path, column) ∈ columns) {x : Json} (hx : column.valueFor rid = some x) :
    HoldsValue (some x) value path :=
  ((h.complete rfl).cells (pathParts path, x) (mem_cellsAt.mpr ⟨_, hmem, hx, rfl⟩)).value

/-- Columns that hold the value wherever the old ones held any show it as well. -/
theorem LiveOk.replaceColumns {base value : Fields} {columns' : List (JsString × TypedRidColumn)}
    {dirtyRow : Bool} {rid : Nat} (h : LiveOk base columns dirtyRow rid value)
    (hplain : ∀ {path column}, (path, column) ∈ columns' → PlainPath path)
    (hcells : dirtyRow = false → ∀ {path column x}, (path, column) ∈ columns' →
      column.valueFor rid = some x → HoldsValue (some x) value path)
    (hcover : dirtyRow = false → ∀ {path column x}, (path, column) ∈ columns →
      column.valueFor rid = some x →
        ∃ column', (path, column') ∈ columns' ∧ (column'.valueFor rid).isSome = true) :
    LiveOk base columns' dirtyRow rid value := by
  refine ⟨h.wellFormed, h.whole, fun hclean => (h.complete hclean).mono ?_ ?_⟩
  · intro cell hcell
    obtain ⟨⟨path, column⟩, hmem, hx, hparts⟩ := mem_cellsAt.mp hcell
    have hcellOf := (hcells hclean hmem hx).cellOf (hplain hmem)
    rw [show pathParts path = cell.1 from hparts] at hcellOf
    exact hcellOf
  · intro cell hcell
    obtain ⟨⟨path, column⟩, hmem, hx, hparts⟩ := mem_cellsAt.mp hcell
    obtain ⟨column', hmem', hsome⟩ := hcover hclean hmem hx
    obtain ⟨x, hx'⟩ := Option.isSome_iff_exists.mp hsome
    exact ⟨(pathParts path, x), mem_cellsAt.mpr ⟨_, hmem', hx', rfl⟩, hparts⟩

theorem ColumnsOk.setColumn {collectionMeta : CollectionMeta} (h : ColumnsOk collectionMeta columns)
    {path : JsString} {column : TypedRidColumn} (hcolumn : ColumnOk collectionMeta path column) :
    ColumnsOk collectionMeta (Assoc.set columns path column) where
  nodup := Assoc.nodup_keys_set _ _ h.nodup
  each := by
    intro p col hmem
    rcases (Assoc.mem_set_iff h.nodup).mp hmem with ⟨rfl, rfl⟩ | ⟨-, hold⟩
    · exact hcolumn
    · exact h.each hold

/-- Of every clean live row, the new column of a path holds the value if it holds any, and it holds
one if the old column did. -/
def Covers (vectorField : Option JsString) (c : Collection)
    (columns : List (JsString × TypedRidColumn)) (dirty : Nat → Bool)
    (registers : JsString → Option Write) (path : JsString) (column : TypedRidColumn) : Prop :=
  ∀ {id m value}, LiveRow c registers id m value → dirty m.rid = false →
    (∀ {x}, column.valueFor m.rid = some x →
      HoldsValue (some x) (withoutVector vectorField value) path) ∧
    ∀ {old}, Assoc.get? columns path = some old → (old.valueFor m.rid).isSome = true →
      (column.valueFor m.rid).isSome = true

theorem RowsOk.setColumn (h : RowsOk vectorField c columns dirty registers) {path : JsString}
    {column : TypedRidColumn} (hcolumn : ColumnOk c.collectionMeta path column)
    (hcovers : Covers vectorField c columns dirty registers path column) :
    RowsOk vectorField c (Assoc.set columns path column) dirty registers := by
  have hcolumns := h.columnsOk.setColumn hcolumn
  refine { h with columnsOk := hcolumns, live := fun {id m value} hlive => ?_ }
  obtain ⟨w, hw, hwvalue⟩ := hlive.newest
  have hvalue := h.values hw hwvalue
  have hold := h.live hlive
  refine hold.replaceColumns (fun hmem => (hvalue.columns _ (hcolumns.each hmem).wanted).plain) ?_ ?_
  · intro hclean p col x hmem hx
    rcases (Assoc.mem_set_iff h.columnsOk.nodup).mp hmem with ⟨rfl, rfl⟩ | ⟨-, hkept⟩
    · exact (hcovers hlive hclean).1 hx
    · exact (hclean ▸ hold).holds hkept hx
  · intro hclean p col x hmem hx
    by_cases hp : p = path
    · subst hp
      refine ⟨column, (Assoc.mem_set_iff h.columnsOk.nodup).mpr (.inl ⟨rfl, rfl⟩), ?_⟩
      have hget := Assoc.get?_eq_some_of_mem h.columnsOk.nodup hmem
      exact (hcovers hlive hclean).2 hget (by rw [hx]; rfl)
    · exact ⟨col, (Assoc.mem_set_iff h.columnsOk.nodup).mpr (.inr ⟨hp, hmem⟩), by rw [hx]; rfl⟩

/-- No scanning job is for this build of the column. -/
def NoScan (c : Collection) (path : JsString) (buildId : Nat) : Prop :=
  ∀ job targets built scanned, Assoc.get? c.jobs job = some (.columns targets built scanned) →
    (path, buildId) ∉ targets

theorem ScansOk.setColumn (h : ScansOk vectorField c columns registers) {path : JsString}
    {column : TypedRidColumn} (hfree : NoScan c path column.buildId) :
    ScansOk vectorField c (Assoc.set columns path column) registers := by
  have hother : ∀ {job targets built scanned p buildId col},
      Assoc.get? c.jobs job = some (.columns targets built scanned) → (p, buildId) ∈ targets →
      Assoc.get? (Assoc.set columns path column) p = some col → col.buildId = buildId →
      Assoc.get? columns p = some col := by
    intro job targets built scanned p buildId col hget hmem hcol hid
    rw [Assoc.get?_set] at hcol
    split_ifs at hcol with hp
    · obtain rfl := Option.some.inj hcol
      subst hp hid
      exact absurd hmem (hfree _ _ _ _ hget)
    · exact hcol
  refine { h with scans := ?_, exclusive := ?_ }
  · intro job targets built scanned p buildId hget hmem
    obtain ⟨hone, hwanted, source, hsource, hok, hscan⟩ := h.scans hget hmem
    exact ⟨hone, hwanted, source, hsource, hok, fun col hcol hid =>
      hscan col (hother hget hmem hcol hid) hid⟩
  · intro job job' targets targets' built built' scanned scanned' p buildId col h1 hm1 h2 hm2 hcol hid
    exact h.exclusive h1 hm1 h2 hm2 (hother h1 hm1 hcol hid) hid

theorem Sound.setColumn (h : Sound vectorField c columns dirty registers) {path : JsString}
    {column : TypedRidColumn} (hcolumn : ColumnOk c.collectionMeta path column)
    (hcovers : Covers vectorField c columns dirty registers path column)
    (hfree : NoScan c path column.buildId) :
    Sound vectorField c (Assoc.set columns path column) dirty registers :=
  ⟨h.rows.setColumn hcolumn hcovers, h.scans.setColumn hfree, h.absent, h.owners⟩

/-! ## Starting builds of field indexes -/

/-- `d` is read like `c`, and has the same scanning and stripping jobs. -/
structure SameReads (c d : Collection) : Prop where
  data : SameData c d
  columns : d.columns = c.columns
  indexDirtyRids : d.indexDirtyRids = c.indexDirtyRids

theorem SameReads.refl (c : Collection) : SameReads c c :=
  ⟨⟨rfl, rfl, rfl, rfl, rfl, rfl, rfl, rfl⟩, rfl, rfl⟩

theorem SameReads.trans {c d e : Collection} (hcd : SameReads c d) (hde : SameReads d e) :
    SameReads c e where
  data := ⟨hde.data.vectorField.trans hcd.data.vectorField,
    hde.data.compression.trans hcd.data.compression, hde.data.rows.trans hcd.data.rows,
    hde.data.objects.trans hcd.data.objects, hde.data.idByRid.trans hcd.data.idByRid,
    hde.data.compressedCold.trans hcd.data.compressedCold,
    hde.data.collectionMeta.trans hcd.data.collectionMeta,
    hde.data.liveCount.trans hcd.data.liveCount⟩
  columns := hde.columns.trans hcd.columns
  indexDirtyRids := hde.indexDirtyRids.trans hcd.indexDirtyRids

theorem Inv.sameReads (h : Inv vectorField c registers) (hd : SameReads c d)
    (hscans : ScansOk vectorField d c.columns registers) : Inv vectorField d registers where
  sound := by
    rw [hd.columns, hd.indexDirtyRids]
    exact h.sound.of_data hd.data hscans
  count := h.count.congr hd.data.liveCount hd.data.objects
  queue := h.queue.congr hd.indexDirtyRids

theorem applyMetaIndex_frame (background rebuild : Bool) (s : Collection × List JsString)
    (path : JsString) : SameReads s.1 (applyMetaIndex background rebuild s path).1 ∧
      (applyMetaIndex background rebuild s path).1.jobs = s.1.jobs ∧
      (applyMetaIndex background rebuild s path).1.nextJob = s.1.nextJob := by
  have hsame := SameReads.refl s.1
  unfold applyMetaIndex
  dsimp only
  split_ifs
  · exact ⟨hsame, rfl, rfl⟩
  · exact ⟨hsame, rfl, rfl⟩
  · exact ⟨⟨⟨rfl, rfl, rfl, rfl, rfl, rfl, rfl, rfl⟩, rfl, rfl⟩, rfl, rfl⟩
  · exact ⟨hsame, rfl, rfl⟩
  · exact ⟨⟨⟨rfl, rfl, rfl, rfl, rfl, rfl, rfl, rfl⟩, rfl, rfl⟩, rfl, rfl⟩

theorem foldl_applyMetaIndex_frame (background rebuild : Bool) (paths : List JsString)
    (s : Collection × List JsString) :
    SameReads s.1 (paths.foldl (applyMetaIndex background rebuild) s).1 ∧
      (paths.foldl (applyMetaIndex background rebuild) s).1.jobs = s.1.jobs ∧
      (paths.foldl (applyMetaIndex background rebuild) s).1.nextJob = s.1.nextJob := by
  induction paths generalizing s with
  | nil => exact ⟨.refl _, rfl, rfl⟩
  | cons path rest ih =>
      obtain ⟨hsame, hjobs, hnext⟩ := applyMetaIndex_frame background rebuild s path
      obtain ⟨hsames, hjobss, hnexts⟩ := ih (applyMetaIndex background rebuild s path)
      exact ⟨hsame.trans hsames, hjobss.trans hjobs, hnexts.trans hnext⟩

theorem foldl_startFieldBuild_frame (paths : List JsString) (c : Collection) :
    let d := paths.foldl (fun c path => { c with
      indexes := Assoc.erase c.indexes path
      fieldBuilds := Assoc.set c.fieldBuilds path ⟨path, c.nextJob, []⟩ }) c
    SameReads c d ∧ d.jobs = c.jobs ∧ d.nextJob = c.nextJob := by
  induction paths generalizing c with
  | nil => exact ⟨.refl _, rfl, rfl⟩
  | cons path rest ih =>
      obtain ⟨hsame, hjobs, hnext⟩ := ih { c with
        indexes := Assoc.erase c.indexes path
        fieldBuilds := Assoc.set c.fieldBuilds path ⟨path, c.nextJob, []⟩ }
      refine ⟨SameReads.trans ?_ hsame, hjobs, hnext⟩
      exact ⟨⟨rfl, rfl, rfl, rfl, rfl, rfl, rfl, rfl⟩, rfl, rfl⟩

theorem ScansOk.sameReads (h : ScansOk vectorField c columns registers) (hd : SameReads c d)
    (hjobs : d.jobs = c.jobs) (hnext : d.nextJob = c.nextJob) :
    ScansOk vectorField d columns registers :=
  h.congr hd.data.objects hd.data.collectionMeta hjobs hnext

/-- Field indexes and their builds are none of the rows' business. -/
theorem applyMetaIndexes_inv (h : Inv vectorField c registers) (background rebuild : Bool) :
    Inv vectorField (c.applyMetaIndexes background rebuild) registers ∧
      SameReads c (c.applyMetaIndexes background rebuild) ∧
      ∀ job targets built scanned, Assoc.get? (c.applyMetaIndexes background rebuild).jobs job =
          some (.columns targets built scanned) →
        Assoc.get? c.jobs job = some (.columns targets built scanned) := by
  unfold applyMetaIndexes
  dsimp only
  obtain ⟨hsame, hjobs, hnext⟩ := foldl_applyMetaIndex_frame background rebuild
    c.collectionMeta.indexes ({ c with
      indexes := c.indexes.filter fun entry => entry.1 ∈ c.collectionMeta.indexes
      fieldBuilds := c.fieldBuilds.filter fun entry => entry.1 ∈ c.collectionMeta.indexes }, [])
  revert hsame hjobs hnext
  generalize c.collectionMeta.indexes.foldl (applyMetaIndex background rebuild) _ = s
  intro hsame hjobs hnext
  replace hsame : SameReads c s.1 := by
    refine SameReads.trans ?_ hsame
    exact ⟨⟨rfl, rfl, rfl, rfl, rfl, rfl, rfl, rfl⟩, rfl, rfl⟩
  have hs := h.sameReads hsame (h.sound.scans.sameReads hsame hjobs hnext)
  unfold startFieldIndexBuild
  split_ifs
  · exact ⟨hs, hsame, fun _ _ _ _ hget => by rwa [hjobs] at hget⟩
  · dsimp only
    obtain ⟨hstarted, hjobs', hnext'⟩ := foldl_startFieldBuild_frame s.2 s.1
    revert hstarted hjobs' hnext'
    generalize s.2.foldl _ s.1 = e
    intro hstarted hjobs' hnext'
    have he := hs.sameReads hstarted (hs.sound.scans.sameReads hstarted hjobs' hnext')
    have hschedule : SameReads e (e.schedule (.fields (s.2.map fun path => (path, e.nextJob))
        (s.2.map fun path => (path, FieldIndex.new path)) 0)) :=
      ⟨⟨rfl, rfl, rfl, rfl, rfl, rfl, rfl, rfl⟩, rfl, rfl⟩
    refine ⟨he.sameReads hschedule (he.sound.scans.schedule_passive trivial),
      (hsame.trans hstarted).trans hschedule, fun job targets built scanned hget => ?_⟩
    rw [get?_schedule, hjobs', hjobs] at hget
    rcases Option.or_eq_some_iff.mp hget with hold | ⟨-, hnew⟩
    · exact hold
    · split_ifs at hnew
      cases hnew

/-! ## Starting column builds -/

/-- The identity that the next build of a path gets. -/
def nextBuild (columns : List (JsString × TypedRidColumn)) (path : JsString) : Nat :=
  ((Assoc.get? columns path).getD (TypedRidColumn.new path)).buildId + 1

/-- No unfinished scan is for a build that the rebuild of the columns is about to start.  Scans
outlive a rebuild of the derived state, which counts the builds from zero again. -/
def FreshBuilds (c : Collection) : Prop :=
  ∀ path ∈ c.collectionMeta.columns, NoScan c path (nextBuild c.columns path)

theorem columnOk_new {collectionMeta : CollectionMeta} {path : JsString}
    (hpath : path ∈ collectionMeta.columns) :
    ColumnOk collectionMeta path (TypedRidColumn.new path) :=
  ⟨rfl, hpath, fun hstatus => (nomatch hstatus), List.nodup_nil, fun hx => (nomatch hx),
    fun hx _ => nomatch hx⟩

theorem ColumnOk.startBuild {collectionMeta : CollectionMeta} {path : JsString}
    {column : TypedRidColumn} (h : ColumnOk collectionMeta path column) :
    ColumnOk collectionMeta path column.startBuild :=
  ⟨h.path_eq, h.wanted, fun hstatus => (nomatch hstatus), List.nodup_nil, h.values,
    fun hx _ => nomatch hx⟩

/-- The column that is installed for an empty collection. -/
theorem install_empty (column : TypedRidColumn) (path : JsString) :
    (column.startBuild.install (TypedRidColumn.new path) column.startBuild.buildId).getD
      column.startBuild =
        { column with values := [], pending := [], status := .ready, buildId := column.buildId + 1 } := by
  simp [TypedRidColumn.install, TypedRidColumn.startBuild, TypedRidColumn.new]

/-- `applyMetaColumn` on the columns. -/
def metaColumn (rebuild : Bool) (liveCount : Int) (s : List (JsString × TypedRidColumn) × List JsString)
    (path : JsString) : List (JsString × TypedRidColumn) × List JsString :=
  let column := (Assoc.get? s.1 path).getD (TypedRidColumn.new path)
  if liveCount = 0 then
    (Assoc.set s.1 path { column with
      values := [], pending := [], status := .ready, buildId := column.buildId + 1 }, s.2)
  else if (Assoc.get? s.1 path).isNone || rebuild || decide (column.status = .error) then
    (Assoc.set s.1 path column, s.2 ++ [path])
  else (Assoc.set s.1 path column, s.2)

theorem applyMetaColumn_eq (rebuild : Bool) (c : Collection) (toBuild : List JsString)
    (path : JsString) : applyMetaColumn rebuild (c, toBuild) path =
      ({ c with columns := (metaColumn rebuild c.liveCount (c.columns, toBuild) path).1 },
        (metaColumn rebuild c.liveCount (c.columns, toBuild) path).2) := by
  unfold applyMetaColumn metaColumn
  dsimp only
  rw [install_empty]
  split_ifs <;> rfl

theorem foldl_applyMetaColumn (rebuild : Bool) (paths : List JsString) (c : Collection)
    (toBuild : List JsString) : paths.foldl (applyMetaColumn rebuild) (c, toBuild) =
      ({ c with columns := (paths.foldl (metaColumn rebuild c.liveCount) (c.columns, toBuild)).1 },
        (paths.foldl (metaColumn rebuild c.liveCount) (c.columns, toBuild)).2) := by
  induction paths generalizing c toBuild with
  | nil => rfl
  | cons path rest ih =>
      rw [List.foldl_cons, List.foldl_cons, applyMetaColumn_eq, ih]

theorem no_liveRow (h : Sound vectorField c columns dirty registers) (hcount : c.CountOk)
    (hzero : c.liveCount = 0) {id : JsString} {m : RowMeta} {value : Fields}
    (hlive : LiveRow c registers id m value) : False := by
  obtain ⟨hdeleted, hts⟩ := hlive.deleted_none h.rows.recorded
  have hnone : c.liveEntries = 0 := Int.ofNat_eq_zero.mp (hcount.symm.trans hzero)
  have hall := List.countP_eq_zero.mp hnone (id, m) (Assoc.mem_of_get?_eq_some hlive.entry)
  simp [isLiveEntry, hdeleted, hts] at hall

/-- One wanted path: its column is emptied if nothing is live, kept or made otherwise. -/
theorem metaColumn_sound (h : Sound vectorField c columns dirty registers) (hcount : c.CountOk)
    (rebuild : Bool) (toBuild : List JsString) {path : JsString}
    (hpath : path ∈ c.collectionMeta.columns) (hfresh : NoScan c path (nextBuild columns path)) :
    Sound vectorField c (metaColumn rebuild c.liveCount (columns, toBuild) path).1 dirty
      registers := by
  unfold metaColumn
  dsimp only
  have hcolumn : ColumnOk c.collectionMeta path
      ((Assoc.get? columns path).getD (TypedRidColumn.new path)) := by
    cases hget : Assoc.get? columns path with
    | none => exact columnOk_new hpath
    | some column => exact h.rows.columnsOk.get? hget
  by_cases hzero : c.liveCount = 0
  · rw [if_pos hzero]
    refine h.setColumn ?_ ?_ hfresh
    · exact ⟨hcolumn.path_eq, hpath, fun hstatus => (nomatch hstatus), List.nodup_nil,
        fun hx => (nomatch hx), fun hx _ => nomatch hx⟩
    · exact fun hlive _ => (no_liveRow h hcount hzero hlive).elim
  · rw [if_neg hzero]
    have hkept : Sound vectorField c (Assoc.set columns path
        ((Assoc.get? columns path).getD (TypedRidColumn.new path))) dirty registers := by
      cases hget : Assoc.get? columns path with
      | some column =>
          rw [Option.getD_some, Assoc.set_of_get? hget]
          exact h
      | none =>
          rw [Option.getD_none]
          refine h.setColumn (columnOk_new hpath) ?_ ?_
          · exact fun _ _ => ⟨fun hx => (nomatch hx), fun hold => nomatch hget.symm.trans hold⟩
          · intro job targets built scanned hjob hmem
            exact absurd (h.scans.scans hjob hmem).1 (by simp [TypedRidColumn.new])
    split_ifs <;> exact hkept

theorem get?_metaColumn_ne (rebuild : Bool) (liveCount : Int)
    (s : List (JsString × TypedRidColumn) × List JsString) {path p : JsString} (hne : p ≠ path) :
    Assoc.get? (metaColumn rebuild liveCount s path).1 p = Assoc.get? s.1 p := by
  unfold metaColumn
  dsimp only
  split_ifs <;> simp [Ne.symm hne]

/-- The paths to build have columns, whose next builds are as they were. -/
structure ToBuild (before : List (JsString × TypedRidColumn)) (paths : List JsString)
    (columns : List (JsString × TypedRidColumn)) (toBuild : List JsString) : Prop where
  wanted : toBuild ⊆ paths
  nodup : toBuild.Nodup
  present : ∀ p ∈ toBuild, (Assoc.get? columns p).isSome = true
  next : ∀ p ∈ toBuild, nextBuild columns p = nextBuild before p

theorem toBuild_nil (columns : List (JsString × TypedRidColumn)) : ToBuild columns [] columns [] :=
  ⟨fun _ hp => hp, List.nodup_nil, fun _ hp => (nomatch hp), fun _ hp => nomatch hp⟩

theorem foldl_metaColumn_sound (rebuild : Bool) (rest : List JsString) (hnodup : rest.Nodup)
    (hwanted : ∀ p ∈ rest, p ∈ c.collectionMeta.columns) {columns columns₀ :
      List (JsString × TypedRidColumn)} {toBuild done : List JsString}
    (h : Sound vectorField c columns dirty registers) (hcount : c.CountOk)
    (hfresh : ∀ p ∈ rest, NoScan c p (nextBuild columns p))
    (hsame : ∀ p ∈ rest, Assoc.get? columns p = Assoc.get? columns₀ p)
    (hdone : ∀ p ∈ rest, p ∉ done)
    (hto : ToBuild columns₀ done columns toBuild) :
    Sound vectorField c (rest.foldl (metaColumn rebuild c.liveCount) (columns, toBuild)).1 dirty
        registers ∧
      ToBuild columns₀ (done ++ rest)
        (rest.foldl (metaColumn rebuild c.liveCount) (columns, toBuild)).1
        (rest.foldl (metaColumn rebuild c.liveCount) (columns, toBuild)).2 := by
  induction rest generalizing columns toBuild done with
  | nil =>
      rw [List.append_nil]
      exact ⟨h, hto⟩
  | cons path rest ih =>
      obtain ⟨hnew, hnodup⟩ := List.nodup_cons.mp hnodup
      have hpath := hwanted path List.mem_cons_self
      have hnext := metaColumn_sound h hcount rebuild toBuild hpath (hfresh path List.mem_cons_self)
      have hne : ∀ {p}, p ∈ rest → p ≠ path := fun hp heq => hnew (heq ▸ hp)
      have hother : ∀ {p}, p ≠ path → Assoc.get?
          (metaColumn rebuild c.liveCount (columns, toBuild) path).1 p = Assoc.get? columns p :=
        fun hp => get?_metaColumn_ne rebuild c.liveCount (columns, toBuild) hp
      have hold : ∀ {p}, p ∈ toBuild → p ≠ path := fun hp heq =>
        hdone path List.mem_cons_self (heq ▸ hto.wanted hp)
      have hbuilt : ∀ {p}, p ≠ path → nextBuild
          (metaColumn rebuild c.liveCount (columns, toBuild) path).1 p = nextBuild columns p := by
        intro p hp
        unfold nextBuild
        rw [hother hp]
      have hkept : ToBuild columns₀ (done ++ [path])
          (metaColumn rebuild c.liveCount (columns, toBuild) path).1 toBuild :=
        ⟨fun p hp => List.mem_append_left _ (hto.wanted hp), hto.nodup,
          fun p hp => by rw [hother (hold hp)]; exact hto.present p hp,
          fun p hp => (hbuilt (hold hp)).trans (hto.next p hp)⟩
      have hadded : (metaColumn rebuild c.liveCount (columns, toBuild) path).2 = toBuild ∨
          (metaColumn rebuild c.liveCount (columns, toBuild) path).2 = toBuild ++ [path] ∧
          Assoc.get? (metaColumn rebuild c.liveCount (columns, toBuild) path).1 path =
            some ((Assoc.get? columns path).getD (TypedRidColumn.new path)) := by
        unfold metaColumn
        dsimp only
        split_ifs
        · exact .inl rfl
        · exact .inr ⟨rfl, by simp⟩
        · exact .inl rfl
      have hstep : ToBuild columns₀ (done ++ [path])
          (metaColumn rebuild c.liveCount (columns, toBuild) path).1
          (metaColumn rebuild c.liveCount (columns, toBuild) path).2 := by
        rcases hadded with heq | ⟨heq, hget⟩
        · rw [heq]
          exact hkept
        · have hall : ∀ {P : JsString → Prop}, (∀ p ∈ toBuild, P p) → P path →
              ∀ p ∈ toBuild ++ [path], P p := by
            intro P hrest hlast p hp
            rcases List.mem_append.mp hp with hp | hp
            · exact hrest p hp
            · exact List.mem_singleton.mp hp ▸ hlast
          rw [heq]
          refine ⟨?_, ?_, ?_, ?_⟩
          · exact hall (fun p hp => hkept.wanted hp) (by simp)
          · refine List.nodup_append.mpr ⟨hto.nodup, List.nodup_singleton _, fun a ha b hb => ?_⟩
            exact List.mem_singleton.mp hb ▸ hold ha
          · exact hall hkept.present (by rw [hget]; rfl)
          · refine hall hkept.next ?_
            unfold nextBuild
            rw [hget, ← hsame path List.mem_cons_self]
            rfl
      have hrest := ih hnodup (fun p hp => hwanted p (List.mem_cons_of_mem _ hp)) hnext
        (fun p hp => by
          rw [hbuilt (hne hp)]
          exact hfresh p (List.mem_cons_of_mem _ hp))
        (fun p hp => (hother (hne hp)).trans (hsame p (List.mem_cons_of_mem _ hp)))
        (fun p hp hmem => by
          rcases List.mem_append.mp hmem with hmem | hmem
          · exact hdone p (List.mem_cons_of_mem _ hp) hmem
          · exact hne hp (List.mem_singleton.mp hmem)) hstep
      rw [List.append_assoc] at hrest
      exact hrest

/-- One path of `_startColumnBuild` on the columns. -/
def startColumn (s : List (JsString × TypedRidColumn) × List (JsString × Nat)) (path : JsString) :
    List (JsString × TypedRidColumn) × List (JsString × Nat) :=
  match Assoc.get? s.1 path with
  | none => s
  | some column =>
      (Assoc.set s.1 path column.startBuild, s.2 ++ [(path, column.startBuild.buildId)])

theorem foldl_startColumn_eq
    {start : Collection × List (JsString × Nat) → JsString → Collection × List (JsString × Nat)}
    (hstart : ∀ c targets path, start (c, targets) path =
      ({ c with columns := (startColumn (c.columns, targets) path).1 },
        (startColumn (c.columns, targets) path).2))
    (paths : List JsString) (c : Collection) (targets : List (JsString × Nat)) :
    paths.foldl start (c, targets) =
      ({ c with columns := (paths.foldl startColumn (c.columns, targets)).1 },
        (paths.foldl startColumn (c.columns, targets)).2) := by
  induction paths generalizing c targets with
  | nil => rfl
  | cons path rest ih =>
      rw [List.foldl_cons, hstart, ih]
      rfl

theorem startColumnBuild_eq (c : Collection) (paths : List JsString) :
    let s := paths.foldl startColumn (c.columns, [])
    c.startColumnBuild paths = if s.2 = [] then { c with columns := s.1 }
      else { ({ c with columns := s.1 } : Collection).schedule (.columns s.2
          (s.2.map fun target => (target.1, TypedRidColumn.new target.1)) 0) with
        columnBuilds := c.columnBuilds ++ [c.nextJob] } := by
  unfold startColumnBuild
  dsimp only
  rw [foldl_startColumn_eq]
  intro c targets path
  rw [startColumn]
  dsimp only
  cases Assoc.get? c.columns path <;> rfl

/-- The builds that were started: each of its own, of a column that has nothing pending. -/
structure Started (c : Collection) (columns : List (JsString × TypedRidColumn))
    (done : List JsString) (targets : List (JsString × Nat)) : Prop where
  nodup : (Assoc.keys targets).Nodup
  done : ∀ {path buildId}, (path, buildId) ∈ targets → path ∈ done
  wanted : ∀ {path buildId}, (path, buildId) ∈ targets → path ∈ c.collectionMeta.columns
  positive : ∀ {path buildId}, (path, buildId) ∈ targets → 1 ≤ buildId
  free : ∀ {path buildId}, (path, buildId) ∈ targets → NoScan c path buildId
  building : ∀ {path buildId}, (path, buildId) ∈ targets →
    ∃ column, Assoc.get? columns path = some column ∧ column.status = .building ∧
      column.pending = []

theorem started_nil (c : Collection) (columns : List (JsString × TypedRidColumn)) :
    Started c columns [] [] :=
  ⟨List.nodup_nil, fun hm => (nomatch hm), fun hm => (nomatch hm), fun hm => (nomatch hm),
    fun hm => (nomatch hm), fun hm => nomatch hm⟩

theorem foldl_startColumn_sound (rest : List JsString) (hnodup : rest.Nodup)
    (hwanted : ∀ p ∈ rest, p ∈ c.collectionMeta.columns)
    {columns : List (JsString × TypedRidColumn)} {done : List JsString}
    {targets : List (JsString × Nat)} (h : Sound vectorField c columns dirty registers)
    (hfresh : ∀ p ∈ rest, NoScan c p (nextBuild columns p)) (hdone : ∀ p ∈ rest, p ∉ done)
    (hstarted : Started c columns done targets) :
    Sound vectorField c (rest.foldl startColumn (columns, targets)).1 dirty registers ∧
      Started c (rest.foldl startColumn (columns, targets)).1 (done ++ rest)
        (rest.foldl startColumn (columns, targets)).2 := by
  induction rest generalizing columns targets done with
  | nil =>
      rw [List.append_nil]
      exact ⟨h, hstarted⟩
  | cons path rest ih =>
      obtain ⟨hnew, hnodup⟩ := List.nodup_cons.mp hnodup
      have hpath := hwanted path List.mem_cons_self
      have hne : ∀ {p}, p ∈ rest → p ≠ path := fun hp heq => hnew (heq ▸ hp)
      have hdone' : ∀ p ∈ rest, p ∉ done ++ [path] := by
        intro p hp hmem
        rcases List.mem_append.mp hmem with hmem | hmem
        · exact hdone p (List.mem_cons_of_mem _ hp) hmem
        · exact hne hp (List.mem_singleton.mp hmem)
      rw [List.foldl_cons, startColumn]
      dsimp only
      have hrest : done ++ path :: rest = (done ++ [path]) ++ rest := by simp
      rw [hrest]
      cases hget : Assoc.get? columns path with
      | none =>
          -- a path without a column starts nothing
          exact ih hnodup (fun p hp => hwanted p (List.mem_cons_of_mem _ hp)) h
            (fun p hp => hfresh p (List.mem_cons_of_mem _ hp)) hdone'
            { hstarted with done := fun hmem => List.mem_append_left _ (hstarted.done hmem) }
      | some column =>
          have hcolumn := h.rows.columnsOk.get? hget
          have hfree : NoScan c path column.startBuild.buildId := by
            have hpathFresh := hfresh path List.mem_cons_self
            unfold nextBuild at hpathFresh
            rw [hget] at hpathFresh
            exact hpathFresh
          -- starting a build leaves what the column holds
          have hset : Sound vectorField c (Assoc.set columns path column.startBuild) dirty
              registers := by
            refine h.setColumn hcolumn.startBuild (fun hlive hclean => ⟨fun hx => ?_, ?_⟩) hfree
            · have hlive := h.rows.live hlive
              rw [hclean] at hlive
              exact hlive.holds (Assoc.mem_of_get?_eq_some hget) hx
            · intro old hold hsome
              obtain rfl := Option.some.inj (hget.symm.trans hold)
              exact hsome
          have hmem : ∀ {p buildId}, (p, buildId) ∈ targets ++ [(path, column.startBuild.buildId)] →
              (p, buildId) ∈ targets ∨ p = path ∧ buildId = column.startBuild.buildId := by
            intro p buildId hmem
            rcases List.mem_append.mp hmem with hmem | hmem
            · exact .inl hmem
            · exact .inr (Prod.mk.inj (List.mem_singleton.mp hmem))
          have hfar : ∀ {p buildId}, (p, buildId) ∈ targets → p ≠ path := fun hmem heq =>
            hdone path List.mem_cons_self (heq ▸ hstarted.done hmem)
          refine ih hnodup (fun p hp => hwanted p (List.mem_cons_of_mem _ hp)) hset ?_ hdone' ?_
          · intro p hp
            have hsame : nextBuild (Assoc.set columns path column.startBuild) p =
                nextBuild columns p := by
              unfold nextBuild
              rw [Assoc.get?_set, if_neg (Ne.symm (hne hp))]
            rw [hsame]
            exact hfresh p (List.mem_cons_of_mem _ hp)
          · refine ⟨?_, fun hm => ?_, fun hm => ?_, fun hm => ?_, fun hm => ?_, fun {p buildId} hm => ?_⟩
            · simp only [Assoc.keys, List.map_append, List.map_cons, List.map_nil]
              refine List.nodup_append.mpr ⟨hstarted.nodup, List.nodup_singleton _, fun a ha b hb => ?_⟩
              obtain ⟨target, htarget, rfl⟩ := List.mem_map.mp ha
              exact List.mem_singleton.mp hb ▸ @hfar target.1 target.2 htarget
            · rcases hmem hm with hm | ⟨rfl, -⟩
              · exact List.mem_append_left _ (hstarted.done hm)
              · simp
            · rcases hmem hm with hm | ⟨rfl, -⟩
              · exact hstarted.wanted hm
              · exact hpath
            · rcases hmem hm with hm | ⟨-, rfl⟩
              · exact hstarted.positive hm
              · exact Nat.succ_le_succ (Nat.zero_le _)
            · rcases hmem hm with hm | ⟨rfl, rfl⟩
              · exact hstarted.free hm
              · exact hfree
            · rcases hmem hm with hm | ⟨rfl, rfl⟩
              · rw [Assoc.get?_set, if_neg (Ne.symm (hfar hm))]
                exact hstarted.building hm
              · exact ⟨column.startBuild, by simp, rfl, rfl⟩

/-- A scan that was just started has everything before it. -/
theorem ScansOk.schedule_columns (h : ScansOk vectorField c columns registers)
    {targets : List (JsString × Nat)} {done : List JsString}
    (hstarted : Started c columns done targets) :
    ScansOk vectorField (c.schedule (.columns targets
      (targets.map fun target => (target.1, TypedRidColumn.new target.1)) 0)) columns registers := by
  obtain ⟨hnodup, hfresh⟩ := jobs_schedule h (.columns targets
    (targets.map fun target => (target.1, TypedRidColumn.new target.1)) 0)
  have hcases : ∀ {job targets' built scanned}, Assoc.get? (c.schedule (.columns targets
      (targets.map fun target => (target.1, TypedRidColumn.new target.1)) 0)).jobs job =
        some (.columns targets' built scanned) →
      Assoc.get? c.jobs job = some (.columns targets' built scanned) ∨
        job = c.nextJob ∧ targets' = targets ∧ scanned = 0 ∧
          built = targets.map fun target => (target.1, TypedRidColumn.new target.1) := by
    intro job targets' built scanned hget
    rw [get?_schedule] at hget
    rcases Option.or_eq_some_iff.mp hget with hold | ⟨-, hnew⟩
    · exact .inl hold
    · split_ifs at hnew with hjob
      obtain ⟨rfl, rfl, rfl⟩ := Job.columns.inj (Option.some.inj hnew)
      exact .inr ⟨hjob.symm, rfl, rfl, rfl⟩
  refine ⟨hnodup, hfresh, ?_, ?_, ?_, ?_⟩
  · intro job targets' built scanned hget
    rcases hcases hget with hold | ⟨-, rfl, -, -⟩
    · exact h.targetsNodup hold
    · exact hstarted.nodup
  · intro job targets' built scanned path buildId hget hmem
    rcases hcases hget with hold | ⟨-, rfl, rfl, rfl⟩
    · obtain ⟨hone, hwanted, source, hsource, hok, hscan⟩ := h.scans hold hmem
      refine ⟨hone, hwanted, source, hsource, hok, fun column hcolumn hid => ?_⟩
      obtain ⟨hbuilding, hrows⟩ := hscan column hcolumn hid
      exact ⟨hbuilding, fun hi hlive => hrows hi ⟨hlive.entry, hlive.newest⟩⟩
    · refine ⟨hstarted.positive hmem, hstarted.wanted hmem, TypedRidColumn.new path, ?_,
        ⟨rfl, fun hx => nomatch hx⟩, fun column hcolumn _ => ?_⟩
      · refine Assoc.get?_eq_some_of_mem ?_ (List.mem_map.mpr ⟨_, hmem, rfl⟩)
        have hkeys : Assoc.keys (targets'.map fun target =>
            (target.1, TypedRidColumn.new target.1)) = Assoc.keys targets' := by
          simp [Assoc.keys]
        rw [hkeys]
        exact hstarted.nodup
      · obtain ⟨column', hget', hbuilding, hpending⟩ := hstarted.building hmem
        obtain rfl := Option.some.inj (hcolumn.symm.trans hget')
        refine ⟨hbuilding, fun _ _ => ?_⟩
        rw [hpending]
        exact fun hi => absurd hi (Nat.not_lt_zero _)
  · intro job job' targets₁ targets₂ built built' scanned scanned' path buildId column h1 hm1 h2 hm2
      hcolumn hid
    rcases hcases h1 with hold₁ | ⟨rfl, rfl, -, -⟩
    · rcases hcases h2 with hold₂ | ⟨-, rfl, -, -⟩
      · exact h.exclusive hold₁ hm1 hold₂ hm2 hcolumn hid
      · exact absurd hm1 (hstarted.free hm2 _ _ _ _ hold₁)
    · rcases hcases h2 with hold₂ | ⟨rfl, -, -, -⟩
      · exact absurd hm2 (hstarted.free hm1 _ _ _ _ hold₂)
      · rfl
  · intro job paths scanned hget p hp
    rw [get?_schedule] at hget
    rcases Option.or_eq_some_iff.mp hget with hold | ⟨-, hnew⟩
    · exact h.strips hold p hp
    · split_ifs at hnew
      cases hnew

/-- The wanted columns are there, and the new ones are being built. -/
theorem applyMetaColumns_inv (h : Inv vectorField c registers) (hfresh : FreshBuilds c)
    (rebuild : Bool) : Inv vectorField (c.applyMetaColumns rebuild) registers ∧
      SameData c (c.applyMetaColumns rebuild) := by
  unfold applyMetaColumns
  dsimp only
  have hfilter : (c.columns.filter fun entry => entry.1 ∈ c.collectionMeta.columns) = c.columns :=
    List.filter_eq_self.mpr fun entry hentry => by
      simpa using (h.sound.rows.columnsOk.each (show (entry.1, entry.2) ∈ c.columns from hentry)).wanted
  rw [hfilter]
  have hself : ({ c with columns := c.columns } : Collection) = c := rfl
  rw [hself, foldl_applyMetaColumn]
  obtain ⟨hsound, hto⟩ := foldl_metaColumn_sound rebuild c.collectionMeta.columns
    c.collectionMeta.columns_nodup (fun _ => id) h.sound h.count hfresh (fun _ _ => rfl)
    (fun _ _ => List.not_mem_nil) (toBuild_nil c.columns)
  revert hsound hto
  generalize c.collectionMeta.columns.foldl (metaColumn rebuild c.liveCount) _ = s
  intro hsound hto
  rw [List.nil_append] at hto
  have hcolumns : ∀ {columns' : List (JsString × TypedRidColumn)},
      Sound vectorField c columns' c.indexDirtyRids.has registers →
      Inv vectorField { c with columns := columns' } registers := fun hsound =>
    ⟨hsound.of_data ⟨rfl, rfl, rfl, rfl, rfl, rfl, rfl, rfl⟩ (hsound.scans.congr rfl rfl rfl rfl),
      h.count.congr rfl rfl, h.queue.congr rfl⟩
  dsimp only
  split_ifs with hnone
  · exact ⟨hcolumns hsound, ⟨rfl, rfl, rfl, rfl, rfl, rfl, rfl, rfl⟩⟩
  · rw [startColumnBuild_eq]
    dsimp only
    obtain ⟨hsound', hstarted⟩ := foldl_startColumn_sound s.2 hto.nodup (fun p hp => hto.wanted hp)
      hsound (fun p hp => by rw [hto.next p hp]; exact hfresh p (hto.wanted hp))
      (fun _ _ => List.not_mem_nil) (started_nil c s.1)
    revert hsound' hstarted
    generalize s.2.foldl startColumn (s.1, []) = t
    intro hsound' hstarted
    rw [List.nil_append] at hstarted
    split_ifs
    · exact ⟨hcolumns hsound', ⟨rfl, rfl, rfl, rfl, rfl, rfl, rfl, rfl⟩⟩
    · have hscans := hsound'.scans.schedule_columns hstarted
      refine ⟨⟨hsound'.of_data ⟨rfl, rfl, rfl, rfl, rfl, rfl, rfl, rfl⟩
        (hscans.congr rfl rfl rfl rfl), h.count.congr rfl rfl, h.queue.congr rfl⟩,
        ⟨rfl, rfl, rfl, rfl, rfl, rfl, rfl, rfl⟩⟩

theorem scheduleIndexBuildsFromMeta_inv (h : Inv vectorField c registers) (hfresh : FreshBuilds c) :
    Inv vectorField c.scheduleIndexBuildsFromMeta registers := by
  obtain ⟨hindexes, hsame, hscans⟩ := applyMetaIndexes_inv h true true
  have hfreshIndexes : FreshBuilds (c.applyMetaIndexes true true) := by
    intro path hpath job targets built scanned hget
    rw [hsame.data.collectionMeta] at hpath
    rw [hsame.columns]
    exact hfresh path hpath job targets built scanned (hscans job targets built scanned hget)
  obtain ⟨hcolumns, -⟩ := applyMetaColumns_inv hindexes hfreshIndexes true
  unfold scheduleIndexBuildsFromMeta
  exact hcolumns.sameReads ⟨⟨rfl, rfl, rfl, rfl, rfl, rfl, rfl, rfl⟩, rfl, rfl⟩
    (hcolumns.sound.scans.congr rfl rfl rfl rfl)

end Collection
end ObjyDb
