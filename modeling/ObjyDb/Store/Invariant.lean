import ObjyDb.Store.Rows

/-!
# Invariant — every live row shows the newest write of its object

`RowsOk` relates a collection to one last-writer-wins register for each id: the metadata entries
record the registers, and every live row shows the value of its register through its base value and
the columns.  The columns are an argument of their own, because a batch writes all its rows before
the columns hear of any of them; `updateColumns` is what they hear of one row.

- `RowsOk.overwrite`, `RowsOk.clear`: one row is written or deleted
- `putRows_rowsOk`, `deleteRows_rowsOk`: a batch, up to its deltas
- `RowsOk.read`: what a collection returns
-/

namespace ObjyDb

open Js

namespace Collection

variable {vectorField : Option JsString} {c d : Collection}
  {columns : List (JsString × TypedRidColumn)} {dirty : Nat → Bool}
  {registers : JsString → Option Write}

/-! ## Values of columns -/

/-- The value kept for a path is that of the object, up to the order of fields. -/
def HoldsValue (kept : Option Json) (value : Fields) (path : JsString) : Prop :=
  match kept with
  | none => lookup (.obj value) (pathParts path) = none
  | some x => ∃ y, lookup (.obj value) (pathParts path) = some y ∧ ∀ q, x.at q = y.at q

theorem HoldsValue.cellOf {x : Json} {value : Fields} {path : JsString}
    (h : HoldsValue (some x) value path) (hpath : PlainPath path) :
    CellOf (.obj value) (pathParts path, x) :=
  ⟨hpath.ne_nil, hpath.noProto, h⟩

/-- Reading a path of an object that shows the value gives what is to be kept. -/
theorem holdsValue_getPathValue {object value : Fields} {path : JsString}
    (hpath : PlainFor (.obj value) path)
    (hview : ∀ q, ApartFromId q → (Json.obj object).at q = (Json.obj value).at q) :
    HoldsValue (getPathValue (.obj object) path) value path := by
  rw [(hpath.of_view hview).getPathValue_eq]
  have hself := hview (pathParts path) (hpath.plain.apart (Or.inl List.prefix_rfl))
  cases hobject : lookup (.obj object) (pathParts path) with
  | none =>
      exact lookup_eq_none_iff.mpr (hself ▸ lookup_eq_none_iff.mp hobject)
  | some x =>
      cases hvalue : lookup (.obj value) (pathParts path) with
      | none =>
          have habs := hself.trans (lookup_eq_none_iff.mp hvalue)
          rw [lookup_eq_none_iff.mpr habs] at hobject
          cases hobject
      | some y =>
          refine ⟨y, hvalue, fun q => ?_⟩
          have hq := hview (pathParts path ++ q)
            (hpath.plain.apart (Or.inl (List.prefix_append _ _)))
          rwa [at_append hobject, at_append hvalue] at hq

theorem wellFormed_getPathValue {object : Fields} {path : JsString}
    (hwf : (Json.obj object).WellFormed) (hpath : PlainFor (.obj object) path) {x : Json}
    (hx : getPathValue (.obj object) path = some x) : x.WellFormed := by
  rw [hpath.getPathValue_eq] at hx
  exact wellFormed_lookup hwf hx

/-! ## What the columns hear of a written row -/

/-- A column after a row was written: a building one takes it down, a ready one keeps the value
unless the row is dirty. -/
def columnUpdate (dirtyRow : Bool) (column : TypedRidColumn) (rid : Nat)
    (after : Option Fields) : TypedRidColumn :=
  if column.status = .building ∨ dirtyRow = false then columnAfter column rid after else column

def updateColumns (dirtyRow : Bool) (columns : List (JsString × TypedRidColumn)) (rid : Nat)
    (after : Option Fields) : List (JsString × TypedRidColumn) :=
  Assoc.mapValues (fun _ column => columnUpdate dirtyRow column rid after) columns

/-- What a column keeps of the object after a write. -/
def keptState (path : JsString) (after : Option Fields) : ColumnState :=
  match after with
  | some fields => columnScalarState (getPathValue (.obj fields) path)
  | none => .absent

theorem columnAfter_eq (column : TypedRidColumn) (rid : Nat) (after : Option Fields) :
    columnAfter column rid after = column.updateScalarState rid (keptState column.path after) := by
  cases after <;> rfl

theorem value?_keptState (path : JsString) (after : Option Fields) :
    (keptState path after).value? = after.bind fun fields => getPathValue (.obj fields) path := by
  cases after with
  | none => rfl
  | some fields => exact TypedRidColumn.value?_columnScalarState _

@[simp] theorem columnUpdate_frame (dirtyRow : Bool) (column : TypedRidColumn) (rid : Nat)
    (after : Option Fields) :
    (columnUpdate dirtyRow column rid after).status = column.status ∧
      (columnUpdate dirtyRow column rid after).buildId = column.buildId ∧
      (columnUpdate dirtyRow column rid after).path = column.path := by
  unfold columnUpdate
  split_ifs
  · rw [columnAfter_eq]
    exact column.updateScalarState_frame rid _
  · exact ⟨rfl, rfl, rfl⟩

/-- The installed value of a row changes when the column is ready and the row is not dirty. -/
theorem valueFor_columnUpdate (dirtyRow : Bool) (column : TypedRidColumn) (rid : Nat)
    (after : Option Fields) (r : Nat) :
    (columnUpdate dirtyRow column rid after).valueFor r =
      if column.status ≠ .building ∧ dirtyRow = false ∧ rid = r then
        after.bind fun fields => getPathValue (.obj fields) column.path
      else column.valueFor r := by
  unfold columnUpdate
  by_cases hbuilding : column.status = .building
  · rw [if_pos (Or.inl hbuilding), if_neg (fun h => h.1 hbuilding), columnAfter_eq,
      TypedRidColumn.updateScalarState_of_building hbuilding]
    rfl
  · cases dirtyRow with
    | true =>
        rw [if_neg (fun h => h.elim hbuilding (by simp)), if_neg (fun h => by simp at h)]
    | false =>
        rw [if_pos (Or.inr rfl), columnAfter_eq,
          TypedRidColumn.updateScalarState_of_not_building hbuilding,
          TypedRidColumn.valueFor_applyState, value?_keptState]
        simp [hbuilding]

/-- A building column takes down the row; the pending states of others stay. -/
theorem pending_columnUpdate {column : TypedRidColumn} (hbuilding : column.status = .building)
    (dirtyRow : Bool) (rid : Nat) (after : Option Fields) :
    (columnUpdate dirtyRow column rid after).pending =
      Assoc.set column.pending rid (keptState column.path after) := by
  rw [columnUpdate, if_pos (Or.inl hbuilding), columnAfter_eq,
    TypedRidColumn.updateScalarState_of_building hbuilding]

theorem pending_columnUpdate_of_not_building {column : TypedRidColumn}
    (hbuilding : column.status ≠ .building) (dirtyRow : Bool) (rid : Nat)
    (after : Option Fields) :
    (columnUpdate dirtyRow column rid after).pending = column.pending := by
  unfold columnUpdate
  split_ifs
  · rw [columnAfter_eq, TypedRidColumn.updateScalarState_of_not_building hbuilding]
    exact (column.applyState_frame rid _).2.2.1
  · rfl

theorem get?_updateColumns (dirtyRow : Bool) (columns : List (JsString × TypedRidColumn))
    (rid : Nat) (after : Option Fields) (path : JsString) :
    Assoc.get? (updateColumns dirtyRow columns rid after) path =
      (Assoc.get? columns path).map fun column => columnUpdate dirtyRow column rid after := by
  simp [updateColumns]

theorem mem_updateColumns {dirtyRow : Bool} {columns : List (JsString × TypedRidColumn)}
    {rid : Nat} {after : Option Fields} {entry : JsString × TypedRidColumn} :
    entry ∈ updateColumns dirtyRow columns rid after ↔ ∃ column, (entry.1, column) ∈ columns ∧
      entry.2 = columnUpdate dirtyRow column rid after := by
  simp only [updateColumns, Assoc.mapValues, List.mem_map]
  constructor
  · rintro ⟨⟨path, column⟩, hmem, rfl⟩
    exact ⟨column, hmem, rfl⟩
  · rintro ⟨column, hmem, heq⟩
    exact ⟨(entry.1, column), hmem, by rw [← heq]⟩

theorem keys_updateColumns (dirtyRow : Bool) (columns : List (JsString × TypedRidColumn))
    (rid : Nat) (after : Option Fields) :
    Assoc.keys (updateColumns dirtyRow columns rid after) = Assoc.keys columns := by
  simp [updateColumns, Assoc.mapValues, Assoc.keys]

/-- The paths that a base value leaves out. -/
def readyPaths (columns : List (JsString × TypedRidColumn)) : List JsString :=
  (columns.filter fun entry => entry.2.ready).map Prod.fst

theorem readyPaths_updateColumns (dirtyRow : Bool) (columns : List (JsString × TypedRidColumn))
    (rid : Nat) (after : Option Fields) :
    readyPaths (updateColumns dirtyRow columns rid after) = readyPaths columns := by
  unfold readyPaths updateColumns Assoc.mapValues
  induction columns with
  | nil => rfl
  | cons entry rest ih =>
      have hready : (columnUpdate dirtyRow entry.2 rid after).ready = entry.2.ready := by
        simp [TypedRidColumn.ready]
      simp only [List.map_cons, List.filter_cons, hready]
      cases entry.2.ready <;> simpa using ih

theorem mem_readyPaths {columns : List (JsString × TypedRidColumn)} {path : JsString} :
    path ∈ readyPaths columns ↔ ∃ column, (path, column) ∈ columns ∧ column.status = .ready := by
  simp only [readyPaths, List.mem_map, List.mem_filter, TypedRidColumn.ready, decide_eq_true_iff]
  constructor
  · rintro ⟨⟨p, column⟩, ⟨hmem, hready⟩, rfl⟩
    exact ⟨column, hmem, hready⟩
  · rintro ⟨column, hmem, hready⟩
    exact ⟨(path, column), ⟨hmem, hready⟩, rfl⟩

/-- The columns stay in order when the written object is well formed. -/
theorem ColumnsOk.update {collectionMeta : CollectionMeta} (h : ColumnsOk collectionMeta columns)
    (dirtyRow : Bool) (rid : Nat) {after : Option Fields}
    (hafter : ∀ fields, after = some fields → ∀ path ∈ collectionMeta.columns, ∀ x,
      getPathValue (.obj fields) path = some x → x.WellFormed) :
    ColumnsOk collectionMeta (updateColumns dirtyRow columns rid after) where
  nodup := by
    rw [keys_updateColumns]
    exact h.nodup
  each := by
    intro path column hmem
    obtain ⟨old, hold, rfl⟩ := mem_updateColumns.mp hmem
    have hcolumn := h.each hold
    obtain ⟨hstatus, -, hpath⟩ := columnUpdate_frame dirtyRow old rid after
    have hkept : ∀ {x}, (after.bind fun fields => getPathValue (.obj fields) old.path) = some x →
        x.WellFormed := by
      intro x hx
      obtain ⟨fields, hfields, hget⟩ := Option.bind_eq_some_iff.mp hx
      exact hafter fields hfields old.path (hcolumn.path_eq ▸ hcolumn.wanted) x hget
    by_cases hbuilding : old.status = .building
    · have hpending := pending_columnUpdate hbuilding dirtyRow rid after
      refine ⟨hpath.trans hcolumn.path_eq, hcolumn.wanted, hstatus ▸ hcolumn.noError, ?_, ?_, ?_⟩
      · rw [hpending]
        exact Assoc.nodup_keys_set _ _ hcolumn.pendingNodup
      · intro r x hx
        rw [valueFor_columnUpdate, if_neg (fun h => h.1 hbuilding)] at hx
        exact hcolumn.values hx
      · intro r state x hget hx
        rw [hpending, Assoc.get?_set] at hget
        split_ifs at hget
        · obtain rfl := Option.some.inj hget
          rw [value?_keptState] at hx
          exact hkept hx
        · exact hcolumn.pending hget hx
    · have hpending := pending_columnUpdate_of_not_building hbuilding dirtyRow rid after
      refine ⟨hpath.trans hcolumn.path_eq, hcolumn.wanted, hstatus ▸ hcolumn.noError,
        hpending ▸ hcolumn.pendingNodup, ?_, hpending ▸ hcolumn.pending⟩
      intro r x hx
      rw [valueFor_columnUpdate] at hx
      split_ifs at hx
      · exact hkept hx
      · exact hcolumn.values hx

/-! ## The rows of a collection -/

/-- The register of `id` holds a value, and the metadata entry of `id` is `m`. -/
structure LiveRow (c : Collection) (registers : JsString → Option Write) (id : JsString)
    (m : RowMeta) (value : Fields) : Prop where
  entry : Assoc.get? c.objects id = some m
  newest : ∃ w, registers id = some w ∧ w.value = some value

structure RowsOk (vectorField : Option JsString) (c : Collection)
    (columns : List (JsString × TypedRidColumn)) (dirty : Nat → Bool)
    (registers : JsString → Option Write) : Prop where
  field : c.vectorField = vectorField
  rids : c.RidsOk
  recorded : ∀ id, Recorded c id (registers id)
  columnsOk : ColumnsOk c.collectionMeta columns
  values : ∀ {id w value}, registers id = some w → w.value = some value →
    ValueOk c.collectionMeta (withoutVector vectorField value)
  live : ∀ {id m value}, LiveRow c registers id m value →
    LiveOk (c.base id m.rid) columns (dirty m.rid) m.rid (withoutVector vectorField value)

theorem Recorded.deleted_none {id : JsString} {m : RowMeta} {w : Write} {value : Fields}
    (h : Recorded c id (some w)) (hm : Assoc.get? c.objects id = some m)
    (hvalue : w.value = some value) : m.deleted = none ∧ m.ts.isSome := by
  cases h with
  | deleted _ _ _ hnone => exact nomatch hnone.symm.trans hvalue
  | live hentry hdeleted hts _ =>
      obtain rfl := Option.some.inj (hm.symm.trans hentry)
      exact ⟨hdeleted, by rw [hts]; rfl⟩

theorem LiveRow.deleted_none {id : JsString} {m : RowMeta} {value : Fields}
    (h : LiveRow c registers id m value) (hrecorded : ∀ id, Recorded c id (registers id)) :
    m.deleted = none ∧ m.ts.isSome := by
  obtain ⟨w, hw, hvalue⟩ := h.newest
  exact Recorded.deleted_none (hw ▸ hrecorded id) h.entry hvalue

/-- An entry that was written and is not deleted is a live row. -/
theorem Recorded.liveRow {id : JsString} {m : RowMeta} (h : Recorded c id (registers id))
    (hm : Assoc.get? c.objects id = some m) (hdeleted : m.deleted = none) (hts : m.ts.isSome) :
    ∃ value, LiveRow c registers id m value := by
  generalize hregister : registers id = register at h
  cases h with
  | nothing hnothing =>
      rw [(hnothing m hm).1] at hts
      cases hts
  | deleted hentry hsome _ _ =>
      obtain rfl := Option.some.inj (hm.symm.trans hentry)
      exact nomatch hdeleted.symm.trans hsome
  | @live w _ value hentry _ _ hvalue => exact ⟨value, hm, w, hregister, hvalue⟩

/-- The rows depend on the entries, the base values and the configuration. -/
theorem RowsOk.congr (h : RowsOk vectorField c columns dirty registers)
    (hfield : d.vectorField = c.vectorField) (hobjects : d.objects = c.objects)
    (hids : d.idByRid = c.idByRid) (hmeta : d.collectionMeta = c.collectionMeta)
    (hbase : ∀ id rid, d.base id rid = c.base id rid) :
    RowsOk vectorField d columns dirty registers where
  field := hfield.trans h.field
  rids := ⟨hobjects ▸ h.rids.nodup, fun {id m} hm => by
    rw [hids]
    exact h.rids.owned (hobjects ▸ hm)⟩
  recorded := fun id => (h.recorded id).congr (by rw [hobjects])
  columnsOk := hmeta ▸ h.columnsOk
  values := fun hw hv => hmeta ▸ h.values hw hv
  live := fun hlive => by
    rw [hbase]
    exact h.live ⟨hobjects ▸ hlive.entry, hlive.newest⟩

theorem base_of_same {c d : Collection} (hrows : d.rows = c.rows)
    (hcold : d.compressedCold = c.compressedCold) (hcompression : d.compression = c.compression)
    (id : JsString) (rid : Nat) : d.base id rid = c.base id rid := by
  unfold base hydrateCompressedCold
  rw [hrows, hcold, hcompression]

theorem RowsOk.counted (h : RowsOk vectorField c columns dirty registers) (hd : Counted c d) :
    RowsOk vectorField d columns dirty registers := by
  obtain ⟨hrows, -, hobjects, hids, hcold⟩ := hd.rows_eq
  have hsame := hd.sameDerived
  exact h.congr hsame.vectorField hobjects hids hsame.collectionMeta
    (base_of_same hrows hcold hsame.compression)

/-- An entry made just now is not live. -/
theorem LiveRow.of_entered {id id' : JsString} {m m' : RowMeta} {value : Fields}
    (hlive : LiveRow d registers id' m' value) (he : Entered c id d m)
    (hrecorded : ∀ id, Recorded c id (registers id)) : LiveRow c registers id' m' value := by
  refine ⟨?_, hlive.newest⟩
  by_cases hid : id' = id
  · subst hid
    rcases he.fresh with hold | ⟨hnew, -⟩
    · rw [hold, ← he.here]
      exact hlive.entry
    · obtain ⟨w, hw, hvalue⟩ := hlive.newest
      have hrecorded := hw ▸ hrecorded id'
      cases hrecorded with
      | deleted hentry _ _ _ => exact nomatch hnew.symm.trans hentry
      | live hentry _ _ _ => exact nomatch hnew.symm.trans hentry
  · rw [← he.elsewhere hid]
    exact hlive.entry

theorem RowsOk.entered (h : RowsOk vectorField c columns dirty registers) {id : JsString}
    {m : RowMeta} (he : Entered c id d m) : RowsOk vectorField d columns dirty registers := by
  obtain ⟨hrows, -, hcold⟩ := he.data
  have hbase := base_of_same hrows hcold he.same.compression
  refine ⟨he.same.vectorField.trans h.field, he.rids h.rids, ?_,
    he.same.collectionMeta ▸ h.columnsOk, fun hw hv => he.same.collectionMeta ▸ h.values hw hv, ?_⟩
  · intro id'
    by_cases hid : id' = id
    · subst hid
      rcases he.fresh with hold | ⟨hnew, hts, hdeleted, -⟩
      · exact (h.recorded id').congr (he.here.trans hold.symm)
      · have hrecorded := h.recorded id'
        generalize registers id' = register at hrecorded
        cases hrecorded with
        | nothing _ =>
            refine .nothing fun m' hm' => ?_
            obtain rfl := Option.some.inj (he.here.symm.trans hm')
            exact ⟨hts, hdeleted⟩
        | deleted hentry _ _ _ => exact nomatch hnew.symm.trans hentry
        | live hentry _ _ _ => exact nomatch hnew.symm.trans hentry
    · exact (h.recorded id').congr (he.elsewhere hid)
  · intro id' m' value hlive
    rw [hbase]
    exact h.live (hlive.of_entered he h.recorded)

/-! ## Cells of a row after a write -/

theorem cellsAt_updateColumns_ne (dirtyRow : Bool) (columns : List (JsString × TypedRidColumn))
    (rid : Nat) (after : Option Fields) {r : Nat} (hne : r ≠ rid) :
    cellsAt (updateColumns dirtyRow columns rid after) r = cellsAt columns r := by
  unfold cellsAt updateColumns Assoc.mapValues
  rw [List.filterMap_map]
  refine List.filterMap_congr fun entry _ => ?_
  simp only [Function.comp_apply]
  rw [valueFor_columnUpdate, if_neg (fun h => hne h.2.2.symm)]

theorem LiveOk.of_cells {base value : Fields} {columns' : List (JsString × TypedRidColumn)}
    {dirtyRow : Bool} {rid : Nat} (h : LiveOk base columns dirtyRow rid value)
    (hcells : cellsAt columns' rid = cellsAt columns rid) :
    LiveOk base columns' dirtyRow rid value :=
  ⟨h.wellFormed, h.whole, fun hdirty => hcells.symm ▸ h.complete hdirty⟩

/-- A building column has no installed value of the row, or the one that is written. -/
def FitsBuilding (columns : List (JsString × TypedRidColumn)) (rid : Nat) (value : Fields) : Prop :=
  ∀ path column x, (path, column) ∈ columns → column.status = .building →
    column.valueFor rid = some x → HoldsValue (some x) value path

/-- A row whose base value leaves out at most what the columns were told is in order. -/
theorem liveOk_written {collectionMeta : CollectionMeta} {base value object : Fields}
    {rid : Nat} {dirtyRow : Bool} {paths : List JsString}
    (hcolumns : ColumnsOk collectionMeta columns) (hvalue : ValueOk collectionMeta value)
    (hwf : (Json.obj base).WellFormed)
    (hbase : ∀ q, ApartFromId q → (Json.obj base).at q = (Json.obj (unsetPaths object paths)).at q)
    (hobject : ∀ q, ApartFromId q → (Json.obj object).at q = (Json.obj value).at q)
    (hpaths : ∀ p ∈ paths, PlainPath p)
    (hwhole : dirtyRow = true → ∀ p ∈ paths, lookup (.obj object) (pathParts p) = none)
    (hkept : dirtyRow = false → ∀ p ∈ paths, (lookup (.obj object) (pathParts p)).isSome →
      ∃ column, (p, column) ∈ columns ∧ (column.valueFor rid).isSome)
    (hcells : dirtyRow = false → ∀ path column x, (path, column) ∈ columns →
      column.valueFor rid = some x → HoldsValue (some x) value path) :
    LiveOk base columns dirtyRow rid value := by
  have hne : ∀ p ∈ paths.map pathParts, p ≠ [] := by
    intro p hp
    obtain ⟨path, hpath, rfl⟩ := List.mem_map.mp hp
    exact (hpaths path hpath).ne_nil
  rw [unsetPaths_eq hpaths] at hbase
  refine ⟨hwf, ?_, ?_⟩
  · intro hdirty q hq
    rw [hbase q hq]
    rcases at_unsetAll_cases hne (.obj object) q with hat | ⟨-, p, hp, hsome, -⟩
    · exact hat.trans (hobject q hq)
    · obtain ⟨path, hpath, rfl⟩ := List.mem_map.mp hp
      rw [hwhole hdirty path hpath] at hsome
      cases hsome
  · intro hdirty
    have hplain : ∀ path column, (path, column) ∈ columns → PlainPath path := fun path column hmem =>
      (hvalue.columns path (hcolumns.each hmem).wanted).plain
    have hcomplete : Complete ApartFromId (unsetAll (paths.map pathParts) (.obj object))
        (cellsAt columns rid) (.obj value) := by
      refine complete_unsetAll hobject hne ?_ ?_
      · intro p hp hsome
        obtain ⟨path, hpath, rfl⟩ := List.mem_map.mp hp
        obtain ⟨column, hmem, hx⟩ := hkept hdirty path hpath hsome
        obtain ⟨x, hx⟩ := Option.isSome_iff_exists.mp hx
        exact ⟨(pathParts path, x), mem_cellsAt.mpr ⟨(path, column), hmem, hx, rfl⟩, rfl⟩
      · intro cell hcell
        obtain ⟨⟨path, column⟩, hmem, hx, hparts⟩ := mem_cellsAt.mp hcell
        have hcell' := (hcells hdirty path column cell.2 hmem hx).cellOf (hplain path column hmem)
        have heq : (pathParts path, cell.2) = cell := by
          rw [show pathParts path = cell.1 from hparts]
        exact heq ▸ hcell'
    exact ⟨fun q hq => hbase q hq ▸ hcomplete.base q hq, hcomplete.cells⟩

/-! ## One row -/

/-- The object of a written row is the value with its id. -/
theorem view_queryObject (id : JsString) (value : Fields) : ∀ q, ApartFromId q →
    (Json.obj (queryObjectFromStoredValue id value)).at q = (Json.obj value).at q := by
  intro q hq
  rw [queryObjectFromStoredValue, at_set_id hq, at_erase_id hq]

/-- A row is written: its base value, and what the columns hear of it. -/
theorem RowsOk.overwrite (h : RowsOk vectorField c columns dirty registers) {id : JsString}
    {m next : RowMeta} (hm : Assoc.get? c.objects id = some m) (hrid : next.rid = m.rid) {ts : Ts}
    (hts : next.ts = some ts) (hdeleted : next.deleted = none) {raw after : Fields}
    (hvalue : ValueOk c.collectionMeta (withoutVector vectorField raw)) {vector : VectorUpdate}
    {dirty' : Nat → Bool} (hdirty : ∀ r, r ≠ m.rid → dirty' r = dirty r)
    {paths : List JsString} (hpaths : paths = [] ∨ paths = readyPaths columns)
    (hwhole : dirty' m.rid = true → ∀ p ∈ paths,
      lookup (.obj (withoutVector vectorField raw)) (pathParts p) = none)
    (hfits : dirty' m.rid = false → FitsBuilding columns m.rid (withoutVector vectorField raw))
    (hafterWf : (Json.obj after).WellFormed)
    (hafter : ∀ q, ApartFromId q →
      (Json.obj after).at q = (Json.obj (withoutVector vectorField raw)).at q) :
    RowsOk vectorField
      (c.overwrite id next (unsetPaths (withoutVector vectorField raw) paths) vector)
      (updateColumns (dirty' m.rid) columns m.rid (some after)) dirty'
      (Function.update registers id (some ⟨ts, some raw⟩)) := by
  set value := withoutVector vectorField raw with hvalueDef
  refine RowsOk.counted ?_ (c.overwrite_counted id next (unsetPaths value paths) vector)
  set d : Collection := { c with
    objects := Assoc.set c.objects id next
    compressedCold := nextCold c.compressedCold next.rid
      (tiered c.compression c.collectionMeta (unsetPaths value paths)).1
    rows := nextRows c.rows id
      (tiered c.compression c.collectionMeta (unsetPaths value paths)).2
    vectors := nextVectors c.vectorField c.vectors id vector } with hd
  have hplain : ∀ p ∈ paths, PlainPath p := by
    rcases hpaths with rfl | rfl
    · exact fun p hp => by cases hp
    · intro p hp
      obtain ⟨column, hmem, -⟩ := mem_readyPaths.mp hp
      exact (hvalue.columns p (h.columnsOk.each hmem).wanted).plain
  have hset := ridsOk_setRowMeta h.rids hm hrid
  -- what the columns read of the new object is well formed, as the object is
  have hafterColumns : ∀ fields, some after = some fields → ∀ path ∈ c.collectionMeta.columns,
      ∀ x, getPathValue (.obj fields) path = some x → x.WellFormed := by
    intro fields hfields path hpath x hx
    obtain rfl := Option.some.inj hfields
    exact wellFormed_getPathValue hafterWf ((hvalue.columns path hpath).of_view hafter) hx
  have hcolumns' := h.columnsOk.update (dirty' m.rid) m.rid hafterColumns
  refine ⟨h.field, ⟨hset.nodup, hset.owned⟩, ?_, hcolumns', ?_, ?_⟩
  · intro id'
    by_cases hid : id' = id
    · subst hid
      rw [Function.update_self]
      exact .live (by simp [hd]) hdeleted hts rfl
    · rw [Function.update_of_ne hid]
      exact (h.recorded id').congr (by simp [hd, Ne.symm hid])
  · intro id' w value' hw hv
    by_cases hid : id' = id
    · subst hid
      rw [Function.update_self] at hw
      obtain rfl := Option.some.inj hw
      obtain rfl := Option.some.inj hv
      exact hvalue
    · rw [Function.update_of_ne hid] at hw
      exact h.values hw hv
  · intro id' m' value' hlive
    obtain ⟨w, hw, hv⟩ := hlive.newest
    have hentry := hlive.entry
    rw [hd] at hentry
    dsimp only at hentry
    rw [Assoc.get?_set] at hentry
    by_cases hid : id' = id
    · -- the row itself: its base value is what was written, less the ready columns
      subst hid
      rw [if_pos rfl] at hentry
      obtain rfl := Option.some.inj hentry
      rw [Function.update_self] at hw
      obtain rfl := Option.some.inj hw
      obtain rfl := Option.some.inj hv
      rw [hrid]
      have hbase : (Json.obj (d.base id' m.rid)).WellFormed ∧ ∀ q, ApartFromId q →
          (Json.obj (d.base id' m.rid)).at q = (Json.obj (unsetPaths value paths)).at q :=
        base_written rfl (by rw [hd, hrid]) rfl (hvalue.unsetPaths hplain)
      refine liveOk_written hcolumns' hvalue hbase.1 hbase.2 (fun _ _ => rfl) hplain hwhole ?_ ?_
      · -- the ready columns hold what the base value leaves out
        intro hclean p hp hsome
        rcases hpaths with rfl | rfl
        · cases hp
        · obtain ⟨column, hmem, hready⟩ := mem_readyPaths.mp hp
          have hcol := h.columnsOk.each hmem
          refine ⟨columnUpdate (dirty' m.rid) column m.rid (some after),
            mem_updateColumns.mpr ⟨column, hmem, rfl⟩, ?_⟩
          rw [valueFor_columnUpdate, if_pos ⟨by rw [hready]; decide, hclean, rfl⟩,
            Option.bind_some, hcol.path_eq]
          have hholds := holdsValue_getPathValue (hvalue.columns p hcol.wanted) hafter
          cases hget : getPathValue (.obj after) p with
          | some x => rfl
          | none =>
              rw [hget] at hholds
              rw [show lookup _ _ = none from hholds] at hsome
              cases hsome
      · intro hclean path column x hmem hx
        obtain ⟨old, hold, rfl⟩ := mem_updateColumns.mp hmem
        have hcol := h.columnsOk.each hold
        rw [valueFor_columnUpdate] at hx
        split_ifs at hx with hupdated
        · rw [Option.bind_some, hcol.path_eq] at hx
          have hholds := holdsValue_getPathValue (hvalue.columns path hcol.wanted) hafter
          rwa [hx] at hholds
        · -- only a column that is being built has not heard of the write
          have hbuilding : old.status = .building := by
            by_contra hne
            exact hupdated ⟨hne, hclean, rfl⟩
          exact hfits hclean path old x hold hbuilding hx
    · -- the other rows, with other row ids, are as they were
      rw [if_neg (Ne.symm hid)] at hentry
      rw [Function.update_of_ne hid] at hw
      have hne : m'.rid ≠ m.rid := h.rids.rid_ne hentry hm hid
      have hbase : d.base id' m'.rid = c.base id' m'.rid :=
        base_elsewhere rfl rfl rfl hid (hrid.symm ▸ hne)
      rw [hbase, hdirty _ hne]
      exact (h.live ⟨hentry, w, hw, hv⟩).of_cells (cellsAt_updateColumns_ne _ _ _ _ hne)

/-- A row is deleted. -/
theorem RowsOk.clear (h : RowsOk vectorField c columns dirty registers) {id : JsString}
    {m next : RowMeta} (hm : Assoc.get? c.objects id = some m) (hrid : next.rid = m.rid) {ts : Ts}
    (hdeleted : next.deleted = some ts) (hts : ∀ t, next.ts = some t → t < ts)
    {dirty' : Nat → Bool} (hdirty : ∀ r, r ≠ m.rid → dirty' r = dirty r) :
    RowsOk vectorField (c.clear id next)
      (updateColumns (dirty' m.rid) columns m.rid none) dirty'
      (Function.update registers id (some ⟨ts, none⟩)) := by
  refine RowsOk.counted ?_ (c.clear_counted id next)
  have hset := ridsOk_setRowMeta h.rids hm hrid
  refine ⟨h.field, ⟨hset.nodup, hset.owned⟩, ?_,
    h.columnsOk.update _ _ (fun fields hfields => nomatch hfields), ?_, ?_⟩
  · intro id'
    by_cases hid : id' = id
    · subst hid
      rw [Function.update_self]
      exact .deleted (by simp) hdeleted hts rfl
    · rw [Function.update_of_ne hid]
      exact (h.recorded id').congr (by simp [Ne.symm hid])
  · intro id' w value' hw hv
    by_cases hid : id' = id
    · subst hid
      rw [Function.update_self] at hw
      obtain rfl := Option.some.inj hw
      cases hv
    · rw [Function.update_of_ne hid] at hw
      exact h.values hw hv
  · intro id' m' value' hlive
    obtain ⟨w, hw, hv⟩ := hlive.newest
    have hentry := hlive.entry
    dsimp only at hentry
    rw [Assoc.get?_set] at hentry
    by_cases hid : id' = id
    · subst hid
      rw [Function.update_self] at hw
      obtain rfl := Option.some.inj hw
      cases hv
    · rw [if_neg (Ne.symm hid)] at hentry
      rw [Function.update_of_ne hid] at hw
      have hne : m'.rid ≠ m.rid := h.rids.rid_ne hentry hm hid
      rw [hdirty _ hne]
      have hbase : base { c with
          objects := Assoc.set c.objects id next
          compressedCold := Assoc.erase c.compressedCold next.rid
          rows := Assoc.erase c.rows id
          vectors := Assoc.erase c.vectors id } id' m'.rid = c.base id' m'.rid := by
        unfold base hydrateCompressedCold
        dsimp only
        rw [Assoc.get?_erase, if_neg (hrid ▸ Ne.symm hne), Assoc.get?_erase, if_neg (Ne.symm hid)]
      rw [hbase]
      exact (h.live ⟨hentry, w, hw, hv⟩).of_cells (cellsAt_updateColumns_ne _ _ _ _ hne)

/-! ## Scanning jobs -/

/-- A column is being rebuilt: of every live row it has taken down the value since the build began,
or the scan has built it or has not reached it yet. -/
structure Scanning (vectorField : Option JsString) (c : Collection)
    (registers : JsString → Option Write) (path : JsString) (column source : TypedRidColumn)
    (scanned : Nat) : Prop where
  building : column.status = .building
  rows : ∀ {i id m value}, (Assoc.keys c.objects)[i]? = some id →
    LiveRow c registers id m value →
      match Assoc.get? column.pending m.rid with
      | some state => HoldsValue state.value? (withoutVector vectorField value) path
      | none => i < scanned →
          HoldsValue (source.valueFor m.rid) (withoutVector vectorField value) path

/-- What a scanning job has built for one of its paths. -/
structure SourceOk (source : TypedRidColumn) : Prop where
  ready : source.status = .ready
  values : ∀ {r x}, source.valueFor r = some x → x.WellFormed

structure ScansOk (vectorField : Option JsString) (c : Collection)
    (columns : List (JsString × TypedRidColumn)) (registers : JsString → Option Write) : Prop where
  jobsNodup : (Assoc.keys c.jobs).Nodup
  jobsFresh : ∀ {id}, id ∈ Assoc.keys c.jobs → id < c.nextJob
  targetsNodup : ∀ {job targets built scanned},
    Assoc.get? c.jobs job = some (.columns targets built scanned) → (Assoc.keys targets).Nodup
  scans : ∀ {job targets built scanned path buildId},
    Assoc.get? c.jobs job = some (.columns targets built scanned) → (path, buildId) ∈ targets →
      1 ≤ buildId ∧ path ∈ c.collectionMeta.columns ∧
        ∃ source, Assoc.get? built path = some source ∧ SourceOk source ∧
          ∀ column, Assoc.get? columns path = some column → column.buildId = buildId →
            Scanning vectorField c registers path column source scanned
  /-- At most one job scans for the current build of a column. -/
  exclusive : ∀ {job job' targets targets' built built' scanned scanned' path buildId column},
    Assoc.get? c.jobs job = some (.columns targets built scanned) → (path, buildId) ∈ targets →
    Assoc.get? c.jobs job' = some (.columns targets' built' scanned') →
    (path, buildId) ∈ targets' → Assoc.get? columns path = some column →
    column.buildId = buildId → job = job'
  strips : ∀ {job paths scanned}, Assoc.get? c.jobs job = some (.strip paths scanned) →
    ∀ p ∈ paths, p ∈ c.collectionMeta.columns

theorem ScansOk.congr (h : ScansOk vectorField c columns registers) (hobjects : d.objects = c.objects)
    (hmeta : d.collectionMeta = c.collectionMeta) (hjobs : d.jobs = c.jobs)
    (hnext : d.nextJob = c.nextJob) : ScansOk vectorField d columns registers := by
  have hrow : ∀ {id m value}, LiveRow d registers id m value → LiveRow c registers id m value :=
    fun hlive => ⟨hobjects ▸ hlive.entry, hlive.newest⟩
  refine ⟨hjobs ▸ h.jobsNodup, ?_, ?_, ?_, ?_, ?_⟩
  · intro id hid
    rw [hnext]
    exact h.jobsFresh (hjobs ▸ hid)
  · intro job targets built scanned hget
    exact h.targetsNodup (hjobs ▸ hget)
  · intro job targets built scanned path buildId hget hmem
    obtain ⟨hone, hwanted, source, hsource, hok, hscan⟩ := h.scans (hjobs ▸ hget) hmem
    refine ⟨hone, hmeta ▸ hwanted, source, hsource, hok, fun column hcolumn hid => ?_⟩
    obtain ⟨hbuilding, hrows⟩ := hscan column hcolumn hid
    exact ⟨hbuilding, fun hi hlive => hrows (hobjects ▸ hi) (hrow hlive)⟩
  · intro job job' targets targets' built built' scanned scanned' path buildId column h1 hm1 h2 hm2
    exact h.exclusive (hjobs ▸ h1) hm1 (hjobs ▸ h2) hm2
  · intro job paths scanned hget p hp
    exact hmeta ▸ h.strips (hjobs ▸ hget) p hp

theorem ScansOk.counted (h : ScansOk vectorField c columns registers) (hd : Counted c d) :
    ScansOk vectorField d columns registers :=
  h.congr hd.rows_eq.2.2.1 hd.sameDerived.collectionMeta hd.sameDerived.jobs hd.sameDerived.nextJob

theorem ScansOk.entered (h : ScansOk vectorField c columns registers)
    (hrecorded : ∀ id, Recorded c id (registers id)) {id : JsString}
    {m : RowMeta} (he : Entered c id d m) : ScansOk vectorField d columns registers := by
  have hjobs := he.same.jobs
  refine ⟨hjobs ▸ h.jobsNodup, ?_, ?_, ?_, ?_, ?_⟩
  · intro job hjob
    rw [he.same.nextJob]
    exact h.jobsFresh (hjobs ▸ hjob)
  · intro job targets built scanned hget
    exact h.targetsNodup (hjobs ▸ hget)
  · intro job targets built scanned path buildId hget hmem
    obtain ⟨hone, hwanted, source, hsource, hok, hscan⟩ := h.scans (hjobs ▸ hget) hmem
    refine ⟨hone, he.same.collectionMeta ▸ hwanted, source, hsource, hok, fun column hcolumn hid => ?_⟩
    obtain ⟨hbuilding, hrows⟩ := hscan column hcolumn hid
    refine ⟨hbuilding, fun {i id' m' value} hi hlive => ?_⟩
    have hold := hlive.of_entered he hrecorded
    refine hrows ?_ hold
    rcases he.keys with hkeys | ⟨hnew, hkeys⟩
    · rwa [← hkeys]
    · -- the new id has no live row, and the positions of the others stay
      rw [hkeys, List.getElem?_append] at hi
      split_ifs at hi with hlt
      · exact hi
      · have hlast := List.mem_of_getElem? hi
        obtain rfl := List.mem_singleton.mp hlast
        exact nomatch hnew.symm.trans hold.entry
  · intro job job' targets targets' built built' scanned scanned' path buildId column h1 hm1 h2 hm2
    exact h.exclusive (hjobs ▸ h1) hm1 (hjobs ▸ h2) hm2
  · intro job paths scanned hget p hp
    exact he.same.collectionMeta ▸ h.strips (hjobs ▸ hget) p hp

/-- A row is written or deleted: the building columns take it down. -/
theorem ScansOk.write (h : ScansOk vectorField c columns registers)
    (hcolumns : ColumnsOk c.collectionMeta columns) (hrids : c.RidsOk) {id : JsString}
    {m next : RowMeta} (hm : Assoc.get? c.objects id = some m)
    (hrid : next.rid = m.rid) (hobjects : d.objects = Assoc.set c.objects id next)
    (hmeta : d.collectionMeta = c.collectionMeta) (hjobs : d.jobs = c.jobs)
    (hnext : d.nextJob = c.nextJob) {w : Write} {after : Option Fields} (dirtyRow : Bool)
    (hafter : ∀ value, w.value = some value → ∀ path ∈ c.collectionMeta.columns,
      HoldsValue (after.bind fun fields => getPathValue (.obj fields) path)
        (withoutVector vectorField value) path) :
    ScansOk vectorField d (updateColumns dirtyRow columns m.rid after)
      (Function.update registers id (some w)) := by
  have hkeys : Assoc.keys d.objects = Assoc.keys c.objects := by
    rw [hobjects, Assoc.keys_set, if_pos (Assoc.get?_isSome_iff.mp (by rw [hm]; rfl))]
  refine ⟨hjobs ▸ h.jobsNodup, ?_, ?_, ?_, ?_, ?_⟩
  · intro job hjob
    rw [hnext]
    exact h.jobsFresh (hjobs ▸ hjob)
  · intro job targets built scanned hget
    exact h.targetsNodup (hjobs ▸ hget)
  · intro job targets built scanned path buildId hget hmem
    obtain ⟨hone, hwanted, source, hsource, hok, hscan⟩ := h.scans (hjobs ▸ hget) hmem
    refine ⟨hone, hmeta ▸ hwanted, source, hsource, hok, fun column hcolumn hid => ?_⟩
    rw [get?_updateColumns, Option.map_eq_some_iff] at hcolumn
    obtain ⟨old, hold, rfl⟩ := hcolumn
    obtain ⟨hstatus, hbuildId, -⟩ := columnUpdate_frame dirtyRow old m.rid after
    obtain ⟨hbuilding, hrows⟩ := hscan old hold (hbuildId ▸ hid)
    refine ⟨hstatus.trans hbuilding, fun {i id' m' value} hi hlive => ?_⟩
    obtain ⟨w', hw, hv⟩ := hlive.newest
    have hentry := hlive.entry
    rw [hobjects, Assoc.get?_set] at hentry
    rw [pending_columnUpdate hbuilding, Assoc.get?_set]
    by_cases hsame : id' = id
    · subst hsame
      rw [if_pos rfl] at hentry
      obtain rfl := Option.some.inj hentry
      rw [Function.update_self] at hw
      obtain rfl := Option.some.inj hw
      rw [if_pos hrid.symm]
      dsimp only
      rw [value?_keptState, (hcolumns.get? hold).path_eq]
      exact hafter value hv path hwanted
    · rw [if_neg (Ne.symm hsame)] at hentry
      rw [Function.update_of_ne hsame] at hw
      rw [if_neg (hrids.rid_ne hm hentry (Ne.symm hsame))]
      exact hrows (hkeys ▸ hi) ⟨hentry, w', hw, hv⟩
  · intro job job' targets targets' built built' scanned scanned' path buildId column h1 hm1 h2 hm2
      hcolumn hid
    rw [get?_updateColumns, Option.map_eq_some_iff] at hcolumn
    obtain ⟨old, hold, rfl⟩ := hcolumn
    exact h.exclusive (hjobs ▸ h1) hm1 (hjobs ▸ h2) hm2 hold
      ((columnUpdate_frame dirtyRow old m.rid after).2.1 ▸ hid)
  · intro job paths scanned hget p hp
    exact hmeta ▸ h.strips (hjobs ▸ hget) p hp

end Collection
end ObjyDb
