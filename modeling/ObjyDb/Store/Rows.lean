import ObjyDb.Store.Writes
import ObjyDb.Js.JsonRoundTrip

/-!
# Rows — a value kept in the row store, a cold part and the columns

The row of a live object and its cold part make up its *base* value.  A row that is not dirty is
read with the values of the columns written over its base, a dirty one without them.  `LiveOk` says
that this shows the value of the object, whatever parts it is kept in.

- `LiveOk.shows`: what is read of such a row
- `base_writeBaseValue`: with or without tiering, the base value is the one written
- `liveOk_rewrite`: a row may be rewritten without the paths that its columns hold
-/

namespace ObjyDb

open Js

/-! ## Views without the id -/

/-- Paths that do not lead into `_id`. -/
def ApartFromId (q : Parts) : Prop :=
  q.head? ≠ some (js "_id")

/-- The object is the value with its id, up to the order of the fields. -/
structure Shows (id : JsString) (object value : Fields) : Prop where
  view : ∀ q, ApartFromId q → (Json.obj object).at q = (Json.obj value).at q
  own : (Json.obj object).at [js "_id"] = .leaf (.str id)

theorem at_erase_id {fields : Fields} {q : Parts} (hq : ApartFromId q) :
    (Json.obj (Assoc.erase fields (js "_id"))).at q = (Json.obj fields).at q := by
  cases q with
  | nil => rfl
  | cons key q =>
      have hne : js "_id" ≠ key := fun h => hq (congrArg some h.symm)
      rw [at_obj_cons, at_obj_cons, Assoc.get?_erase, if_neg hne]

theorem at_set_id {fields : Fields} {value : Json} {q : Parts} (hq : ApartFromId q) :
    (Json.obj (Assoc.set fields (js "_id") value)).at q = (Json.obj fields).at q := by
  cases q with
  | nil => rfl
  | cons key q =>
      have hne : js "_id" ≠ key := fun h => hq (congrArg some h.symm)
      rw [at_obj_cons, at_obj_cons, Assoc.get?_set, if_neg hne]

theorem PlainPath.apart {path : JsString} (h : PlainPath path) {q : Parts}
    (hq : Related (pathParts path) q) : ApartFromId q := by
  intro hhead
  cases q with
  | nil => cases hhead
  | cons key q =>
      obtain rfl := Option.some.inj hhead
      rcases hq with ⟨r, hr⟩ | ⟨r, hr⟩
      · cases hparts : pathParts path with
        | nil => exact h.ne_nil hparts
        | cons first rest =>
            rw [hparts] at hr
            obtain rfl := (List.cons.inj hr).1
            exact h.notId (by rw [hparts]; rfl)
      · exact h.notId (by rw [← hr]; rfl)

/-- What is needed of a value for its parts to be put together again. -/
structure ValueOk (collectionMeta : CollectionMeta) (value : Fields) : Prop where
  wellFormed : (Json.obj value).WellFormed
  noProto : NoProto (.obj value)
  columns : ∀ p ∈ collectionMeta.columns, PlainFor (.obj value) p
  tiers : ∀ tiering, collectionMeta.tiering = some tiering →
    ∀ p ∈ tiering.paths (unique (collectionMeta.indexes ++ collectionMeta.columns)),
      PlainFor (.obj value) p

/-- Paths are read the same in an object that shows the value. -/
theorem PlainFor.of_view {value : Fields} {path : JsString} (h : PlainFor (.obj value) path)
    {object : Fields} (hview : ∀ q, ApartFromId q →
      (Json.obj object).at q = (Json.obj value).at q) : PlainFor (.obj object) path :=
  ⟨h.plain, h.through.of_at fun q hq => Or.inl (hview q (h.plain.apart (Or.inr hq)))⟩

theorem Js.NoProto.of_view {value : Fields} (h : NoProto (.obj value)) {object : Fields}
    (hview : ∀ q, ApartFromId q → (Json.obj object).at q = (Json.obj value).at q)
    (hid : js "_id" ∉ Assoc.keys object) : NoProto (.obj object) := by
  intro q hq
  by_cases hapart : ApartFromId q
  · exact h q (hview q hapart ▸ hq)
  · -- nothing leads into a field that is not there
    cases q with
    | nil => exact absurd (fun h => nomatch h) hapart
    | cons key q =>
        obtain rfl : key = js "_id" := by simpa [ApartFromId] using hapart
        exact absurd (by rw [at_obj_cons, Assoc.get?_eq_none_iff.mpr hid]) hq

theorem ValueOk.of_view {collectionMeta : CollectionMeta} {value : Fields}
    (h : ValueOk collectionMeta value) {object : Fields} (hwf : (Json.obj object).WellFormed)
    (hview : ∀ q, ApartFromId q → (Json.obj object).at q = (Json.obj value).at q)
    (hid : js "_id" ∉ Assoc.keys object) : ValueOk collectionMeta object where
  wellFormed := hwf
  noProto := h.noProto.of_view hview hid
  columns := fun p hp => (h.columns p hp).of_view hview
  tiers := fun tiering ht p hp => (h.tiers tiering ht p hp).of_view hview

theorem ValueOk.within {collectionMeta : CollectionMeta} {value : Fields}
    (h : ValueOk collectionMeta value) {object : Fields} (hwf : (Json.obj object).WellFormed)
    (hwithin : Within (.obj object) (.obj value)) : ValueOk collectionMeta object where
  wellFormed := hwf
  noProto := hwithin.noProto h.noProto
  columns := fun p hp => (h.columns p hp).within hwithin
  tiers := fun tiering ht p hp => (h.tiers tiering ht p hp).within hwithin

theorem ValueOk.unsetPaths {collectionMeta : CollectionMeta} {value : Fields}
    (h : ValueOk collectionMeta value) {paths : List JsString} (hpaths : ∀ p ∈ paths, PlainPath p) :
    ValueOk collectionMeta (ObjyDb.unsetPaths value paths) := by
  refine h.within (wellFormed_unsetPaths h.wellFormed paths) ?_
  rw [unsetPaths_eq hpaths]
  refine within_unsetAll ?_ _
  intro parts hparts
  obtain ⟨path, hpath, rfl⟩ := List.mem_map.mp hparts
  exact (hpaths path hpath).ne_nil

namespace Collection

/-! ## The base value -/

/-- What is kept of an object apart from the columns. -/
def base (c : Collection) (id : JsString) (rid : Nat) : Fields :=
  c.hydrateCompressedCold ((Assoc.get? c.rows id).getD []) rid

theorem foldl_assign_wellFormed {fields : Fields} (hwf : (Json.obj fields).WellFormed)
    (hproto : NoProto (.obj fields)) :
    fields.foldl (fun row entry => assign row entry.1 entry.2) [] = fields := by
  obtain ⟨hnodup, -⟩ := Json.wellFormed_obj_iff.mp hwf
  have hkeys : js "__proto__" ∉ Assoc.keys fields := by
    intro hmem
    obtain ⟨child, hget⟩ := Option.isSome_iff_exists.mp (Assoc.get?_isSome_iff.mpr hmem)
    exact (hproto.child hget).1 rfl
  have hall : ∀ (left right : Fields), (Assoc.keys (left ++ right)).Nodup →
      js "__proto__" ∉ Assoc.keys right →
      right.foldl (fun row entry => assign row entry.1 entry.2) left = left ++ right := by
    intro left right
    induction right generalizing left with
    | nil => simp
    | cons entry rest ih =>
        intro hnodup hno
        have hne : entry.1 ≠ js "__proto__" := fun h => hno (h ▸ List.mem_cons_self)
        have hnew : entry.1 ∉ Assoc.keys left := by
          intro hmem
          have hnodup' : (Assoc.keys left ++ entry.1 :: Assoc.keys rest).Nodup := by
            simpa [Assoc.keys] using hnodup
          exact (List.nodup_append.mp hnodup').2.2 _ hmem _ List.mem_cons_self rfl
        rw [List.foldl_cons, assign_eq_set hne, Assoc.set_of_notMem _ hnew, ih]
        · simp
        · simpa [Assoc.keys] using hnodup
        · exact fun hmem => hno (List.mem_cons_of_mem _ hmem)
  exact hall [] fields hnodup hkeys

/-- The cold part of a tiered value reads back. -/
theorem coldValue_compress (compression : Compression) {cold : Fields}
    (hwf : (Json.obj cold).WellFormed) (bytes : Nat) :
    coldValue compression ⟨bytes,
      compression.compress (compression.encodeUtf8 (stringify (.obj cold)))⟩ = cold := by
  rw [coldValue, compression.lossless _ (printable_stringify (.obj cold)).wellFormed,
    parse_stringify hwf]
  rfl

/-- The upper part of a split without its id, over the lower part. -/
theorem at_mergePlainObjects {hot cold value : Fields}
    (h : Split (.obj hot) (.obj cold) (.obj value)) (hwf : (Json.obj hot).WellFormed)
    (hproto : NoProto (.obj value)) {q : Parts} (hq : ApartFromId q) :
    (Json.obj (mergePlainObjects cold (Assoc.erase hot (js "_id")))).at q =
      (Json.obj value).at q := by
  have herased : Within (.obj (Assoc.erase hot (js "_id"))) (.obj hot) := by
    intro q
    cases q with
    | nil => exact Or.inl rfl
    | cons key q =>
        rw [at_obj_cons, at_obj_cons, Assoc.get?_erase]
        split_ifs
        · exact Or.inr rfl
        · exact Or.inl rfl
  have hwithin := herased.trans h.hotWithin
  have hmerge : (Json.obj (mergePlainObjects cold (Assoc.erase hot (js "_id")))) =
      mergeInto (.obj (Assoc.erase hot (js "_id"))) (some (.obj cold)) := by
    rw [mergeInto, mergePlainObjects]
  have hwf' : (Json.obj (Assoc.erase hot (js "_id"))).WellFormed := wellFormed_filter hwf _
  rw [hmerge, at_mergeInto _ hwf' (hwithin.noProto hproto) hwithin (some (.obj cold)) (fun c hc => Option.some.inj hc ▸ h.coldWithin), at_erase_id hq]
  split_ifs with habs
  · rcases h.covers q with hat | hat
    · rw [habs] at hat
      rcases h.coldWithin q with hc | hc
      · simpa using hc
      · simp [hc, ← hat]
    · simpa using hat
  · rcases h.hotWithin q with hat | hat
    · exact hat
    · exact absurd hat habs

theorem noProto_erase_id {value : Fields} (h : NoProto (.obj value)) :
    NoProto (.obj (Assoc.erase value (js "_id"))) := by
  intro q hq
  cases q with
  | nil => exact List.not_mem_nil
  | cons key q =>
      refine h (key :: q) ?_
      rw [at_obj_cons, Assoc.get?_erase] at hq
      split_ifs at hq
      · exact absurd rfl hq
      · rw [at_obj_cons]
        exact hq

/-- The stored row of a hot part is the hot part without the id. -/
theorem get?_nextRows {rows : List (JsString × Fields)} {id : JsString} {hot : Fields}
    (hwf : (Json.obj hot).WellFormed) (hproto : NoProto (.obj hot)) (k : JsString) :
    (Assoc.get? (nextRows rows id hot) k).getD [] =
      if id = k then Assoc.erase hot (js "_id") else (Assoc.get? rows k).getD [] := by
  rw [nextRows, get?_rebuildRow]
  have herase : (hot.filter fun entry => entry.1 ≠ js "_id") = Assoc.erase hot (js "_id") := rfl
  have hwf' : (Json.obj (Assoc.erase hot (js "_id"))).WellFormed := wellFormed_filter hwf _
  rw [herase, foldl_assign_wellFormed hwf' (noProto_erase_id hproto)]

/-- The base value is the value written, whether or not it is tiered. -/
theorem base_written {c d : Collection} {id : JsString} {rid : Nat} {value : Fields}
    (hrows : d.rows = nextRows c.rows id (tiered c.compression c.collectionMeta value).2)
    (hcold : d.compressedCold =
      nextCold c.compressedCold rid (tiered c.compression c.collectionMeta value).1)
    (hcompression : d.compression = c.compression) (hvalue : ValueOk c.collectionMeta value) :
    (Json.obj (d.base id rid)).WellFormed ∧
      ∀ q, ApartFromId q → (Json.obj (d.base id rid)).at q = (Json.obj value).at q := by
  have hwhole : tiered c.compression c.collectionMeta value = (none, value) →
      (Json.obj (d.base id rid)).WellFormed ∧
        ∀ q, ApartFromId q → (Json.obj (d.base id rid)).at q = (Json.obj value).at q := by
    intro htiered
    rw [htiered] at hrows hcold
    have hbase : d.base id rid = Assoc.erase value (js "_id") := by
      unfold base hydrateCompressedCold
      rw [hcold, get?_nextCold, if_pos rfl, hrows,
        get?_nextRows hvalue.wellFormed hvalue.noProto, if_pos rfl]
    rw [hbase]
    exact ⟨wellFormed_filter hvalue.wellFormed _, fun q hq => at_erase_id hq⟩
  unfold tiered at hwhole hrows hcold
  cases htiering : c.collectionMeta.tiering with
  | none => exact hwhole (by rw [htiering])
  | some tiering =>
      cases hcomp : c.compression with
      | none => exact hwhole (by rw [htiering, hcomp])
      | some compression =>
          rw [htiering, hcomp] at hwhole hrows hcold
          dsimp only at hwhole hrows hcold
          -- the split loses nothing
          have hsplit := split_splitTieredValue hvalue.wellFormed (hvalue.tiers tiering htiering)
          revert hwhole hrows hcold hsplit
          rcases splitTieredValue value tiering
            (unique (c.collectionMeta.indexes ++ c.collectionMeta.columns)) with ⟨hot, - | cold⟩
          · intro _ _ hwhole _
            exact hwhole rfl
          · dsimp only
            intro hcold hrows hwhole hsplit
            split_ifs at hwhole hrows hcold with hsmall
            · exact hwhole rfl
            · rcases hsplit with ⟨hnone, -⟩ | ⟨cold', hsome, hsplit, hhot, hcoldWf⟩
              · cases hnone
              · obtain rfl := Option.some.inj hsome
                have hbase : d.base id rid =
                    mergePlainObjects cold (Assoc.erase hot (js "_id")) := by
                  unfold base hydrateCompressedCold
                  rw [hcold, get?_nextCold, if_pos rfl, hcompression, hcomp]
                  dsimp only
                  rw [coldValue_compress compression hcoldWf, hrows,
                    get?_nextRows hhot (hsplit.hotWithin.noProto hvalue.noProto), if_pos rfl]
                rw [hbase]
                refine ⟨?_, fun q hq => at_mergePlainObjects hsplit hhot hvalue.noProto hq⟩
                have hmerged := wellFormed_mergeInto
                  (wellFormed_filter hhot fun entry => decide (entry.1 ≠ js "_id"))
                  (some (.obj cold)) (fun c hc => Option.some.inj hc ▸ hcoldWf)
                rw [mergeInto] at hmerged
                exact hmerged

/-- The base value of another object stays. -/
theorem base_elsewhere {c d : Collection} {id id' : JsString} {rid rid' : Nat} {value : Fields}
    (hrows : d.rows = nextRows c.rows id (tiered c.compression c.collectionMeta value).2)
    (hcold : d.compressedCold =
      nextCold c.compressedCold rid (tiered c.compression c.collectionMeta value).1)
    (hcompression : d.compression = c.compression) (hid : id' ≠ id) (hrid : rid' ≠ rid) :
    d.base id' rid' = c.base id' rid' := by
  unfold base hydrateCompressedCold
  rw [hcold, get?_nextCold, if_neg (Ne.symm hrid), hcompression, hrows, nextRows, get?_rebuildRow,
    if_neg (Ne.symm hid)]

/-! ## Reading -/

/-- The values that the columns hold of a row. -/
def cellsAt (columns : List (JsString × TypedRidColumn)) (rid : Nat) : Cells :=
  columns.filterMap fun entry => (entry.2.valueFor rid).map fun value => (pathParts entry.1, value)

theorem foldl_columns (columns : List (JsString × TypedRidColumn)) (rid : Nat) (out : Fields) :
    columns.foldl (fun out entry =>
      match entry.2.valueFor rid with
      | some v => setPath out entry.1 v
      | none => out) out = overlay (cellsAt columns rid) out := by
  induction columns generalizing out with
  | nil => rfl
  | cons entry rest ih =>
      rw [List.foldl_cons, ih]
      cases hvalue : entry.2.valueFor rid with
      | none =>
          have hcells : cellsAt (entry :: rest) rid = cellsAt rest rid := by
            simp [cellsAt, hvalue]
          rw [hcells]
      | some value =>
          have hcells : cellsAt (entry :: rest) rid =
              (pathParts entry.1, value) :: cellsAt rest rid := by
            simp [cellsAt, hvalue]
          rw [hcells, overlay_cons]
          rfl

theorem read_live {c : Collection} {id : JsString} {m : RowMeta}
    (hm : Assoc.get? c.objects id = some m) (hdeleted : m.deleted = none) :
    c.read id = some (if c.indexDirtyRids.has m.rid
      then Assoc.set (c.base id m.rid) (js "_id") (.str id)
      else overlay (cellsAt c.columns m.rid)
        (Assoc.set (c.base id m.rid) (js "_id") (.str id))) := by
  unfold Collection.read hydrateStoredValue hydrateColumns
  rw [hm]
  dsimp only
  rw [hdeleted]
  refine congrArg some ?_
  split_ifs
  · rfl
  · exact foldl_columns c.columns m.rid _

/-- A row, with the columns it is read with, shows the value. -/
structure LiveOk (base : Fields) (columns : List (JsString × TypedRidColumn)) (dirty : Bool)
    (rid : Nat) (value : Fields) : Prop where
  wellFormed : (Json.obj base).WellFormed
  whole : dirty = true → ∀ q, ApartFromId q → (Json.obj base).at q = (Json.obj value).at q
  complete : dirty = false →
    Complete ApartFromId (.obj base) (cellsAt columns rid) (.obj value)

/-- Every column is under the metadata's plain paths and holds well-formed values. -/
structure ColumnOk (collectionMeta : CollectionMeta) (path : JsString)
    (column : TypedRidColumn) : Prop where
  path_eq : column.path = path
  wanted : path ∈ collectionMeta.columns
  noError : column.status ≠ .error
  pendingNodup : (Assoc.keys column.pending).Nodup
  values : ∀ {rid value}, column.valueFor rid = some value → value.WellFormed
  pending : ∀ {rid state value}, Assoc.get? column.pending rid = some state →
    state.value? = some value → value.WellFormed

structure ColumnsOk (collectionMeta : CollectionMeta)
    (columns : List (JsString × TypedRidColumn)) : Prop where
  nodup : (Assoc.keys columns).Nodup
  each : ∀ {path column}, (path, column) ∈ columns → ColumnOk collectionMeta path column

theorem ColumnsOk.get? {collectionMeta : CollectionMeta}
    {columns : List (JsString × TypedRidColumn)} (h : ColumnsOk collectionMeta columns)
    {path : JsString} {column : TypedRidColumn} (hget : Assoc.get? columns path = some column) :
    ColumnOk collectionMeta path column :=
  h.each (Assoc.mem_of_get?_eq_some hget)

theorem mem_cellsAt {columns : List (JsString × TypedRidColumn)} {rid : Nat}
    {cell : Parts × Json} : cell ∈ cellsAt columns rid ↔
      ∃ entry ∈ columns, entry.2.valueFor rid = some cell.2 ∧ pathParts entry.1 = cell.1 := by
  simp only [cellsAt, List.mem_filterMap, Option.map_eq_some_iff]
  constructor
  · rintro ⟨entry, hentry, value, hvalue, rfl⟩
    exact ⟨entry, hentry, hvalue, rfl⟩
  · rintro ⟨entry, hentry, hvalue, hparts⟩
    exact ⟨entry, hentry, cell.2, hvalue, by rw [hparts]⟩

theorem wellFormed_overlay (cells : Cells) {fields : Fields} (h : (Json.obj fields).WellFormed)
    (hcells : ∀ cell ∈ cells, cell.2.WellFormed) : (Json.obj (overlay cells fields)).WellFormed := by
  induction cells generalizing fields with
  | nil => exact h
  | cons cell rest ih =>
      rw [overlay_cons]
      exact ih (wellFormed_setParts _ h (hcells cell List.mem_cons_self))
        fun c hc => hcells c (List.mem_cons_of_mem _ hc)

/-- Cells outside `_id` leave it as it is. -/
theorem at_overlay_id (cells : Cells) {fields : Fields} (hproto : ∀ cell ∈ cells,
    js "__proto__" ∉ cell.1) (hapart : ∀ cell ∈ cells, ¬ Related cell.1 [js "_id"]) :
    (Json.obj (overlay cells fields)).at [js "_id"] = (Json.obj fields).at [js "_id"] := by
  induction cells generalizing fields with
  | nil => rfl
  | cons cell rest ih =>
      rw [overlay_cons, ih (fun c hc => hproto c (List.mem_cons_of_mem _ hc))
        (fun c hc => hapart c (List.mem_cons_of_mem _ hc))]
      exact at_setParts_of_not_related (hproto cell List.mem_cons_self) _ _
        (hapart cell List.mem_cons_self)

/-- What is read of a live row is its value. -/
theorem LiveOk.shows {c : Collection} {id : JsString} {m : RowMeta} {value : Fields}
    (hm : Assoc.get? c.objects id = some m) (hdeleted : m.deleted = none)
    (hcolumns : ColumnsOk c.collectionMeta c.columns) (hvalue : ValueOk c.collectionMeta value)
    (h : LiveOk (c.base id m.rid) c.columns (c.indexDirtyRids.has m.rid) m.rid value) :
    ∃ object, c.read id = some object ∧ (Json.obj object).WellFormed ∧ Shows id object value := by
  have hset : (Json.obj (Assoc.set (c.base id m.rid) (js "_id") (.str id))).WellFormed :=
    wellFormed_set h.wellFormed (js "_id") rfl
  have hown : (Json.obj (Assoc.set (c.base id m.rid) (js "_id") (.str id))).at [js "_id"] =
      .leaf (.str id) := by
    rw [at_obj_cons, Assoc.get?_set, if_pos rfl]
    rfl
  refine ⟨_, read_live hm hdeleted, ?_⟩
  cases hdirty : c.indexDirtyRids.has m.rid with
  | true =>
      rw [if_pos rfl]
      refine ⟨hset, fun q hq => ?_, hown⟩
      rw [at_set_id hq]
      exact h.whole hdirty q hq
  | false =>
      rw [if_neg (by simp)]
      have hcomplete := h.complete hdirty
      have hplain : ∀ cell ∈ cellsAt c.columns m.rid, ∃ path, PlainPath path ∧
          pathParts path = cell.1 := by
        intro cell hcell
        obtain ⟨entry, hentry, -, hparts⟩ := mem_cellsAt.mp hcell
        exact ⟨entry.1, (hvalue.columns _ (hcolumns.each hentry).wanted).plain, hparts⟩
      refine ⟨wellFormed_overlay _ hset ?_, ?_, ?_⟩
      · intro cell hcell
        obtain ⟨entry, hentry, hget, -⟩ := mem_cellsAt.mp hcell
        exact (hcolumns.each hentry).values hget
      · refine Complete.overlay_eq ⟨fun q hq => ?_, hcomplete.cells⟩
        rw [at_set_id hq]
        exact hcomplete.base q hq
      · rw [at_overlay_id _ (fun cell hcell => ?_) (fun cell hcell hrel => ?_)]
        · exact hown
        · obtain ⟨path, hpath, hparts⟩ := hplain cell hcell
          exact hparts ▸ hpath.noProto
        · obtain ⟨path, hpath, hparts⟩ := hplain cell hcell
          exact hpath.apart (hparts ▸ hrel) rfl

end Collection
end ObjyDb
