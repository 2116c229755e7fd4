import ObjyDb.Store.Invariant

/-!
# Batches — the invariant through put, delete and snapshot batches

A batch first writes its rows and then lets the columns hear of them, in order, or marks the rows
dirty when there are many.  `hear` follows what the columns will have heard while the rows are
written, so that every row of the batch keeps `Sound`.

- `putObjects_sound`, `deleteObjects_sound`
- `SafePuts`: the condition on the rows of a put batch
-/

namespace ObjyDb

open Js

namespace Collection

variable {vectorField : Option JsString} {c d : Collection}
  {columns : List (JsString × TypedRidColumn)} {dirty : Nat → Bool}
  {registers : JsString → Option Write} {ω : Type}

/-! ## The invariant -/

/-- Every row id was given to the entry of its object. -/
def RidsOwned (c : Collection) : Prop :=
  ∀ rid id, c.idByRid[rid]? = some id → ∃ m, Assoc.get? c.objects id = some m ∧ m.rid = rid

theorem RidsOwned.congr (h : c.RidsOwned) (hobjects : d.objects = c.objects)
    (hids : d.idByRid = c.idByRid) : d.RidsOwned := by
  unfold RidsOwned at h ⊢
  rw [hobjects, hids]
  exact h

theorem RidsOwned.ensureMeta (h : c.RidsOwned) (id : JsString) : (c.ensureMeta id).1.RidsOwned := by
  unfold Collection.ensureMeta
  cases hget : Assoc.get? c.objects id with
  | some m => exact h
  | none =>
      intro rid id' hid
      dsimp only at hid ⊢
      rw [List.getElem?_append] at hid
      split_ifs at hid with hlt
      · obtain ⟨m, hm, hrid⟩ := h rid id' hid
        have hne : id ≠ id' := fun heq => nomatch (heq ▸ hget).symm.trans hm
        exact ⟨m, by simpa [hne] using hm, hrid⟩
      · obtain ⟨hzero, hid⟩ := List.getElem?_eq_some_iff.mp hid
        have hlast : rid - c.idByRid.length = 0 := by simpa using hzero
        have hidEq : id = id' := by simpa [hlast] using hid
        subst hidEq
        exact ⟨_, by rw [Assoc.get?_set, if_pos rfl], by dsimp only; omega⟩

theorem RidsOwned.setRow (h : c.RidsOwned) {id : JsString} {m next : RowMeta}
    (hm : Assoc.get? c.objects id = some m) (hrid : next.rid = m.rid)
    (hobjects : d.objects = Assoc.set c.objects id next) (hids : d.idByRid = c.idByRid) :
    d.RidsOwned := by
  intro rid id' hid
  rw [hids] at hid
  obtain ⟨m', hm', hrid'⟩ := h rid id' hid
  rw [hobjects, Assoc.get?_set]
  split_ifs with heq
  · subst heq
    obtain rfl := Option.some.inj (hm.symm.trans hm')
    exact ⟨next, rfl, hrid.trans hrid'⟩
  · exact ⟨m', hm', hrid'⟩

/-- The rows and the scanning jobs are in order, where the columns and the dirty rows are those that
the rows written so far lead to. -/
structure Sound (vectorField : Option JsString) (c : Collection)
    (columns : List (JsString × TypedRidColumn)) (dirty : Nat → Bool)
    (registers : JsString → Option Write) : Prop where
  rows : RowsOk vectorField c columns dirty registers
  scans : ScansOk vectorField c columns registers
  absent : ∀ {id}, registers id = none → Assoc.get? c.objects id = none
  owners : c.RidsOwned

/-- The live row count is that of the metadata. -/
def CountOk (c : Collection) : Prop :=
  c.liveCount = c.liveEntries

/-- Every dirty row is in the queue of the catch-up. -/
def QueueOk (c : Collection) : Prop :=
  ∀ r, c.indexDirtyRids.has r = true → r ∈ c.indexDirtyRids.queue

/-- The invariant between two operations. -/
structure Inv (vectorField : Option JsString) (c : Collection)
    (registers : JsString → Option Write) : Prop where
  sound : Sound vectorField c c.columns c.indexDirtyRids.has registers
  count : c.CountOk
  queue : c.QueueOk

theorem absent_arrive {id : JsString} {w : Write}
    (h : ∀ {id}, registers id = none → Assoc.get? c.objects id = none)
    (helsewhere : ∀ {id'}, id' ≠ id → Assoc.get? d.objects id' = Assoc.get? c.objects id')
    {id' : JsString} (hnone : arrive registers id w id' = none) :
    Assoc.get? d.objects id' = none := by
  by_cases hid : id' = id
  · subst hid
    rw [arrive, Function.update_self] at hnone
    cases hreg : registers id' with
    | none => rw [hreg] at hnone; cases hnone
    | some held =>
        rw [hreg, Lww.later] at hnone
        split_ifs at hnone
  · rw [arrive, Function.update_of_ne hid] at hnone
    exact (helsewhere hid).trans (h hnone)

theorem arrive_stale {id : JsString} {w : Write}
    (hstale : ¬ ∀ held, registers id = some held → held.ts < w.ts) :
    arrive registers id w = registers := by
  rw [arrive, later_of_not_newer hstale, Function.update_eq_self]

/-! ## Hearing of a delta -/

/-- What the columns and the dirty rows are after one more delta of a batch, which marks its rows
dirty when it is deferred. -/
def hear (deferred : Bool) (s : List (JsString × TypedRidColumn) × (Nat → Bool))
    (delta : IndexDelta) : List (JsString × TypedRidColumn) × (Nat → Bool) :=
  let dirty := fun r => s.2 r || (deferred && decide (r = delta.rid))
  (updateColumns (dirty delta.rid) s.1 delta.rid delta.after, dirty)

/-- `d` has the rows and the configuration of `c`. -/
structure SameRows (c d : Collection) : Prop where
  vectorField : d.vectorField = c.vectorField
  compression : d.compression = c.compression
  rows : d.rows = c.rows
  objects : d.objects = c.objects
  idByRid : d.idByRid = c.idByRid
  compressedCold : d.compressedCold = c.compressedCold
  collectionMeta : d.collectionMeta = c.collectionMeta
  liveCount : d.liveCount = c.liveCount
  jobs : d.jobs = c.jobs
  nextJob : d.nextJob = c.nextJob

theorem SameRows.refl (c : Collection) : SameRows c c :=
  ⟨rfl, rfl, rfl, rfl, rfl, rfl, rfl, rfl, rfl, rfl⟩

theorem SameRows.trans {c d e : Collection} (hcd : SameRows c d) (hde : SameRows d e) :
    SameRows c e where
  vectorField := hde.vectorField.trans hcd.vectorField
  compression := hde.compression.trans hcd.compression
  rows := hde.rows.trans hcd.rows
  objects := hde.objects.trans hcd.objects
  idByRid := hde.idByRid.trans hcd.idByRid
  compressedCold := hde.compressedCold.trans hcd.compressedCold
  collectionMeta := hde.collectionMeta.trans hcd.collectionMeta
  liveCount := hde.liveCount.trans hcd.liveCount
  jobs := hde.jobs.trans hcd.jobs
  nextJob := hde.nextJob.trans hcd.nextJob

theorem Sound.sameRows (h : Sound vectorField c columns dirty registers) (hd : SameRows c d) :
    Sound vectorField d columns dirty registers where
  rows := h.rows.congr hd.vectorField hd.objects hd.idByRid hd.collectionMeta
    (base_of_same hd.rows hd.compressedCold hd.compression)
  scans := h.scans.congr hd.objects hd.collectionMeta hd.jobs hd.nextJob
  absent := fun hnone => hd.objects ▸ h.absent hnone
  owners := h.owners.congr hd.objects hd.idByRid

theorem CountOk.congr (h : c.CountOk) (hcount : d.liveCount = c.liveCount)
    (hobjects : d.objects = c.objects) : d.CountOk := by
  unfold CountOk liveEntries at h ⊢
  rw [hcount, hobjects, h]

theorem QueueOk.congr (h : c.QueueOk) (hdirty : d.indexDirtyRids = c.indexDirtyRids) : d.QueueOk := by
  unfold QueueOk at h ⊢
  rw [hdirty]
  exact h

theorem recordedColumns (c : Collection) (delta : IndexDelta) :
    ((c.recordFieldBuildDelta delta).recordColumnBuildDelta delta.rid delta.after).columns =
      Assoc.mapValues (fun _ column => if column.status ≠ .building then column
        else columnAfter column delta.rid delta.after) c.columns := rfl

theorem applyIndexDelta_spec (c : Collection) (delta : IndexDelta) :
    SameRows c (c.applyIndexDelta delta) ∧
      ((c.applyIndexDelta delta).columns, (c.applyIndexDelta delta).indexDirtyRids.has) =
        hear false (c.columns, c.indexDirtyRids.has) delta := by
  have hrecord : ∀ column : TypedRidColumn, column.status = .building →
      (columnAfter column delta.rid delta.after).status = .building := by
    intro column hbuilding
    rw [columnAfter_eq, (column.updateScalarState_frame _ _).1, hbuilding]
  have hhear : hear false (c.columns, c.indexDirtyRids.has) delta =
      (updateColumns (c.indexDirtyRids.has delta.rid) c.columns delta.rid delta.after,
        c.indexDirtyRids.has) := by
    simp [hear]
  let recorded := (c.recordFieldBuildDelta delta).recordColumnBuildDelta delta.rid delta.after
  have hif : c.applyIndexDelta delta = if c.indexDirtyRids.has delta.rid then recorded
      else { recorded with
        indexes := Assoc.mapValues (fun _ index => refreshIndex index delta) recorded.indexes
        columns := Assoc.mapValues (fun _ column =>
          if column.status = .building then column
          else columnAfter column delta.rid delta.after) recorded.columns } := rfl
  rw [hhear, hif]
  by_cases hdirty : c.indexDirtyRids.has delta.rid = true
  · rw [if_pos hdirty]
    refine ⟨⟨rfl, rfl, rfl, rfl, rfl, rfl, rfl, rfl, rfl, rfl⟩, Prod.ext ?_ rfl⟩
    refine (recordedColumns c delta).trans (List.map_congr_left fun entry _ => Prod.ext rfl ?_)
    by_cases hbuilding : entry.2.status = .building <;> simp [columnUpdate, hdirty, hbuilding]
  · rw [if_neg hdirty]
    refine ⟨⟨rfl, rfl, rfl, rfl, rfl, rfl, rfl, rfl, rfl, rfl⟩, Prod.ext ?_ rfl⟩
    dsimp only
    rw [recordedColumns c delta]
    simp only [updateColumns, Assoc.mapValues, List.map_map]
    refine List.map_congr_left fun entry _ => Prod.ext rfl ?_
    simp only [Function.comp_apply]
    rw [columnUpdate, if_pos (Or.inr (Bool.eq_false_iff.mpr hdirty))]
    by_cases hbuilding : entry.2.status = .building
    · simp [hbuilding, hrecord entry.2 hbuilding]
    · simp [hbuilding]

theorem has_add (q : RidBitmapQueue) (rid r : Nat) :
    (q.add rid).has r = (q.has r || decide (r = rid)) := by
  unfold RidBitmapQueue.add RidBitmapQueue.has
  split_ifs with hmem
  · by_cases hr : r = rid
    · subst hr
      simp [hmem]
    · simp [hr]
  · simp [mem_ridSetAdd]

theorem markIndexDirty_spec (c : Collection) (delta : IndexDelta) :
    SameRows c (c.markIndexDirty delta) ∧
      ((c.markIndexDirty delta).columns, (c.markIndexDirty delta).indexDirtyRids.has) =
        hear true (c.columns, c.indexDirtyRids.has) delta := by
  have hhear : hear true (c.columns, c.indexDirtyRids.has) delta =
      (updateColumns true c.columns delta.rid delta.after,
        fun r => c.indexDirtyRids.has r || decide (r = delta.rid)) := by
    simp [hear]
  rw [hhear]
  refine ⟨⟨rfl, rfl, rfl, rfl, rfl, rfl, rfl, rfl, rfl, rfl⟩, Prod.ext ?_ ?_⟩
  · refine (recordedColumns c delta).trans (List.map_congr_left fun entry _ => Prod.ext rfl ?_)
    by_cases hbuilding : entry.2.status = .building <;> simp [columnUpdate, hbuilding]
  · funext r
    exact has_add c.indexDirtyRids delta.rid r

/-- All deltas of a batch, deferred or not. -/
theorem foldl_hear (deferred : Bool) {step : Collection → IndexDelta → Collection}
    (hstep : ∀ c delta, SameRows c (step c delta) ∧
      ((step c delta).columns, (step c delta).indexDirtyRids.has) =
        hear deferred (c.columns, c.indexDirtyRids.has) delta)
    (deltas : List IndexDelta) (c : Collection) :
    SameRows c (deltas.foldl step c) ∧
      ((deltas.foldl step c).columns, (deltas.foldl step c).indexDirtyRids.has) =
        deltas.foldl (hear deferred) (c.columns, c.indexDirtyRids.has) := by
  induction deltas generalizing c with
  | nil => exact ⟨.refl c, rfl⟩
  | cons delta rest ih =>
      obtain ⟨hsame, hheard⟩ := hstep c delta
      obtain ⟨hrest, heq⟩ := ih (step c delta)
      rw [List.foldl_cons, List.foldl_cons, ← hheard]
      exact ⟨hsame.trans hrest, heq⟩

theorem readyPaths_hear (deferred : Bool) (s : List (JsString × TypedRidColumn) × (Nat → Bool))
    (delta : IndexDelta) : readyPaths (hear deferred s delta).1 = readyPaths s.1 :=
  readyPaths_updateColumns _ _ _ _

theorem FitsBuilding.update {rid r : Nat} {value : Fields} {after : Option Fields}
    (h : FitsBuilding columns r value) (dirtyRow : Bool) :
    FitsBuilding (updateColumns dirtyRow columns rid after) r value := by
  intro path column x hmem hbuilding hx
  obtain ⟨old, hold, rfl⟩ := mem_updateColumns.mp hmem
  obtain ⟨hstatus, -, -⟩ := columnUpdate_frame dirtyRow old rid after
  have hold' := hstatus ▸ hbuilding
  rw [valueFor_columnUpdate, if_neg (fun h => h.1 hold')] at hx
  exact h path old x hold hold' hx

/-! ## Accepted writes -/

/-- An accepted write of `id` is recorded. -/
def record (registers : JsString → Option Write) (written : JsString × Write) :
    JsString → Option Write :=
  Function.update registers written.1 (some written.2)

/-- The write of a put row, and of a deleted row. -/
def Row.written (row : Row ω) : JsString × Write :=
  (row.id, ⟨row.ts, some row.value⟩)

def Row.deleted (row : Row ω) : JsString × Write :=
  (row.id, ⟨row.ts, none⟩)

/-! ## Writing the rows of a put batch -/

/-- A row may be put: its value is one that can be kept in parts, its vector field is valid, and if
it is accepted without becoming dirty, the columns being built do not show another value of it. -/
structure SafePut (deferred : Bool) (c : Collection) (row : Row ω) : Prop where
  vector : ValidVector c.vectorField row.value
  value : ValueOk c.collectionMeta (withoutVector c.vectorField row.value)
  fits : Older (c.ensureMeta row.id).2 row.ts → deferred = false →
    c.indexDirtyRids.has (c.ensureMeta row.id).2.rid = false →
    FitsBuilding c.columns (c.ensureMeta row.id).2.rid (withoutVector c.vectorField row.value)

/-- Every row of a put batch may be put when its turn comes. -/
def SafePuts (deferred keep : Bool) : Collection → List (Row ω) → Prop
  | _, [] => True
  | c, row :: rest => SafePut deferred c row ∧ SafePuts deferred keep (c.putObject row keep).1 rest

instance (m : RowMeta) (ts : Ts) : Decidable (Older m ts) :=
  decidable_of_iff ((m.deleted.isSome && !gt (some ts) m.deleted) = false ∧
      (m.ts.isSome && !gt (some ts) m.ts) = false) (by
    rw [stale_iff, stale_iff]
    exact ⟨fun h => ⟨fun hd => h.1 _ hd, fun ht => h.2 _ ht⟩,
      fun h => ⟨fun _ hd => h.deleted hd, fun _ ht => h.written ht⟩⟩)

/-- How many rows of a put batch are accepted. -/
def acceptedPuts (keep : Bool) : Collection → List (Row ω) → Nat
  | _, [] => 0
  | c, row :: rest => acceptedPuts keep (c.putObject row keep).1 rest +
      if Older (c.ensureMeta row.id).2 row.ts then 1 else 0

/-- What is assumed of the columns heard so far while the rows of a batch are written. -/
structure Hearing (c : Collection) (deferred keep : Bool)
    (columns : List (JsString × TypedRidColumn)) (dirty : Nat → Bool) : Prop where
  ready : readyPaths columns = readyPaths c.columns
  fits : ∀ {rid value}, FitsBuilding c.columns rid value → FitsBuilding columns rid value
  marked : ∀ {r}, c.indexDirtyRids.has r = true → dirty r = true
  whole : ∀ {r}, (dirty r || deferred) = true → keep = true ∨ c.hasDirtyIndexes = true

theorem putBase_eq (c : Collection) (keep : Bool) (value : Fields) :
    ∃ paths, (paths = [] ∨ paths = readyPaths c.columns) ∧
      (keep = true ∨ c.hasDirtyIndexes = true → paths = []) ∧
      c.putBase keep value = unsetPaths value paths := by
  unfold putBase
  split_ifs with h
  · exact ⟨[], .inl rfl, fun _ => rfl, rfl⟩
  · refine ⟨readyPaths c.columns, .inr rfl, fun h' => absurd ?_ h, rfl⟩
    simpa using h'

theorem Hearing.sameDerived {deferred keep : Bool} (h : Hearing c deferred keep columns dirty)
    (hd : SameDerived c d) : Hearing d deferred keep columns dirty where
  ready := hd.columns ▸ h.ready
  fits := fun hfits => h.fits (hd.columns ▸ hfits)
  marked := fun hr => h.marked (hd.indexDirtyRids ▸ hr)
  whole := fun hr => by
    rcases h.whole hr with hkeep | hdirty
    · exact .inl hkeep
    · refine .inr ?_
      unfold hasDirtyIndexes at hdirty ⊢
      rw [hd.indexDirtyRids]
      exact hdirty

/-- What the columns will have heard after one more row. -/
def hearOption (deferred : Bool) (s : List (JsString × TypedRidColumn) × (Nat → Bool)) :
    Option IndexDelta → List (JsString × TypedRidColumn) × (Nat → Bool)
  | none => s
  | some delta => hear deferred s delta

/-- One row of a put batch. -/
theorem putObject_sound (h : Sound vectorField c columns dirty registers) (row : Row ω)
    {deferred keep : Bool} (hhearing : Hearing c deferred keep columns dirty)
    (hsafe : SafePut deferred c row) :
    ∃ d delta, c.putObject row keep = (d, .ok delta) ∧ SameDerived c d ∧
      (delta.isSome = true ↔ Older (c.ensureMeta row.id).2 row.ts) ∧
      (c.CountOk → d.CountOk) ∧
      (arrive registers row.id ⟨row.ts, some row.value⟩ =
        if delta.isSome then record registers row.written else registers) ∧
      Sound vectorField d (hearOption deferred (columns, dirty) delta).1
        (hearOption deferred (columns, dirty) delta).2
        (arrive registers row.id ⟨row.ts, some row.value⟩) := by
  have he := c.ensureMeta_entered row.id
  obtain ⟨hvector, hvalue, hfits⟩ := hsafe
  set em := c.ensureMeta row.id with hem
  obtain ⟨d, m⟩ := em
  have hfield : d.vectorField = vectorField := he.same.vectorField.trans h.rows.field
  have howners : d.RidsOwned := by
    have hentered := h.owners.ensureMeta row.id
    rw [← hem] at hentered
    exact hentered
  have hrows := h.rows.entered he
  have hscans := h.scans.entered h.rows.recorded he
  have holder := (hrows.recorded row.id).older_iff he.here row.ts
  have hcountD : c.CountOk → d.liveCount = d.liveEntries := fun hcount =>
    he.counters.trans (hcount.trans (congrArg Nat.cast he.live.symm))
  rw [h.rows.field] at hvector hvalue hfits
  rcases c.putObject_cases row keep hem.symm with
    ⟨hstale, heq⟩ | ⟨-, err, hprep, -⟩ |
      ⟨hold, prepared, vector, after, next, hprep, hts, hdeleted, hrid, hcounted, hcount, heq⟩
  · refine ⟨d, none, heq, he.same, by simp [hstale], hcountD,
      arrive_stale (mt holder.mpr hstale), ?_⟩
    rw [arrive_stale (mt holder.mpr hstale)]
    refine ⟨hrows, hscans, fun {id} hnone => ?_, howners⟩
    by_cases hid : id = row.id
    · subst hid
      -- a rejected row has an older write
      exact absurd (holder.mpr fun held hheld => nomatch hnone.symm.trans hheld) hstale
    · exact (he.elsewhere hid).trans (h.absent hnone)
  · obtain ⟨vector, hok, -⟩ := prepareStoredValue_valid hfield hvector
    exact nomatch hok.symm.trans hprep
  · obtain ⟨vector', hok, -⟩ := prepareStoredValue_valid hfield hvector
    obtain ⟨rfl, rfl⟩ := Prod.mk.inj (Except.ok.inj (hok.symm.trans hprep))
    set value := withoutVector vectorField row.value with hvalueDef
    have hhearingD := hhearing.sameDerived he.same
    obtain ⟨paths, hpaths, hempty, hbase⟩ := d.putBase_eq keep value
    rw [hbase] at hcounted
    have hvalueD : ValueOk d.collectionMeta value := he.same.collectionMeta ▸ hvalue
    have hwfAfter : (Json.obj (queryObjectFromStoredValue row.id value)).WellFormed :=
      wellFormed_set (wellFormed_filter hvalue.wellFormed _) (js "_id") rfl
    have hview := view_queryObject row.id value
    let dirty' : Nat → Bool := fun r => dirty r || (deferred && decide (r = m.rid))
    have hmarked : dirty' m.rid = true → paths = [] := by
      intro hmark
      refine hempty (@Hearing.whole _ _ _ _ _ hhearingD m.rid ?_)
      simpa [dirty'] using hmark
    -- the columns being built show the value, or nothing, of a row that stays clean
    have hfitsD : dirty' m.rid = false → FitsBuilding columns m.rid value := by
      intro hclean
      have hclean' : dirty m.rid = false ∧ deferred = false := by simpa [dirty'] using hclean
      refine hhearing.fits (hfits hold hclean'.2 ?_)
      rw [Bool.eq_false_iff]
      intro hmark
      exact nomatch (hhearing.marked hmark).symm.trans hclean'.1
    have hwritten : RowsOk vectorField (d.overwrite row.id next (unsetPaths value paths) vector')
        (updateColumns (dirty' m.rid) columns m.rid
          (some (queryObjectFromStoredValue row.id value))) dirty'
        (Function.update registers row.id (some ⟨row.ts, some row.value⟩)) :=
      hrows.overwrite he.here hrid hts hdeleted hvalueD (fun r hr => by simp [dirty', hr])
        (hpaths.imp id fun h => h.trans hhearingD.ready.symm)
        (fun hmark p hp => by rw [hmarked hmark] at hp; cases hp) hfitsD hwfAfter hview
    have hsameAfter : SameDerived d after :=
      (d.sameDerived_overwrite _ _ _ _).trans hcounted.sameDerived
    have hobjects : after.objects = Assoc.set d.objects row.id next :=
      hcounted.rows_eq.2.2.1.trans (d.objects_overwrite _ _ _ _)
    have hscansAfter : ScansOk vectorField after (updateColumns (dirty' m.rid) columns m.rid
        (some (queryObjectFromStoredValue row.id value)))
        (Function.update registers row.id (some ⟨row.ts, some row.value⟩)) := by
      refine hscans.write hrows.columnsOk hrows.rids he.here hrid hobjects
        hsameAfter.collectionMeta hsameAfter.jobs hsameAfter.nextJob (dirty' m.rid) ?_
      intro raw hraw path hpath
      obtain rfl := Option.some.inj hraw
      exact holdsValue_getPathValue (hvalueD.columns path hpath) hview
    have harrive : arrive registers row.id ⟨row.ts, some row.value⟩ =
        Function.update registers row.id (some ⟨row.ts, some row.value⟩) :=
      arrive_newer (holder.mp hold)
    refine ⟨after, _, heq, he.same.trans hsameAfter, by simp [hold], ?_, harrive, harrive ▸
      hwritten.counted hcounted, harrive ▸ hscansAfter, ?_, howners.setRow he.here hrid hobjects ?_⟩
    · intro hcountC
      have hlive := liveEntries_set hrows.rids he.here hobjects
      rw [hts, hdeleted] at hlive
      simp only [Option.isSome_some, Option.isNone_none, Bool.and_self, if_true] at hlive
      unfold CountOk
      rw [hcount, hcountD hcountC]
      split_ifs at hlive ⊢ <;> omega
    · intro id hnone
      refine absent_arrive h.absent (fun {id'} hid => ?_) hnone
      rw [hobjects, Assoc.get?_set, if_neg (Ne.symm hid)]
      exact he.elsewhere hid
    · exact hcounted.rows_eq.2.2.2.1.trans (d.overwrite_counted _ _ _ _).rows_eq.2.2.2.1

theorem Hearing.hearOption {deferred keep : Bool} (h : Hearing c deferred keep columns dirty)
    (delta : Option IndexDelta) :
    Hearing c deferred keep (hearOption deferred (columns, dirty) delta).1
      (hearOption deferred (columns, dirty) delta).2 := by
  cases delta with
  | none => exact h
  | some delta =>
      refine ⟨(readyPaths_hear _ _ _).trans h.ready, fun hfits => (h.fits hfits).update _,
        fun hr => ?_, fun {r} hr => h.whole (r := r) ?_⟩
      · simp [Collection.hearOption, hear, h.marked hr]
      · simp only [Collection.hearOption, hear, Bool.or_eq_true, Bool.and_eq_true] at hr ⊢
        rcases hr with (hr | ⟨hr, -⟩) | hr
        · exact .inl hr
        · exact .inr hr
        · exact .inr hr

/-- The write of a put row arrives. -/
def arrivePut (registers : JsString → Option Write) (row : Row ω) : JsString → Option Write :=
  arrive registers row.id ⟨row.ts, some row.value⟩

/-- All rows of a put batch are written. -/
theorem putRows_sound {deferred keep : Bool} (rows : List (Row ω)) {c : Collection}
    {columns : List (JsString × TypedRidColumn)} {dirty : Nat → Bool}
    {registers : JsString → Option Write} (h : Sound vectorField c columns dirty registers)
    (hhearing : Hearing c deferred keep columns dirty) (hsafe : SafePuts deferred keep c rows) :
    ∃ d applied deltas, putRows keep c rows = (d, .ok (applied, deltas)) ∧ SameDerived c d ∧
      deltas.length = acceptedPuts keep c rows ∧ (c.CountOk → d.CountOk) ∧
      rows.foldl arrivePut registers = (applied.map Row.written).foldl record registers ∧
      Sound vectorField d (deltas.foldl (hear deferred) (columns, dirty)).1
        (deltas.foldl (hear deferred) (columns, dirty)).2 (rows.foldl arrivePut registers) := by
  induction rows generalizing c columns dirty registers with
  | nil => exact ⟨c, [], [], rfl, .refl c, rfl, id, rfl, h⟩
  | cons row rest ih =>
      obtain ⟨hrow, hrest⟩ := hsafe
      obtain ⟨d, delta, heq, hsame, haccepted, hcount, harrive, hd⟩ :=
        putObject_sound h row hhearing hrow
      rw [heq] at hrest
      obtain ⟨e, applied, deltas, hrows, hsameE, hlength, hcountE, hrecorded, he⟩ :=
        ih hd ((hhearing.hearOption delta).sameDerived hsame) hrest
      rw [putRows, heq]
      dsimp only
      rw [hrows, acceptedPuts, heq]
      cases delta with
      | none =>
          refine ⟨e, applied, deltas, rfl, hsame.trans hsameE, ?_, hcountE ∘ hcount, ?_, he⟩
          · rw [hlength, if_neg (fun hold => nomatch haccepted.mpr hold)]
            rfl
          · rw [List.foldl_cons, arrivePut, hrecorded, harrive]
            rfl
      | some delta =>
          refine ⟨e, row :: applied, delta :: deltas, rfl, hsame.trans hsameE, ?_,
            hcountE ∘ hcount, ?_, he⟩
          · rw [List.length_cons, hlength, if_pos (haccepted.mp rfl)]
          · rw [List.foldl_cons, arrivePut, hrecorded, harrive]
            rfl

theorem acceptedPuts_le (keep : Bool) (rows : List (Row ω)) (c : Collection) :
    acceptedPuts keep c rows ≤ rows.length := by
  induction rows generalizing c with
  | nil => exact le_rfl
  | cons row rest ih =>
      have hrest := ih (c.putObject row keep).1
      rw [acceptedPuts, List.length_cons]
      split_ifs <;> omega

/-! ## Scheduling a job that is no scan -/

/-- A job that scans nothing, and strips only paths of columns. -/
def Passive (collectionMeta : CollectionMeta) : Job → Prop
  | .columns _ _ _ => False
  | .strip paths _ => ∀ p ∈ paths, p ∈ collectionMeta.columns
  | .fields _ _ _ => True
  | .catchup => True

theorem ScansOk.of_jobs (h : ScansOk vectorField c columns registers)
    (hobjects : d.objects = c.objects) (hmeta : d.collectionMeta = c.collectionMeta)
    (hnodup : (Assoc.keys d.jobs).Nodup) (hfresh : ∀ {id}, id ∈ Assoc.keys d.jobs → id < d.nextJob)
    (hjobs : ∀ {id job}, Assoc.get? d.jobs id = some job →
      Assoc.get? c.jobs id = some job ∨ Passive c.collectionMeta job) : ScansOk vectorField d columns registers := by
  have hscan : ∀ {job targets built scanned},
      Assoc.get? d.jobs job = some (.columns targets built scanned) →
      Assoc.get? c.jobs job = some (.columns targets built scanned) := by
    intro job targets built scanned hget
    rcases hjobs hget with hold | hpassive
    · exact hold
    · cases hpassive
  refine ⟨hnodup, hfresh, fun hget => h.targetsNodup (hscan hget), ?_, ?_, ?_⟩
  · intro job targets built scanned path buildId hget hmem
    obtain ⟨hone, hwanted, source, hsource, hok, hrows⟩ := h.scans (hscan hget) hmem
    refine ⟨hone, hmeta ▸ hwanted, source, hsource, hok, fun column hcolumn hid => ?_⟩
    obtain ⟨hbuilding, hall⟩ := hrows column hcolumn hid
    exact ⟨hbuilding, fun hi hlive =>
      hall (hobjects ▸ hi) ⟨hobjects ▸ hlive.entry, hlive.newest⟩⟩
  · intro job job' targets targets' built built' scanned scanned' path buildId column h1 hm1 h2 hm2
    exact h.exclusive (hscan h1) hm1 (hscan h2) hm2
  · intro job paths scanned hget p hp
    rcases hjobs hget with hold | hpassive
    · exact hmeta ▸ h.strips hold p hp
    · exact hmeta ▸ hpassive p hp

/-- The rows do not depend on the jobs. -/
structure SameData (c d : Collection) : Prop where
  vectorField : d.vectorField = c.vectorField
  compression : d.compression = c.compression
  rows : d.rows = c.rows
  objects : d.objects = c.objects
  idByRid : d.idByRid = c.idByRid
  compressedCold : d.compressedCold = c.compressedCold
  collectionMeta : d.collectionMeta = c.collectionMeta
  liveCount : d.liveCount = c.liveCount

theorem Sound.of_data (h : Sound vectorField c columns dirty registers) (hd : SameData c d)
    (hscans : ScansOk vectorField d columns registers) :
    Sound vectorField d columns dirty registers where
  rows := h.rows.congr hd.vectorField hd.objects hd.idByRid hd.collectionMeta
    (base_of_same hd.rows hd.compressedCold hd.compression)
  scans := hscans
  absent := fun hnone => hd.objects ▸ h.absent hnone
  owners := h.owners.congr hd.objects hd.idByRid

theorem get?_schedule (c : Collection) (job : Job) (id : Nat) :
    Assoc.get? (c.schedule job).jobs id =
      (Assoc.get? c.jobs id).or (if c.nextJob = id then some job else none) := by
  change Assoc.get? (c.jobs ++ [(c.nextJob, job)]) id = _
  rw [Assoc.get?_append, Assoc.get?_cons]
  rfl

theorem jobs_schedule (h : ScansOk vectorField c columns registers) (job : Job) :
    (Assoc.keys (c.schedule job).jobs).Nodup ∧
      ∀ {id}, id ∈ Assoc.keys (c.schedule job).jobs → id < (c.schedule job).nextJob := by
  have hkeys : Assoc.keys (c.schedule job).jobs = Assoc.keys c.jobs ++ [c.nextJob] := by
    change Assoc.keys (c.jobs ++ [(c.nextJob, job)]) = _
    simp [Assoc.keys]
  rw [hkeys]
  constructor
  · refine List.nodup_append.mpr ⟨h.jobsNodup, List.nodup_singleton _, ?_⟩
    intro a ha b hb heq
    have hlt := h.jobsFresh ha
    rw [heq, List.mem_singleton.mp hb] at hlt
    exact lt_irrefl _ hlt
  · intro id hid
    change id < c.nextJob + 1
    rcases List.mem_append.mp hid with hid | hid
    · exact (h.jobsFresh hid).trans (Nat.lt_succ_self _)
    · exact (List.mem_singleton.mp hid).symm ▸ Nat.lt_succ_self _

theorem ScansOk.schedule_passive (h : ScansOk vectorField c columns registers) {job : Job}
    (hjob : Passive c.collectionMeta job) : ScansOk vectorField (c.schedule job) columns registers := by
  obtain ⟨hnodup, hfresh⟩ := jobs_schedule h job
  refine h.of_jobs rfl rfl hnodup hfresh fun {id scheduled} hget => ?_
  rw [get?_schedule] at hget
  rcases Option.or_eq_some_iff.mp hget with hold | ⟨-, hnew⟩
  · exact .inl hold
  · split_ifs at hnew
    exact .inr (Option.some.inj hnew ▸ hjob)

theorem Sound.scheduleDirtyIndexCatchup (h : Sound vectorField c columns dirty registers) :
    Sound vectorField c.scheduleDirtyIndexCatchup columns dirty registers := by
  unfold Collection.scheduleDirtyIndexCatchup
  split_ifs
  · exact h
  · have hpassive : Passive c.collectionMeta .catchup := trivial
    have hscans := h.scans.schedule_passive hpassive
    exact h.of_data ⟨rfl, rfl, rfl, rfl, rfl, rfl, rfl, rfl⟩
      (hscans.of_jobs rfl rfl hscans.jobsNodup hscans.jobsFresh fun hget => .inl hget)

theorem scheduleDirtyIndexCatchup_heard (c : Collection) :
    c.scheduleDirtyIndexCatchup.columns = c.columns ∧
      c.scheduleDirtyIndexCatchup.indexDirtyRids = c.indexDirtyRids ∧
      (c.CountOk → c.scheduleDirtyIndexCatchup.CountOk) := by
  unfold Collection.scheduleDirtyIndexCatchup
  split_ifs
  · exact ⟨rfl, rfl, id⟩
  · exact ⟨rfl, rfl, fun h => h.congr rfl rfl⟩

/-! ## Batches -/

/-- The deltas of a batch reach the columns. -/
theorem applyIndexDeltas_sound {deferred : Bool} {deltas : List IndexDelta}
    (hdeferred : deferred = c.shouldDeferIndexDeltasForCount deltas.length)
    (h : Sound vectorField c
      (deltas.foldl (hear deferred) (c.columns, c.indexDirtyRids.has)).1
      (deltas.foldl (hear deferred) (c.columns, c.indexDirtyRids.has)).2 registers) :
    Sound vectorField (c.applyIndexDeltas deltas) (c.applyIndexDeltas deltas).columns
      (c.applyIndexDeltas deltas).indexDirtyRids.has registers ∧
      (c.CountOk → (c.applyIndexDeltas deltas).CountOk) := by
  unfold applyIndexDeltas
  by_cases hempty : deltas.length = 0
  · rw [if_pos hempty]
    obtain rfl := List.eq_nil_of_length_eq_zero hempty
    exact ⟨h, id⟩
  rw [if_neg hempty, ← hdeferred]
  cases deferred with
  | true =>
      rw [if_pos rfl]
      obtain ⟨hsame, heard⟩ := foldl_hear true markIndexDirty_spec deltas c
      have hmarked := h.sameRows hsame
      rw [← heard] at hmarked
      have hscheduled := hmarked.scheduleDirtyIndexCatchup
      obtain ⟨hcolumns, hdirty, hcount⟩ :=
        scheduleDirtyIndexCatchup_heard (deltas.foldl markIndexDirty c)
      rw [hcolumns, hdirty]
      exact ⟨hscheduled, fun h => hcount (h.congr hsame.liveCount hsame.objects)⟩
  | false =>
      rw [if_neg (by simp)]
      obtain ⟨hsame, heard⟩ := foldl_hear false applyIndexDelta_spec deltas c
      have happlied := h.sameRows hsame
      rw [← heard] at happlied
      exact ⟨happlied, fun h => h.congr hsame.liveCount hsame.objects⟩

theorem markIndexDirty_queue (h : c.QueueOk) (delta : IndexDelta) :
    (c.markIndexDirty delta).QueueOk := by
  intro r hr
  change r ∈ (c.indexDirtyRids.add delta.rid).queue
  replace hr : (c.indexDirtyRids.add delta.rid).has r = true := hr
  rw [has_add, Bool.or_eq_true, decide_eq_true_iff] at hr
  unfold RidBitmapQueue.add
  split_ifs with hmem
  · rcases hr with hr | rfl
    · exact h r hr
    · exact h _ (decide_eq_true hmem)
  · rcases hr with hr | rfl
    · exact List.mem_append_left _ (h r hr)
    · exact List.mem_append_right _ (List.mem_singleton.mpr rfl)

theorem foldl_markIndexDirty_queue (deltas : List IndexDelta) {c : Collection} (h : c.QueueOk) :
    (deltas.foldl markIndexDirty c).QueueOk := by
  induction deltas generalizing c with
  | nil => exact h
  | cons delta rest ih => exact ih (markIndexDirty_queue h delta)

theorem foldl_applyIndexDelta_dirty (deltas : List IndexDelta) (c : Collection) :
    (deltas.foldl applyIndexDelta c).indexDirtyRids = c.indexDirtyRids := by
  induction deltas generalizing c with
  | nil => rfl
  | cons delta rest ih =>
      refine (ih _).trans ?_
      unfold applyIndexDelta
      dsimp only
      split_ifs <;> rfl

theorem applyIndexDeltas_queue (h : c.QueueOk) (deltas : List IndexDelta) :
    (c.applyIndexDeltas deltas).QueueOk := by
  unfold applyIndexDeltas
  split_ifs
  · exact h
  · exact (foldl_markIndexDirty_queue deltas h).congr (scheduleDirtyIndexCatchup_heard _).2.1
  · exact h.congr (foldl_applyIndexDelta_dirty deltas c)

theorem applyIndexDeltas_inv {deferred : Bool} {deltas : List IndexDelta}
    (hdeferred : deferred = c.shouldDeferIndexDeltasForCount deltas.length)
    (h : Sound vectorField c
      (deltas.foldl (hear deferred) (c.columns, c.indexDirtyRids.has)).1
      (deltas.foldl (hear deferred) (c.columns, c.indexDirtyRids.has)).2 registers)
    (hcount : c.CountOk) (hqueue : c.QueueOk) :
    Inv vectorField (c.applyIndexDeltas deltas) registers := by
  obtain ⟨hsound, hcounted⟩ := applyIndexDeltas_sound hdeferred h
  exact ⟨hsound, hcounted hcount, applyIndexDeltas_queue hqueue deltas⟩

theorem shouldDefer_of_sameDerived (h : SameDerived c d) (count : Nat) :
    d.shouldDeferIndexDeltasForCount count = c.shouldDeferIndexDeltasForCount count := by
  unfold shouldDeferIndexDeltasForCount hasIndexWork
  rw [h.indexes, h.columns, h.fieldBuilds, h.columnBuilds]

/-- The condition on a put batch. -/
def SafePutBatch (c : Collection) (rows : List (Row ω)) : Prop :=
  let keep := c.shouldDeferIndexDeltasForCount rows.length
  SafePuts (c.shouldDeferIndexDeltasForCount (acceptedPuts keep c rows)) keep c rows

theorem putObjects_inv (h : Inv vectorField c registers) (rows : List (Row ω))
    (hsafe : SafePutBatch c rows) :
    ∃ applied, (c.putObjects rows).2 = .ok applied ∧
      Inv vectorField (c.putObjects rows).1 ((applied.map Row.written).foldl record registers) := by
  unfold SafePutBatch at hsafe
  set keep := c.shouldDeferIndexDeltasForCount rows.length with hkeep
  set deferred := c.shouldDeferIndexDeltasForCount (acceptedPuts keep c rows) with hdeferred
  have hhearing : Hearing c deferred keep c.columns c.indexDirtyRids.has := by
    refine ⟨rfl, id, id, fun {r} hr => ?_⟩
    rcases (Bool.or_eq_true _ _).mp hr with hdirty | hdefer
    · right
      simp only [hasDirtyIndexes, decide_eq_true_iff]
      intro hempty
      simp [RidBitmapQueue.has, hempty] at hdirty
    · left
      -- a batch that is deferred has enough rows to keep the column fields
      simp only [hdeferred, hkeep, shouldDeferIndexDeltasForCount, Bool.and_eq_true,
        decide_eq_true_iff] at hdefer ⊢
      exact ⟨hdefer.1.trans (acceptedPuts_le keep rows c), hdefer.2⟩
  obtain ⟨d, applied, deltas, heq, hsame, hlength, hcount, hrecorded, hd⟩ :=
    putRows_sound rows h.sound hhearing hsafe
  rw [putObjects, ← hkeep, heq]
  refine ⟨applied, rfl, ?_⟩
  rw [← hrecorded]
  dsimp only
  rw [← hsame.columns, ← hsame.indexDirtyRids] at hd
  refine applyIndexDeltas_inv ?_ hd (hcount h.count) (h.queue.congr hsame.indexDirtyRids)
  rw [shouldDefer_of_sameDerived hsame, hlength]

/-! ## Deletes -/

/-- The write of a deleted row arrives. -/
def arriveDelete (registers : JsString → Option Write) (row : Row ω) : JsString → Option Write :=
  arrive registers row.id ⟨row.ts, none⟩

theorem last_iff_stale {id : JsString} {m : RowMeta} (ts : Ts)
    (h : Recorded c id (registers id)) (hm : Assoc.get? c.objects id = some m) :
    (∀ last, m.deleted.or m.ts = some last → last < ts) ↔
      ∀ held, registers id = some held → held.ts < ts := by
  rw [h.last_iff hm]
  constructor
  · intro hall held hheld
    exact hall held.ts (by rw [hheld]; rfl)
  · intro hall last hlast
    obtain ⟨held, hheld, rfl⟩ := Option.map_eq_some_iff.mp hlast
    exact hall held hheld

theorem deleteObject_sound (h : Sound vectorField c columns dirty registers) (row : Row ω)
    (deferred : Bool) :
    SameDerived c (c.deleteObject row).1 ∧ (c.CountOk → (c.deleteObject row).1.CountOk) ∧
      (arriveDelete registers row =
        if (c.deleteObject row).2.isSome then record registers row.deleted else registers) ∧
      Sound vectorField (c.deleteObject row).1
        (hearOption deferred (columns, dirty) (c.deleteObject row).2).1
        (hearOption deferred (columns, dirty) (c.deleteObject row).2).2
        (arriveDelete registers row) := by
  have he := c.ensureMeta_entered row.id
  set em := c.ensureMeta row.id with hem
  obtain ⟨d, m⟩ := em
  have howners : d.RidsOwned := by
    have hentered := h.owners.ensureMeta row.id
    rw [← hem] at hentered
    exact hentered
  have hrows := h.rows.entered he
  have hscans := h.scans.entered h.rows.recorded he
  have hnewest := last_iff_stale row.ts (hrows.recorded row.id) he.here
  have hcountD : c.CountOk → d.liveCount = d.liveEntries := fun hcount =>
    he.counters.trans (hcount.trans (congrArg Nat.cast he.live.symm))
  rcases c.deleteObject_cases row hem.symm with
    ⟨⟨last, hlast, hle⟩, heq⟩ | ⟨hnewer, after, next, hts, hdeleted, hrid, hcounted, hcount, heq⟩
  · -- a stale delete only enters the identifier
    rw [heq]
    have hstale : ¬ ∀ held, registers row.id = some held → held.ts < row.ts := fun hall =>
      absurd (hnewest.mpr hall last hlast) (not_lt.mpr hle)
    refine ⟨he.same, hcountD, arrive_stale hstale, ?_⟩
    rw [arriveDelete, arrive_stale hstale]
    refine ⟨hrows, hscans, fun {id} hnone => ?_, howners⟩
    by_cases hid : id = row.id
    · subst hid
      exact absurd (fun held hheld => nomatch hnone.symm.trans hheld) hstale
    · exact (he.elsewhere hid).trans (h.absent hnone)
  · rw [heq]
    have hsameAfter : SameDerived d after :=
      (d.sameDerived_clear row.id next).trans hcounted.sameDerived
    have hobjects : after.objects = Assoc.set d.objects row.id next :=
      hcounted.rows_eq.2.2.1
    let dirty' : Nat → Bool := fun r => dirty r || (deferred && decide (r = m.rid))
    have hall := hnewest.mp hnewer
    have hcleared : RowsOk vectorField (d.clear row.id next)
        (updateColumns (dirty' m.rid) columns m.rid none) dirty'
        (Function.update registers row.id (some ⟨row.ts, none⟩)) := by
      refine hrows.clear he.here hrid hdeleted ?_ fun r hr => by simp [dirty', hr]
      intro t ht
      obtain ⟨held, hheld, hle⟩ := (hrows.recorded row.id).ts_le he.here (hts ▸ ht)
      exact hle.trans_lt (hall held hheld)
    have hscansAfter : ScansOk vectorField after
        (updateColumns (dirty' m.rid) columns m.rid none)
        (Function.update registers row.id (some ⟨row.ts, none⟩)) :=
      hscans.write hrows.columnsOk hrows.rids he.here hrid hobjects hsameAfter.collectionMeta
        hsameAfter.jobs hsameAfter.nextJob (dirty' m.rid) fun value hvalue => nomatch hvalue
    have harrive : arriveDelete registers row =
        Function.update registers row.id (some ⟨row.ts, none⟩) := arrive_newer hall
    refine ⟨he.same.trans hsameAfter, ?_, harrive, harrive ▸ hcleared.counted hcounted,
      harrive ▸ hscansAfter, ?_,
      howners.setRow he.here hrid hobjects hcounted.rows_eq.2.2.2.1⟩
    rotate_left
    · intro id hnone
      refine absent_arrive h.absent (fun {id'} hid => ?_) hnone
      rw [hobjects, Assoc.get?_set, if_neg (Ne.symm hid)]
      exact he.elsewhere hid
    · intro hcountC
      have hlive := liveEntries_set hrows.rids he.here hobjects
      rw [hdeleted] at hlive
      simp only [Option.isNone_some, Bool.and_false, Bool.false_eq_true, if_false] at hlive
      change after.liveCount = after.liveEntries
      rw [hcount, hcountD hcountC]
      -- one fewer where the object was live
      cases hwas : (m.ts.isSome && m.deleted.isNone) with
      | true =>
          rw [hwas, if_pos rfl] at hlive
          rw [if_pos rfl]
          omega
      | false =>
          rw [hwas, if_neg (by simp)] at hlive
          rw [if_neg (by simp)]
          omega

theorem deleteRows_sound (deferred : Bool) (rows : List (Row ω)) {c : Collection}
    {columns : List (JsString × TypedRidColumn)} {dirty : Nat → Bool}
    {registers : JsString → Option Write} (h : Sound vectorField c columns dirty registers) :
    SameDerived c (deleteRows c rows).1 ∧ (c.CountOk → (deleteRows c rows).1.CountOk) ∧
      rows.foldl arriveDelete registers =
        ((deleteRows c rows).2.1.map Row.deleted).foldl record registers ∧
      Sound vectorField (deleteRows c rows).1
        ((deleteRows c rows).2.2.foldl (hear deferred) (columns, dirty)).1
        ((deleteRows c rows).2.2.foldl (hear deferred) (columns, dirty)).2
        (rows.foldl arriveDelete registers) := by
  induction rows generalizing c columns dirty registers with
  | nil => exact ⟨.refl c, id, rfl, h⟩
  | cons row rest ih =>
      obtain ⟨hsame, hcount, harrive, hd⟩ := deleteObject_sound h row deferred
      rw [deleteRows]
      cases hdelta : c.deleteObject row with
      | mk d delta =>
          rw [hdelta] at hsame hcount harrive hd
          obtain ⟨hsameE, hcountE, hrecorded, he⟩ := ih hd
          have hall : (row :: rest).foldl arriveDelete registers =
              ((deleteRows d rest).2.1.map Row.deleted).foldl record
                (arriveDelete registers row) := hrecorded
          rw [harrive] at hall
          cases delta <;> exact ⟨hsame.trans hsameE, hcountE ∘ hcount, hall, he⟩

theorem deleteObjects_inv (h : Inv vectorField c registers) (rows : List (Row ω)) :
    Inv vectorField (c.deleteObjects rows).1
      (((c.deleteObjects rows).2.map Row.deleted).foldl record registers) := by
  have hrows := fun deferred => deleteRows_sound deferred rows h.sound
  unfold deleteObjects
  set after := deleteRows c rows
  change Inv vectorField (after.1.applyIndexDeltas after.2.2)
    ((after.2.1.map Row.deleted).foldl record registers)
  obtain ⟨hsame, hcount, hrecorded, hd⟩ := hrows (after.1.shouldDeferIndexDeltasForCount after.2.2.length)
  rw [← hsame.columns, ← hsame.indexDirtyRids, hrecorded] at hd
  exact applyIndexDeltas_inv rfl hd (hcount h.count) (h.queue.congr hsame.indexDirtyRids)

end Collection
end ObjyDb
