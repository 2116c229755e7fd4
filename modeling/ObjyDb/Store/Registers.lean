import ObjyDb.Store.Writes

/-!
# Registers — a bare collection as a map of last-writer-wins registers

A collection without indexes, columns and tiering represents one register for each id, which holds
the newest write of the object.  Puts, deletes and snapshot rows are arrivals at these registers,
whatever the batches they come in.

- `putRows_represents`, `deleteRows_represents`, `applySnapshotRows_represents`
- `rebuildDerivedState_represents`: rebuilding changes no register
- `Represents.read`, `Represents.snapshotRow`: what a represented register shows
-/

namespace ObjyDb

open Js

/-! ## What is kept of a value -/

/-- The fields that a row keeps of a value. -/
def storedFields (vectorField : Option JsString) (value : Fields) : Fields :=
  ((withoutVector vectorField value).filter fun entry => entry.1 ≠ js "_id").foldl
    (fun row entry => assign row entry.1 entry.2) []

theorem foldl_assign_append (left : Fields) {fields : Fields}
    (hnodup : (Assoc.keys (left ++ fields)).Nodup) :
    fields.foldl (fun row entry => assign row entry.1 entry.2) left =
      left ++ fields.filter fun entry => entry.1 ≠ js "__proto__" := by
  induction fields generalizing left with
  | nil => simp
  | cons entry rest ih =>
      obtain ⟨key, value⟩ := entry
      have hnodup' : ((Assoc.keys left) ++ key :: Assoc.keys rest).Nodup := by
        simpa [Assoc.keys] using hnodup
      have hkey : key ∉ Assoc.keys left := by
        intro hmem
        exact (List.nodup_append.mp hnodup').2.2 key hmem key List.mem_cons_self rfl
      rw [List.foldl_cons]
      by_cases hproto : key = js "__proto__"
      · -- the setter swallows the field
        subst hproto
        have hassign : assign left (js "__proto__") value = left := if_pos ⟨rfl, hkey⟩
        have hrest : (Assoc.keys (left ++ rest)).Nodup := by
          have hsub : (Assoc.keys left ++ Assoc.keys rest).Sublist
              (Assoc.keys left ++ js "__proto__" :: Assoc.keys rest) :=
            (List.sublist_cons_self _ _).append_left _
          simpa [Assoc.keys] using hnodup'.sublist hsub
        rw [hassign, ih left hrest]
        simp
      · have hassign : assign left key value = left ++ [(key, value)] :=
          (assign_eq_set hproto left value).trans (Assoc.set_of_notMem value hkey)
        have hrest : (Assoc.keys ((left ++ [(key, value)]) ++ rest)).Nodup := by
          simpa [Assoc.keys] using hnodup'
        rw [hassign, ih _ hrest]
        simp [hproto]

theorem foldl_assign {fields : Fields} (hnodup : (Assoc.keys fields).Nodup) :
    fields.foldl (fun row entry => assign row entry.1 entry.2) [] =
      fields.filter fun entry => entry.1 ≠ js "__proto__" := by
  simpa using foldl_assign_append [] hnodup

theorem nodup_keys_filter {fields : Fields} (h : (Assoc.keys fields).Nodup)
    (p : JsString × Json → Bool) : (Assoc.keys (fields.filter p)).Nodup :=
  h.sublist ((List.filter_sublist).map _)

theorem nodup_withoutVector {value : Fields} (h : (Assoc.keys value).Nodup)
    (vectorField : Option JsString) : (Assoc.keys (withoutVector vectorField value)).Nodup := by
  cases vectorField with
  | none => exact h
  | some field => exact nodup_keys_filter h _

theorem storedFields_eq (vectorField : Option JsString) {value : Fields}
    (h : (Assoc.keys value).Nodup) :
    storedFields vectorField value =
      ((withoutVector vectorField value).filter fun entry => entry.1 ≠ js "_id").filter
        fun entry => entry.1 ≠ js "__proto__" :=
  foldl_assign (nodup_keys_filter (nodup_withoutVector h vectorField) _)

/-- What `storedFields` keeps is not cut down again. -/
theorem mem_storedFields (vectorField : Option JsString) {value : Fields}
    (h : (Assoc.keys value).Nodup) {entry : JsString × Json}
    (hmem : entry ∈ storedFields vectorField value) :
    entry.1 ≠ js "_id" ∧ entry.1 ≠ js "__proto__" ∧ vectorField ≠ some entry.1 := by
  rw [storedFields_eq _ h] at hmem
  obtain ⟨hmem, hproto⟩ := List.mem_filter.mp hmem
  obtain ⟨hmem, hid⟩ := List.mem_filter.mp hmem
  refine ⟨by simpa using hid, by simpa using hproto, ?_⟩
  rintro rfl
  have herased := (List.mem_filter.mp hmem).2
  simp at herased

theorem nodup_storedFields {vectorField : Option JsString} {value : Fields}
    (h : (Assoc.keys value).Nodup) : (Assoc.keys (storedFields vectorField value)).Nodup := by
  rw [storedFields_eq _ h]
  exact nodup_keys_filter (nodup_keys_filter (nodup_withoutVector h _) _) _

theorem mapM_num (vector : List JsNumber) :
    (vector.map Json.num).mapM (fun item =>
      match item with
      | .num n => some n
      | _ => none) = some vector := by
  induction vector with
  | nil => rfl
  | cons n rest ih => simp [List.mapM_cons, ih]

theorem vectorOf_map_num {vector : List JsNumber} (h : vector ≠ []) :
    Collection.vectorOf (.arr (vector.map .num)) = some vector := by
  have hne : vector.map Json.num ≠ [] := by simpa using h
  rw [Collection.vectorOf, if_neg hne]
  exact mapM_num vector

theorem vectorOf_ne_nil {raw : Json} {vector : List JsNumber}
    (h : Collection.vectorOf raw = some vector) : vector ≠ [] := by
  cases raw with
  | arr items =>
      rw [Collection.vectorOf] at h
      split_ifs at h with hnil
      rintro rfl
      cases items with
      | nil => exact hnil rfl
      | cons item rest =>
          cases item <;> simp [List.mapM_cons, Option.bind_eq_some_iff] at h
  | _ => cases h

/-! ## Registers of a collection -/

namespace Collection

/-- No indexes, columns or tiering. -/
structure Bare (c : Collection) : Prop where
  indexPaths : c.collectionMeta.indexes = []
  columnPaths : c.collectionMeta.columns = []
  tiering : c.collectionMeta.tiering = none
  indexes : c.indexes = []
  fieldBuilds : c.fieldBuilds = []
  columns : c.columns = []
  columnBuilds : c.columnBuilds = []
  compressedCold : c.compressedCold = []

/-- The collection holds the write as the newest one of `id`. -/
inductive Holds (vectorField : Option JsString) (c : Collection) (id : JsString) :
    Option Write → Prop
  | nothing (hentry : ∀ m, Assoc.get? c.objects id = some m → m.ts = none ∧ m.deleted = none)
      (hvector : Assoc.get? c.vectors id = none) : Holds vectorField c id none
  | deleted {w m} (hentry : Assoc.get? c.objects id = some m) (hdeleted : m.deleted = some w.ts)
      (hts : ∀ t, m.ts = some t → t < w.ts) (hvalue : w.value = none)
      (hvector : Assoc.get? c.vectors id = none) : Holds vectorField c id (some w)
  | live {w m value} (hentry : Assoc.get? c.objects id = some m) (hdeleted : m.deleted = none)
      (hts : m.ts = some w.ts) (hvalue : w.value = some value)
      (hrow : (Assoc.get? c.rows id).getD [] = storedFields vectorField value)
      (hvector : vectorField ≠ some (js "__proto__") →
        Assoc.get? c.vectors id = storedVector vectorField value)
      (hnodup : (Assoc.keys value).Nodup) : Holds vectorField c id (some w)

/-- Every register is held, where an entry without a write stands for an empty register. -/
structure Holding (vectorField : Option JsString) (c : Collection)
    (registers : JsString → Option Write) : Prop where
  field : c.vectorField = vectorField
  bare : c.Bare
  rids : c.RidsOk
  holds : ∀ id, Holds vectorField c id (registers id)

/-- Every register is held, and only objects that were written have entries. -/
structure Represents (vectorField : Option JsString) (c : Collection)
    (registers : JsString → Option Write) : Prop extends Holding vectorField c registers where
  absent : ∀ {id}, registers id = none → Assoc.get? c.objects id = none

variable {vectorField : Option JsString} {c d : Collection}
  {registers : JsString → Option Write}

theorem represents_new (vectorField : Option JsString) (compression : Option Compression) :
    (Collection.new vectorField compression).Represents vectorField fun _ => none where
  field := rfl
  bare := ⟨rfl, rfl, rfl, rfl, rfl, rfl, rfl, rfl⟩
  rids := ⟨List.nodup_nil, fun h => by cases h⟩
  holds := fun _ => .nothing (fun _ h => by cases h) rfl
  absent := fun _ => rfl

theorem Bare.of_sameDerived (h : c.Bare) (hsame : SameDerived c d)
    (hcold : d.compressedCold = []) : d.Bare where
  indexPaths := hsame.collectionMeta ▸ h.indexPaths
  columnPaths := hsame.collectionMeta ▸ h.columnPaths
  tiering := hsame.collectionMeta ▸ h.tiering
  indexes := hsame.indexes.trans h.indexes
  fieldBuilds := hsame.fieldBuilds.trans h.fieldBuilds
  columns := hsame.columns.trans h.columns
  columnBuilds := hsame.columnBuilds.trans h.columnBuilds
  compressedCold := hcold

/-- A register depends on the metadata entry, the row and the vector of its id. -/
theorem Holds.congr {id : JsString} {register : Option Write} (h : Holds vectorField c id register)
    (hentry : Assoc.get? d.objects id = Assoc.get? c.objects id)
    (hrow : (Assoc.get? d.rows id).getD [] = (Assoc.get? c.rows id).getD [])
    (hvector : Assoc.get? d.vectors id = Assoc.get? c.vectors id) :
    Holds vectorField d id register := by
  cases h with
  | nothing h hv => exact .nothing (fun m hm => h m (hentry ▸ hm)) (hvector.trans hv)
  | deleted h hd ht hw hv => exact .deleted (hentry.trans h) hd ht hw (hvector.trans hv)
  | live h hd ht hw hr hv hn =>
      exact .live (hentry.trans h) hd ht hw (hrow.trans hr) (fun hf => hvector.trans (hv hf)) hn

theorem Holding.counted (h : c.Holding vectorField registers) (hcounted : Counted c d) :
    d.Holding vectorField registers := by
  obtain ⟨live, shards, unsharded, totals, rfl⟩ := hcounted
  exact ⟨h.field, ⟨h.bare.indexPaths, h.bare.columnPaths, h.bare.tiering, h.bare.indexes,
    h.bare.fieldBuilds, h.bare.columns, h.bare.columnBuilds, h.bare.compressedCold⟩,
    ⟨h.rids.nodup, h.rids.owned⟩, fun id => (h.holds id).congr rfl rfl rfl⟩

theorem Holding.entered (h : c.Holding vectorField registers) {id : JsString} {m : RowMeta}
    (he : Entered c id d m) : d.Holding vectorField registers := by
  obtain ⟨hrows, hvectors, hcold⟩ := he.data
  refine ⟨he.same.vectorField.trans h.field,
    h.bare.of_sameDerived he.same (hcold.trans h.bare.compressedCold), he.rids h.rids, ?_⟩
  intro id'
  by_cases hid : id' = id
  · subst hid
    rcases he.fresh with hold | ⟨hnew, hts, hdeleted, -⟩
    · exact (h.holds id').congr (he.here.trans hold.symm) (by rw [hrows]) (by rw [hvectors])
    · -- an entry made just now holds nothing
      have hnothing := h.holds id'
      generalize registers id' = register at hnothing
      cases hnothing with
      | nothing _ hv =>
          refine .nothing ?_ (hvectors ▸ hv)
          intro m' hm'
          obtain rfl := Option.some.inj (he.here.symm.trans hm')
          exact ⟨hts, hdeleted⟩
      | deleted hentry _ _ _ _ => rw [hnew] at hentry; cases hentry
      | live hentry _ _ _ _ _ _ => rw [hnew] at hentry; cases hentry
  · exact (h.holds id').congr (he.elsewhere hid) (by rw [hrows]) (by rw [hvectors])

/-! ## Writes of bare collections -/

theorem Bare.tiered_eq (h : c.Bare) (value : Fields) :
    tiered c.compression c.collectionMeta value = (none, value) := by
  unfold tiered
  rw [h.tiering]

theorem Bare.baseValueForStorage_eq (h : c.Bare) (value : Fields) :
    c.baseValueForStorage value none = value := by
  simp [baseValueForStorage, h.columns, unsetPaths]

theorem Bare.putBase_eq (h : c.Bare) (keep : Bool) (value : Fields) :
    c.putBase keep value = value := by
  rw [putBase, h.baseValueForStorage_eq, ite_self]

theorem get?_nextVectors (vectors : List (JsString × List JsNumber)) (id : JsString)
    (update : VectorUpdate) {k : JsString} (hne : k ≠ id) :
    Assoc.get? (nextVectors vectorField vectors id update) k = Assoc.get? vectors k := by
  unfold nextVectors
  split_ifs
  · rfl
  · cases update <;> simp [Ne.symm hne]

theorem Holds.vector_none {id : JsString} {register : Option Write}
    (h : Holds vectorField c id register) (hfield : vectorField = none) :
    Assoc.get? c.vectors id = none := by
  subst hfield
  cases h with
  | nothing _ hv => exact hv
  | deleted _ _ _ _ hv => exact hv
  | live _ _ _ _ _ hv _ => exact hv (by simp)

/-- An accepted value is the newest write of its object, and no other register changes. -/
theorem holding_overwrite (h : c.Holding vectorField registers) {id : JsString}
    {m next : RowMeta} (hm : Assoc.get? c.objects id = some m) (hrid : next.rid = m.rid) {ts : Ts}
    (hts : next.ts = some ts) (hdeleted : next.deleted = none) {row value : Fields}
    (hnodup : (Assoc.keys value).Nodup) {vector : VectorUpdate}
    (hrow : storedFields vectorField value =
      (row.filter fun entry => entry.1 ≠ js "_id").foldl
        (fun row entry => assign row entry.1 entry.2) [])
    (hvector : vectorField ≠ some (js "__proto__") →
      Assoc.get? (nextVectors vectorField c.vectors id vector) id =
        storedVector vectorField value) :
    (c.overwrite id next row vector).Holding vectorField
      (Function.update registers id (some ⟨ts, some value⟩)) := by
  refine Holding.counted ?_ (c.overwrite_counted id next row vector)
  rw [h.bare.tiered_eq]
  refine ⟨h.field, ?_, ?_, ?_⟩
  · exact ⟨h.bare.indexPaths, h.bare.columnPaths, h.bare.tiering, h.bare.indexes,
      h.bare.fieldBuilds, h.bare.columns, h.bare.columnBuilds,
      by simp [nextCold, h.bare.compressedCold, Assoc.erase]⟩
  · have hset := ridsOk_setRowMeta h.rids hm hrid
    exact ⟨hset.nodup, hset.owned⟩
  · intro id'
    by_cases hid : id' = id
    · subst hid
      rw [Function.update_self]
      refine .live (by simp) hdeleted hts rfl ?_ ?_ hnodup
      · rw [hrow]
        exact (get?_rebuildRow c.rows id' _ id').trans (if_pos rfl)
      · rw [h.field]
        exact hvector
    · rw [Function.update_of_ne hid]
      refine (h.holds id').congr (by simp [Ne.symm hid]) ?_ ?_
      · exact (get?_rebuildRow c.rows id _ id').trans (if_neg (Ne.symm hid))
      · exact get?_nextVectors c.vectors id vector hid

theorem holding_clear (h : c.Holding vectorField registers) {id : JsString}
    {m next : RowMeta} (hm : Assoc.get? c.objects id = some m) (hrid : next.rid = m.rid) {ts : Ts}
    (hdeleted : next.deleted = some ts) (hts : ∀ t, next.ts = some t → t < ts) :
    (c.clear id next).Holding vectorField
      (Function.update registers id (some ⟨ts, none⟩)) := by
  refine Holding.counted ?_ (c.clear_counted id next)
  refine ⟨h.field, ?_, ?_, ?_⟩
  · exact ⟨h.bare.indexPaths, h.bare.columnPaths, h.bare.tiering, h.bare.indexes,
      h.bare.fieldBuilds, h.bare.columns, h.bare.columnBuilds,
      by simp [h.bare.compressedCold, Assoc.erase]⟩
  · have hset := ridsOk_setRowMeta h.rids hm hrid
    exact ⟨hset.nodup, hset.owned⟩
  · intro id'
    by_cases hid : id' = id
    · subst hid
      rw [Function.update_self]
      exact .deleted (by simp) hdeleted hts rfl (by simp)
    · rw [Function.update_of_ne hid]
      exact (h.holds id').congr (by simp [Ne.symm hid]) (by simp [Ne.symm hid])
        (by simp [Ne.symm hid])

/-! ## When a write is accepted -/

theorem Holds.recorded {id : JsString} {register : Option Write}
    (h : Holds vectorField c id register) : Recorded c id register := by
  cases h with
  | nothing hnothing _ => exact .nothing hnothing
  | deleted hentry hdeleted hts hvalue _ => exact .deleted hentry hdeleted hts hvalue
  | live hentry hdeleted hts hvalue _ _ _ => exact .live hentry hdeleted hts hvalue

/-- A stale write leaves every register as it is. -/
theorem Holding.arrive_stale (h : c.Holding vectorField registers) {id : JsString}
    {w : Write} (hstale : ¬ ∀ held, registers id = some held → held.ts < w.ts) :
    c.Holding vectorField (arrive registers id w) := by
  rw [arrive, later_of_not_newer hstale, Function.update_eq_self]
  exact h

/-! ## Puts and deletes -/

variable {ω : Type}

/-- After a write has arrived, only the other ids may be without an entry. -/
theorem Represents.arrived (h : c.Represents vectorField registers) {id : JsString} {w : Write}
    (hd : d.Holding vectorField (arrive registers id w))
    (helsewhere : ∀ {id'}, id' ≠ id → Assoc.get? d.objects id' = Assoc.get? c.objects id') :
    d.Represents vectorField (arrive registers id w) := by
  refine ⟨hd, ?_⟩
  intro id' hnone
  by_cases hid : id' = id
  · subst hid
    rw [arrive, Function.update_self] at hnone
    cases hreg : registers id' with
    | none => rw [hreg] at hnone; cases hnone
    | some held =>
        rw [hreg, Lww.later] at hnone
        split_ifs at hnone
  · rw [arrive, Function.update_of_ne hid] at hnone
    exact (helsewhere hid).trans (h.absent hnone)

theorem putObject_represents (h : c.Represents vectorField registers) (row : Row ω) (keep : Bool)
    (hvalid : ValidVector vectorField row.value) (hnodup : (Assoc.keys row.value).Nodup) :
    ∃ d delta, c.putObject row keep = (d, .ok delta) ∧
      d.Represents vectorField (arrive registers row.id ⟨row.ts, some row.value⟩) := by
  have he := c.ensureMeta_entered row.id
  set em := c.ensureMeta row.id with hem
  obtain ⟨d, m⟩ := em
  have hd := h.toHolding.entered he
  have hholds := hd.holds row.id
  rcases c.putObject_cases row keep hem.symm with
    ⟨hstale, heq⟩ | ⟨-, err, hprep, -⟩ |
      ⟨hold, value, vector, after, next, hprep, hts, hdeleted, hrid, hcounted, -, heq⟩
  · refine ⟨d, none, heq, h.arrived (hd.arrive_stale ?_) he.elsewhere⟩
    rwa [← hholds.recorded.older_iff he.here row.ts]
  · obtain ⟨vector, hok, -⟩ := prepareStoredValue_valid hd.field hvalid
    rw [hok] at hprep
    cases hprep
  · obtain ⟨vector', hok, hvectors⟩ := prepareStoredValue_valid hd.field hvalid
    obtain ⟨rfl, rfl⟩ := Prod.mk.inj (Except.ok.inj (hok.symm.trans hprep))
    refine ⟨after, _, heq, h.arrived ?_ ?_⟩
    · rw [arrive_newer ((hholds.recorded.older_iff he.here row.ts).mp hold)]
      refine Holding.counted ?_ hcounted
      rw [hd.bare.putBase_eq]
      exact holding_overwrite hd he.here hrid hts hdeleted hnodup rfl
        fun _ => hvectors row.id hholds.vector_none
    · intro id' hid
      rw [← he.elsewhere hid, hcounted.rows_eq.2.2.1]
      exact overwrite_elsewhere _ _ _ _ _ hid

theorem putRows_represents (keep : Bool) (rows : List (Row ω))
    (hvalid : ∀ row ∈ rows, ValidVector vectorField row.value ∧ (Assoc.keys row.value).Nodup)
    {c : Collection} {registers : JsString → Option Write}
    (h : c.Represents vectorField registers) :
    ∃ d applied, putRows keep c rows = (d, .ok applied) ∧
      d.Represents vectorField (rows.foldl
        (fun registers row => arrive registers row.id ⟨row.ts, some row.value⟩) registers) := by
  induction rows generalizing c registers with
  | nil => exact ⟨c, _, rfl, h⟩
  | cons row rest ih =>
      obtain ⟨hrow, hnodup⟩ := hvalid row List.mem_cons_self
      obtain ⟨d, delta, heq, hd⟩ := putObject_represents h row keep hrow hnodup
      obtain ⟨e, ⟨applied, deltas⟩, hrest, hrep⟩ :=
        ih (fun row hmem => hvalid row (List.mem_cons_of_mem _ hmem)) hd
      rw [putRows, heq]
      dsimp only
      rw [hrest]
      cases delta with
      | none => exact ⟨e, _, rfl, hrep⟩
      | some delta => exact ⟨e, _, rfl, hrep⟩

theorem deleteObject_represents (h : c.Represents vectorField registers) (row : Row ω) :
    (c.deleteObject row).1.Represents vectorField (arrive registers row.id ⟨row.ts, none⟩) := by
  have he := c.ensureMeta_entered row.id
  set em := c.ensureMeta row.id with hem
  obtain ⟨d, m⟩ := em
  have hd := h.toHolding.entered he
  have hholds := hd.holds row.id
  have hlast := hholds.recorded.last_iff he.here
  rcases c.deleteObject_cases row hem.symm with
    ⟨⟨last, hsome, hle⟩, heq⟩ | ⟨hnewer, after, next, hts, hdeleted, hrid, hcounted, -, heq⟩
  · rw [heq]
    refine h.arrived (hd.arrive_stale fun hall => ?_) he.elsewhere
    rw [hlast, Option.map_eq_some_iff] at hsome
    obtain ⟨w, hw, rfl⟩ := hsome
    exact absurd (hall w hw) (not_lt.mpr hle)
  · rw [heq]
    have hall : ∀ held, registers row.id = some held → held.ts < row.ts := by
      intro held hheld
      exact hnewer held.ts (by rw [hlast, hheld]; rfl)
    refine h.arrived ?_ ?_
    · rw [arrive_newer hall]
      refine (holding_clear hd he.here hrid hdeleted ?_).counted hcounted
      intro t ht
      obtain ⟨w, hw, hle⟩ := hholds.recorded.ts_le he.here (hts ▸ ht)
      exact hle.trans_lt (hall w hw)
    · intro id' hid
      rw [← he.elsewhere hid, hcounted.rows_eq.2.2.1]
      exact clear_elsewhere _ _ _ hid

theorem deleteRows_represents (rows : List (Row ω)) {c : Collection}
    {registers : JsString → Option Write} (h : c.Represents vectorField registers) :
    (deleteRows c rows).1.Represents vectorField (rows.foldl
      (fun registers row => arrive registers row.id ⟨row.ts, none⟩) registers) := by
  induction rows generalizing c registers with
  | nil => exact h
  | cons row rest ih =>
      have hrow := deleteObject_represents h row
      rw [deleteRows]
      cases hdelta : c.deleteObject row with
      | mk d delta =>
          rw [hdelta] at hrow
          have hrest := ih hrow
          cases delta <;> exact hrest

/-! ## Derived state -/

theorem applyIndexDeltas_bare (h : c.Bare) (deltas : List IndexDelta) :
    c.applyIndexDeltas deltas = c := by
  have hwork : c.hasIndexWork = false := by
    simp [hasIndexWork, h.indexes, h.columns, h.fieldBuilds, h.columnBuilds]
  have hrecord : ∀ delta, (c.recordFieldBuildDelta delta).recordColumnBuildDelta delta.rid
      delta.after = c := by
    intro delta
    obtain ⟨_, _, _, hi, hf, hc, _, _⟩ := h
    cases c
    dsimp only at hi hf hc
    subst hi hf hc
    rfl
  have hdelta : ∀ delta, c.applyIndexDelta delta = c := by
    intro delta
    unfold applyIndexDelta
    rw [hrecord]
    obtain ⟨_, _, _, hi, hf, hc, _, _⟩ := h
    cases c
    dsimp only at hi hf hc
    subst hi hf hc
    dsimp only
    split_ifs <;> rfl
  have hall : ∀ deltas : List IndexDelta, deltas.foldl applyIndexDelta c = c := by
    intro deltas
    induction deltas with
    | nil => rfl
    | cons delta rest ih => rw [List.foldl_cons, hdelta, ih]
  unfold applyIndexDeltas shouldDeferIndexDeltasForCount
  rw [hwork, Bool.and_false]
  split_ifs with hempty hfalse
  · rfl
  · cases hfalse
  · exact hall deltas

/-! ## Reading a register -/

theorem Bare.hydrateStoredValue_eq (h : c.Bare) (value : Fields) (rid : Nat) (id : JsString) :
    c.hydrateStoredValue value rid id = Assoc.set value (js "_id") (.str id) := by
  simp [hydrateStoredValue, hydrateCompressedCold, hydrateColumns, h.compressedCold, h.columns]

/-- The object that a register shows. -/
def shown (vectorField : Option JsString) (id : JsString) (register : Option Write) :
    Option Fields :=
  (register.bind Write.value).map fun value =>
    Assoc.set (storedFields vectorField value) (js "_id") (.str id)

theorem Represents.read (h : c.Represents vectorField registers) (id : JsString) :
    c.read id = shown vectorField id (registers id) := by
  have hholds := h.holds id
  have habsent : registers id = none → _ := h.absent
  unfold Collection.read
  generalize registers id = register at hholds habsent
  cases hholds with
  | nothing _ _ =>
      rw [habsent rfl]
      rfl
  | deleted hentry hdeleted _ hvalue _ =>
      rw [hentry]
      simp [shown, hdeleted, hvalue]
  | live hentry hdeleted _ hvalue hrow _ _ =>
      rw [hentry]
      simp [shown, hdeleted, hvalue, hrow, h.bare.hydrateStoredValue_eq]

/-- A snapshot row that carries a write. -/
inductive Carries (vectorField : Option JsString) (row : SnapshotRow) : Write → Prop
  | deleted {w} (hrow : row.deleted = some w.ts) (hts : ∀ t, row.ts = some t → t < w.ts)
      (hvalue : w.value = none) : Carries vectorField row w
  | live {w value} (hrow : row.deleted = none) (hts : row.ts = some w.ts)
      (hvalue : w.value = some value) (hnodup : (Assoc.keys value).Nodup)
      (hvalid : ValidVector vectorField row.value)
      (hfields : storedFields vectorField row.value = storedFields vectorField value)
      (hvector : vectorField ≠ some (js "__proto__") →
        storedVector vectorField row.value = storedVector vectorField value) :
      Carries vectorField row w

theorem storedFields_of_fields {value : Fields} (hnodup : (Assoc.keys value).Nodup)
    (h : ∀ entry ∈ value, entry.1 ≠ js "_id" ∧ entry.1 ≠ js "__proto__" ∧
      vectorField ≠ some entry.1) : storedFields vectorField value = value := by
  have hvector : withoutVector vectorField value = value := by
    cases vectorField with
    | none => rfl
    | some field =>
        refine List.filter_eq_self.mpr fun entry hentry => ?_
        have hne : entry.1 ≠ field := fun heq => (h entry hentry).2.2 (heq ▸ rfl)
        simpa using hne
  have hid : (value.filter fun entry => entry.1 ≠ js "_id") = value :=
    List.filter_eq_self.mpr fun entry hentry => by simpa using (h entry hentry).1
  have hproto : (value.filter fun entry => entry.1 ≠ js "__proto__") = value :=
    List.filter_eq_self.mpr fun entry hentry => by simpa using (h entry hentry).2.1
  rw [storedFields_eq _ hnodup, hvector, hid, hproto]

theorem notMem_keys {value : Fields} {key : JsString} (h : ∀ entry ∈ value, entry.1 ≠ key) :
    key ∉ Assoc.keys value := by
  intro hmem
  obtain ⟨entry, hentry, heq⟩ := List.mem_map.mp hmem
  exact h entry hentry heq

theorem erase_set_of_notMem {value : Fields} {key : JsString} (h : ∀ entry ∈ value, entry.1 ≠ key)
    (item : Json) : Assoc.erase (Assoc.set value key item) key = value := by
  have hself : (value.filter fun entry => decide (entry.1 ≠ key)) = value :=
    List.filter_eq_self.mpr fun entry hentry => by simpa using h entry hentry
  rw [Assoc.set_of_notMem _ (notMem_keys h), Assoc.erase, List.filter_append, hself]
  simp

/-- The fields of a snapshot row: those of the row, and the vector behind them. -/
def snapshotFields (vectorField : Option JsString) (vector : Option (List JsNumber))
    (fields : Fields) : Fields :=
  match vector, vectorField with
  | some vector, some field => assign fields field (.arr (vector.map .num))
  | _, _ => fields

theorem Represents.snapshotRow_value (h : c.Represents vectorField registers) {id : JsString}
    {m : RowMeta} (hdeleted : m.deleted = none) {w : Write} {value : Fields}
    (hregister : registers id = some w) (hvalue : w.value = some value)
    (hnodup : (Assoc.keys value).Nodup) :
    (c.snapshotRow id m).value =
      snapshotFields vectorField (Assoc.get? c.vectors id) (storedFields vectorField value) := by
  have hfields : Assoc.erase ((c.read id).getD []) (js "_id") = storedFields vectorField value := by
    rw [h.read id, hregister]
    simp only [shown, hvalue, Option.bind_some, Option.map_some, Option.getD_some]
    exact erase_set_of_notMem (fun entry hentry => (mem_storedFields vectorField hnodup hentry).1) _
  have hfield := h.field
  unfold snapshotRow
  rw [hdeleted, hfields, hfield]
  rfl

/-- A receiver keeps of a snapshot row what the sender kept of the value. -/
theorem carried_fields {vectorField : Option JsString} {value : Fields}
    (hnodup : (Assoc.keys value).Nodup) {vector : Option (List JsNumber)}
    (hvector : vectorField ≠ some (js "__proto__") → vector = storedVector vectorField value) :
    let row := snapshotFields vectorField vector (storedFields vectorField value)
    ValidVector vectorField row ∧ storedFields vectorField row = storedFields vectorField value ∧
      (vectorField ≠ some (js "__proto__") →
        storedVector vectorField row = storedVector vectorField value) := by
  have hkept := fun entry hentry => @mem_storedFields vectorField value hnodup entry hentry
  have hself := storedFields_of_fields (nodup_storedFields hnodup) hkept
  intro row
  cases vectorField with
  | none =>
      have hrow : row = storedFields none value := by cases vector <;> rfl
      exact ⟨fun _ _ h => (nomatch h), hrow ▸ hself, fun _ => rfl⟩
  | some field =>
      have hnone : Assoc.get? (storedFields (some field) value) field = none :=
        Assoc.get?_eq_none_iff.mpr (notMem_keys fun entry hentry heq =>
          (hkept entry hentry).2.2 (congrArg some heq.symm))
      -- without a vector, and for a swallowed one, the row holds the stored fields alone
      have hplain : row = storedFields (some field) value →
          ValidVector (some field) row ∧ storedFields (some field) row =
              storedFields (some field) value ∧ storedVector (some field) row = none := by
        intro hrow
        rw [hrow]
        refine ⟨?_, hself, by simp [storedVector, hnone]⟩
        rintro _ raw ⟨rfl⟩ hraw
        rw [hnone] at hraw
        cases hraw
      by_cases hproto : field = js "__proto__"
      · subst hproto
        have hrow : row = storedFields (some (js "__proto__")) value := by
          cases vector with
          | none => rfl
          | some vector =>
              exact if_pos ⟨rfl, Assoc.get?_eq_none_iff.mp hnone⟩
        obtain ⟨hvalid, hfields, -⟩ := hplain hrow
        exact ⟨hvalid, hfields, fun hne => absurd rfl hne⟩
      · have heq := hvector fun h => hproto (Option.some.inj h)
        cases vector with
        | none =>
            obtain ⟨hvalid, hfields, hno⟩ := hplain rfl
            exact ⟨hvalid, hfields, fun _ => hno.trans heq⟩
        | some vector =>
            have hrow : row = Assoc.set (storedFields (some field) value) field
                (.arr (vector.map .num)) := assign_eq_set hproto _ _
            have hgot : vectorOf (.arr (vector.map .num)) = some vector := by
              rw [storedVector, Option.bind_some] at heq
              obtain ⟨raw, -, hraw⟩ := Option.bind_eq_some_iff.mp heq.symm
              exact vectorOf_map_num (vectorOf_ne_nil hraw)
            rw [hrow]
            refine ⟨?_, ?_, fun _ => ?_⟩
            · rintro _ raw ⟨rfl⟩ hraw
              rw [Assoc.get?_set, if_pos rfl] at hraw
              obtain rfl := Option.some.inj hraw
              exact .inr ⟨vector, hgot⟩
            · have herase : Assoc.erase (Assoc.set (storedFields (some field) value) field
                  (.arr (vector.map .num))) field = storedFields (some field) value :=
                erase_set_of_notMem (fun entry hentry heq =>
                  (hkept entry hentry).2.2 (congrArg some heq.symm)) _
              have hsame : Assoc.erase (storedFields (some field) value) field =
                  storedFields (some field) value :=
                List.filter_eq_self.mpr fun entry hentry => by
                  simpa using fun heq : entry.1 = field =>
                    (hkept entry hentry).2.2 (congrArg some heq.symm)
              rw [storedFields, withoutVector, herase]
              rw [storedFields, withoutVector, hsame] at hself
              exact hself
            · simp only [storedVector, Option.bind_some, Assoc.get?_set, if_true, hgot]
              exact heq

/-- The snapshot row of an object carries its register. -/
theorem Represents.carries (h : c.Represents vectorField registers) {id : JsString} {m : RowMeta}
    (hm : Assoc.get? c.objects id = some m) :
    ∃ w, registers id = some w ∧ Carries vectorField (c.snapshotRow id m) w := by
  have hholds := h.holds id
  have habsent : registers id = none → _ := h.absent
  cases hregister : registers id with
  | none =>
      rw [habsent hregister] at hm
      cases hm
  | some w =>
  rw [hregister] at hholds
  refine ⟨w, rfl, ?_⟩
  cases hholds with
  | deleted hentry hdeleted hts hvalue _ =>
      obtain rfl := Option.some.inj (hm.symm.trans hentry)
      refine .deleted ?_ ?_ hvalue
      · simp [snapshotRow, hdeleted]
      · simpa [snapshotRow, hdeleted] using hts
  | live hentry hdeleted hts hvalue _ hvector hnodup =>
      obtain rfl := Option.some.inj (hm.symm.trans hentry)
      obtain ⟨hvalid, hfields, hvectors⟩ := carried_fields hnodup hvector
      rw [← h.snapshotRow_value hdeleted hregister hvalue hnodup] at hvalid hfields hvectors
      exact .live (by simp [snapshotRow, hdeleted]) (by simp [snapshotRow, hdeleted, hts]) hvalue
        hnodup hvalid hfields hvectors

/-! ## Snapshot rows -/

theorem applySnapshotObject_represents (h : c.Represents vectorField registers)
    {row : SnapshotRow} {w : Write} (hrow : Carries vectorField row w) (deferred : Bool) :
    ∃ d applied, c.applySnapshotObject row deferred = (d, .ok applied) ∧
      d.Represents vectorField (arrive registers row.id w) := by
  have he := c.ensureMeta_entered row.id
  set em := c.ensureMeta row.id with hem
  obtain ⟨d, m⟩ := em
  have hd := h.toHolding.entered he
  have hholds := hd.holds row.id
  have hlast := hholds.recorded.last_iff he.here
  rcases c.applySnapshotObject_cases row deferred hem.symm with
    ⟨hstale, heq⟩ | ⟨hlive, err, hprep, -⟩ | ⟨e, after, hwrite, heq⟩
  · refine ⟨d, false, heq, h.arrived (hd.arrive_stale fun hall => ?_) he.elsewhere⟩
    rcases hstale with ⟨ts, last, hdel, hsome, hle⟩ | ⟨hdel, hnotOlder⟩
    · rw [hlast, Option.map_eq_some_iff] at hsome
      obtain ⟨held, hheld, rfl⟩ := hsome
      cases hrow with
      | deleted hrowDel _ _ =>
          obtain rfl := Option.some.inj (hdel.symm.trans hrowDel)
          exact absurd (hall held hheld) (not_lt.mpr hle)
      | live hrowDel _ _ _ _ _ _ => exact nomatch hdel.symm.trans hrowDel
    · cases hrow with
      | deleted hrowDel _ _ => exact nomatch hdel.symm.trans hrowDel
      | live _ hts _ _ _ _ _ => exact hnotOlder _ hts ((hholds.recorded.older_iff he.here _).mpr hall)
  · cases hrow with
    | deleted hrowDel _ _ => exact nomatch hlive.symm.trans hrowDel
    | live _ _ _ _ hvalid _ _ =>
        obtain ⟨vector, hok, -⟩ := prepareStoredValue_valid hd.field hvalid
        rw [hok] at hprep
        cases hprep
  · -- the row is written, and there are no columns to refresh
    have hwritten : e.Represents vectorField (arrive registers row.id w) := by
      cases hwrite with
      | @deleted ts next hdel hnewer hts hdeleted hrid =>
          have hall : ∀ held, registers row.id = some held → held.ts < ts := by
            intro held hheld
            exact hnewer held.ts (by rw [hlast, hheld]; rfl)
          cases hrow with
          | live hrowDel _ _ _ _ _ _ => exact nomatch hdel.symm.trans hrowDel
          | deleted hrowDel hrowTs hvalue =>
              obtain rfl := Option.some.inj (hdel.symm.trans hrowDel)
              refine h.arrived ?_ fun hid =>
                (clear_elsewhere d row.id next hid).trans (he.elsewhere hid)
              rw [arrive_newer hall]
              have hw : w = ⟨w.ts, none⟩ := by rw [← hvalue]
              rw [hw]
              refine holding_clear hd he.here hrid hdeleted ?_
              intro t ht
              rw [hts] at ht
              rcases Option.or_eq_some_iff.mp ht with ht | ⟨-, ht⟩
              · exact hrowTs t ht
              · obtain ⟨held, hheld, hle⟩ := hholds.recorded.ts_le he.here ht
                exact hle.trans_lt (hall held hheld)
      | @live ts value vector next hdel hrowTs hnewer hprep hts hdeleted hrid =>
          cases hrow with
          | deleted hrowDel _ _ => exact nomatch hdel.symm.trans hrowDel
          | @live v _ hcarried hvalue hnodup hvalid hfields hvectors =>
              obtain rfl := Option.some.inj (hrowTs.symm.trans hcarried)
              obtain ⟨vector', hok, hnext⟩ := prepareStoredValue_valid hd.field hvalid
              obtain ⟨rfl, rfl⟩ := Prod.mk.inj (Except.ok.inj (hok.symm.trans hprep))
              refine h.arrived ?_ fun hid =>
                (overwrite_elsewhere d row.id next _ _ hid).trans (he.elsewhere hid)
              rw [arrive_newer ((hholds.recorded.older_iff he.here w.ts).mp hnewer)]
              have hw : w = ⟨w.ts, some v⟩ := by rw [← hvalue]
              rw [hw, hd.bare.baseValueForStorage_eq, ite_self]
              exact holding_overwrite hd he.here hrid hts hdeleted hnodup hfields.symm
                fun hproto => (hnext row.id hholds.vector_none).trans (hvectors hproto)
    refine ⟨e, true, ?_, hwritten⟩
    rw [heq, refreshColumns, applyIndexDeltas_bare hwritten.bare]

theorem applySnapshotRows_represents (deferred : Bool) (rows : List (SnapshotRow × Write))
    (hrows : ∀ r ∈ rows, Carries vectorField r.1 r.2) {c : Collection}
    {registers : JsString → Option Write} (h : c.Represents vectorField registers) :
    ∃ d applied, applySnapshotRows deferred c (rows.map Prod.fst) = (d, .ok applied) ∧
      d.Represents vectorField
        (rows.foldl (fun registers r => arrive registers r.1.id r.2) registers) := by
  induction rows generalizing c registers with
  | nil => exact ⟨c, 0, rfl, h⟩
  | cons r rest ih =>
      obtain ⟨d, applied, heq, hd⟩ :=
        applySnapshotObject_represents h (hrows r List.mem_cons_self) deferred
      obtain ⟨e, n, hrest, hrep⟩ := ih (fun r hmem => hrows r (List.mem_cons_of_mem _ hmem)) hd
      refine ⟨e, if applied then n + 1 else n, ?_, hrep⟩
      rw [List.map_cons, applySnapshotRows, heq]
      dsimp only
      rw [hrest]

/-! ## Rebuilding -/

theorem Represents.counted (h : c.Represents vectorField registers) (hcounted : Counted c d) :
    d.Represents vectorField registers :=
  ⟨h.toHolding.counted hcounted, fun hid => hcounted.rows_eq.2.2.1 ▸ h.absent hid⟩

/-- Writing back what a read shows changes no register. -/
theorem Represents.rewrite (h : c.Represents vectorField registers) {id : JsString} {m : RowMeta}
    (hm : Assoc.get? c.objects id = some m) {object : Fields} (hread : c.read id = some object) :
    (c.rewriteBaseValueForColumns m.rid object (some [])).Represents vectorField registers := by
  have hid : c.idForRid m.rid = some id := h.rids.owned hm
  unfold rewriteBaseValueForColumns
  rw [hid]
  refine Represents.counted ?_ (c.writeBaseValue_counted id m.rid _)
  rw [h.bare.tiered_eq]
  have hshown := h.read id
  refine ⟨⟨h.field, ?_, ⟨h.rids.nodup, h.rids.owned⟩, ?_⟩, h.absent⟩
  · exact ⟨h.bare.indexPaths, h.bare.columnPaths, h.bare.tiering, h.bare.indexes,
      h.bare.fieldBuilds, h.bare.columns, h.bare.columnBuilds,
      by simp [nextCold, h.bare.compressedCold, Assoc.erase]⟩
  · intro id'
    have hholds := h.holds id'
    have hrows := get?_rebuildRow c.rows id
      ((Assoc.erase object (js "_id")).filter fun entry => entry.1 ≠ js "_id") id'
    by_cases heq : id = id'
    · subst heq
      rw [if_pos rfl] at hrows
      generalize registers id = register at hholds hshown
      cases hholds with
      | nothing hnothing hv => exact .nothing hnothing hv
      | deleted hentry hdeleted hts hvalue hv => exact .deleted hentry hdeleted hts hvalue hv
      | @live w _ value hentry hdeleted hts hvalue hrow hv hnodup =>
          refine .live hentry hdeleted hts hvalue ?_ hv hnodup
          rw [hread] at hshown
          simp only [shown, Option.bind_some, hvalue, Option.map_some] at hshown
          obtain rfl := Option.some.inj hshown
          have hkept := fun entry hentry =>
            @mem_storedFields vectorField value hnodup entry hentry
          have hself : (storedFields vectorField value).filter
              (fun entry => entry.1 ≠ js "_id") = storedFields vectorField value :=
            List.filter_eq_self.mpr fun entry hentry => by simpa using (hkept entry hentry).1
          have hproto : (storedFields vectorField value).filter
              (fun entry => entry.1 ≠ js "__proto__") = storedFields vectorField value :=
            List.filter_eq_self.mpr fun entry hentry => by simpa using (hkept entry hentry).2.1
          refine hrows.trans ?_
          rw [erase_set_of_notMem (fun entry hentry => (hkept entry hentry).1), hself,
            foldl_assign (nodup_storedFields hnodup), hproto]
    · rw [if_neg heq] at hrows
      exact hholds.congr rfl hrows rfl

/-- The loop of `rebuildDerivedState` keeps the registers and builds nothing. -/
theorem foldl_rebuildRowState (entries : List (JsString × RowMeta)) {s : Rebuild}
    (h : s.collection.Represents vectorField registers) (hfields : s.fieldIndexes = [])
    (hcolumns : s.columnData = [])
    (hentries : ∀ entry ∈ entries, Assoc.get? s.collection.objects entry.1 = some entry.2) :
    (entries.foldl (rebuildRowState []) s).collection.Represents vectorField registers ∧
      (entries.foldl (rebuildRowState []) s).fieldIndexes = [] ∧
      (entries.foldl (rebuildRowState []) s).columnData = [] := by
  induction entries generalizing s with
  | nil => exact ⟨h, hfields, hcolumns⟩
  | cons entry rest ih =>
      rw [List.foldl_cons]
      have hentry := hentries entry List.mem_cons_self
      have hrest := fun e he => hentries e (List.mem_cons_of_mem entry he)
      unfold rebuildRowState
      split_ifs with hdeleted
      · exact ih h hfields hcolumns hrest
      · dsimp only
        have hcounted : Counted s.collection (({ s.collection with
            liveCount := s.collection.liveCount + 1 }).addShardRid entry.2.rid entry.2.shard) :=
          (counted_liveCount s.collection _).trans (counted_addShardRid _ _ _)
        have hc := h.counted hcounted
        have hobjects := hcounted.rows_eq.2.2.1
        revert hc hobjects
        generalize ({ s.collection with liveCount := s.collection.liveCount + 1 }).addShardRid
          entry.2.rid entry.2.shard = c
        intro hc hobjects
        cases hread : c.read entry.1 with
        | none =>
            exact ih hc hfields hcolumns fun e he => hobjects ▸ hrest e he
        | some object =>
            refine ih (hc.rewrite (hobjects ▸ hentry) hread) (by simp [hfields, Assoc.mapValues])
              (by simp [hcolumns, Assoc.mapValues]) fun e he => ?_
            have hsame : (c.rewriteBaseValueForColumns entry.2.rid object (some [])).objects =
                c.objects := by
              unfold rewriteBaseValueForColumns
              cases c.idForRid entry.2.rid with
              | none => rfl
              | some id => exact (c.writeBaseValue_counted id _ _).rows_eq.2.2.1
            exact hsame ▸ hobjects ▸ hrest e he

theorem rebuildDerivedState_represents (h : c.Represents vectorField registers) :
    c.rebuildDerivedState.Represents vectorField registers := by
  have hstart : ({ c with liveCount := 0, shardIds := [], unshardedLiveCount := 0 } :
      Collection).Represents vectorField registers :=
    h.counted ⟨0, [], 0, c.compressionTotals, rfl⟩
  obtain ⟨hc, hfields, hcolumns⟩ := foldl_rebuildRowState c.objects (s := {
    collection := { c with liveCount := 0, shardIds := [], unshardedLiveCount := 0 }
    fieldIndexes := c.collectionMeta.indexes.map fun path => (path, FieldIndex.new path)
    columnData := c.collectionMeta.columns.map fun path => (path, TypedRidColumn.new path) })
    hstart (by simp [h.bare.indexPaths]) (by simp [h.bare.columnPaths])
    (fun entry hmem => h.rids.get?_of_mem hmem)
  unfold rebuildDerivedState
  rw [h.bare.columnPaths] at *
  dsimp only
  refine ⟨⟨hc.field, ?_, ⟨hc.rids.nodup, hc.rids.owned⟩, fun id => ?_⟩, hc.absent⟩
  · exact ⟨hc.bare.indexPaths, hc.bare.columnPaths, hc.bare.tiering, hfields, rfl, hcolumns, rfl,
      hc.bare.compressedCold⟩
  · exact (hc.holds id).congr rfl rfl rfl

/-- `applySnapshotObjects` on rows that carry writes. -/
theorem applySnapshotObjects_represents (h : c.Represents vectorField registers) (deferred : Bool)
    (rows : List (SnapshotRow × Write)) (hrows : ∀ r ∈ rows, Carries vectorField r.1 r.2) :
    ∃ d applied, c.applySnapshotObjects (rows.map Prod.fst) deferred = (d, .ok applied) ∧
      d.Represents vectorField
        (rows.foldl (fun registers r => arrive registers r.1.id r.2) registers) := by
  obtain ⟨d, applied, heq, hd⟩ := applySnapshotRows_represents deferred rows hrows h
  refine ⟨_, applied, by rw [applySnapshotObjects, heq], ?_⟩
  split_ifs
  · exact rebuildDerivedState_represents hd
  · exact hd

theorem rebuildCoreState_represents (h : c.Represents vectorField registers) :
    c.rebuildCoreState.Represents vectorField registers := by
  have hfold : ∀ (entries : List (JsString × RowMeta)) (d : Collection),
      d.Represents vectorField registers →
      (entries.foldl (fun c entry => if entry.2.deleted.isSome then c
        else ({ c with liveCount := c.liveCount + 1 }).addShardRid entry.2.rid entry.2.shard)
        d).Represents vectorField registers := by
    intro entries
    induction entries with
    | nil => exact fun d hd => hd
    | cons entry rest ih =>
        intro d hd
        rw [List.foldl_cons]
        apply ih
        split_ifs
        · exact hd
        · exact hd.counted ((counted_liveCount d _).trans (counted_addShardRid _ _ _))
  exact hfold c.objects _ (h.counted ⟨0, [], 0, c.compressionTotals, rfl⟩)

end Collection
end ObjyDb
