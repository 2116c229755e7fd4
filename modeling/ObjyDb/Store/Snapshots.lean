import ObjyDb.Store.Rewrites

/-!
# Snapshots — the invariant through snapshot rows

Outside a bulk load, a snapshot row is written without the fields of the ready columns, and each
column hears of it at once; after the last row the derived state is rebuilt from what the rows show.

- `applySnapshotObjects_inv`
- `SafeSnapshots`: the condition on the rows of a batch
-/

namespace ObjyDb

open Js

namespace Collection

variable {vectorField : Option JsString} {c d : Collection}
  {columns : List (JsString × TypedRidColumn)} {dirty : Nat → Bool}
  {registers : JsString → Option Write}

/-- The write that a snapshot row carries, if any. -/
def SnapshotRow.write (row : SnapshotRow) : Option Write :=
  match row.deleted with
  | some ts => some ⟨ts, none⟩
  | none => row.ts.map fun ts => ⟨ts, some row.value⟩

def SnapshotRow.written (row : SnapshotRow) : Option (JsString × Write) :=
  row.write.map fun w => (row.id, w)

/-- The write of a snapshot row arrives. -/
def arriveSnapshot (registers : JsString → Option Write) (row : SnapshotRow) :
    JsString → Option Write :=
  match row.write with
  | some w => arrive registers row.id w
  | none => registers

/-- A snapshot row may be applied.  It is one that a collection makes, and its value can be kept in
parts; and if it is accepted, the columns that will be read with it do not show another value, and
those that will not be read with it do not hold any of its fields. -/
structure SafeSnapshot (c : Collection) (row : SnapshotRow) : Prop where
  stamped : row.deleted = none → row.ts.isSome = true
  ordered : ∀ {ts t}, row.deleted = some ts → row.ts = some t → t < ts
  vector : row.deleted = none → ValidVector c.vectorField row.value
  value : row.deleted = none → ValueOk c.collectionMeta (withoutVector c.vectorField row.value)
  fits : ∀ {ts}, row.deleted = none → row.ts = some ts → Older (c.ensureMeta row.id).2 ts →
    c.indexDirtyRids.has (c.ensureMeta row.id).2.rid = false →
      FitsBuilding c.columns (c.ensureMeta row.id).2.rid (withoutVector c.vectorField row.value)
  whole : ∀ {ts}, row.deleted = none → row.ts = some ts → Older (c.ensureMeta row.id).2 ts →
    c.indexDirtyRids.has (c.ensureMeta row.id).2.rid = true →
      ∀ p ∈ readyPaths c.columns,
        lookup (.obj (withoutVector c.vectorField row.value)) (pathParts p) = none

/-- Every row of a snapshot batch may be applied when its turn comes. -/
def SafeSnapshots : Collection → List SnapshotRow → Prop
  | _, [] => True
  | c, row :: rest => SafeSnapshot c row ∧ SafeSnapshots (c.applySnapshotObject row false).1 rest

/-- The columns hear of one snapshot row. -/
theorem refreshColumns_sound {rid : Nat} {after : Option Fields}
    (h : Sound vectorField c (updateColumns (c.indexDirtyRids.has rid) c.columns rid after)
      c.indexDirtyRids.has registers) :
    Sound vectorField (c.refreshColumns rid after) (c.refreshColumns rid after).columns
      (c.refreshColumns rid after).indexDirtyRids.has registers := by
  have hheard : hear false (c.columns, c.indexDirtyRids.has) ⟨rid, none, after⟩ =
      (updateColumns (c.indexDirtyRids.has rid) c.columns rid after, c.indexDirtyRids.has) := by
    simp [hear]
  refine (applyIndexDeltas_sound (show false = c.shouldDeferIndexDeltasForCount
    [(⟨rid, none, after⟩ : IndexDelta)].length from rfl) ?_).1
  rw [List.foldl_cons, List.foldl_nil, hheard]
  exact h

theorem arriveSnapshot_of_write {row : SnapshotRow} {w : Write} (h : row.write = some w) :
    arriveSnapshot registers row = arrive registers row.id w := by
  rw [arriveSnapshot, h]

/-- A row that its entry makes superfluous carries no newer write. -/
theorem SnapshotStale.not_newer {m : RowMeta} {row : SnapshotRow} (h : SnapshotStale m row)
    (hrecorded : Recorded d row.id (registers row.id))
    (hm : Assoc.get? d.objects row.id = some m) {w : Write} (hw : row.write = some w) :
    ¬ ∀ held, registers row.id = some held → held.ts < w.ts := by
  intro hall
  rcases h with ⟨ts, last, hdeleted, hlast, hle⟩ | ⟨hdeleted, hnotOlder⟩
  · rw [SnapshotRow.write, hdeleted] at hw
    obtain rfl := Option.some.inj hw
    exact absurd ((last_iff_stale _ hrecorded hm).mpr hall last hlast) (not_lt.mpr hle)
  · rw [SnapshotRow.write, hdeleted] at hw
    obtain ⟨ts, hts, rfl⟩ := Option.map_eq_some_iff.mp hw
    exact hnotOlder ts hts ((hrecorded.older_iff hm ts).mpr hall)

theorem SnapshotWrite.indexDirtyRids {e : Collection} {m : RowMeta} {row : SnapshotRow}
    {deferred : Bool} {after : Option Fields} (h : SnapshotWrite d m row deferred e after) :
    e.indexDirtyRids = d.indexDirtyRids := by
  cases h with
  | deleted _ _ _ _ _ _ => rfl
  | live _ _ _ _ _ _ _ _ => exact (d.sameDerived_overwrite _ _ _ _).indexDirtyRids

theorem SnapshotWrite.newer {e : Collection} {m : RowMeta} {row : SnapshotRow} {deferred : Bool}
    {after : Option Fields} (h : SnapshotWrite d m row deferred e after)
    (hrecorded : Recorded d row.id (registers row.id))
    (hm : Assoc.get? d.objects row.id = some m) {w : Write} (hw : row.write = some w) :
    ∀ held, registers row.id = some held → held.ts < w.ts := by
  cases h with
  | @deleted ts next hdel hnewer hts hdeleted hrid =>
      rw [SnapshotRow.write, hdel] at hw
      obtain rfl := Option.some.inj hw
      exact (last_iff_stale _ hrecorded hm).mp hnewer
  | @live ts value vector next hdel hrowTs hold hprep hts hdeleted hrid =>
      rw [SnapshotRow.write, hdel, hrowTs] at hw
      obtain rfl := Option.some.inj hw
      exact (hrecorded.older_iff hm ts).mp hold

/-- The writes that snapshot rows bring, by what the code accepts. -/
def acceptedSnapshots : Collection → List SnapshotRow → List (JsString × Write)
  | _, [] => []
  | c, row :: rest =>
      let applied := c.applySnapshotObject row false
      (match applied.2 with
        | .ok true => row.written.toList
        | _ => []) ++ acceptedSnapshots applied.1 rest

/-- One snapshot row. -/
theorem applySnapshotObject_sound
    (h : Sound vectorField c c.columns c.indexDirtyRids.has registers) {row : SnapshotRow}
    (hsafe : SafeSnapshot c row) :
    ∃ d applied, c.applySnapshotObject row false = (d, .ok applied) ∧
      Sound vectorField d d.columns d.indexDirtyRids.has (arriveSnapshot registers row) ∧
      (applied = false → c.CountOk → d.CountOk) ∧ (c.QueueOk → d.QueueOk) ∧
      arriveSnapshot registers row =
        if applied then (row.written.toList).foldl record registers else registers := by
  have he := c.ensureMeta_entered row.id
  obtain ⟨hstamped, hordered, hvector, hvalue, hfits, hwholes⟩ := hsafe
  set em := c.ensureMeta row.id with hem
  obtain ⟨d, m⟩ := em
  have hfield : d.vectorField = vectorField := he.same.vectorField.trans h.rows.field
  have howners : d.RidsOwned := by
    have hentered := h.owners.ensureMeta row.id
    rw [← hem] at hentered
    exact hentered
  have hrows := h.rows.entered he
  have hscans := h.scans.entered h.rows.recorded he
  have hrecorded := hrows.recorded row.id
  obtain ⟨w, hw⟩ : ∃ w, row.write = some w := by
    unfold SnapshotRow.write
    cases hdel : row.deleted with
    | some ts => exact ⟨_, rfl⟩
    | none =>
        obtain ⟨ts, hts⟩ := Option.isSome_iff_exists.mp (hstamped hdel)
        exact ⟨_, by rw [hts]; rfl⟩
  rw [arriveSnapshot_of_write hw]
  have hwritten : row.written = some (row.id, w) := by rw [SnapshotRow.written, hw]; rfl
  rw [← he.same.columns, ← he.same.indexDirtyRids] at hrows
  rw [← he.same.columns] at hscans
  rw [h.rows.field] at hvector hvalue hfits hwholes
  rcases c.applySnapshotObject_cases row false hem.symm with
    ⟨hstale, heq⟩ | ⟨hlive, err, hprep, -⟩ | ⟨e, after, hwrite, heq⟩
  · -- an older row leaves the collection as it is, but for an entry without a row
    have hnot := hstale.not_newer hrecorded he.here hw
    refine ⟨d, false, heq, ?_, ?_, fun hqueue => hqueue.congr he.same.indexDirtyRids,
      arrive_stale hnot⟩
    rotate_left
    · exact fun _ hcount =>
        he.counters.trans (hcount.trans (congrArg Nat.cast he.live.symm))
    rw [arrive_stale hnot]
    refine ⟨hrows, hscans, fun {id} hnone => ?_, howners⟩
    by_cases hid : id = row.id
    · subst hid
      exact absurd (fun held hheld => nomatch hnone.symm.trans hheld) hnot
    · exact (he.elsewhere hid).trans (h.absent hnone)
  · -- a valid vector is not refused
    obtain ⟨vector, hok, -⟩ := prepareStoredValue_valid hfield (hvector hlive)
    exact nomatch hok.symm.trans hprep
  · refine ⟨_, true, heq, refreshColumns_sound ?_, fun h => (nomatch h),
      fun hqueue => applyIndexDeltas_queue ((hqueue.congr he.same.indexDirtyRids).congr
        hwrite.indexDirtyRids) _, ?_⟩
    rotate_left
    · rw [hwritten]
      exact arrive_newer (hwrite.newer hrecorded he.here hw)
    cases hwrite with
    | @deleted ts next hdel hnewer hts hdeleted hrid =>
        rw [SnapshotRow.write, hdel] at hw
        obtain rfl := Option.some.inj hw
        have hall := (last_iff_stale _ hrecorded he.here).mp hnewer
        rw [arrive_newer hall]
        have hsame := d.sameDerived_clear row.id next
        rw [hsame.columns, hsame.indexDirtyRids]
        refine ⟨hrows.clear he.here hrid hdeleted ?_ (fun _ _ => rfl), ?_, fun {id} hnone => ?_,
          howners.setRow he.here hrid (d.objects_clear _ _) rfl⟩
        · -- the time stamp that is kept is the snapshot's or the entry's, both before the deletion
          intro t ht
          rw [hts] at ht
          rcases Option.or_eq_some_iff.mp ht with ht | ⟨-, ht⟩
          · exact hordered hdel ht
          · obtain ⟨held, hheld, hle⟩ := hrecorded.ts_le he.here ht
            exact hle.trans_lt (hall held hheld)
        · exact hscans.write hrows.columnsOk hrows.rids he.here hrid (d.objects_clear _ _)
            hsame.collectionMeta hsame.jobs hsame.nextJob _ fun value hvalue => nomatch hvalue
        · rw [← arrive_newer hall] at hnone
          exact absent_arrive h.absent (fun {id'} hid =>
            (clear_elsewhere d row.id next hid).trans (he.elsewhere hid)) hnone
    | @live ts value vector next hdel hrowTs hold hprep hts hdeleted hrid =>
        rw [SnapshotRow.write, hdel, hrowTs] at hw
        obtain rfl := Option.some.inj hw
        obtain ⟨vector', hok, -⟩ := prepareStoredValue_valid hfield (hvector hdel)
        obtain ⟨rfl, rfl⟩ := Prod.mk.inj (Except.ok.inj (hok.symm.trans hprep))
        have hall := (hrecorded.older_iff he.here ts).mp hold
        rw [arrive_newer hall]
        have hok' : ValueOk d.collectionMeta (withoutVector vectorField row.value) :=
          he.same.collectionMeta ▸ hvalue hdel
        have hsame := d.sameDerived_overwrite row.id next
          (d.baseValueForStorage (withoutVector vectorField row.value) none) vector'
        rw [if_neg (by simp), hsame.columns, hsame.indexDirtyRids]
        refine ⟨hrows.overwrite he.here hrid hts hdeleted hok' (fun _ _ => rfl) (.inr rfl) ?_ ?_
          (hvalue hdel).wellFormed (fun _ _ => rfl), ?_, fun {id} hnone => ?_,
          howners.setRow he.here hrid (d.objects_overwrite _ _ _ _)
            (d.overwrite_counted _ _ _ _).rows_eq.2.2.2.1⟩
        · intro hmark p hp
          rw [he.same.indexDirtyRids] at hmark
          rw [he.same.columns] at hp
          exact hwholes hdel hrowTs hold hmark p hp
        · intro hclean
          rw [he.same.indexDirtyRids] at hclean
          rw [he.same.columns]
          exact hfits hdel hrowTs hold hclean
        · refine hscans.write hrows.columnsOk hrows.rids he.here hrid
            (d.objects_overwrite _ _ _ _) hsame.collectionMeta hsame.jobs hsame.nextJob _ ?_
          intro raw hraw path hpath
          obtain rfl := Option.some.inj hraw
          exact holdsValue_getPathValue (hok'.columns path hpath) fun _ _ => rfl
        · rw [← arrive_newer hall] at hnone
          exact absent_arrive h.absent (fun {id'} hid =>
            (overwrite_elsewhere d row.id next _ _ hid).trans (he.elsewhere hid)) hnone

theorem applySnapshotRows_sound (rows : List SnapshotRow) {c : Collection}
    {registers : JsString → Option Write}
    (h : Sound vectorField c c.columns c.indexDirtyRids.has registers)
    (hsafe : SafeSnapshots c rows) :
    ∃ d applied, applySnapshotRows false c rows = (d, .ok applied) ∧
      Sound vectorField d d.columns d.indexDirtyRids.has (rows.foldl arriveSnapshot registers) ∧
      (applied = 0 → c.CountOk → d.CountOk) ∧ (c.QueueOk → d.QueueOk) ∧
      rows.foldl arriveSnapshot registers = (acceptedSnapshots c rows).foldl record registers := by
  induction rows generalizing c registers with
  | nil => exact ⟨c, 0, rfl, h, fun _ => id, id, rfl⟩
  | cons row rest ih =>
      obtain ⟨hrow, hrest⟩ := hsafe
      obtain ⟨d, applied, heq, hd, hcount, hqueue, harrive⟩ := applySnapshotObject_sound h hrow
      rw [heq] at hrest
      obtain ⟨e, n, hrows, he, hcountE, hqueueE, hrecorded⟩ := ih hd hrest
      refine ⟨e, if applied then n + 1 else n, ?_, he, fun hzero => ?_, hqueueE ∘ hqueue, ?_⟩
      · rw [applySnapshotRows, heq]
        dsimp only
        rw [hrows]
      · cases applied with
        | true => exact nomatch hzero
        | false => exact hcountE hzero ∘ hcount rfl
      · rw [acceptedSnapshots, heq]
        dsimp only
        rw [List.foldl_append, List.foldl_cons, hrecorded, harrive]
        cases applied <;> rfl

theorem applySnapshotObjects_inv (h : Inv vectorField c registers) {rows : List SnapshotRow}
    (hsafe : SafeSnapshots c rows) :
    Inv vectorField (c.applySnapshotObjects rows false).1
      ((acceptedSnapshots c rows).foldl record registers) := by
  obtain ⟨d, applied, heq, hd, hcount, hqueue, hrecorded⟩ := applySnapshotRows_sound rows h.sound hsafe
  rw [applySnapshotObjects, heq, ← hrecorded]
  dsimp only
  split_ifs with happlied
  · exact rebuildDerivedState_inv hd
  · exact ⟨hd, hcount (by simpa using happlied) h.count, hqueue h.queue⟩

end Collection
end ObjyDb
