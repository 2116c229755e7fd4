import ObjyDb.Node.LocalWrites

/-!
# Runs — what a replica goes through

A run interleaves local writes, operations and snapshots of other nodes, restores, changes of the
catalog and background work.  Every path that stores a timestamp advances the clock first, so in
every run the clock is ahead of all that is stored.

- `CRDTNode.Event`, `CRDTNode.runEvents`
- `CRDTNode.runEvents_bounded`: the clock is ahead
-/

namespace ObjyDb

open Js

namespace CRDTNode

/-! ## Steps -/

/-- Anything that happens to a node. -/
inductive Event
  | write (db coll : JsString) (w : LocalWrite)
  | applyRemote (ops : List Op) (cursorKey : JsString)
  | applySnapshot (collections : List SnapshotCollection) (lastSeq : Nat) (cursorKey : JsString)
  | applySnapshotObjects (database collection : JsString) (objects : List Collection.SnapshotRow)
      (lastSeq : Nat) (scopeShard : Option JsString) (cursorKey : JsString)
  | createDatabase (db : JsString)
  | removeDatabase (db : JsString)
  | setCollectionMeta (db coll : JsString) (next : CollectionMeta)
  | removeCollection (db coll : JsString)
  | createIndex (db coll path : JsString)
  | dropIndex (db coll path : JsString)
  /-- A restore starts and ends with these, and sets up the catalog without telling listeners. -/
  | beginBulkLoad
  | endBulkLoad
  | restoreDatabase (db : JsString)
  | restoreDatabaseTombstone (db : JsString)
  | restoreCollection (db coll : JsString) (next : CollectionMeta)
  | restoreCollectionTombstone (db coll : JsString)
  | adoptSeq (seq : Nat)
  | scheduleIndexBuilds (db coll : JsString)
  | stepJob (db coll : JsString) (job : Nat)
  | prune (cut : Nat)

def Event.step (n : CRDTNode) : Event → CRDTNode
  | .write db coll w => (w.apply n db coll).1
  | .applyRemote ops cursorKey => (n.applyRemote ops cursorKey).1
  | .applySnapshot collections lastSeq cursorKey => (n.applySnapshot collections lastSeq cursorKey).1
  | .applySnapshotObjects database collection objects lastSeq scopeShard cursorKey =>
      (n.applySnapshotObjects database collection objects lastSeq scopeShard cursorKey).1
  | .createDatabase db => n.createDatabase db
  | .removeDatabase db => n.removeDatabase db
  | .setCollectionMeta db coll next => n.setCollectionMeta db coll next
  | .removeCollection db coll => n.removeCollection db coll
  | .createIndex db coll path => n.createIndex db coll path
  | .dropIndex db coll path => n.dropIndex db coll path
  | .beginBulkLoad => { n with db := n.db.beginBulkLoad }
  | .endBulkLoad => { n with db := n.db.endBulkLoad }
  | .restoreDatabase db => { n with db := n.db.createDatabase db }
  | .restoreDatabaseTombstone db => { n with db := (n.db.deleteDatabase db).1 }
  | .restoreCollection db coll next => { n with db := (n.db.setCollectionMeta db coll next).1 }
  | .restoreCollectionTombstone db coll => { n with db := (n.db.deleteCollection db coll).1 }
  | .adoptSeq seq => { n with seq := max n.seq seq }
  | .scheduleIndexBuilds db coll =>
      { n with db := n.db.onCollection db coll Collection.scheduleIndexBuildsFromMeta }
  | .stepJob db coll job => { n with db := n.db.onCollection db coll fun c => c.stepJob job }
  | .prune cut => n.prune cut

def runEvents (n : CRDTNode) (events : List Event) : CRDTNode :=
  events.foldl Event.step n

variable {n n' : CRDTNode} {db coll : JsString}

/-! ## The clock is ahead -/

/-- No stored timestamp is ahead of the clock. -/
def Bounded (n : CRDTNode) : Prop :=
  n.db.Stamped fun t => t.c ≤ n.clock.c

theorem Bounded.drafting (h : Bounded n) (hn : Drafting n n') : Bounded n' :=
  hn.like.stamped (h.mono fun _ ht => ht.trans hn.clock)

@[simp] theorem notifyOps_db (n : CRDTNode) (ops : List Op) : (n.notifyOps ops).db = n.db := by
  rw [notifyOps]
  split_ifs <;> rfl

@[simp] theorem notifyOps_clock (n : CRDTNode) (ops : List Op) :
    (n.notifyOps ops).clock = n.clock := by
  rw [notifyOps]
  split_ifs <;> rfl

theorem applyOps_bounded (h : Bounded n) {ops : List Op} (hops : ∀ op ∈ ops, op.ts.c ≤ n.clock.c) :
    (n.applyOps ops).1.Stamped fun t => t.c ≤ n.clock.c :=
  Store.applyOps_stamped h fun op hop => hops op (List.mem_of_mem_filter hop)

theorem commitLocalOps_bounded (h : Bounded n) {ops : List Op}
    (hops : ∀ op ∈ ops, op.ts.c ≤ n.clock.c) : Bounded (n.commitLocalOps ops).1 := by
  have hlogged : ∀ op ∈ n.numbered ops, op.ts.c ≤ n.clock.c := by
    intro op hop
    rcases mem_numbered hop with ⟨drafted, hdrafted, shard, seq, rfl⟩
    exact hops drafted hdrafted
  have happlied := applyOps_bounded (n := n.withLogged ops) h hlogged
  rw [commitLocalOps, logOps_eq]
  dsimp only
  cases hresult : (n.withLogged ops).applyOps (n.numbered ops) with
  | mk s result =>
      rw [hresult] at happlied
      cases result with
      | error err => exact happlied
      | ok applied =>
          dsimp only
          rw [Bounded, notifyOps_db, notifyOps_clock]
          exact happlied

/-! ### Local writes -/

theorem LocalWrite.apply_bounded (h : Bounded n) (db coll : JsString) (w : LocalWrite) :
    Bounded (w.apply n db coll).1 := by
  have houtcome := w.apply_outcome n db coll
  generalize w.apply n db coll = result at houtcome
  cases houtcome with
  | thrown hdrafting => exact h.drafting hdrafting
  | puts hdrafting _ _ hclock => exact commitLocalOps_bounded (h.drafting hdrafting) hclock
  | deletes hdrafting _ hops =>
      exact commitLocalOps_bounded (h.drafting hdrafting) fun op hop => (hops op hop).2.2.2.2

/-! ### Operations and snapshots of others -/

theorem foldl_touchOp (ops : List Op) (clock : Clock) :
    clock.c ≤ (ops.foldl touchOp clock).c ∧ ∀ op ∈ ops, op.ts.c ≤ (ops.foldl touchOp clock).c := by
  induction ops generalizing clock with
  | nil => exact ⟨le_rfl, fun _ hop => nomatch hop⟩
  | cons op ops ih =>
      rcases ih (touchOp clock op) with ⟨hclock, hops⟩
      refine ⟨(le_touch clock (some op.ts)).trans hclock, ?_⟩
      intro op' hop'
      rcases List.mem_cons.mp hop' with rfl | hop'
      · exact (le_touch_ts clock op'.ts).trans hclock
      · exact hops op' hop'

theorem applyRemote_bounded (h : Bounded n) (ops : List Op) (cursorKey : JsString) :
    Bounded (n.applyRemote ops cursorKey).1 := by
  have htouch := foldl_touchOp ops n.clock
  have htouched : Bounded { n with clock := ops.foldl touchOp n.clock } :=
    h.mono fun _ ht => ht.trans htouch.1
  have hincoming : ∀ op ∈ ops.map fun op => { op with shard := some (n.shardOf op) },
      op.ts.c ≤ (ops.foldl touchOp n.clock).c := by
    intro op hop
    rcases List.mem_map.mp hop with ⟨sent, hsent, rfl⟩
    exact htouch.2 sent hsent
  have happlied := applyOps_bounded htouched hincoming
  rw [applyRemote]
  dsimp only
  cases hresult : applyOps { n with clock := ops.foldl touchOp n.clock }
      (ops.map fun op => { op with shard := some (n.shardOf op) }) with
  | mk s result =>
      rw [hresult] at happlied
      cases result with
      | error err => exact happlied
      | ok applied =>
          dsimp only
          change Store.Stamped (fun t => t.c ≤ (notifyOps _ applied).clock.c)
            (notifyOps _ applied).db
          rw [notifyOps_db, notifyOps_clock]
          exact happlied

/-- Both timestamps of a row are at most `bound`. -/
def RowBounded (bound : Nat) (row : Collection.SnapshotRow) : Prop :=
  (∀ t, row.ts = some t → t.c ≤ bound) ∧ ∀ t, row.deleted = some t → t.c ≤ bound

theorem RowBounded.mono {bound bound' : Nat} (hle : bound ≤ bound') {row : Collection.SnapshotRow}
    (h : RowBounded bound row) : RowBounded bound' row :=
  ⟨fun t ht => (h.1 t ht).trans hle, fun t ht => (h.2 t ht).trans hle⟩

theorem touchRow_bounds (clock : Clock) (row : Collection.SnapshotRow) :
    clock.c ≤ (touchRow clock row).c ∧ RowBounded (touchRow clock row).c row := by
  have hts := le_touch clock row.ts
  have hrowTs : ∀ t, row.ts = some t → t.c ≤ (touch clock row.ts).c := by
    intro t ht
    rw [ht]
    exact le_touch_ts clock t
  rw [touchRow]
  cases hdeleted : row.deleted with
  | none => exact ⟨hts, hrowTs, fun _ ht => nomatch hdeleted.symm.trans ht⟩
  | some ts =>
      have hle := le_touch (touch clock row.ts) (some ts)
      refine ⟨hts.trans hle, fun t ht => (hrowTs t ht).trans hle, ?_⟩
      intro t ht
      cases hdeleted.symm.trans ht
      exact le_touch_ts (touch clock row.ts) ts

theorem foldl_touchRow (rows : List Collection.SnapshotRow) (clock : Clock) :
    clock.c ≤ (rows.foldl touchRow clock).c ∧
      ∀ row ∈ rows, RowBounded (rows.foldl touchRow clock).c row := by
  induction rows generalizing clock with
  | nil => exact ⟨le_rfl, fun _ hrow => nomatch hrow⟩
  | cons row rows ih =>
      rcases ih (touchRow clock row) with ⟨hclock, hrows⟩
      have hrow := touchRow_bounds clock row
      refine ⟨hrow.1.trans hclock, ?_⟩
      intro row' hrow'
      rcases List.mem_cons.mp hrow' with rfl | hrow'
      · exact hrow.2.mono hclock
      · exact hrows row' hrow'

theorem foldl_touchRows (collections : List SnapshotCollection) (clock : Clock) :
    clock.c ≤ (collections.foldl touchRows clock).c ∧
      ∀ c ∈ collections, ∀ row ∈ c.objects, RowBounded (collections.foldl touchRows clock).c row := by
  induction collections generalizing clock with
  | nil => exact ⟨le_rfl, fun _ hc => nomatch hc⟩
  | cons c collections ih =>
      rcases ih (touchRows clock c) with ⟨hclock, hcollections⟩
      have hrows := foldl_touchRow c.objects clock
      refine ⟨hrows.1.trans hclock, ?_⟩
      intro c' hc' row hrow
      rcases List.mem_cons.mp hc' with rfl | hc'
      · exact (hrows.2 row hrow).mono hclock
      · exact hcollections c' hc' row hrow

theorem applySnapshotObjects_bounded (h : Bounded n) (database collection : JsString)
    (objects : List Collection.SnapshotRow) (lastSeq : Nat) (scopeShard : Option JsString)
    (cursorKey : JsString) :
    Bounded (n.applySnapshotObjects database collection objects lastSeq scopeShard cursorKey).1 := by
  have htouch := foldl_touchRow (objects.map (n.withShard scopeShard)) n.clock
  have htouched : n.db.Stamped fun t =>
      t.c ≤ ((objects.map (n.withShard scopeShard)).foldl touchRow n.clock).c :=
    h.mono fun _ ht => ht.trans htouch.1
  have happlied := Store.applySnapshotObjects_stamped htouched database collection htouch.2
  rw [applySnapshotObjects]
  split_ifs
  · exact h
  · dsimp only
    cases hresult : n.db.applySnapshotObjects database collection
        (objects.map (n.withShard scopeShard)) with
    | mk s result =>
        rw [hresult] at happlied
        cases result with
        | error err => exact happlied
        | ok count =>
            dsimp only
            split_ifs <;> exact happlied

/-- Every row of the batches satisfies `P`. -/
def BatchRows (P : Collection.SnapshotRow → Prop) (batches : List (JsString × SnapshotCollection)) :
    Prop :=
  ∀ key batch, Assoc.get? batches key = some batch → ∀ row ∈ batch.objects, P row

theorem batchRows_addToBatches {P : Collection.SnapshotRow → Prop}
    {batches : List (JsString × SnapshotCollection)} (h : BatchRows P batches)
    {c : SnapshotCollection} (hc : ∀ row ∈ c.objects, P (n.withShard c.shard row)) :
    BatchRows P (n.addToBatches batches c) := by
  rw [addToBatches]
  generalize c.objects = rows at hc
  induction rows generalizing batches with
  | nil => exact h
  | cons row rows ih =>
      refine ih ?_ fun r hr => hc r (List.mem_cons_of_mem _ hr)
      intro key batch hbatch r hr
      rw [Assoc.get?_set] at hbatch
      split_ifs at hbatch with hkey
      · cases hbatch
        rcases List.mem_append.mp hr with hold | hnew
        · cases hheld : Assoc.get? batches (storeCollectionKey c.db c.coll) with
          | none =>
              rw [hheld] at hold
              cases hold
          | some held =>
              rw [hheld] at hold
              exact h _ held hheld r hold
        · rw [List.mem_singleton.mp hnew]
          exact hc row List.mem_cons_self
      · exact h key batch hbatch r hr

theorem nodup_addToBatches {batches : List (JsString × SnapshotCollection)}
    (h : (Assoc.keys batches).Nodup) (c : SnapshotCollection) :
    (Assoc.keys (n.addToBatches batches c)).Nodup := by
  rw [addToBatches]
  generalize c.objects = rows
  induction rows generalizing batches with
  | nil => exact h
  | cons row rows ih => exact ih (Assoc.nodup_keys_set _ _ h)

theorem batchRows_foldl {P : Collection.SnapshotRow → Prop} (collections : List SnapshotCollection)
    (batches : List (JsString × SnapshotCollection)) (h : BatchRows P batches)
    (hnodup : (Assoc.keys batches).Nodup)
    (hrows : ∀ c ∈ collections, ∀ row ∈ c.objects, P (n.withShard c.shard row)) :
    BatchRows P (collections.foldl n.addToBatches batches) ∧
      (Assoc.keys (collections.foldl n.addToBatches batches)).Nodup := by
  induction collections generalizing batches with
  | nil => exact ⟨h, hnodup⟩
  | cons c collections ih =>
      exact ih _ (batchRows_addToBatches h (hrows c List.mem_cons_self)) (nodup_addToBatches hnodup c)
        fun c' hc' => hrows c' (List.mem_cons_of_mem _ hc')

theorem applyBatches_stamped {bound : Nat} (batches : List SnapshotCollection) {s : Store}
    (h : s.Stamped fun t => t.c ≤ bound)
    (hrows : ∀ batch ∈ batches, ∀ row ∈ batch.objects, RowBounded bound row) :
    (applyBatches s batches).1.Stamped fun t => t.c ≤ bound := by
  induction batches generalizing s with
  | nil => exact h
  | cons batch batches ih =>
      have hbatch := Store.applySnapshotObjects_stamped h batch.db batch.coll
        (hrows batch List.mem_cons_self)
      rw [applyBatches]
      cases hresult : s.applySnapshotObjects batch.db batch.coll batch.objects with
      | mk t result =>
          rw [hresult] at hbatch
          cases result with
          | error err => exact hbatch
          | ok count =>
              have hmore := ih hbatch fun b hb => hrows b (List.mem_cons_of_mem _ hb)
              dsimp only
              cases hrest : applyBatches t batches with
              | mk u rest =>
                  rw [hrest] at hmore
                  cases rest <;> exact hmore

theorem applySnapshot_bounded (h : Bounded n) (collections : List SnapshotCollection)
    (lastSeq : Nat) (cursorKey : JsString) :
    Bounded (n.applySnapshot collections lastSeq cursorKey).1 := by
  have htouch := foldl_touchRows collections n.clock
  have htouched : n.db.Stamped fun t => t.c ≤ (collections.foldl touchRows n.clock).c :=
    h.mono fun _ ht => ht.trans htouch.1
  have hbatches := batchRows_foldl (n := n)
    (P := RowBounded (collections.foldl touchRows n.clock).c) collections
    [] (fun _ _ hbatch => nomatch hbatch) List.nodup_nil
    fun c hc row hrow => htouch.2 c hc row hrow
  have happlied := applyBatches_stamped
    ((collections.foldl n.addToBatches []).map Prod.snd) htouched (by
      intro batch hbatch
      rcases List.mem_map.mp hbatch with ⟨⟨key, batch⟩, hmem, rfl⟩
      exact hbatches.1 key batch (Assoc.get?_eq_some_of_mem hbatches.2 hmem))
  rw [applySnapshot]
  dsimp only
  cases hresult : applyBatches n.db ((collections.foldl n.addToBatches []).map Prod.snd) with
  | mk s result =>
      rw [hresult] at happlied
      cases result with
      | error err => exact happlied
      | ok count =>
          dsimp only
          split_ifs <;> exact happlied

/-! ### Runs -/

theorem changeIndexes_bounded (h : Bounded n) (db coll : JsString) {work : Collection → Collection}
    (hwork : ∀ c, (work c).objects = c.objects) : Bounded (n.changeIndexes db coll work) := by
  have hopen := h.drafting (drafting_openCollection n db coll)
  rw [changeIndexes]
  cases hresult : n.db.openCollection db coll with
  | mk s result =>
      rw [hresult] at hopen
      cases result with
      | error err => exact hopen
      | ok => exact Store.onCollection_stamped hopen db coll hwork

/-- Every step of a node keeps its clock ahead of what it stores. -/
theorem step_bounded (h : Bounded n) (e : Event) : Bounded (e.step n) := by
  cases e with
  | write db coll w => exact w.apply_bounded h db coll
  | applyRemote ops cursorKey => exact applyRemote_bounded h ops cursorKey
  | applySnapshot collections lastSeq cursorKey =>
      exact applySnapshot_bounded h collections lastSeq cursorKey
  | applySnapshotObjects database collection objects lastSeq scopeShard cursorKey =>
      exact applySnapshotObjects_bounded h database collection objects lastSeq scopeShard cursorKey
  | createDatabase db => exact Store.createDatabase_stamped h db
  | removeDatabase db =>
      have hdelete := Store.deleteDatabase_stamped h db
      rw [Event.step, removeDatabase]
      dsimp only
      split_ifs <;> exact hdelete
  | setCollectionMeta db coll next =>
      have hset := Store.setCollectionMeta_stamped h db coll next
      rw [Event.step, setCollectionMeta]
      cases hresult : n.db.setCollectionMeta db coll next with
      | mk s result =>
          rw [hresult] at hset
          cases result <;> exact hset
  | removeCollection db coll =>
      have hdelete := Store.deleteCollection_stamped h db coll
      rw [Event.step, removeCollection]
      dsimp only
      split_ifs <;> exact hdelete
  | createIndex db coll path =>
      exact changeIndexes_bounded h db coll fun c => (c.reworked_createIndex path).kept.objects
  | dropIndex db coll path =>
      exact changeIndexes_bounded h db coll fun c => (c.reworked_dropIndex path).kept.objects
  | beginBulkLoad => exact h
  | endBulkLoad => exact Store.endBulkLoad_stamped h
  | restoreDatabase db => exact Store.createDatabase_stamped h db
  | restoreDatabaseTombstone db => exact Store.deleteDatabase_stamped h db
  | restoreCollection db coll next => exact Store.setCollectionMeta_stamped h db coll next
  | restoreCollectionTombstone db coll => exact Store.deleteCollection_stamped h db coll
  | adoptSeq seq => exact h
  | scheduleIndexBuilds db coll =>
      exact Store.onCollection_stamped h db coll fun c => (c.kept_scheduleIndexBuildsFromMeta).objects
  | stepJob db coll job =>
      exact Store.onCollection_stamped h db coll fun c => (c.kept_stepJob job).objects
  | prune cut => exact h

theorem runEvents_bounded (h : Bounded n) (events : List Event) :
    Bounded (n.runEvents events) := by
  induction events generalizing n with
  | nil => exact h
  | cons e events ih => exact ih (step_bounded h e)

theorem new_bounded (id : JsString) (clock : Clock) (operationLog : Bool) (shards : ShardNames)
    (vectorField : Option JsString) (compression : Option Compression) :
    Bounded (new id clock operationLog shards vectorField compression) :=
  fun _ _ _ hc => nomatch hc

end CRDTNode
end ObjyDb
