import ObjyDb.Node.Runs

/-!
# Commits — a local write is accepted as a whole or not at all

In every reachable state a bulk write with usable names either throws, and then has only advanced
the clock and made collections without rows, or all its operations are logged with consecutive
sequence numbers, win their objects and are told to the listeners.

- `CRDTNode.runEvents_noGhosts`: what is deleted has no rows
- `CRDTNode.LocalWrite.commits`
-/

namespace ObjyDb

open Js

namespace CRDTNode

variable {n n' m : CRDTNode} {db coll : JsString}

/-! ## Deleted collections have no rows -/

theorem commitLocalOps_grows (n : CRDTNode) (ops : List Op) :
    n.db.Grows (n.commitLocalOps ops).1.db := by
  have happly := Store.applyOps_grows n.db ((n.numbered ops).filter isOp)
  have hsame : (n.withLogged ops).applyOps (n.numbered ops) =
      n.db.applyOps ((n.numbered ops).filter isOp) := rfl
  rw [commitLocalOps, logOps_eq]
  dsimp only
  rw [hsame]
  cases hresult : n.db.applyOps ((n.numbered ops).filter isOp) with
  | mk s result =>
      rw [hresult] at happly
      cases result with
      | error err => exact happly
      | ok applied =>
          dsimp only
          rw [notifyOps_db]
          exact happly

theorem LocalWrite.apply_grows (n : CRDTNode) (db coll : JsString) (w : LocalWrite) :
    n.db.Grows (w.apply n db coll).1.db := by
  have houtcome := w.apply_outcome n db coll
  generalize w.apply n db coll = result at houtcome
  cases houtcome with
  | thrown hdrafting => exact hdrafting.like.grows
  | puts hdrafting => exact hdrafting.like.grows.trans (commitLocalOps_grows ..)
  | deletes hdrafting => exact hdrafting.like.grows.trans (commitLocalOps_grows ..)

theorem applyRemote_grows (n : CRDTNode) (ops : List Op) (cursorKey : JsString) :
    n.db.Grows (n.applyRemote ops cursorKey).1.db := by
  have happly := Store.applyOps_grows n.db
    ((ops.map fun op => { op with shard := some (n.shardOf op) }).filter isOp)
  rw [applyRemote, applyOps]
  dsimp only
  cases hresult : n.db.applyOps
      ((ops.map fun op => { op with shard := some (n.shardOf op) }).filter isOp) with
  | mk s result =>
      rw [hresult] at happly
      cases result with
      | error err => exact happly
      | ok applied =>
          dsimp only
          rw [notifyOps_db]
          exact happly

theorem applyBatches_grows (batches : List SnapshotCollection) (s : Store) :
    s.Grows (applyBatches s batches).1 := by
  induction batches generalizing s with
  | nil => exact .refl s
  | cons batch batches ih =>
      have hbatch := Store.applySnapshotObjects_grows s batch.db batch.coll batch.objects
      rw [applyBatches]
      cases hresult : s.applySnapshotObjects batch.db batch.coll batch.objects with
      | mk t result =>
          rw [hresult] at hbatch
          cases result with
          | error err => exact hbatch
          | ok count =>
              have hmore := hbatch.trans (ih t)
              dsimp only
              cases hrest : applyBatches t batches with
              | mk u rest =>
                  rw [hrest] at hmore
                  cases rest <;> exact hmore

theorem applySnapshot_grows (n : CRDTNode) (collections : List SnapshotCollection) (lastSeq : Nat)
    (cursorKey : JsString) : n.db.Grows (n.applySnapshot collections lastSeq cursorKey).1.db := by
  have happly := applyBatches_grows ((collections.foldl n.addToBatches []).map Prod.snd) n.db
  rw [applySnapshot]
  dsimp only
  cases hresult : applyBatches n.db ((collections.foldl n.addToBatches []).map Prod.snd) with
  | mk s result =>
      rw [hresult] at happly
      cases result with
      | error err => exact happly
      | ok count =>
          dsimp only
          split_ifs <;> exact happly

theorem applySnapshotObjects_grows (n : CRDTNode) (database collection : JsString)
    (objects : List Collection.SnapshotRow) (lastSeq : Nat) (scopeShard : Option JsString)
    (cursorKey : JsString) : n.db.Grows
      (n.applySnapshotObjects database collection objects lastSeq scopeShard cursorKey).1.db := by
  have happly := Store.applySnapshotObjects_grows n.db database collection
    (objects.map (n.withShard scopeShard))
  rw [applySnapshotObjects]
  split_ifs
  · exact .refl n.db
  · dsimp only
    cases hresult : n.db.applySnapshotObjects database collection
        (objects.map (n.withShard scopeShard)) with
    | mk s result =>
        rw [hresult] at happly
        cases result with
        | error err => exact happly
        | ok count =>
            dsimp only
            split_ifs <;> exact happly

theorem changeIndexes_grows (n : CRDTNode) (db coll : JsString) (work : Collection → Collection) :
    n.db.Grows (n.changeIndexes db coll work).db := by
  have hopen := Store.openCollection_grows n.db db coll
  rw [changeIndexes]
  cases hresult : n.db.openCollection db coll with
  | mk s result =>
      rw [hresult] at hopen
      cases result with
      | error err => exact hopen
      | ok => exact hopen.trans (Store.onCollection_grows s db coll work)

theorem step_noGhosts (h : n.db.NoGhosts) (e : Event) : (e.step n).db.NoGhosts := by
  cases e with
  | write db coll w => exact h.grows (w.apply_grows n db coll)
  | applyRemote ops cursorKey => exact h.grows (applyRemote_grows n ops cursorKey)
  | applySnapshot collections lastSeq cursorKey =>
      exact h.grows (applySnapshot_grows n collections lastSeq cursorKey)
  | applySnapshotObjects database collection objects lastSeq scopeShard cursorKey =>
      exact h.grows
        (applySnapshotObjects_grows n database collection objects lastSeq scopeShard cursorKey)
  | createDatabase db => exact Store.createDatabase_noGhosts h db
  | removeDatabase db =>
      have hdelete := Store.deleteDatabase_noGhosts h db
      rw [Event.step, removeDatabase]
      dsimp only
      split_ifs <;> exact hdelete
  | setCollectionMeta db coll next =>
      have hset := Store.setCollectionMeta_noGhosts h db coll next
      rw [Event.step, setCollectionMeta]
      cases hresult : n.db.setCollectionMeta db coll next with
      | mk s result =>
          rw [hresult] at hset
          cases result <;> exact hset
  | removeCollection db coll =>
      have hdelete := Store.deleteCollection_noGhosts h db coll
      rw [Event.step, removeCollection]
      dsimp only
      split_ifs <;> exact hdelete
  | createIndex db coll path => exact h.grows (changeIndexes_grows n db coll _)
  | dropIndex db coll path => exact h.grows (changeIndexes_grows n db coll _)
  | beginBulkLoad => exact h
  | endBulkLoad => exact h.grows (Store.endBulkLoad_grows n.db)
  | restoreDatabase db => exact Store.createDatabase_noGhosts h db
  | restoreDatabaseTombstone db => exact Store.deleteDatabase_noGhosts h db
  | restoreCollection db coll next => exact Store.setCollectionMeta_noGhosts h db coll next
  | restoreCollectionTombstone db coll => exact Store.deleteCollection_noGhosts h db coll
  | adoptSeq seq => exact h
  | scheduleIndexBuilds db coll => exact h.grows (Store.onCollection_grows n.db db coll _)
  | stepJob db coll job => exact h.grows (Store.onCollection_grows n.db db coll _)
  | prune cut => exact h

theorem runEvents_noGhosts (h : n.db.NoGhosts) (events : List Event) :
    (n.runEvents events).db.NoGhosts := by
  induction events generalizing n with
  | nil => exact h
  | cons e events ih => exact ih (step_noGhosts h e)

theorem new_noGhosts (id : JsString) (clock : Clock) (operationLog : Bool) (shards : ShardNames)
    (vectorField : Option JsString) (compression : Option Compression) :
    (new id clock operationLog shards vectorField compression).db.NoGhosts :=
  fun _ _ _ _ hhere => nomatch hhere

/-! ## A commit -/

/-- The operations are logged, win their objects and are told to the listeners. -/
structure Commits (n n' : CRDTNode) (ops : List Op) : Prop where
  seq : n'.seq = n.seq + ops.length
  seqs : ops.map Op.seq = List.range' (n.seq + 1) ops.length
  log : n'.log = if n.operationLog then n.log ++ ops else n.log
  changes : n'.changes = if ops = [] then n.changes else n.changes ++ [.ops ops]
  wins : ∀ op ∈ ops, n'.db.Winner op

theorem numbered_seqs (n : CRDTNode) (ops : List Op) :
    (n.numbered ops).map Op.seq = List.range' (n.seq + 1) (n.numbered ops).length := by
  refine List.ext_getElem ?_ ?_
  · simp
  · intro i _ _
    simp [numbered]

theorem Drafting.numbered (h : Drafting n m) (ops : List Op) : m.numbered ops = n.numbered ops := by
  simp only [CRDTNode.numbered, shardOf, h.shards, h.seq]

/-- A batch that the store accepts as a whole is committed. -/
theorem commitLocalOps_accepted (hn : Drafting n m) (ops : List Op) {s : Store}
    (happly : m.db.applyOps (n.numbered ops) = (s, .ok (n.numbered ops)))
    (hnames : ∀ op ∈ n.numbered ops, isOp op = true)
    (hwins : ∀ op ∈ n.numbered ops, s.Winner op) :
    ∃ n', m.commitLocalOps ops = (n', .ok ⟨n.numbered ops, n.numbered ops⟩) ∧
      Commits n n' (n.numbered ops) := by
  have hfilter : (n.numbered ops).filter isOp = n.numbered ops := List.filter_eq_self.mpr hnames
  have hlength : (n.numbered ops).length = ops.length := by simp [CRDTNode.numbered]
  refine ⟨notifyOps { m.withLogged ops with db := s } (n.numbered ops), ?_, ?_⟩
  · have hresult : (m.withLogged ops).applyOps (m.numbered ops) = (s, .ok (n.numbered ops)) := by
      rw [applyOps, hn.numbered, hfilter]
      exact happly
    rw [commitLocalOps, logOps_eq]
    dsimp only
    rw [hresult, hn.numbered]
  · have hseqs := numbered_seqs n ops
    rw [notifyOps]
    split_ifs with hempty
    · have hops : ops = [] := List.length_eq_zero_iff.mp (by rw [← hlength, hempty]; rfl)
      subst hops
      exact {
        seq := hn.seq
        seqs := hseqs
        log := by
          rw [hempty, List.append_nil, ite_self]
          calc ({ m.withLogged [] with db := s } : CRDTNode).log = m.log := by
                simp [withLogged, CRDTNode.numbered]
            _ = n.log := hn.log
        changes := by rw [if_pos hempty]; exact hn.changes
        wins := hwins }
    · exact {
        seq := by rw [hlength]; exact congrArg (· + ops.length) hn.seq
        seqs := hseqs
        log := by
          change (if m.operationLog then m.log ++ m.numbered ops else m.log) = _
          rw [hn.operationLog, hn.log, hn.numbered]
        changes := by
          rw [if_neg hempty]
          exact congrArg (· ++ [Change.ops (n.numbered ops)]) hn.changes
        wins := hwins }

/-! ## Local writes commit -/

theorem newerThanHeld_of_clock {c : Collection} {bound : Nat}
    (h : c.Stamped fun t => t.c ≤ bound) {op : Op} (hop : bound < op.ts.c) :
    c.NewerThanHeld op.row := by
  intro m hm
  have hlt : ∀ t : Ts, t.c ≤ bound → t < op.ts := fun t ht =>
    (Ts.lt_iff t op.ts).mpr (.inl (ht.trans_lt hop))
  exact ⟨fun {d} hd => hlt d ((h _ m hm).deleted d hd), fun {t} ht => hlt t ((h _ m hm).ts t ht)⟩

theorem isOp_of_plain (hnames : Store.PlainNames db coll) {op : Op} (hdb : op.db = db)
    (hcoll : op.coll = coll) (hid : op.id ≠ []) : isOp op = true := by
  rw [isOp, hdb, hcoll]
  simp [hnames.db_ne, hnames.coll_ne, hid]

theorem numbered_id_ne {ops : List Op} {ids : List JsString} (hids : ops.map Op.id = ids)
    (hne : ∀ id ∈ ids, id ≠ []) : ∀ op ∈ n.numbered ops, op.id ≠ [] := by
  intro op hop
  refine hne op.id ?_
  rw [← hids, ← numbered_ids (n := n) ops]
  exact List.mem_map_of_mem hop

theorem drafted_ids {items : List (JsString × Fields)} {ops : List Op}
    (h : List.Forall₂ (Drafted n db coll) items ops) : ops.map Op.id = items.map Prod.fst := by
  induction h with
  | nil => rfl
  | cons hop _ ih => rw [List.map_cons, List.map_cons, hop.id_eq, ih]

theorem drafted_of_mem {items : List (JsString × Fields)} {ops : List Op}
    (h : List.Forall₂ (Drafted n db coll) items ops) {op : Op} (hop : op ∈ ops) :
    ∃ item, Drafted n db coll item op := by
  induction h with
  | nil => cases hop
  | cons hdrafted _ ih =>
      rcases List.mem_cons.mp hop with rfl | hop
      · exact ⟨_, hdrafted⟩
      · exact ih hop

theorem puts_commit (hbounded : Bounded n) (hnames : Store.PlainNames db coll)
    (hn : Drafting n m) {c : Collection} (hcollection : n.db.collection db coll = .ok c)
    {items : List (JsString × Fields)} {ops : List Op}
    (hops : List.Forall₂ (Drafted n db coll) items ops) (hgood : GoodIds (items.map Prod.fst)) :
    ∃ n', m.commitLocalOps ops = (n', .ok ⟨n.numbered ops, n.numbered ops⟩) ∧
      Commits n n' (n.numbered ops) := by
  have hof : n.db.collectionOf db coll = c := (Store.collection_eq_ok.mp hcollection).2.2
  have hstamped : c.Stamped fun t => t.c ≤ n.clock.c := hof ▸ hbounded.collectionOf db coll
  have hids := drafted_ids hops
  have hdrafted : ∀ op ∈ n.numbered ops, ∃ item drafted shard seq, Drafted n db coll item drafted ∧
      op = { drafted with shard := shard, seq := seq } := by
    intro op hop
    rcases mem_numbered hop with ⟨drafted, hmem, shard, seq, rfl⟩
    rcases drafted_of_mem hops hmem with ⟨item, hitem⟩
    exact ⟨item, drafted, shard, seq, hitem, rfl⟩
  have hon : ∀ op ∈ n.numbered ops, op.db = db ∧ op.coll = coll := by
    intro op hop
    rcases hdrafted op hop with ⟨item, drafted, shard, seq, hitem, rfl⟩
    exact ⟨hitem.db_eq, hitem.coll_eq⟩
  rcases Store.applyOps_puts hnames ((hn.like.collection db coll).trans hcollection) hon
      (by
        intro op hop
        rcases hdrafted op hop with ⟨item, drafted, shard, seq, hitem, rfl⟩
        exact hitem.kind_ne)
      (by rw [numbered_ids, hids]; exact hgood.nodup)
      (by
        intro op hop
        rcases hdrafted op hop with ⟨item, drafted, shard, seq, hitem, rfl⟩
        exact newerThanHeld_of_clock hstamped hitem.newer)
      (by
        intro op hop
        rcases hdrafted op hop with ⟨item, drafted, shard, seq, hitem, rfl⟩
        exact hof ▸ hitem.vector) with ⟨s, happly, hwins⟩
  refine commitLocalOps_accepted hn _ happly ?_ hwins
  intro op hop
  exact isOp_of_plain hnames (hon op hop).1 (hon op hop).2 (numbered_id_ne hids hgood.ne op hop)

theorem deletes_commit (hbounded : Bounded n) (hghosts : n.db.NoGhosts)
    (hnames : Store.PlainNames db coll) (hn : Drafting n m) (hdb : m.db = n.db)
    {ids : List JsString} {ops : List Op}
    (hops : ∀ op ∈ ops, op.db = db ∧ op.coll = coll ∧ op.kind = .delObj ∧ n.clock.c < op.ts.c)
    (hids : ops.map Op.id = ids.filter fun id => has n.db db coll id) (hgood : GoodIds ids) :
    ∃ n', m.commitLocalOps ops = (n', .ok ⟨n.numbered ops, n.numbered ops⟩) ∧
      Commits n n' (n.numbered ops) := by
  have hnumbered : ∀ op ∈ n.numbered ops, op.db = db ∧ op.coll = coll ∧ op.kind = .delObj ∧
      n.clock.c < op.ts.c := by
    intro op hop
    rcases mem_numbered hop with ⟨drafted, hmem, shard, seq, rfl⟩
    exact hops drafted hmem
  have hne := numbered_id_ne (n := n) hids fun id hid => hgood.ne id (List.mem_of_mem_filter hid)
  have hall : ∀ op ∈ n.numbered ops, isOp op = true := fun op hop =>
    isOp_of_plain hnames (hnumbered op hop).1 (hnumbered op hop).2.1 (hne op hop)
  cases hfirst : ops with
  | nil =>
      exact commitLocalOps_accepted hn [] (s := m.db) rfl
        (fun _ hop => (nomatch hop)) (fun _ hop => (nomatch hop))
  | cons first rest =>
      -- an object is there, so its collection is not deleted
      have hthere : first.id ∈ ids.filter fun id => has n.db db coll id := by
        rw [← hids, hfirst]
        exact List.mem_cons_self
      have hhas := (List.mem_filter.mp hthere).2
      have hhere : (n.db.getCollection db coll).isSome := by
        rw [has] at hhas
        cases hget : n.db.getCollection db coll with
        | none => rw [hget] at hhas; cases hhas
        | some c => rfl
      have hwritable := hghosts db coll hnames.db_plain hnames.coll_plain hhere
      have hcollection : n.db.collection db coll = .ok (n.db.collectionOf db coll) :=
        Store.collection_eq_ok.mpr ⟨hwritable.1, hwritable.2, rfl⟩
      rw [← hfirst]
      rcases Store.applyOps_deletes (s := m.db) hnames (hdb ▸ hcollection)
          (fun op hop => ⟨(hnumbered op hop).1, (hnumbered op hop).2.1⟩)
          (fun op hop => (hnumbered op hop).2.2.1)
          (by rw [numbered_ids, hids]; exact hgood.nodup.filter _)
          (fun op hop => newerThanHeld_of_clock (hbounded.collectionOf db coll)
            (hnumbered op hop).2.2.2) with ⟨s, happly, hwins⟩
      exact commitLocalOps_accepted hn _ happly hall hwins

/-- A local write throws before anything but the clock and empty collections has changed, or
commits operations for its targets. -/
theorem LocalWrite.commits (hbounded : Bounded n) (hghosts : n.db.NoGhosts)
    (hnames : Store.PlainNames db coll) (w : LocalWrite) :
    (∃ n' err, w.apply n db coll = (n', .error err) ∧ Drafting n n') ∨
      ∃ n' ops ids, w.apply n db coll = (n', .ok ⟨ops, ops⟩) ∧ Commits n n' ops ∧
        w.ids = .ok ids ∧ ops.map Op.id = w.targets n.db db coll ids := by
  have houtcome := w.apply_outcome n db coll
  generalize w.apply n db coll = result at houtcome
  cases houtcome with
  | @thrown m err hdrafting => exact .inl ⟨m, err, rfl, hdrafting⟩
  | @puts m items ops hdrafting hcollection hops _ hput hids hgood =>
      rcases hcollection with ⟨c, hcollection⟩
      rcases puts_commit hbounded hnames hdrafting hcollection hops hgood with
        ⟨n', hcommit, hcommits⟩
      refine .inr ⟨n', _, _, hcommit, hcommits, hids, ?_⟩
      rw [numbered_ids, drafted_ids hops, hput]
  | @deletes m ids ops hdrafting hdb hops hdeleted hremove hids hgood =>
      rcases deletes_commit hbounded hghosts hnames hdrafting hdb
          (fun op hop => ⟨(hops op hop).1, (hops op hop).2.1, (hops op hop).2.2.1,
            (hops op hop).2.2.2.1⟩) hdeleted hgood with ⟨n', hcommit, hcommits⟩
      rcases hremove with ⟨raw, rfl⟩
      exact .inr ⟨n', _, ids, hcommit, hcommits, hids, by rw [numbered_ids]; exact hdeleted⟩

/-! ## Local writes win -/

/-- The operations of a write are for its targets, and all are applied and win their objects; a
write that throws has made none. -/
def WritesWin (n : CRDTNode) (db coll : JsString) (w : LocalWrite) : Prop :=
  match w.apply n db coll with
  | (n', .error _) => n'.seq = n.seq
  | (n', .ok committed) =>
      committed.applied = committed.ops ∧ (∀ op ∈ committed.ops, n'.db.Winner op) ∧
        ∃ ids, w.ids = .ok ids ∧ committed.ops.map Op.id = w.targets n.db db coll ids

theorem reachable (id : JsString) (clock : Clock) (operationLog : Bool) (shards : ShardNames)
    (vectorField : Option JsString) (compression : Option Compression) (events : List Event) :
    Bounded ((new id clock operationLog shards vectorField compression).runEvents events) ∧
      ((new id clock operationLog shards vectorField compression).runEvents events).db.NoGhosts :=
  ⟨runEvents_bounded
      (new_bounded id clock operationLog shards vectorField compression) events,
    runEvents_noGhosts
      (new_noGhosts id clock operationLog shards vectorField compression) events⟩

/-- A new node with the id `n` and no other configuration. -/
def plainNode : CRDTNode :=
  new (js "n") (makeClock (js "n")) true [] none none

/-- An insert of the object with the id `x`. -/
def insertX : LocalWrite :=
  .insert (fun _ => js "x") [none]

/-- Reads, vectors, the log and the listeners are as before. -/
structure Unchanged (n n' : CRDTNode) : Prop where
  reads : ∀ db coll id, n'.db.read db coll id = n.db.read db coll id
  vectors : ∀ db coll id, n'.db.getVector db coll id = n.db.getVector db coll id
  log : n'.log = n.log
  seq : n'.seq = n.seq
  changes : n'.changes = n.changes

theorem Drafting.unchanged (h : Drafting n n') : Unchanged n n' :=
  ⟨h.like.read, h.like.getVector, h.log, h.seq, h.changes⟩

/-- The ids that a write reports as skipped. -/
def LocalWrite.skipped (n : CRDTNode) (db coll : JsString) : LocalWrite → List JsString
  | .remove ids =>
      match (n.removeMany db coll ids).2 with
      | .ok (removed, _) => removed.skipped
      | .error _ => []
  | _ => []

/-- A write that throws changes nothing; one that returns has applied all its targets, as
operations that are logged in order and told to the listeners, and reports the other ids. -/
def Atomic (n : CRDTNode) (db coll : JsString) (w : LocalWrite) : Prop :=
  match w.apply n db coll with
  | (n', .error _) => Unchanged n n'
  | (n', .ok committed) =>
      committed.applied = committed.ops ∧ Commits n n' committed.ops ∧
        ∃ ids, w.ids = .ok ids ∧ committed.ops.map Op.id = w.targets n.db db coll ids ∧
          w.skipped n db coll = ids.filter fun id => id ∉ w.targets n.db db coll ids

theorem filter_notMem_self (ids : List JsString) : (ids.filter fun id => id ∉ ids) = [] :=
  List.filter_eq_nil_iff.mpr fun _ hid => by simpa using hid

theorem skipped_eq {n' : CRDTNode} {committed : Committed} {w : LocalWrite} {ids : List JsString}
    (hresult : w.apply n db coll = (n', .ok committed)) (hids : w.ids = .ok ids) :
    w.skipped n db coll = ids.filter fun id => id ∉ w.targets n.db db coll ids := by
  cases w with
  | remove raw =>
      rw [LocalWrite.apply] at hresult
      rw [LocalWrite.ids] at hids
      rw [LocalWrite.skipped, LocalWrite.targets]
      rw [removeMany, hids] at hresult ⊢
      dsimp only at hresult ⊢
      cases hcommit : commitLocalOps { n with clock := (removeOps n.db db coll n.clock ids).1 }
          (removeOps n.db db coll n.clock ids).2 with
      | mk m outcome =>
          rw [hcommit] at hresult
          cases outcome with
          | error err => cases hresult
          | ok done =>
              refine List.filter_congr fun id hid => ?_
              simp [List.mem_filter, hid]
  | insert => exact (filter_notMem_self ids).symm
  | replace => exact (filter_notMem_self ids).symm
  | update => exact (filter_notMem_self ids).symm

end CRDTNode
end ObjyDb
