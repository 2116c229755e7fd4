import ObjyDb.Persist.CatchUp
import ObjyDb.Persist.Histories

/-!
# Newer — what a node knows better than storage

A node that runs beside others on one storage may have changes that storage does not have yet.
`Watch` follows, through every run of the node and every storage call of the others, what was
created, described or dropped here after everything that storage says about it.  A catch-up should
leave all of it as it is.

- `Watch.run_inv`: what is followed is in memory, and storage stays regular
- `restoreScope_keepsNewer_iff`: when a catch-up leaves it as it is
-/

namespace ObjyDb
namespace Persist

open Js

/-! ## Regular calls -/

def StorageCall.Regular : StorageCall → Prop
  | .put key file => key.Plain ∧ Filed (key, file)
  | .putJournal scope _ ops =>
      scope.Plain ∧ ∀ op ∈ ops, op.db = scope.database ∧ op.coll = scope.collection
  | .delete _ => True
  | .deletePrefix _ => True

theorem Regular.sublist {s s' : Storage} (h : Regular s) (hs : s'.Sublist s) : Regular s' where
  nodup := h.nodup.sublist (hs.map Prod.fst)
  plain entry hentry := h.plain entry (hs.subset hentry)
  filed entry hentry := h.filed entry (hs.subset hentry)

theorem Regular.set {s : Storage} (h : Regular s) {key : StorageKey} {file : StorageFile}
    (hplain : key.Plain) (hfiled : Filed (key, file)) : Regular (Assoc.set s key file) where
  nodup := Assoc.nodup_keys_set _ _ h.nodup
  plain := by
    rintro ⟨k, f⟩ hentry
    rcases (Assoc.mem_set_iff h.nodup).mp hentry with ⟨rfl, rfl⟩ | ⟨-, hentry⟩
    · exact hplain
    · exact h.plain _ hentry
  filed := by
    rintro ⟨k, f⟩ hentry
    rcases (Assoc.mem_set_iff h.nodup).mp hentry with ⟨rfl, rfl⟩ | ⟨-, hentry⟩
    · exact hfiled
    · exact h.filed _ hentry

theorem Regular.apply {s : Storage} (h : Regular s) {call : StorageCall} (hcall : call.Regular) :
    Regular (call.apply s) := by
  cases call with
  | put key file => exact h.set hcall.1 hcall.2
  | putJournal scope node ops => exact h.set hcall.1 hcall.2
  | delete key => exact h.sublist List.filter_sublist
  | deletePrefix keys => exact h.sublist List.filter_sublist

theorem Regular.applyPartly {s : Storage} (h : Regular s) {call : StorageCall}
    (hcall : call.Regular) (reached : Bool) (survives : StorageKey → Bool) :
    Regular (call.applyPartly reached survives s) := by
  have happly := h.apply hcall
  cases call with
  | deletePrefix keys => exact h.sublist List.filter_sublist
  | put key file => cases reached <;> assumption
  | putJournal scope node ops => cases reached <;> assumption
  | delete key => cases reached <;> assumption

/-! ## Regular queues -/

/-- The operations of an entry belong to the scope of its key. -/
def FiledOps (entry : JsString × List Op) : Prop :=
  (parseScopeKey entry.1).Plain ∧ ∀ op ∈ entry.2,
    op.db = (parseScopeKey entry.1).database ∧ op.coll = (parseScopeKey entry.1).collection

structure Queues.Regular (q : Queues) : Prop where
  pending : ∀ entry ∈ q.pending, FiledOps entry
  drops : ∀ key ∈ q.pendingCollectionDrops, PlainKey key
  metas : ∀ entry ∈ q.pendingMeta, PlainKey entry.1

theorem PlainKey.plain_parse {key : JsString} (h : PlainKey key) :
    PlainName (parseCollectionKey key).1 ∧ PlainName (parseCollectionKey key).2 := by
  rcases h with ⟨d, c, hd, hc, rfl⟩
  rw [parseCollectionKey_collectionKey hd hc]
  exact ⟨hd, hc⟩

/-- The calls of a flush of regular queues are regular. -/
theorem Queues.Regular.calls {config : Config} {q : Queues} (h : q.Regular) :
    ∀ call ∈ flushCalls config q, call.Regular := by
  intro call hcall
  simp only [flushCalls, List.mem_append, List.mem_flatMap] at hcall
  rcases hcall with ⟨d, -, hcall⟩ | ⟨key, hkey, hcall⟩ | ⟨entry, -, hcall⟩ |
    ⟨entry, hentry, hcall⟩ | ⟨entry, hentry, hcall⟩
  · simp only [deleteDatabaseCalls, List.mem_cons, List.not_mem_nil, or_false] at hcall
    rcases hcall with rfl | rfl <;> simp [StorageCall.Regular, StorageKey.Plain, Filed]
  · have hplain := (h.drops key hkey).plain_parse
    simp only [deleteCollectionCalls, List.mem_cons, List.not_mem_nil, or_false] at hcall
    rcases hcall with rfl | rfl <;> simp [StorageCall.Regular, StorageKey.Plain, Filed, hplain]
  · simp only [writeDatabaseMetaCalls, List.mem_cons, List.not_mem_nil, or_false] at hcall
    rcases hcall with rfl | rfl <;> simp [StorageCall.Regular, StorageKey.Plain, Filed]
  · have hplain := (h.metas entry hentry).plain_parse
    simp only [writeCollectionMetaCalls, List.mem_cons, List.not_mem_nil, or_false] at hcall
    rcases hcall with rfl | rfl <;> simp [StorageCall.Regular, StorageKey.Plain, Filed, hplain]
  · rcases h.pending entry hentry with ⟨hplain, hops⟩
    rcases List.mem_map.mp hcall with ⟨chunk, hchunk, rfl⟩
    refine ⟨hplain, fun op hop => hops op ?_⟩
    rw [← flatten_chunkOpsForRecord config.opBytes config.journalMaxBytes config.opBatchSize
      entry.2]
    exact List.mem_flatten.mpr ⟨chunk, hchunk, hop⟩

theorem regular_queueDatabase {q : Queues} (h : q.Regular) (d : JsString) (b : Json) :
    (q.queueDatabase d b).Regular := by
  unfold Queues.queueDatabase
  split_ifs
  · exact h
  · exact ⟨h.pending, h.drops, h.metas⟩

theorem regular_queueDatabaseDrop {q : Queues} (h : q.Regular) (d : JsString) :
    (q.queueDatabaseDrop d).Regular := by
  unfold Queues.queueDatabaseDrop
  split_ifs
  · exact h
  · exact
      { pending := fun entry hentry => h.pending entry (List.mem_of_mem_filter hentry)
        drops := fun key hkey => h.drops key (List.mem_of_mem_filter hkey)
        metas := fun entry hentry => h.metas entry (List.mem_of_mem_filter hentry) }

/-- An entry of a map after one of its keys was set. -/
theorem forall_mem_set {β : Type*} {P : JsString × β → Prop} {entries : List (JsString × β)}
    {key : JsString} {value : β} (hvalue : P (key, value)) (h : ∀ entry ∈ entries, P entry) :
    ∀ entry ∈ Assoc.set entries key value, P entry := by
  induction entries with
  | nil =>
      intro entry hentry
      rw [List.mem_singleton.mp hentry]
      exact hvalue
  | cons held entries ih =>
      rcases List.forall_mem_cons.mp h with ⟨hheld, hrest⟩
      rcases held with ⟨k, v⟩
      unfold Assoc.set
      split_ifs with hkey
      · exact List.forall_mem_cons.mpr ⟨hkey ▸ hvalue, hrest⟩
      · exact List.forall_mem_cons.mpr ⟨hheld, ih hrest⟩

theorem regular_queueMeta {q : Queues} (h : q.Regular) {d c : JsString} (hd : PlainName d)
    (hc : PlainName c) (b : Json) : (q.queueMeta d c b).Regular := by
  unfold Queues.queueMeta
  split_ifs
  · exact h
  · exact ⟨h.pending, h.drops, forall_mem_set ⟨d, c, hd, hc, rfl⟩ h.metas⟩

theorem regular_queueCollectionDrop {q : Queues} (h : q.Regular) {d c : JsString}
    (hd : PlainName d) (hc : PlainName c) : (q.queueCollectionDrop d c).Regular := by
  unfold Queues.queueCollectionDrop
  split_ifs
  · exact h
  · refine
      { pending := fun entry hentry => h.pending entry (List.mem_of_mem_filter hentry)
        drops := fun key hkey => ?_
        metas := fun entry hentry => h.metas entry (List.mem_of_mem_filter hentry) }
    rcases mem_setAdd.mp hkey with hkey | rfl
    · exact h.drops key hkey
    · exact ⟨d, c, hd, hc, rfl⟩

theorem filedOps_opsAt {q : Queues} (h : q.Regular) {key : JsString}
    (hkey : (parseScopeKey key).Plain) : FiledOps (key, q.opsAt key) := by
  unfold Queues.opsAt
  cases hget : Assoc.get? q.pending key with
  | none => exact ⟨hkey, nofun⟩
  | some ops => exact h.pending _ (Assoc.mem_of_get?_eq_some hget)

theorem regular_queueOp {q : Queues} (h : q.Regular) {op : Op} (hop : PlainOp op) :
    (q.queueOp op).Regular := by
  unfold Queues.queueOp
  split_ifs
  · have hparse := parseScopeKey_scopeKey hop.scope
    refine ⟨forall_mem_set ⟨by rw [hparse]; exact hop.scope, fun r hr => ?_⟩ h.pending, h.drops,
      h.metas⟩
    rcases List.mem_append.mp hr with hr | hr
    · exact (filedOps_opsAt h (by rw [hparse]; exact hop.scope)).2 r hr
    · rw [List.mem_singleton.mp hr, hparse]
      exact ⟨rfl, rfl⟩
  · exact h

theorem regular_requeueBatches {pending batches : List (JsString × List Op)}
    (h : ∀ entry ∈ pending, FiledOps entry) (hb : ∀ entry ∈ batches, FiledOps entry) :
    ∀ entry ∈ Queues.requeueBatches pending batches, FiledOps entry := by
  unfold Queues.requeueBatches
  induction batches generalizing pending with
  | nil => exact h
  | cons batch batches ih =>
      rcases List.forall_mem_cons.mp hb with ⟨hbatch, hrest⟩
      refine ih (forall_mem_set ⟨hbatch.1, fun op hop => ?_⟩ h) hrest
      rcases List.mem_append.mp hop with hop | hop
      · exact hbatch.2 op hop
      · cases hget : Assoc.get? pending batch.1 with
        | none =>
            rw [hget] at hop
            cases hop
        | some ops =>
            rw [hget] at hop
            exact (h _ (Assoc.mem_of_get?_eq_some hget)).2 op hop

theorem regular_requeueMissing {queued batch : List (JsString × Json)}
    (h : ∀ entry ∈ queued, PlainKey entry.1) (hb : ∀ entry ∈ batch, PlainKey entry.1) :
    ∀ entry ∈ Queues.requeueMissing queued batch, PlainKey entry.1 := by
  unfold Queues.requeueMissing
  induction batch generalizing queued with
  | nil => exact h
  | cons entry batch ih =>
      rcases List.forall_mem_cons.mp hb with ⟨hentry, hrest⟩
      rw [List.foldl_cons]
      split_ifs
      · exact ih h hrest
      · exact ih (@forall_mem_set _ (fun e => PlainKey e.1) _ _ _ hentry h) hrest

theorem regular_requeue {q b : Queues} (h : q.Regular) (hb : b.Regular) :
    (q.requeue b).Regular where
  pending := regular_requeueBatches h.pending hb.pending
  drops key hkey := by
    rcases (mem_requeueDrops _ _ key).mp hkey with hkey | hkey
    · exact h.drops key hkey
    · exact hb.drops key hkey
  metas := regular_requeueMissing h.metas hb.metas

/-- The queues are regular, and so is what the flush in flight writes. -/
structure Flusher.Regular (f : Flusher) : Prop where
  queues : f.queues.Regular
  batch : ∀ task, f.flushing = some task → task.batch.Regular
  calls : ∀ task, f.flushing = some task → ∀ call ∈ task.calls, call.Regular

theorem Flusher.Regular.queue {f : Flusher} (h : f.Regular) {q : Queues} (hq : q.Regular) :
    Flusher.Regular { f with queues := q } :=
  ⟨hq, h.batch, h.calls⟩

theorem Flusher.Regular.flush {config : Config} {f : Flusher} (h : f.Regular) :
    (f.flush config).Regular := by
  unfold Flusher.flush
  split_ifs
  · exact h
  · refine ⟨⟨nofun, nofun, nofun⟩, ?_, ?_⟩ <;> rintro task ⟨⟩
    · exact h.queues
    · exact h.queues.calls

theorem Flusher.Regular.queueOps {config : Config} {f : Flusher} (h : f.Regular) {ops : List Op}
    (hops : ∀ op ∈ ops, PlainOp op) : (f.queueOps config ops).Regular := by
  refine List.foldlRecOn ops _ h fun f hf op hop => ?_
  have hqueued := hf.queue (regular_queueOp hf.queues (hops op hop))
  unfold Flusher.queueOp
  dsimp only
  split_ifs
  · exact hqueued.flush
  · exact hqueued

theorem mem_of_mem_applied {m : Memory} {ops : List Op} {op : Op} (h : op ∈ (m.applyOps ops).2) :
    op ∈ ops := by
  induction ops generalizing m with
  | nil => cases h
  | cons first ops ih =>
      simp only [Memory.applyOps] at h
      split_ifs at h
      · rcases List.mem_cons.mp h with rfl | h
        · exact List.mem_cons_self
        · exact List.mem_cons_of_mem _ (ih h)
      · exact List.mem_cons_of_mem _ (ih h)

/-! ## Following a node -/

/-- A node, and what was changed here after everything that storage says about it. -/
structure Watch where
  node : Node
  /-- Created here, and since then removed neither here nor elsewhere. -/
  databases : List JsString
  collections : List (JsString × JsString)
  /-- Described here, and since then neither elsewhere nor removed. -/
  metas : List (JsString × JsString)
  /-- Removed here, and since then created neither here nor elsewhere. -/
  droppedDatabases : List JsString
  droppedCollections : List (JsString × JsString)

inductive Happening
  | here (e : Event)
  /-- A storage call of another node, or of a checkpoint. -/
  | elsewhere (call : StorageCall)

namespace Watch

def start : Watch := ⟨.start, [], [], [], [], []⟩

/-- The list without what is about the database. -/
def withoutDatabase (d : JsString) (targets : List (JsString × JsString)) :
    List (JsString × JsString) :=
  targets.filter fun target => decide (target.1 ≠ d)

def without (d c : JsString) (targets : List (JsString × JsString)) : List (JsString × JsString) :=
  targets.filter fun target => decide (target ≠ (d, c))

/-- A database that a collection of it opens. -/
def openedDatabases (w : Watch) (d : JsString) : List JsString :=
  if (w.node.memory.getDatabaseMeta d).isNone then d :: w.databases else w.databases

/-- An event here leads to the node `n`. -/
def after (w : Watch) (n : Node) : Event → Watch
  | .createDatabase d _ =>
      { w with
        node := n
        databases := d :: w.databases
        droppedDatabases := w.droppedDatabases.filter fun database => decide (database ≠ d) }
  | .removeDatabase d =>
      { w with
        node := n
        databases := w.databases.filter fun database => decide (database ≠ d)
        collections := withoutDatabase d w.collections
        metas := withoutDatabase d w.metas
        droppedDatabases := d :: w.droppedDatabases }
  | .setCollectionMeta d c _ =>
      if w.node.memory.isDatabaseDeleted d then
        -- the error comes after the tombstone of the collection was taken
        { w with node := n, droppedCollections := without d c w.droppedCollections }
      else
        { w with
          node := n
          databases := w.openedDatabases d
          collections := (d, c) :: w.collections
          metas := (d, c) :: w.metas
          droppedCollections := without d c w.droppedCollections }
  | .removeCollection d c =>
      { w with
        node := n
        collections := without d c w.collections
        metas := without d c w.metas
        droppedCollections := (d, c) :: w.droppedCollections }
  | .openCollection d c =>
      if w.node.memory.isDatabaseDeleted d || w.node.memory.isCollectionDeleted d c then
        { w with node := n }
      else
        { w with
          node := n
          databases := w.openedDatabases d
          collections :=
            if (w.node.memory.getCollection d c).isNone then (d, c) :: w.collections
            else w.collections }
  | _ => { w with node := n }

/-- Another node's call: what it says about a database or a collection is newer from now on. -/
def hears (w : Watch) (call : StorageCall) : Watch :=
  let w := { w with node := { w.node with storage := call.apply w.node.storage } }
  match call with
  | .put (.databaseTombstone d) _ =>
      { w with
        databases := w.databases.filter fun database => decide (database ≠ d)
        collections := withoutDatabase d w.collections
        metas := withoutDatabase d w.metas }
  | .put (.collectionTombstone d c) _ =>
      { w with collections := without d c w.collections, metas := without d c w.metas }
  | .put (.databaseMeta d) _ =>
      { w with
        droppedDatabases := w.droppedDatabases.filter fun database => decide (database ≠ d) }
  | .put (.collectionMeta d c) _ =>
      { w with metas := without d c w.metas, droppedCollections := without d c w.droppedCollections }
  | _ => w

def step (config : Config) (w : Watch) : Happening → Option Watch
  | .here e => (w.node.step config e).map fun n => w.after n e
  | .elsewhere call => some (w.hears call)

def run (config : Config) (w : Watch) (happenings : List Happening) : Option Watch :=
  happenings.foldlM (step config) w

end Watch

/-- The names of the event are plain. -/
def Event.Plain : Event → Prop
  | .createDatabase d _ => PlainName d
  | .removeDatabase d => PlainName d
  | .setCollectionMeta d c _ => PlainName d ∧ PlainName c
  | .removeCollection d c => PlainName d ∧ PlainName c
  | .openCollection d c => PlainName d ∧ PlainName c
  | .applyOps ops => ∀ op ∈ ops, PlainOp op
  | _ => True

def Happening.Plain : Happening → Prop
  | .here e => e.Plain
  | .elsewhere call => call.Regular

/-! ## What is followed is there -/

namespace Watch

structure Inv (w : Watch) : Prop where
  tidy : w.node.memory.Tidy
  flusher : w.node.flusher.Regular
  storage : Regular w.node.storage
  databases : ∀ d ∈ w.databases, (w.node.memory.getDatabaseMeta d).isSome = true
  collections : ∀ d c, (d, c) ∈ w.collections → (w.node.memory.getCollection d c).isSome = true
  metas : ∀ d c, (d, c) ∈ w.metas → (w.node.memory.getCollection d c).isSome = true
  droppedDatabases : ∀ d ∈ w.droppedDatabases, w.node.memory.isDatabaseDeleted d = true
  droppedCollections : ∀ d c, (d, c) ∈ w.droppedCollections →
    PlainName d ∧ w.node.memory.isCollectionDeleted d c = true

theorem inv_start : start.Inv where
  tidy := ⟨nofun, nofun, nofun, nofun⟩
  flusher := ⟨⟨nofun, nofun, nofun⟩, nofun, nofun⟩
  storage := ⟨List.nodup_nil, nofun, nofun⟩
  databases := nofun
  collections _ _ := nofun
  metas _ _ := nofun
  droppedDatabases := nofun
  droppedCollections _ _ := nofun

section

variable {w : Watch}

theorem mem_withoutDatabase {d : JsString} {targets : List (JsString × JsString)}
    {target : JsString × JsString} :
    target ∈ withoutDatabase d targets ↔ target ∈ targets ∧ target.1 ≠ d := by
  simp [withoutDatabase]

theorem mem_without {d c : JsString} {targets : List (JsString × JsString)}
    {target : JsString × JsString} :
    target ∈ without d c targets ↔ target ∈ targets ∧ target ≠ (d, c) := by
  simp [without]

/-- Another node's call touches no memory. -/
theorem Inv.hears (h : w.Inv) {call : StorageCall} (hcall : call.Regular) : (w.hears call).Inv := by
  have hbase : Inv { w with node := { w.node with storage := call.apply w.node.storage } } :=
    ⟨h.tidy, h.flusher, h.storage.apply hcall, h.databases, h.collections, h.metas,
      h.droppedDatabases, h.droppedCollections⟩
  unfold Watch.hears
  dsimp only
  split
  · exact
      { hbase with
        databases := fun d hd => h.databases d (List.mem_of_mem_filter hd)
        collections := fun d c hc => h.collections d c (mem_withoutDatabase.mp hc).1
        metas := fun d c hc => h.metas d c (mem_withoutDatabase.mp hc).1 }
  · exact
      { hbase with
        collections := fun d c hc => h.collections d c (mem_without.mp hc).1
        metas := fun d c hc => h.metas d c (mem_without.mp hc).1 }
  · exact
      { hbase with
        droppedDatabases := fun d hd => h.droppedDatabases d (List.mem_of_mem_filter hd) }
  · exact
      { hbase with
        metas := fun d c hc => h.metas d c (mem_without.mp hc).1
        droppedCollections := fun d c hc => h.droppedCollections d c (mem_without.mp hc).1 }
  · exact hbase

/-- A collection is set: everything that was there still is. -/
theorem getDatabaseMeta_setCollection_isSome {m : Memory} {d c : JsString} {x : HeldCollection}
    {d' : JsString} (h : (m.getDatabaseMeta d').isSome = true) :
    ((m.setCollection d c x).getDatabaseMeta d').isSome = true := by
  rw [Memory.getDatabaseMeta_setCollection]
  split_ifs
  · rfl
  · exact h

theorem getCollection_setCollection_isSome {m : Memory} {d c : JsString} {x : HeldCollection}
    {d' c' : JsString} (h : (m.getCollection d' c').isSome = true) :
    ((m.setCollection d c x).getCollection d' c').isSome = true := by
  rw [Memory.getCollection_setCollection]
  split_ifs
  · rfl
  · exact h

theorem Inv.createDatabase (h : w.Inv) {d : JsString} (b : Json) :
    (w.after (w.node.createDatabase d b) (.createDatabase d b)).Inv where
  tidy := tidy_setDatabaseMeta h.tidy d b
  flusher := h.flusher.queue (regular_queueDatabase h.flusher.queues d b)
  storage := h.storage
  databases d' hd' := by
    show ((w.node.memory.setDatabaseMeta d b).getDatabaseMeta d').isSome = true
    rw [Memory.getDatabaseMeta_setDatabaseMeta]
    split_ifs with hd
    · rfl
    · exact h.databases d' ((List.mem_cons.mp hd').resolve_left (Ne.symm hd))
  collections d' c hc :=
    (congrArg Option.isSome (Memory.getCollection_setDatabaseMeta _ d b d' c)).trans
      (h.collections d' c hc)
  metas d' c hc :=
    (congrArg Option.isSome (Memory.getCollection_setDatabaseMeta _ d b d' c)).trans
      (h.metas d' c hc)
  droppedDatabases d' hd' := by
    rcases List.mem_filter.mp hd' with ⟨hmem, hne⟩
    exact (Memory.isDatabaseDeleted_setDatabaseMeta _ d b d').mpr
      ⟨h.droppedDatabases d' hmem, of_decide_eq_true hne⟩
  droppedCollections := h.droppedCollections

theorem Inv.removeDatabase (h : w.Inv) (d : JsString) :
    (w.after (w.node.removeDatabase d) (.removeDatabase d)).Inv := by
  have hmemory : (w.node.removeDatabase d).memory = (w.node.memory.deleteDatabase d).1 := by
    unfold Node.removeDatabase
    dsimp only
    split_ifs <;> rfl
  have hthere : ∀ d' c, (w.node.memory.getCollection d' c).isSome = true → d' ≠ d →
      ((w.node.memory.deleteDatabase d).1.getCollection d' c).isSome = true := by
    intro d' c hsome hne
    rw [Memory.getCollection_deleteDatabase, if_neg hne.symm]
    exact hsome
  have hflusher : (w.node.removeDatabase d).flusher.Regular := by
    unfold Node.removeDatabase
    dsimp only
    split_ifs
    · exact h.flusher.queue (regular_queueDatabaseDrop h.flusher.queues d)
    · exact h.flusher
  have hstorage : (w.node.removeDatabase d).storage = w.node.storage := by
    unfold Node.removeDatabase
    dsimp only
    split_ifs <;> rfl
  refine ⟨?_, hflusher, hstorage ▸ h.storage, fun d' hd' => ?_, fun d' c hc => ?_,
    fun d' c hc => ?_, fun d' hd' => ?_, fun d' c hc => ?_⟩ <;>
    simp only [Watch.after, hmemory] at *
  · exact tidy_deleteDatabase h.tidy d
  · rcases List.mem_filter.mp hd' with ⟨hmem, hne⟩
    rw [Memory.getDatabaseMeta_deleteDatabase, if_neg (Ne.symm (of_decide_eq_true hne))]
    exact h.databases d' hmem
  · rcases mem_withoutDatabase.mp hc with ⟨hmem, hne⟩
    exact hthere d' c (h.collections d' c hmem) hne
  · rcases mem_withoutDatabase.mp hc with ⟨hmem, hne⟩
    exact hthere d' c (h.metas d' c hmem) hne
  · refine (Memory.isDatabaseDeleted_deleteDatabase _ d d').mpr ?_
    rcases List.mem_cons.mp hd' with rfl | hmem
    · exact Or.inr rfl
    · exact Or.inl (h.droppedDatabases d' hmem)
  · exact h.droppedCollections d' c hc

theorem Inv.removeCollection (h : w.Inv) {d c : JsString} (hd : PlainName d) (hc : PlainName c) :
    (w.after (w.node.removeCollection d c) (.removeCollection d c)).Inv := by
  have hmemory : (w.node.removeCollection d c).memory =
      (w.node.memory.deleteCollection d c).1 := by
    unfold Node.removeCollection
    dsimp only
    split_ifs <;> rfl
  have hthere : ∀ d' c', (w.node.memory.getCollection d' c').isSome = true → (d', c') ≠ (d, c) →
      ((w.node.memory.deleteCollection d c).1.getCollection d' c').isSome = true := by
    intro d' c' hsome hne
    rw [Memory.getCollection_deleteCollection, if_neg]
    · exact hsome
    · rintro ⟨rfl, rfl⟩
      exact hne rfl
  have hflusher : (w.node.removeCollection d c).flusher.Regular := by
    unfold Node.removeCollection
    dsimp only
    split_ifs
    · exact h.flusher.queue (regular_queueCollectionDrop h.flusher.queues hd hc)
    · exact h.flusher
  have hstorage : (w.node.removeCollection d c).storage = w.node.storage := by
    unfold Node.removeCollection
    dsimp only
    split_ifs <;> rfl
  refine ⟨?_, hflusher, hstorage ▸ h.storage, fun d' hd' => ?_, fun d' c' hc' => ?_,
    fun d' c' hc' => ?_, fun d' hd' => ?_, fun d' c' hc' => ?_⟩ <;>
    simp only [Watch.after, hmemory] at *
  · exact tidy_deleteCollection h.tidy hd c
  · rw [Memory.getDatabaseMeta_deleteCollection]
    exact h.databases d' hd'
  · rcases mem_without.mp hc' with ⟨hmem, hne⟩
    exact hthere d' c' (h.collections d' c' hmem) hne
  · rcases mem_without.mp hc' with ⟨hmem, hne⟩
    exact hthere d' c' (h.metas d' c' hmem) hne
  · rw [Memory.isDatabaseDeleted_deleteCollection]
    exact h.droppedDatabases d' hd'
  · rw [Memory.isCollectionDeleted_deleteCollection]
    rcases List.mem_cons.mp hc' with heq | hmem
    · cases heq
      exact ⟨hd, Or.inr rfl⟩
    · exact ⟨(h.droppedCollections d' c' hmem).1, Or.inl (h.droppedCollections d' c' hmem).2⟩

/-- A revived collection is no longer among the dropped ones. -/
theorem Inv.dropped_revive (h : w.Inv) {d c : JsString} (hd : PlainName d) {d' c' : JsString}
    (hmem : (d', c') ∈ without d c w.droppedCollections) :
    PlainName d' ∧ (w.node.memory.revive d c).isCollectionDeleted d' c' = true := by
  rcases mem_without.mp hmem with ⟨hmem, hne⟩
  rcases h.droppedCollections d' c' hmem with ⟨hplain, hdeleted⟩
  refine ⟨hplain, (isCollectionDeleted_revive _ d c d' c').mpr ⟨hdeleted, fun hkey => hne ?_⟩⟩
  rcases storeCollectionKey_inj hplain hd hkey with ⟨rfl, rfl⟩
  rfl

theorem Inv.openedDatabases (h : w.Inv) {m : Memory} {d c : JsString} {x : HeldCollection}
    (hm : ∀ d', m.getDatabaseMeta d' = w.node.memory.getDatabaseMeta d') {d' : JsString}
    (hmem : d' ∈ w.openedDatabases d) :
    ((m.setCollection d c x).getDatabaseMeta d').isSome = true := by
  unfold Watch.openedDatabases at hmem
  split_ifs at hmem
  · rcases List.mem_cons.mp hmem with rfl | hmem
    · rw [Memory.getDatabaseMeta_setCollection, if_pos rfl]
      rfl
    · exact getDatabaseMeta_setCollection_isSome (by rw [hm]; exact h.databases d' hmem)
  · exact getDatabaseMeta_setCollection_isSome (by rw [hm]; exact h.databases d' hmem)

theorem Inv.setCollectionMeta (h : w.Inv) {d c : JsString} (hd : PlainName d) (hc : PlainName c)
    (b : Json) : (w.after (w.node.setCollectionMeta d c b) (.setCollectionMeta d c b)).Inv := by
  by_cases hdeleted : w.node.memory.isDatabaseDeleted d = true
  · have hnode : w.node.setCollectionMeta d c b =
        { w.node with memory := w.node.memory.revive d c } := by
      rw [Node.setCollectionMeta, Memory.setCollectionMeta_deleted hdeleted]
    rw [hnode, Watch.after, if_pos hdeleted]
    exact ⟨tidy_revive h.tidy d c, h.flusher, h.storage, h.databases, h.collections, h.metas,
      h.droppedDatabases, fun _ _ hmem => h.dropped_revive hd hmem⟩
  · rw [Bool.not_eq_true] at hdeleted
    have hrevived : (w.node.memory.revive d c).isCollectionDeleted d c = false :=
      Bool.eq_false_iff.mpr fun hdropped => ((isCollectionDeleted_revive _ d c d c).mp hdropped).2 rfl
    have hnode : w.node.setCollectionMeta d c b =
        Node.queue { w.node with memory := ((w.node.memory.revive d c).setCollection d c
            { (w.node.memory.revive d c).collectionOf d c with collectionMeta := b }) }
          (·.queueMeta d c b) := by
      rw [Node.setCollectionMeta, Memory.setCollectionMeta_live hdeleted]
    have hcreated : ∀ d' c' x, (d', c') = (d, c) ∨
        (w.node.memory.getCollection d' c').isSome = true →
        (((w.node.memory.revive d c).setCollection d c x).getCollection d' c').isSome = true := by
      rintro d' c' x (heq | hsome)
      · cases heq
        rw [Memory.getCollection_setCollection, if_pos ⟨rfl, rfl⟩]
        rfl
      · exact getCollection_setCollection_isSome hsome
    rw [hnode, Watch.after, if_neg (Bool.eq_false_iff.mp hdeleted)]
    exact
      { tidy := tidy_setCollection (tidy_revive h.tidy d c) hd hc hdeleted hrevived _
        flusher := h.flusher.queue (regular_queueMeta h.flusher.queues hd hc b)
        storage := h.storage
        databases := fun d' hmem => h.openedDatabases (fun _ => rfl) hmem
        collections := fun d' c' hmem => hcreated d' c' _
          ((List.mem_cons.mp hmem).imp_right (h.collections d' c'))
        metas := fun d' c' hmem => hcreated d' c' _
          ((List.mem_cons.mp hmem).imp_right (h.metas d' c'))
        droppedDatabases := h.droppedDatabases
        droppedCollections := fun _ _ hmem => h.dropped_revive hd hmem }

theorem Inv.openCollection (h : w.Inv) {d c : JsString} (hd : PlainName d) (hc : PlainName c) :
    (w.after (w.node.openCollection d c) (.openCollection d c)).Inv := by
  rw [Node.openCollection, Watch.after]
  by_cases hdeleted :
      (w.node.memory.isDatabaseDeleted d || w.node.memory.isCollectionDeleted d c) = true
  · rw [if_pos hdeleted, if_pos hdeleted]
    exact h
  · rw [if_neg hdeleted, if_neg hdeleted]
    rw [Bool.or_eq_true, not_or, Bool.not_eq_true, Bool.not_eq_true] at hdeleted
    exact
      { tidy := tidy_setCollection h.tidy hd hc hdeleted.1 hdeleted.2 _
        flusher := h.flusher
        storage := h.storage
        databases := fun d' hmem => h.openedDatabases (fun _ => rfl) hmem
        collections := fun d' c' hmem => by
          dsimp only at hmem ⊢
          split_ifs at hmem
          · rcases List.mem_cons.mp hmem with heq | hmem
            · cases heq
              rw [Memory.getCollection_setCollection, if_pos ⟨rfl, rfl⟩]
              rfl
            · exact getCollection_setCollection_isSome (h.collections d' c' hmem)
          · exact getCollection_setCollection_isSome (h.collections d' c' hmem)
        metas := fun d' c' hmem => getCollection_setCollection_isSome (h.metas d' c' hmem)
        droppedDatabases := h.droppedDatabases
        droppedCollections := h.droppedCollections }

/-- Operations open collections and close none. -/
theorem applyOps_isSome {m : Memory} {ops : List Op} :
    (∀ d, (m.getDatabaseMeta d).isSome = true →
      ((m.applyOps ops).1.getDatabaseMeta d).isSome = true) ∧
      ∀ d c, (m.getCollection d c).isSome = true →
        ((m.applyOps ops).1.getCollection d c).isSome = true := by
  constructor
  · intro d hsome
    rcases Option.isSome_iff_exists.mp hsome with ⟨b, hb⟩
    rw [(getDatabaseMeta_applyOps m).mpr (Or.inl hb)]
    rfl
  · intro d c hsome
    rcases Option.isSome_iff_exists.mp (isSome_iff_meta.mpr hsome) with ⟨b, hb⟩
    rw [← isSome_iff_meta, (getCollectionMeta_applyOps m).mpr (Or.inl hb)]
    rfl

theorem Inv.applyOps (h : w.Inv) {config : Config} {ops : List Op}
    (hops : ∀ op ∈ ops, PlainOp op) :
    (w.after (w.node.applyOps config ops) (.applyOps ops)).Inv where
  tidy := tidy_applyOps (fun op hop => ⟨(hops op hop).scope.database, (hops op hop).scope.collection⟩)
    h.tidy
  flusher := h.flusher.queueOps fun op hop => hops op (mem_of_mem_applied hop)
  storage := h.storage
  databases d hd := applyOps_isSome.1 d (h.databases d hd)
  collections d c hc := applyOps_isSome.2 d c (h.collections d c hc)
  metas d c hc := applyOps_isSome.2 d c (h.metas d c hc)
  droppedDatabases d hd := (isDatabaseDeleted_applyOps _ ops d).trans (h.droppedDatabases d hd)
  droppedCollections d c hc := by
    rcases h.droppedCollections d c hc with ⟨hplain, hdeleted⟩
    exact ⟨hplain, (isCollectionDeleted_applyOps _ ops d c).trans hdeleted⟩

/-- Storage and the flush in flight go on. -/
theorem Inv.flushes (h : w.Inv) {f : Flusher} {s : Storage} (hf : f.Regular) (hs : Regular s) :
    Inv { w with node := ⟨w.node.memory, f, s⟩ } :=
  ⟨h.tidy, hf, hs, h.databases, h.collections, h.metas, h.droppedDatabases, h.droppedCollections⟩

/-! ## Runs -/

theorem Inv.step (h : w.Inv) {config : Config} {x : Happening} (hx : x.Plain) {next : Watch}
    (hstep : w.step config x = some next) : next.Inv := by
  cases x with
  | elsewhere call =>
      cases hstep
      exact h.hears hx
  | here e =>
      rcases Option.map_eq_some_iff.mp hstep with ⟨n, hn, rfl⟩
      cases e with
      | createDatabase d b =>
          cases hn
          exact h.createDatabase b
      | removeDatabase d =>
          cases hn
          exact h.removeDatabase d
      | setCollectionMeta d c b =>
          cases hn
          exact h.setCollectionMeta hx.1 hx.2 b
      | removeCollection d c =>
          cases hn
          exact h.removeCollection hx.1 hx.2
      | openCollection d c =>
          cases hn
          exact h.openCollection hx.1 hx.2
      | applyOps ops =>
          cases hn
          exact h.applyOps hx
      | flush =>
          cases hn
          exact h.flushes h.flusher.flush h.storage
      | storageCall =>
          rw [Node.step] at hn
          split at hn
          · rename_i batch call calls htask
            cases hn
            -- the first of the calls that are left is made
            have hcalls := h.flusher.calls _ htask
            refine h.flushes ⟨h.flusher.queues, ?_, ?_⟩
              (h.storage.apply (hcalls call List.mem_cons_self)) <;> rintro task ⟨⟩
            · exact h.flusher.batch ⟨batch, call :: calls⟩ htask
            · exact fun c hc => hcalls c (List.mem_cons_of_mem _ hc)
          · cases hn
      | storageFails reached survives =>
          rw [Node.step] at hn
          split at hn
          · rename_i batch call calls htask
            cases hn
            -- what was being flushed is queued again
            exact h.flushes
              ⟨regular_requeue h.flusher.queues (h.flusher.batch _ htask), by rintro _ ⟨⟩,
                by rintro _ ⟨⟩⟩
              (h.storage.applyPartly (h.flusher.calls _ htask call List.mem_cons_self) reached
                survives)
          · cases hn
      | flushEnds =>
          rw [Node.step] at hn
          split at hn
          · cases hn
            exact h.flushes ⟨h.flusher.queues, by rintro _ ⟨⟩, by rintro _ ⟨⟩⟩ h.storage
          · cases hn

theorem run_inv {config : Config} {happenings : List Happening} (h : w.Inv)
    (hplain : ∀ x ∈ happenings, x.Plain) {last : Watch}
    (hrun : w.run config happenings = some last) : last.Inv := by
  induction happenings generalizing w with
  | nil =>
      cases hrun
      exact h
  | cons x happenings ih =>
      rcases List.forall_mem_cons.mp hplain with ⟨hx, hrest⟩
      rcases Option.bind_eq_some_iff.mp hrun with ⟨next, hnext, hlast⟩
      exact ih (h.step hx hnext) hrest hlast

end

/-! ## What a catch-up should keep -/

end Watch

/-- The register holds the newest of the write it held and the writes that storage has. -/
def NewestAmong (held : Option Write) (stored : Write → Prop) : Option Write → Prop
  | none => held = none ∧ ∀ w, ¬stored w
  | some w =>
      (held = some w ∨ stored w) ∧ (∀ v, held = some v → v.ts ≤ w.ts) ∧ ∀ v, stored v → v.ts ≤ w.ts

/-- A stored write to the object, in a scope of the target: a row of the snapshot, or an operation
of a segment. -/
def StoredWrite (s : Storage) (target : Scope) (d c id : JsString) (w : Write) : Prop :=
  (∃ scope manifest, matchesRestoreTarget scope target = true ∧ scope.database = d ∧
    scope.collection = c ∧ latestManifest s scope = some manifest ∧ (id, w) ∈ manifest.rows) ∨
  ∃ scope node first last uuid ops op, matchesRestoreTarget scope target = true ∧
    Assoc.get? s (.journal scope node first last uuid) = some (.ops ops) ∧ op ∈ ops ∧
    op.isOn d c id = true ∧ op.write = w

/-- The collection is deleted neither in memory nor in storage. -/
structure Undropped (s : Storage) (m : Memory) (d c : JsString) : Prop where
  database : m.isDatabaseDeleted d = false
  collection : m.isCollectionDeleted d c = false
  storedDatabase : .databaseTombstone d ∉ Assoc.keys s
  storedCollection : .collectionTombstone d c ∉ Assoc.keys s

/-- A scope of the target whose database and collection have no tombstone in storage. -/
structure Caught (s : Storage) (target scope : Scope) : Prop where
  target : matchesRestoreTarget scope target = true
  database : .databaseTombstone scope.database ∉ Assoc.keys s
  collection : .collectionTombstone scope.database scope.collection ∉ Assoc.keys s

namespace Watch

/-- The catch-up of `target` that leads to the memory `r` has kept everything that is newer here
than in storage. -/
structure KeepsNewer (w : Watch) (target : Scope) (r : Memory) : Prop where
  objects : ∀ d c id, Undropped w.node.storage w.node.memory d c →
    NewestAmong (w.node.memory.row d c id) (StoredWrite w.node.storage target d c id)
      (r.row d c id)
  databases : ∀ d ∈ w.databases, (r.getDatabaseMeta d).isSome = true
  collections : ∀ d c, (d, c) ∈ w.collections → (r.getCollection d c).isSome = true ∧
    ∀ id v, w.node.memory.row d c id = some v → ∃ v', r.row d c id = some v' ∧ v.ts ≤ v'.ts
  metas : ∀ d c, (d, c) ∈ w.metas → ∀ b, r.getCollectionMeta d c = some b →
    w.node.memory.getCollectionMeta d c = some b
  droppedDatabases : ∀ d ∈ w.droppedDatabases, r.isDatabaseDeleted d = true
  droppedCollections : ∀ d c, (d, c) ∈ w.droppedCollections → r.isCollectionDeleted d c = true

/-- Storage says nothing against what is newer here, and the cursors of its snapshots cover only
operations that something else makes up for. -/
structure Unchallenged (w : Watch) (target : Scope) : Prop where
  databases : ∀ d ∈ w.databases, .databaseTombstone d ∉ Assoc.keys w.node.storage
  collections : ∀ d c, (d, c) ∈ w.collections →
    .databaseTombstone d ∉ Assoc.keys w.node.storage ∧
      .collectionTombstone d c ∉ Assoc.keys w.node.storage
  metas : ∀ d c, (d, c) ∈ w.metas → .databaseTombstone d ∉ Assoc.keys w.node.storage →
    .collectionTombstone d c ∉ Assoc.keys w.node.storage → ∀ b,
      bodyAt w.node.storage (.collectionMeta d c) = some b →
        w.node.memory.getCollectionMeta d c = some b
  droppedDatabases : ∀ d ∈ w.droppedDatabases, ∀ scope, Caught w.node.storage target scope →
    scope.database = d → latestManifest w.node.storage scope = none
  droppedCollections : ∀ d c, (d, c) ∈ w.droppedCollections → ∀ scope,
    Caught w.node.storage target scope → scope.database = d → scope.collection = c →
      latestManifest w.node.storage scope = none
  covered : ∀ scope node first last uuid ops op, matchesRestoreTarget scope target = true →
    Assoc.get? w.node.storage (.journal scope node first last uuid) = some (.ops ops) →
    op ∈ ops → Undropped w.node.storage w.node.memory op.db op.coll →
    op ∉ uncoveredOps w.node.storage scope (.journal scope node first last uuid, .ops ops) →
      ∃ v, (w.node.memory.row op.db op.coll op.id = some v ∨
        v ∈ (caughtScopes w.node.storage target).flatMap
          (snapshotWrites w.node.storage op.db op.coll op.id) ∨
        v ∈ writesTo op.db op.coll op.id (caughtOps w.node.storage target)) ∧ op.ts ≤ v.ts

end Watch

/-! ## Scopes and writes -/

section

variable {s : Storage} (hs : Regular s) {target : Scope}
include hs

theorem mem_caughtScopes {scope : Scope} :
    scope ∈ caughtScopes s target ↔ scope ∈ uniqueScopes s ∧ Caught s target scope := by
  constructor
  · intro h
    rcases live_of_caughtScopes h with ⟨hunique, htarget, hdatabase, hcollection⟩
    exact ⟨hunique, htarget, fun hmem => hdatabase (mem_databaseTombstones.mpr hmem), hcollection⟩
  · rintro ⟨hunique, hcaught⟩
    refine List.mem_filter.mpr ⟨List.mem_filter.mpr ⟨hunique, hcaught.target⟩, ?_⟩
    rw [Bool.and_eq_true, decide_eq_true_eq, decide_eq_true_eq]
    refine ⟨fun hmem => hcaught.database (mem_databaseTombstones.mp hmem), fun hmem => ?_⟩
    have hplain := hs.plain_of_uniqueScopes hunique
    rcases mem_collectionTombstones.mp hmem with ⟨d, c, hkey, heq⟩
    rcases (collectionKey_eq_iff hplain.database hplain.collection).mp heq with ⟨rfl, rfl⟩
    exact hcaught.collection hkey

theorem uniqueScopes_of_journal {scope : Scope} {node : JsString} {first last uuid : Nat}
    {file : StorageFile} (h : Assoc.get? s (.journal scope node first last uuid) = some file) :
    scope ∈ uniqueScopes s := by
  refine (mem_uniqueScopes_iff fun _ => hs.scope_plain).mpr ?_
  exact List.mem_filterMap.mpr ⟨_, Assoc.mem_of_get?_eq_some h, rfl⟩

theorem uniqueScopes_of_manifest {scope : Scope} {manifest : Manifest}
    (h : latestManifest s scope = some manifest) : scope ∈ uniqueScopes s := by
  refine (mem_uniqueScopes_iff fun _ => hs.scope_plain).mpr ?_
  unfold latestManifest at h
  cases hget : Assoc.get? s (.latest scope) with
  | none =>
      rw [hget] at h
      cases h
  | some file => exact List.mem_filterMap.mpr ⟨_, Assoc.mem_of_get?_eq_some hget, rfl⟩

/-- The rows of the snapshots that are read are stored writes. -/
theorem mem_snapshotWrites {d c id : JsString} {v : Write}
    (hd : .databaseTombstone d ∉ Assoc.keys s) (hc : .collectionTombstone d c ∉ Assoc.keys s) :
    v ∈ (caughtScopes s target).flatMap (snapshotWrites s d c id) ↔
      ∃ scope manifest, matchesRestoreTarget scope target = true ∧ scope.database = d ∧
        scope.collection = c ∧ latestManifest s scope = some manifest ∧ (id, v) ∈ manifest.rows := by
  rw [List.mem_flatMap]
  constructor
  · rintro ⟨scope, hscope, hv⟩
    unfold snapshotWrites at hv
    split_ifs at hv with hsame
    · cases hmanifest : latestManifest s scope with
      | none =>
          rw [hmanifest] at hv
          cases hv
      | some manifest =>
          rw [hmanifest] at hv
          rcases List.mem_map.mp hv with ⟨⟨id', v'⟩, hrow, rfl⟩
          rcases List.mem_filter.mp hrow with ⟨hheld, hid⟩
          have hid' : id' = id := of_decide_eq_true hid
          subst hid'
          exact ⟨scope, manifest, (live_of_caughtScopes hscope).2.1, hsame.1, hsame.2, hmanifest,
            hheld⟩
    · cases hv
  · rintro ⟨scope, manifest, htarget, rfl, rfl, hmanifest, hrow⟩
    refine ⟨scope, (mem_caughtScopes hs).mpr ⟨uniqueScopes_of_manifest hs hmanifest, htarget, hd,
      hc⟩, ?_⟩
    rw [snapshotWrites, if_pos ⟨rfl, rfl⟩, hmanifest]
    exact List.mem_map.mpr ⟨(id, v), List.mem_filter.mpr ⟨hrow, decide_eq_true rfl⟩, rfl⟩

theorem mem_caughtOps {op : Op} (hd : .databaseTombstone op.db ∉ Assoc.keys s)
    (hc : .collectionTombstone op.db op.coll ∉ Assoc.keys s) :
    op ∈ caughtOps s target ↔ ∃ scope node first last uuid ops,
      matchesRestoreTarget scope target = true ∧
        Assoc.get? s (.journal scope node first last uuid) = some (.ops ops) ∧
        op ∈ uncoveredOps s scope (.journal scope node first last uuid, .ops ops) := by
  rw [caughtOps, List.mem_flatMap]
  constructor
  · rintro ⟨scope, hscope, hop⟩
    rcases List.mem_flatMap.mp hop with ⟨⟨key, file⟩, hentry, hop⟩
    cases key with
    | journal scope' node first last uuid =>
        cases file with
        | ops ops =>
            have hsame : scope' = scope := by
              simp only [uncoveredOps] at hop
              split_ifs at hop with hne
              · cases hop
              · cases hop
              · exact not_not.mp hne
            subst hsame
            exact ⟨scope', node, first, last, uuid, ops, (live_of_caughtScopes hscope).2.1,
              Assoc.get?_eq_some_of_mem hs.nodup hentry, hop⟩
        | _ => cases hop
    | _ => cases hop
  · rintro ⟨scope, node, first, last, uuid, ops, htarget, hget, hop⟩
    have hmem : op ∈ ops := by
      simp only [uncoveredOps] at hop
      split_ifs at hop
      · cases hop
      · cases hop
      · exact List.mem_of_mem_filter hop
    rcases hs.filed _ (Assoc.mem_of_get?_eq_some hget) op hmem with ⟨hdb, hcoll⟩
    refine ⟨scope, (mem_caughtScopes hs).mpr ⟨uniqueScopes_of_journal hs hget, htarget, hdb ▸ hd,
      hdb ▸ hcoll ▸ hc⟩, ?_⟩
    exact List.mem_flatMap.mpr ⟨_, Assoc.mem_of_get?_eq_some hget, hop⟩

/-- What an object that is not dropped reads after the catch-up. -/
theorem CaughtUp.row_eq {m r : Memory} (hm : m.Tidy) (h : CaughtUp s target m r) {d c : JsString}
    (hlive : Undropped s m d c) (id : JsString) :
    r.row d c id = Lww.newest Write.ts ((m.row d c id).toList ++
      ((caughtScopes s target).flatMap (snapshotWrites s d c id) ++
        writesTo d c id (caughtOps s target))) := by
  have hd := fun hmem => hlive.storedDatabase (mem_databaseTombstones.mp hmem)
  by_cases hplain : PlainName d
  · rw [h.row d c id hplain hlive.database hlive.collection hd hlive.storedCollection,
      Lww.foldl_later]
  · -- nothing lies under a name that is not plain
    have hnone : ∀ x : Memory, x.Tidy → x.row d c id = none := by
      intro x hx
      cases hget : x.getCollection d c with
      | none => rw [Memory.row, hget]; rfl
      | some held => exact absurd (hx.plain d c (by rw [hget]; rfl)).1 hplain
    have hsnapshots : (caughtScopes s target).flatMap (snapshotWrites s d c id) = [] := by
      refine List.eq_nil_iff_forall_not_mem.mpr fun v hv => ?_
      rcases (mem_snapshotWrites hs hlive.storedDatabase hlive.storedCollection).mp hv with
        ⟨scope, manifest, -, rfl, -, hmanifest, -⟩
      exact hplain (hs.plain_of_uniqueScopes (uniqueScopes_of_manifest hs hmanifest)).database
    have hops : writesTo d c id (caughtOps s target) = [] := by
      refine writesTo_of_elsewhere fun op hop => ?_
      rw [Op.isOn, decide_eq_false_iff_not]
      rintro ⟨rfl, -, -⟩
      exact hplain (op_of_caughtOps hs hop).1
    rw [hnone r h.tidy, hnone m hm, hsnapshots, hops]
    rfl

end

/-- The newest of what was held and of some stored writes is the newest of all stored writes when
the others are made up for. -/
theorem newestAmong_newest {held : Option Write} {kept : List Write} {stored : Write → Prop}
    (hkept : ∀ v ∈ kept, stored v) :
    NewestAmong held stored (Lww.newest Write.ts (held.toList ++ kept)) ↔
      ∀ v, stored v → ∃ v', (held = some v' ∨ v' ∈ kept) ∧ v.ts ≤ v'.ts := by
  have hmem : ∀ v, v ∈ held.toList ++ kept ↔ held = some v ∨ v ∈ kept := by
    intro v
    rw [List.mem_append, Option.mem_toList]
  rcases Lww.newest_cases Write.ts (held.toList ++ kept) with ⟨hnil, hnone⟩ | ⟨a, ha, hin, hle⟩
  · have hnothing : ∀ v, ¬(held = some v ∨ v ∈ kept) := by
      intro v hv
      have hv' := (hmem v).mpr hv
      rw [hnil] at hv'
      cases hv'
    rw [hnone]
    constructor
    · rintro ⟨-, hstored⟩ v hv
      exact absurd hv (hstored v)
    · intro h
      refine ⟨Option.eq_none_iff_forall_ne_some.mpr fun v hv => hnothing v (Or.inl hv), ?_⟩
      intro v hv
      rcases h v hv with ⟨v', hv', -⟩
      exact hnothing v' hv'
  · rw [ha]
    have hfrom := (hmem a).mp hin
    constructor
    · rintro ⟨-, -, hstored⟩ v hv
      exact ⟨a, hfrom, hstored v hv⟩
    · intro h
      refine ⟨hfrom.imp_right (hkept a), fun v hv => hle v ((hmem v).mpr (Or.inl hv)), ?_⟩
      intro v hv
      rcases h v hv with ⟨v', hv', hle'⟩
      exact hle'.trans (hle v' ((hmem v').mpr hv'))

/-! ## When a catch-up keeps what is newer -/

namespace Watch

theorem Inv.undropped {w : Watch} (hinv : w.Inv) {d c : JsString}
    (hthere : (w.node.memory.getCollection d c).isSome = true)
    (hd : .databaseTombstone d ∉ Assoc.keys w.node.storage)
    (hc : .collectionTombstone d c ∉ Assoc.keys w.node.storage) :
    Undropped w.node.storage w.node.memory d c := by
  refine ⟨Bool.eq_false_iff.mpr fun hdeleted => ?_, Bool.eq_false_iff.mpr fun hdeleted => ?_, hd,
    hc⟩
  · have hdatabase := hinv.tidy.inDatabase d c hthere
    rw [hinv.tidy.database d hdeleted] at hdatabase
    cases hdatabase
  · rw [hinv.tidy.collection d c hdeleted] at hthere
    cases hthere

section

variable {w : Watch} (hinv : w.Inv) {target : Scope} {r : Memory}
  (hr : CaughtUp w.node.storage target w.node.memory r)
include hinv hr

/-- A stored tombstone of a database removes it. -/
theorem Inv.databaseGone {d : JsString} (hd : .databaseTombstone d ∈ Assoc.keys w.node.storage) :
    r.getDatabaseMeta d = none := by
  refine hr.tidy.database d ((hr.databaseDeleted d).mpr
    ⟨Or.inr (mem_databaseTombstones.mpr hd), ?_⟩)
  rintro ⟨scope, hscope, c, -, rfl, -⟩
  exact ((mem_caughtScopes hinv.storage).mp hscope).2.database hd

theorem Inv.collectionGone {d c : JsString} (hplain : PlainName d)
    (h : .databaseTombstone d ∈ Assoc.keys w.node.storage ∨
      .collectionTombstone d c ∈ Assoc.keys w.node.storage) : r.getCollection d c = none := by
  rcases h with hd | hc
  · cases hget : r.getCollection d c with
    | none => rfl
    | some held =>
        have hdatabase := hr.tidy.inDatabase d c (by rw [hget]; rfl)
        rw [hinv.databaseGone hr hd] at hdatabase
        cases hdatabase
  · refine hr.tidy.collection d c ((hr.collectionDeleted d c hplain).mpr ⟨Or.inr hc, ?_⟩)
    rintro ⟨scope, hscope, -, rfl, rfl⟩
    exact ((mem_caughtScopes hinv.storage).mp hscope).2.collection hc

theorem Inv.databases_iff :
    (∀ d ∈ w.databases, (r.getDatabaseMeta d).isSome = true) ↔
      ∀ d ∈ w.databases, .databaseTombstone d ∉ Assoc.keys w.node.storage := by
  constructor
  · intro h d hd hstored
    have hthere := h d hd
    rw [hinv.databaseGone hr hstored] at hthere
    cases hthere
  · intro h d hd
    exact hr.database d (hinv.databases d hd) fun hmem =>
      h d hd (mem_databaseTombstones.mp hmem)

theorem Inv.collections_iff :
    (∀ d c, (d, c) ∈ w.collections → (r.getCollection d c).isSome = true ∧
      ∀ id v, w.node.memory.row d c id = some v → ∃ v', r.row d c id = some v' ∧ v.ts ≤ v'.ts) ↔
    ∀ d c, (d, c) ∈ w.collections → .databaseTombstone d ∉ Assoc.keys w.node.storage ∧
      .collectionTombstone d c ∉ Assoc.keys w.node.storage := by
  constructor
  · intro h d c hmem
    have hplain := hinv.tidy.plain d c (hinv.collections d c hmem)
    rw [← not_or]
    intro hstored
    have hthere := (h d c hmem).1
    rw [hinv.collectionGone hr hplain.1 hstored] at hthere
    cases hthere
  · intro h d c hmem
    have hthere := hinv.collections d c hmem
    have hplain := hinv.tidy.plain d c hthere
    rcases h d c hmem with ⟨hd, hc⟩
    have hd' := fun hmem => hd (mem_databaseTombstones.mp hmem)
    rcases Option.isSome_iff_exists.mp (isSome_iff_meta.mpr hthere) with ⟨b, hb⟩
    constructor
    · rw [← isSome_iff_meta, hr.collectionMeta d c b hplain.1 hb hd' hc]
      rfl
    · intro id v hv
      rw [hr.row_eq hinv.storage hinv.tidy (hinv.undropped hthere hd hc) id]
      rcases Lww.newest_cases Write.ts ((w.node.memory.row d c id).toList ++ _) with
        ⟨hnil, -⟩ | ⟨a, ha, -, hle⟩
      · rw [hv] at hnil
        cases hnil
      · exact ⟨a, ha, hle v (List.mem_append_left _ (by rw [hv]; exact List.mem_singleton_self v))⟩

theorem Inv.metas_iff :
    (∀ d c, (d, c) ∈ w.metas → ∀ b, r.getCollectionMeta d c = some b →
      w.node.memory.getCollectionMeta d c = some b) ↔
    ∀ d c, (d, c) ∈ w.metas → .databaseTombstone d ∉ Assoc.keys w.node.storage →
      .collectionTombstone d c ∉ Assoc.keys w.node.storage → ∀ b,
        bodyAt w.node.storage (.collectionMeta d c) = some b →
          w.node.memory.getCollectionMeta d c = some b := by
  have hmeta : ∀ d c, (d, c) ∈ w.metas → .databaseTombstone d ∉ Assoc.keys w.node.storage →
      .collectionTombstone d c ∉ Assoc.keys w.node.storage →
      ∃ b, w.node.memory.getCollectionMeta d c = some b ∧ r.getCollectionMeta d c =
        some ((bodyAt w.node.storage (.collectionMeta d c)).getD b) := by
    intro d c hmem hd hc
    have hthere := hinv.metas d c hmem
    rcases Option.isSome_iff_exists.mp (isSome_iff_meta.mpr hthere) with ⟨b, hb⟩
    exact ⟨b, hb, hr.collectionMeta d c b (hinv.tidy.plain d c hthere).1 hb
      (fun hmem => hd (mem_databaseTombstones.mp hmem)) hc⟩
  constructor
  · intro h d c hmem hd hc b hb
    rcases hmeta d c hmem hd hc with ⟨held, -, hafter⟩
    rw [hb] at hafter
    exact h d c hmem b hafter
  · intro h d c hmem b hb
    have hplain := hinv.tidy.plain d c (hinv.metas d c hmem)
    by_cases hstored : .databaseTombstone d ∈ Assoc.keys w.node.storage ∨
        .collectionTombstone d c ∈ Assoc.keys w.node.storage
    · rw [Memory.getCollectionMeta, hinv.collectionGone hr hplain.1 hstored] at hb
      cases hb
    · rw [not_or] at hstored
      rcases hmeta d c hmem hstored.1 hstored.2 with ⟨held, hheld, hafter⟩
      rw [hb] at hafter
      cases hbody : bodyAt w.node.storage (.collectionMeta d c) with
      | none =>
          rw [hbody] at hafter
          exact hheld.trans hafter.symm
      | some stored =>
          rw [hbody] at hafter
          rw [h d c hmem hstored.1 hstored.2 stored hbody]
          exact hafter.symm

theorem Inv.droppedDatabases_iff :
    (∀ d ∈ w.droppedDatabases, r.isDatabaseDeleted d = true) ↔
      ∀ d ∈ w.droppedDatabases, ∀ scope, Caught w.node.storage target scope →
        scope.database = d → latestManifest w.node.storage scope = none := by
  constructor
  · rintro h d hd scope hcaught rfl
    refine Option.eq_none_iff_forall_ne_some.mpr fun manifest hmanifest => ?_
    refine ((hr.databaseDeleted _).mp (h _ hd)).2 ⟨scope, ?_, scope.collection, ?_, rfl, rfl⟩
    · exact (mem_caughtScopes hinv.storage).mpr
        ⟨uniqueScopes_of_manifest hinv.storage hmanifest, hcaught⟩
    · rw [hmanifest]
      rfl
  · intro h d hd
    refine (hr.databaseDeleted d).mpr ⟨Or.inl (hinv.droppedDatabases d hd), ?_⟩
    rintro ⟨scope, hscope, c, hsome, hdb, -⟩
    rw [h d hd scope ((mem_caughtScopes hinv.storage).mp hscope).2 hdb] at hsome
    cases hsome

theorem Inv.droppedCollections_iff :
    (∀ d c, (d, c) ∈ w.droppedCollections → r.isCollectionDeleted d c = true) ↔
      ∀ d c, (d, c) ∈ w.droppedCollections → ∀ scope, Caught w.node.storage target scope →
        scope.database = d → scope.collection = c →
          latestManifest w.node.storage scope = none := by
  constructor
  · rintro h d c hmem scope hcaught rfl rfl
    have hplain := (hinv.droppedCollections _ _ hmem).1
    refine Option.eq_none_iff_forall_ne_some.mpr fun manifest hmanifest => ?_
    refine ((hr.collectionDeleted _ _ hplain).mp (h _ _ hmem)).2 ⟨scope, ?_, ?_, rfl, rfl⟩
    · exact (mem_caughtScopes hinv.storage).mpr
        ⟨uniqueScopes_of_manifest hinv.storage hmanifest, hcaught⟩
    · rw [hmanifest]
      rfl
  · intro h d c hmem
    rcases hinv.droppedCollections d c hmem with ⟨hplain, hdeleted⟩
    refine (hr.collectionDeleted d c hplain).mpr ⟨Or.inl hdeleted, ?_⟩
    rintro ⟨scope, hscope, hsome, hdb, hcoll⟩
    rw [h d c hmem scope ((mem_caughtScopes hinv.storage).mp hscope).2 hdb hcoll] at hsome
    cases hsome

theorem Inv.objects_iff :
    (∀ d c id, Undropped w.node.storage w.node.memory d c →
      NewestAmong (w.node.memory.row d c id) (StoredWrite w.node.storage target d c id)
        (r.row d c id)) ↔
    ∀ scope node first last uuid ops op, matchesRestoreTarget scope target = true →
      Assoc.get? w.node.storage (.journal scope node first last uuid) = some (.ops ops) →
      op ∈ ops → Undropped w.node.storage w.node.memory op.db op.coll →
      op ∉ uncoveredOps w.node.storage scope (.journal scope node first last uuid, .ops ops) →
        ∃ v, (w.node.memory.row op.db op.coll op.id = some v ∨
          v ∈ (caughtScopes w.node.storage target).flatMap
            (snapshotWrites w.node.storage op.db op.coll op.id) ∨
          v ∈ writesTo op.db op.coll op.id (caughtOps w.node.storage target)) ∧ op.ts ≤ v.ts := by
  have hs := hinv.storage
  have hstored : ∀ d c id, Undropped w.node.storage w.node.memory d c → ∀ v ∈
      (caughtScopes w.node.storage target).flatMap (snapshotWrites w.node.storage d c id) ++
        writesTo d c id (caughtOps w.node.storage target),
      StoredWrite w.node.storage target d c id v := by
    intro d c id hlive v hv
    rcases List.mem_append.mp hv with hv | hv
    · exact Or.inl ((mem_snapshotWrites hs hlive.storedDatabase hlive.storedCollection).mp hv)
    · rcases List.mem_map.mp hv with ⟨op, hop, rfl⟩
      rcases List.mem_filter.mp hop with ⟨hcaught, hon⟩
      rcases of_decide_eq_true hon with ⟨rfl, rfl, rfl⟩
      rcases (mem_caughtOps hs hlive.storedDatabase hlive.storedCollection).mp hcaught with
        ⟨scope, node, first, last, uuid, ops, htarget, hget, hmem⟩
      refine Or.inr ⟨scope, node, first, last, uuid, ops, op, htarget, hget, ?_, hon, rfl⟩
      simp only [uncoveredOps] at hmem
      split_ifs at hmem
      · cases hmem
      · cases hmem
      · exact List.mem_of_mem_filter hmem
  constructor
  · intro h scope node first last uuid ops op htarget hget hop hlive _
    have hnewest := h op.db op.coll op.id hlive
    rw [hr.row_eq hs hinv.tidy hlive, newestAmong_newest (hstored _ _ _ hlive)] at hnewest
    rcases hnewest op.write (Or.inr ⟨scope, node, first, last, uuid, ops, op, htarget, hget, hop,
      decide_eq_true ⟨rfl, rfl, rfl⟩, rfl⟩) with ⟨v, hv, hle⟩
    exact ⟨v, hv.imp_right List.mem_append.mp, hle⟩
  · intro h d c id hlive
    rw [hr.row_eq hs hinv.tidy hlive, newestAmong_newest (hstored _ _ _ hlive)]
    rintro v (hrow | ⟨scope, node, first, last, uuid, ops, op, htarget, hget, hop, hon, rfl⟩)
    · exact ⟨v, Or.inr (List.mem_append_left _
        ((mem_snapshotWrites hs hlive.storedDatabase hlive.storedCollection).mpr hrow)), le_rfl⟩
    · rcases of_decide_eq_true hon with ⟨rfl, rfl, rfl⟩
      by_cases hcovered : op ∈ uncoveredOps w.node.storage scope
          (.journal scope node first last uuid, .ops ops)
      · have hmem := (mem_caughtOps hs hlive.storedDatabase hlive.storedCollection).mpr
          ⟨scope, node, first, last, uuid, ops, htarget, hget, hcovered⟩
        refine ⟨op.write, Or.inr (List.mem_append_right _ ?_), le_rfl⟩
        exact List.mem_map_of_mem (List.mem_filter.mpr ⟨hmem, hon⟩)
      · rcases h scope node first last uuid ops op htarget hget hop hlive hcovered with
          ⟨v, hv, hle⟩
        exact ⟨v, hv.imp_right List.mem_append.mpr, hle⟩

end

/-- A catch-up of a running node keeps everything that is newer in memory than in storage, exactly
when storage says nothing against it. -/
theorem restoreScope_keepsNewer_iff {config : Config} {happenings : List Happening} {w : Watch}
    (hplain : ∀ x ∈ happenings, x.Plain) (hrun : start.run config happenings = some w)
    (target : Scope) : ∃ r, restoreScope w.node.storage target w.node.memory = (r, .ok ()) ∧
      (w.KeepsNewer target r ↔ w.Unchallenged target) := by
  have hinv := run_inv inv_start hplain hrun
  rcases restoreScope_spec hinv.storage target hinv.tidy with ⟨r, hrestore, hr⟩
  refine ⟨r, hrestore, fun h => ?_, fun h => ?_⟩
  · exact
      { databases := (hinv.databases_iff hr).mp h.databases
        collections := (hinv.collections_iff hr).mp h.collections
        metas := (hinv.metas_iff hr).mp h.metas
        droppedDatabases := (hinv.droppedDatabases_iff hr).mp h.droppedDatabases
        droppedCollections := (hinv.droppedCollections_iff hr).mp h.droppedCollections
        covered := (hinv.objects_iff hr).mp h.objects }
  · exact
      { objects := (hinv.objects_iff hr).mpr h.covered
        databases := (hinv.databases_iff hr).mpr h.databases
        collections := (hinv.collections_iff hr).mpr h.collections
        metas := (hinv.metas_iff hr).mpr h.metas
        droppedDatabases := (hinv.droppedDatabases_iff hr).mpr h.droppedDatabases
        droppedCollections := (hinv.droppedCollections_iff hr).mpr h.droppedCollections }

/-! ## A collection created again -/

def watchConfig : Config := ⟨js "n1", 100, 1000000, fun _ => 100⟩

def watchScope : Scope := ⟨js "d", js "c", js "s00"⟩

/-- A collection is created and stored. -/
def createdHere : List Event :=
  [.createDatabase (js "d") (.obj []), .setCollectionMeta (js "d") (js "c") defaultCollectionMeta,
    .flush, .storageCall, .storageCall, .storageCall, .storageCall, .flushEnds]

/-- It is removed, the tombstone is stored, and it is created again. -/
def recreatedHere : List Event :=
  createdHere ++ [.removeCollection (js "d") (js "c"), .flush, .storageCall, .storageCall,
    .flushEnds, .setCollectionMeta (js "d") (js "c") defaultCollectionMeta]

theorem restoreScope_created : ∃ w, start.run watchConfig (createdHere.map .here) = some w ∧
    ∃ r, restoreScope w.node.storage watchScope w.node.memory = (r, .ok ()) ∧
      (w.KeepsNewer watchScope r ↔ w.Unchallenged watchScope) := by
  have hd : PlainName (js "d") := ⟨by decide, by decide, by decide⟩
  have hc : PlainName (js "c") := ⟨by decide, by decide, by decide⟩
  refine ⟨_, rfl, @restoreScope_keepsNewer_iff watchConfig (createdHere.map .here) _ ?_ rfl
    watchScope⟩
  simp [createdHere, Happening.Plain, Event.Plain, hd, hc]

/-- The catch-up drops the collection that was created again. -/
theorem restoreScope_drops_recreated : ∃ w r,
    start.run watchConfig (recreatedHere.map .here) = some w ∧
      restoreScope w.node.storage watchScope w.node.memory = (r, .ok ()) ∧
      ¬w.KeepsNewer watchScope r := by
  refine ⟨_, _, rfl, rfl, fun h => ?_⟩
  have hthere := (h.collections (js "d") (js "c") (List.mem_cons_self)).1
  exact absurd hthere (by decide)

end Watch

end Persist
end ObjyDb
