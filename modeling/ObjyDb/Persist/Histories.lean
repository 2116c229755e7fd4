import ObjyDb.Persist.Agreement

/-!
# Histories — what a node was told to store

A history is a node with the databases and collections that were created explicitly.  In a safe
history storage will hold, once everything queued is written, what memory has:

- `Inv.step`: a safe event keeps the agreement
- `run_inv`: so does every safe run
-/

namespace ObjyDb
namespace Persist

open Js WriteBehind

/-! ## Histories -/

structure History where
  node : Node
  /-- The databases that were created and not removed since. -/
  databases : List JsString
  /-- The collections that were created, and not removed since, nor were their databases. -/
  collections : List (JsString × JsString)

namespace History

def start : History := ⟨.start, [], []⟩

/-- Creating a collection of a deleted database is an error. -/
def collectionsAfter (h : History) : Event → List (JsString × JsString)
  | .setCollectionMeta d c _ =>
      if h.node.memory.isDatabaseDeleted d then h.collections else (d, c) :: h.collections
  | .removeDatabase d => h.collections.filter fun target => decide (target.1 ≠ d)
  | .removeCollection d c => h.collections.filter fun target => decide (target ≠ (d, c))
  | _ => h.collections

def databasesAfter (h : History) : Event → List JsString
  | .createDatabase d _ => d :: h.databases
  | .removeDatabase d => h.databases.filter fun database => decide (database ≠ d)
  | _ => h.databases

def step (config : Config) (h : History) (e : Event) : Option History :=
  (h.node.step config e).map fun n => ⟨n, h.databasesAfter e, h.collectionsAfter e⟩

def run (config : Config) (h : History) (events : List Event) : Option History :=
  events.foldlM (step config) h

theorem node_run (config : Config) (h : History) (events : List Event) :
    (h.run config events).map node = events.foldlM (Node.step config) h.node := by
  induction events generalizing h with
  | nil => rfl
  | cons e events ih =>
      rw [run, List.foldlM_cons, List.foldlM_cons, step]
      cases h.node.step config e with
      | none => rfl
      | some n => exact ih _

/-! ## Safe events -/

/-- What an event must not meet, for storage to follow memory.

- Names are plain, and operations carry a shard and a sequence number, as those of a node do.
- A database whose drop is queued is created again only when storage holds nothing of it, for
  creating it takes the drop back.
- The metadata of a collection is not set in a deleted database when the tombstone of the
  collection is or will be stored, for it is then taken from memory alone.
- A flush fails only when nothing queued since it began drops what its batch holds, for the batch
  goes back into the same queues. -/
def SafeEvent (h : History) : Event → Prop
  | .createDatabase d _ =>
      PlainName d ∧ (d ∈ h.node.flusher.queues.pendingDatabaseDrops →
        (h.node.flusher.landed h.node.storage).Bare d)
  | .removeDatabase d => PlainName d
  | .setCollectionMeta d c _ =>
      PlainName d ∧ PlainName c ∧ (h.node.memory.isDatabaseDeleted d = true →
        ¬(h.node.flusher.settled h.node.storage).partDead d c)
  | .removeCollection d c => PlainName d ∧ PlainName c
  | .openCollection d c => PlainName d ∧ PlainName c
  | .applyOps ops => ∀ op ∈ ops, PlainOp op ∧ 0 < op.seq
  | .storageFails _ _ =>
      ∀ task, h.node.flusher.flushing = some task →
        h.node.flusher.queues.image.Spares task.batch.image
  | .flush => True
  | .storageCall => True
  | .flushEnds => True

/-- Every event of the run is safe where it happens. -/
def SafeRun (config : Config) (h : History) : List Event → Prop
  | [] => True
  | e :: events =>
      h.SafeEvent e ∧ ∀ next, h.step config e = some next → next.SafeRun config events

end History

/-! ## Memory and its changes -/

/-- The agreement is about what can be looked up. -/
theorem Agrees.congr {a : StorageImage} {m m' : Memory} (h : Agrees a m)
    (hdatabase : ∀ d, m'.getDatabaseMeta d = m.getDatabaseMeta d)
    (hcollection : ∀ d c, m'.getCollection d c = m.getCollection d c)
    (hdeleted : ∀ d, m'.isDatabaseDeleted d = m.isDatabaseDeleted d)
    (hdropped : ∀ d c, m'.isCollectionDeleted d c = m.isCollectionDeleted d c) : Agrees a m' := by
  have hmeta : ∀ d c, m'.getCollectionMeta d c = m.getCollectionMeta d c := fun d c =>
    congrArg (Option.map HeldCollection.collectionMeta) (hcollection d c)
  have hrow : ∀ d c id, m'.row d c id = m.row d c id := fun d c id =>
    congrArg (fun x : Option HeldCollection => x.bind fun held => Assoc.get? held.rows id)
      (hcollection d c)
  exact
    { tidy :=
        { database := fun d hd => (hdatabase d).trans (h.tidy.database d (hdeleted d ▸ hd))
          inDatabase := fun d c hc => hdatabase d ▸ h.tidy.inDatabase d c (hcollection d c ▸ hc)
          collection := fun d c hc =>
            (hcollection d c).trans (h.tidy.collection d c (hdropped d c ▸ hc))
          plain := fun d c hc => h.tidy.plain d c (hcollection d c ▸ hc) }
      dead := fun d hd => (hdeleted d).trans (h.dead d hd)
      deadHeader := h.deadHeader
      deadParts := h.deadParts
      partDead := fun d c hd => (hdropped d c).trans (h.partDead d c hd)
      partDeadPlain := h.partDeadPlain
      partDeadEmpty := h.partDeadEmpty
      header := fun d b hb => (hdatabase d).trans (h.header d b hb)
      headerDefault := fun d hb b hm => h.headerDefault d hb b (hdatabase d ▸ hm)
      partHeader := fun d c b hb => (hmeta d c).trans (h.partHeader d c b hb)
      partHeaderDefault := fun d c hb b hm => h.partHeaderDefault d c hb b (hmeta d c ▸ hm)
      rows := fun d c id => hrow d c id ▸ h.rows d c id
      coincide := h.coincide
      named := h.named }

/-- Deleting a database that is deleted and not there changes nothing. -/
theorem Agrees.deleteAgain {a : StorageImage} {m : Memory} (h : Agrees a m) {d : JsString}
    (hdeleted : m.isDatabaseDeleted d = true) : Agrees a (m.deleteDatabase d).1 := by
  have habsent := h.tidy.database d hdeleted
  refine h.congr (fun d' => ?_) (fun d' c => ?_) (fun d' => ?_) fun _ _ => rfl
  · rw [Memory.getDatabaseMeta_deleteDatabase]
    split_ifs with hd
    · exact (hd ▸ habsent).symm
    · rfl
  · rw [Memory.getCollection_deleteDatabase]
    split_ifs with hd
    · subst hd
      cases hget : m.getCollection d c with
      | none => rfl
      | some x =>
          have hthere := h.tidy.inDatabase d c (by rw [hget]; rfl)
          rw [habsent] at hthere
          cases hthere
    · rfl
  · refine Bool.eq_iff_iff.mpr ((Memory.isDatabaseDeleted_deleteDatabase m d d').trans ?_)
    exact or_iff_left_of_imp fun hd => hd ▸ hdeleted

/-- Deleting a collection that is deleted changes nothing. -/
theorem Agrees.deletePartAgain {a : StorageImage} {m : Memory} (h : Agrees a m) {d c : JsString}
    (hdeleted : m.isCollectionDeleted d c = true) : Agrees a (m.deleteCollection d c).1 := by
  refine h.congr (Memory.getDatabaseMeta_deleteCollection m d c) (fun d' c' => ?_)
    (Memory.isDatabaseDeleted_deleteCollection m d c) fun d' c' => ?_
  · rw [Memory.getCollection_deleteCollection]
    split_ifs with heq
    · rcases heq with ⟨rfl, rfl⟩
      exact (h.tidy.collection d c hdeleted).symm
    · rfl
  · refine Bool.eq_iff_iff.mpr ((Memory.isCollectionDeleted_deleteCollection m d c d' c').trans ?_)
    refine or_iff_left_of_imp fun hkey => ?_
    rw [Memory.isCollectionDeleted, hkey]
    exact hdeleted

/-! ## Journals -/

/-- Every queued operation lies under a plain scope. -/
def Queues.Scoped (q : Queues) : Prop :=
  ∀ entry ∈ q.pending, (parseScopeKey entry.1).Plain

/-- The files that flushes leave: no snapshot, and segments of plain scopes. -/
structure Journals (s : Storage) : Prop where
  nodup : (Assoc.keys s).Nodup
  noLatest : ∀ scope, .latest scope ∉ Assoc.keys s
  plain : ∀ scope node first last uuid,
    .journal scope node first last uuid ∈ Assoc.keys s → scope.Plain

theorem journals_nil : Journals [] :=
  ⟨List.nodup_nil, fun _ => List.not_mem_nil, fun _ _ _ _ _ h => absurd h List.not_mem_nil⟩

theorem Journals.sublist {s s' : Storage} (h : Journals s) (hs : s'.Sublist s) : Journals s' where
  nodup := h.nodup.sublist (hs.map Prod.fst)
  noLatest scope hmem := h.noLatest scope ((hs.map Prod.fst).subset hmem)
  plain scope node first last uuid hmem :=
    h.plain scope node first last uuid ((hs.map Prod.fst).subset hmem)

theorem Journals.set {s : Storage} (h : Journals s) {key : StorageKey}
    (hlatest : ∀ scope, key ≠ .latest scope)
    (hplain : ∀ scope node first last uuid, key = .journal scope node first last uuid → scope.Plain)
    (file : StorageFile) : Journals (Assoc.set s key file) := by
  have hmem : ∀ k ∈ Assoc.keys (Assoc.set s key file), k = key ∨ k ∈ Assoc.keys s := by
    intro k hk
    rw [← Assoc.get?_isSome_iff, Assoc.get?_set] at hk
    split_ifs at hk with heq
    · exact Or.inl heq.symm
    · exact Or.inr (Assoc.get?_isSome_iff.mp hk)
  refine ⟨Assoc.nodup_keys_set key file h.nodup, fun scope hk => ?_,
    fun scope node first last uuid hk => ?_⟩
  · rcases hmem _ hk with heq | hk
    · exact hlatest scope heq.symm
    · exact h.noLatest scope hk
  · rcases hmem _ hk with heq | hk
    · exact hplain _ _ _ _ _ heq.symm
    · exact h.plain _ _ _ _ _ hk

/-- A call of a flush keeps the files in order. -/
theorem Journals.apply {config : Config} {q : Queues} (hq : q.Scoped) {call : StorageCall}
    (hcall : call ∈ flushCalls config q) {s : Storage} (h : Journals s) :
    Journals (call.apply s) := by
  cases call with
  | put key file =>
      -- a flush puts tombstones and metadata
      have hkey : (∀ scope, key ≠ .latest scope) ∧
          ∀ scope node first last uuid, key ≠ .journal scope node first last uuid := by
        simp only [flushCalls, deleteDatabaseCalls, deleteCollectionCalls, writeDatabaseMetaCalls,
          writeCollectionMetaCalls, writeJournalBatchCalls, List.mem_append, List.mem_flatMap,
          List.mem_cons, List.mem_map, List.not_mem_nil, or_false, reduceCtorEq, false_or, and_false,
          exists_false, StorageCall.put.injEq] at hcall
        rcases hcall with ⟨_, -, rfl, -⟩ | ⟨_, -, rfl, -⟩ | ⟨_, -, rfl, -⟩ | ⟨_, -, rfl, -⟩ <;>
          exact ⟨by simp, by simp⟩
      exact h.set hkey.1 (fun _ _ _ _ _ heq => absurd heq (hkey.2 _ _ _ _ _)) file
  | putJournal scope node ops =>
      refine h.set (fun _ heq => StorageKey.noConfusion heq) ?_ _
      rintro scope' node' first last uuid heq
      cases heq
      simp only [flushCalls, deleteDatabaseCalls, deleteCollectionCalls, writeDatabaseMetaCalls,
        writeCollectionMetaCalls, writeJournalBatchCalls, List.mem_append, List.mem_flatMap,
        List.mem_cons, List.mem_map, List.not_mem_nil, or_false, reduceCtorEq, false_or, and_false,
        exists_false, StorageCall.putJournal.injEq] at hcall
      rcases hcall with ⟨entry, hentry, _, _, rfl, -⟩
      exact hq entry hentry
  | delete key => exact h.sublist List.filter_sublist
  | deletePrefix keys => exact h.sublist List.filter_sublist

theorem Journals.applyPartly {config : Config} {q : Queues} (hq : q.Scoped) {call : StorageCall}
    (hcall : call ∈ flushCalls config q) {s : Storage} (h : Journals s) (reached : Bool)
    (survives : StorageKey → Bool) : Journals (call.applyPartly reached survives s) := by
  have happly := h.apply hq hcall
  cases call with
  | deletePrefix keys => exact h.sublist List.filter_sublist
  | put key file => cases reached <;> assumption
  | putJournal scope node ops => cases reached <;> assumption
  | delete key => cases reached <;> assumption

/-! ## Scopes in the queues -/

theorem scoped_empty : Queues.empty.Scoped := nofun

theorem scoped_set {pending : List (JsString × List Op)}
    (h : ∀ entry ∈ pending, (parseScopeKey entry.1).Plain) {key : JsString}
    (hkey : (parseScopeKey key).Plain) (ops : List Op) :
    ∀ entry ∈ Assoc.set pending key ops, (parseScopeKey entry.1).Plain := by
  intro entry hentry
  have hmem : entry.1 ∈ Assoc.keys (Assoc.set pending key ops) := List.mem_map_of_mem hentry
  rw [← Assoc.get?_isSome_iff, Assoc.get?_set] at hmem
  split_ifs at hmem with heq
  · exact heq ▸ hkey
  · rcases List.mem_map.mp (Assoc.get?_isSome_iff.mp hmem) with ⟨held, hheld, hfst⟩
    exact hfst ▸ h held hheld

theorem scoped_queueDatabase {q : Queues} (h : q.Scoped) (d : JsString) (b : Json) :
    (q.queueDatabase d b).Scoped := by
  unfold Queues.queueDatabase
  split_ifs <;> exact h

theorem scoped_queueDatabaseDrop {q : Queues} (h : q.Scoped) (d : JsString) :
    (q.queueDatabaseDrop d).Scoped := by
  unfold Queues.queueDatabaseDrop
  split_ifs
  · exact h
  · exact fun entry hentry => h entry (List.mem_of_mem_filter hentry)

theorem scoped_queueMeta {q : Queues} (h : q.Scoped) (d c : JsString) (b : Json) :
    (q.queueMeta d c b).Scoped := by
  unfold Queues.queueMeta
  split_ifs <;> exact h

theorem scoped_queueCollectionDrop {q : Queues} (h : q.Scoped) (d c : JsString) :
    (q.queueCollectionDrop d c).Scoped := by
  unfold Queues.queueCollectionDrop
  split_ifs
  · exact h
  · exact fun entry hentry => h entry (List.mem_of_mem_filter hentry)

theorem scoped_queueOp {q : Queues} (h : q.Scoped) {op : Op} (hop : PlainOp op) :
    (q.queueOp op).Scoped := by
  unfold Queues.queueOp
  split_ifs
  · exact scoped_set h (by rw [parseScopeKey_scopeKey hop.scope]; exact hop.scope) _
  · exact h

theorem scoped_requeue {q b : Queues} (h : q.Scoped) (hb : b.Scoped) : (q.requeue b).Scoped := by
  unfold Queues.Scoped Queues.requeue Queues.requeueBatches
  dsimp only
  unfold Queues.Scoped at h hb
  generalize q.pending = pending at h
  generalize b.pending = batches at hb
  induction batches generalizing pending with
  | nil => exact h
  | cons entry batches ih =>
      rcases List.forall_mem_cons.mp hb with ⟨hentry, hrest⟩
      exact ih _ (scoped_set h hentry _) hrest

/-- The queues and the batch in flight lie under plain scopes. -/
structure Flusher.Scoped (f : Flusher) : Prop where
  queues : f.queues.Scoped
  batch : ∀ task, f.flushing = some task → task.batch.Scoped

theorem Flusher.Scoped.flush {config : Config} {f : Flusher} (h : f.Scoped) :
    (f.flush config).Scoped := by
  unfold Flusher.flush
  split_ifs
  · exact h
  · refine ⟨scoped_empty, ?_⟩
    rintro task ⟨⟩
    exact h.queues

theorem Flusher.Scoped.queueOp {config : Config} {f : Flusher} (h : f.Scoped) {op : Op}
    (hop : PlainOp op) : (f.queueOp config op).Scoped := by
  have hqueued : Flusher.Scoped { f with queues := f.queues.queueOp op } :=
    ⟨scoped_queueOp h.queues hop, h.batch⟩
  unfold Flusher.queueOp
  dsimp only
  split_ifs
  · exact hqueued.flush
  · exact hqueued

/-! ## The invariant -/

namespace History

structure Inv (config : Config) (h : History) : Prop where
  consistent : h.node.flusher.Consistent config h.node.storage
  inScope : h.node.flusher.Scoped
  journals : Journals h.node.storage
  numbered : ∀ d c, ∀ op ∈ (h.node.flusher.settled h.node.storage).records d c, 0 < op.seq
  agrees : Agrees (h.node.flusher.settled h.node.storage) h.node.memory
  databases : ∀ d, d ∈ h.databases ↔
    ((h.node.flusher.settled h.node.storage).header d).isSome = true
  collections : ∀ d c, (d, c) ∈ h.collections ↔
    ((h.node.flusher.settled h.node.storage).partHeader d c).isSome = true

theorem settled_idle_nil : Flusher.idle.settled [] =
    ⟨fun _ => False, fun _ => none, fun _ _ => False, fun _ _ => none, fun _ _ => ∅⟩ := by
  have hqueues : Flusher.idle.queues.image = Pending.none := Flusher.image_empty
  have hlanded : Flusher.idle.landed [] = image [] := rfl
  rw [Flusher.settled, hqueues, flush_none, hlanded]
  refine Image.ext ?_ rfl ?_ rfl ?_
  · funext d
    simp [image, Assoc.get?]
  · funext d c
    simp [image, Assoc.get?]
  · funext d c
    ext op
    simp [image, Journaled, Assoc.get?]

theorem inv_start (config : Config) : Inv config start where
  consistent := Flusher.consistent_idle
  inScope := ⟨scoped_empty, nofun⟩
  journals := journals_nil
  numbered d c op hop := by
    simp only [start, Node.start, settled_idle_nil] at hop
    cases hop
  agrees := by
    simp only [start, Node.start, settled_idle_nil]
    exact
      { tidy := ⟨nofun, nofun, nofun, nofun⟩
        dead := nofun
        deadHeader := nofun
        deadParts := nofun
        partDead := nofun
        partDeadPlain := nofun
        partDeadEmpty := nofun
        header := nofun
        headerDefault := nofun
        partHeader := nofun
        partHeaderDefault := nofun
        rows := fun _ _ _ => nofun
        coincide := fun _ _ => nofun
        named := fun _ _ => nofun }
  databases d := by simp [start, Node.start, settled_idle_nil]
  collections d c := by simp [start, Node.start, settled_idle_nil]

section

variable {config : Config} {h : History}

/-- A change of memory that the manager hears of. -/
theorem Inv.change (hinv : h.Inv config) {m : Memory} {q : Queues} {a : StorageImage}
    (hkeyed : q.Keyed) (hscoped : q.Scoped)
    (ha : (h.node.flusher.landed h.node.storage).flush q.image = a) (hagrees : Agrees a m)
    (hnumbered : ∀ d c, ∀ op ∈ a.records d c, 0 < op.seq) {databases : List JsString}
    (hdatabases : ∀ d, d ∈ databases ↔ (a.header d).isSome = true)
    {collections : List (JsString × JsString)}
    (hcollections : ∀ d c, (d, c) ∈ collections ↔ (a.partHeader d c).isSome = true) :
    Inv config ⟨⟨m, { h.node.flusher with queues := q }, h.node.storage⟩, databases,
      collections⟩ := by
  subst ha
  exact
    { consistent := hinv.consistent.queue hkeyed
      inScope := ⟨hscoped, hinv.inScope.batch⟩
      journals := hinv.journals
      numbered := hnumbered
      agrees := hagrees
      databases := hdatabases
      collections := hcollections }

/-- A change of memory that storage need not hear of. -/
theorem Inv.unheard (hinv : h.Inv config) {m : Memory}
    (hagrees : Agrees (h.node.flusher.settled h.node.storage) m) {databases : List JsString}
    (hdatabases : ∀ d, d ∈ databases ↔ d ∈ h.databases) {collections : List (JsString × JsString)}
    (hcollections : ∀ target, target ∈ collections ↔ target ∈ h.collections) :
    Inv config ⟨⟨m, h.node.flusher, h.node.storage⟩, databases, collections⟩ where
  consistent := hinv.consistent
  inScope := hinv.inScope
  journals := hinv.journals
  numbered := hinv.numbered
  agrees := hagrees
  databases d := (hdatabases d).trans (hinv.databases d)
  collections d c := (hcollections (d, c)).trans (hinv.collections d c)

/-- Storage and the flush in flight go on, and will hold what they would have held. -/
theorem Inv.flushes (hinv : h.Inv config) {f : Flusher} {s : Storage}
    (hconsistent : f.Consistent config s) (hscoped : f.Scoped) (hjournals : Journals s)
    (hsettled : f.settled s = h.node.flusher.settled h.node.storage) :
    Inv config ⟨⟨h.node.memory, f, s⟩, h.databases, h.collections⟩ where
  consistent := hconsistent
  inScope := hscoped
  journals := hjournals
  numbered := hsettled ▸ hinv.numbered
  agrees := hsettled ▸ hinv.agrees
  databases := hsettled ▸ hinv.databases
  collections := hsettled ▸ hinv.collections

/-! ## Databases -/

theorem Inv.createDatabase (hinv : h.Inv config) {d : JsString} (b : Json)
    (hsafe : h.SafeEvent (.createDatabase d b)) :
    Inv config ⟨h.node.createDatabase d b, d :: h.databases, h.collections⟩ := by
  rcases hsafe with ⟨hd, hbare⟩
  refine hinv.change (a := (h.node.flusher.settled h.node.storage).create d b)
    (keyed_queueDatabase hinv.consistent.keyed d b)
    (scoped_queueDatabase hinv.inScope.queues d b)
    ((congrArg _ (image_queueDatabase hd b)).trans (flush_create _ _ b hbare))
    (hinv.agrees.create d b) hinv.numbered (fun d' => ?_) hinv.collections
  have hdatabase := hinv.databases d'
  by_cases hd' : d' = d
  · simp [Image.create, hd']
  · simpa [Image.create, hd'] using hdatabase

theorem Inv.removeDatabase (hinv : h.Inv config) {d : JsString} (hd : PlainName d) :
    Inv config ⟨h.node.removeDatabase d, h.databasesAfter (.removeDatabase d),
      h.collectionsAfter (.removeDatabase d)⟩ := by
  unfold Node.removeDatabase
  dsimp only
  split_ifs with hheard
  · refine hinv.change (a := (h.node.flusher.settled h.node.storage).drop d)
      (keyed_queueDatabaseDrop hinv.consistent.keyed d)
      (scoped_queueDatabaseDrop hinv.inScope.queues d)
      ((congrArg _ (image_queueDatabaseDrop hinv.consistent.keyed hd)).trans (flush_drop _ _ d))
      (hinv.agrees.drop d) (fun d' c op hop => ?_) (fun d' => ?_) fun d' c => ?_
    · by_cases hd' : d' = d
      · simp [Image.drop, hd'] at hop
      · exact hinv.numbered d' c op (by simpa only [Image.drop, if_neg hd'] using hop)
    · have hdatabase := hinv.databases d'
      by_cases hd' : d' = d
      · simp [databasesAfter, Image.drop, hd']
      · simpa [databasesAfter, Image.drop, hd'] using hdatabase
    · have hcollection := hinv.collections d' c
      by_cases hd' : d' = d
      · simp [collectionsAfter, Image.drop, hd']
      · simpa [collectionsAfter, Image.drop, hd'] using hcollection
  · -- the database was removed before, and nothing of it came since
    have hdeleted : h.node.memory.isDatabaseDeleted d = true := by
      rw [Bool.or_eq_true, not_or] at hheard
      simpa using hheard.2
    have habsent := hinv.agrees.tidy.database d hdeleted
    refine hinv.unheard (hinv.agrees.deleteAgain hdeleted) (fun d' => ?_) fun target => ?_
    · rw [databasesAfter, List.mem_filter, decide_eq_true_eq]
      refine and_iff_left_of_imp fun hmem hd' => ?_
      rcases Option.isSome_iff_exists.mp ((hinv.databases d').mp hmem) with ⟨b, hb⟩
      have hmeta := hinv.agrees.header d' b hb
      rw [hd', habsent] at hmeta
      cases hmeta
    · rw [collectionsAfter, List.mem_filter, decide_eq_true_eq]
      refine and_iff_left_of_imp fun hmem hd' => ?_
      rcases Option.isSome_iff_exists.mp ((hinv.collections target.1 target.2).mp hmem) with
        ⟨b, hb⟩
      have hthere : (h.node.memory.getCollection target.1 target.2).isSome = true := by
        rw [← isSome_iff_meta, hinv.agrees.partHeader _ _ b hb]
        rfl
      have hdatabase := hinv.agrees.tidy.inDatabase _ _ hthere
      rw [hd', habsent] at hdatabase
      cases hdatabase

/-! ## Collections -/

theorem Inv.setCollectionMeta (hinv : h.Inv config) {d c : JsString} (b : Json)
    (hsafe : h.SafeEvent (.setCollectionMeta d c b)) :
    Inv config ⟨h.node.setCollectionMeta d c b, h.databases,
      h.collectionsAfter (.setCollectionMeta d c b)⟩ := by
  rcases hsafe with ⟨hd, hc, hspared⟩
  by_cases hdeleted : h.node.memory.isDatabaseDeleted d = true
  · rw [Node.setCollectionMeta, Memory.setCollectionMeta_deleted hdeleted]
    have hagrees := hinv.agrees.revive (c := c) hd
    rw [reviveImage_of_not_partDead (hspared hdeleted)] at hagrees
    refine hinv.unheard hagrees (fun _ => Iff.rfl) fun target => ?_
    rw [collectionsAfter, if_pos hdeleted]
  · rw [Node.setCollectionMeta,
      Memory.setCollectionMeta_live (Bool.eq_false_iff.mpr hdeleted)]
    refine hinv.change (a := (h.node.flusher.settled h.node.storage).describe d c b)
      (keyed_queueMeta hinv.consistent.keyed hd hc b)
      (scoped_queueMeta hinv.inScope.queues d c b)
      ((congrArg _ (image_queueMeta hd hc b)).trans (flush_describe _ _ d c b))
      (hinv.agrees.describe hd hc (Bool.eq_false_iff.mpr hdeleted) b) hinv.numbered hinv.databases
      fun d' c' => ?_
    have hcollection := hinv.collections d' c'
    rw [collectionsAfter, if_neg hdeleted]
    by_cases heq : d' = d ∧ c' = c
    · simp [Image.describe, heq]
    · simpa only [Image.describe, List.mem_cons, Prod.mk.injEq, heq, false_or, if_false] using
        hcollection

theorem Inv.removeCollection (hinv : h.Inv config) {d c : JsString} (hd : PlainName d)
    (hc : PlainName c) :
    Inv config ⟨h.node.removeCollection d c, h.databases,
      h.collectionsAfter (.removeCollection d c)⟩ := by
  unfold Node.removeCollection
  dsimp only
  split_ifs with hheard
  · refine hinv.change (a := (h.node.flusher.settled h.node.storage).dropPart d c)
      (keyed_queueCollectionDrop hinv.consistent.keyed d c)
      (scoped_queueCollectionDrop hinv.inScope.queues d c)
      ((congrArg _ (image_queueCollectionDrop hd hc)).trans (flush_dropPart _ _ d c))
      (hinv.agrees.dropPart hd hc) (fun d' c' op hop => ?_) hinv.databases fun d' c' => ?_
    · by_cases heq : d' = d ∧ c' = c
      · simp [Image.dropPart, heq] at hop
      · exact hinv.numbered d' c' op (by simpa only [Image.dropPart, if_neg heq] using hop)
    · have hcollection := hinv.collections d' c'
      by_cases heq : d' = d ∧ c' = c
      · simp [collectionsAfter, Image.dropPart, heq]
      · simpa [collectionsAfter, Image.dropPart, heq] using hcollection
  · have hdeleted : h.node.memory.isCollectionDeleted d c = true := by
      rw [Bool.or_eq_true, not_or] at hheard
      simpa using hheard.2
    refine hinv.unheard (hinv.agrees.deletePartAgain hdeleted) (fun _ => Iff.rfl) fun target => ?_
    rw [collectionsAfter, List.mem_filter, decide_eq_true_eq]
    refine and_iff_left_of_imp fun hmem htarget => ?_
    subst htarget
    rcases Option.isSome_iff_exists.mp ((hinv.collections d c).mp hmem) with ⟨b, hb⟩
    have hmeta := hinv.agrees.partHeader d c b hb
    rw [Memory.getCollectionMeta, hinv.agrees.tidy.collection d c hdeleted] at hmeta
    cases hmeta

theorem Inv.openCollection (hinv : h.Inv config) {d c : JsString} (hd : PlainName d)
    (hc : PlainName c) :
    Inv config ⟨h.node.openCollection d c, h.databases, h.collections⟩ := by
  unfold Node.openCollection
  split_ifs with hdeleted
  · exact hinv
  · rw [Bool.or_eq_true, not_or, Bool.not_eq_true, Bool.not_eq_true] at hdeleted
    exact hinv.unheard (hinv.agrees.opened hd hc hdeleted.1 hdeleted.2) (fun _ => Iff.rfl)
      fun _ => Iff.rfl

/-! ## Operations -/

/-- One operation is applied and, if it was accepted, queued. -/
theorem Inv.applyOp (hinv : h.Inv config) {op : Op} (hop : PlainOp op) (hseq : 0 < op.seq) :
    Inv config ⟨⟨(h.node.memory.applyOp op).1,
      if (h.node.memory.applyOp op).2 then h.node.flusher.queueOp config op else h.node.flusher,
      h.node.storage⟩, h.databases, h.collections⟩ := by
  by_cases hdeleted : (h.node.memory.isDatabaseDeleted op.db ||
      h.node.memory.isCollectionDeleted op.db op.coll) = true
  · rw [Memory.applyOp_deleted _ hdeleted]
    exact hinv
  · rw [Memory.applyOp_live _ hdeleted]
    rw [Bool.or_eq_true, not_or, Bool.not_eq_true, Bool.not_eq_true] at hdeleted
    dsimp only
    split_ifs with haccepted
    · have hsettled := Flusher.settled_queueOp hinv.consistent hop
      refine
        { consistent := hinv.consistent.queueOp op
          inScope := hinv.inScope.queueOp hop
          journals := hinv.journals
          numbered := fun d c r hr => ?_
          agrees := ?_
          databases := fun d => hsettled ▸ hinv.databases d
          collections := fun d c => hsettled ▸ hinv.collections d c }
      · rw [hsettled] at hr
        rcases hr with ⟨-, -, rfl⟩ | hr
        · exact hseq
        · exact hinv.numbered d c r hr
      · rw [hsettled]
        exact hinv.agrees.record hop.scope.database hop.scope.collection hdeleted.1 hdeleted.2
          haccepted
    · have hsame : (Rows.arrive (h.node.memory.collectionOf op.db op.coll).rows op.id
          op.write).1 = (h.node.memory.collectionOf op.db op.coll).rows :=
        arrive_rejected (Bool.eq_false_iff.mpr haccepted)
      rw [hsame]
      exact hinv.unheard (hinv.agrees.opened hop.scope.database hop.scope.collection hdeleted.1
        hdeleted.2) (fun _ => Iff.rfl) fun _ => Iff.rfl

theorem Inv.applyOps {ops : List Op} (hinv : h.Inv config)
    (hops : ∀ op ∈ ops, PlainOp op ∧ 0 < op.seq) :
    Inv config ⟨h.node.applyOps config ops, h.databases, h.collections⟩ := by
  induction ops generalizing h with
  | nil => exact hinv
  | cons op ops ih =>
      rcases List.forall_mem_cons.mp hops with ⟨hop, hrest⟩
      have hstep := ih (hinv.applyOp hop.1 hop.2) hrest
      simp only [Node.applyOps, Memory.applyOps, Flusher.queueOps] at hstep ⊢
      split_ifs at hstep ⊢
      · exact hstep
      · exact hstep

/-! ## Runs -/

/-- A safe event keeps the agreement. -/
theorem Inv.step (hinv : h.Inv config) {e : Event} (hsafe : h.SafeEvent e) {next : History}
    (hstep : h.step config e = some next) : next.Inv config := by
  rcases Option.map_eq_some_iff.mp hstep with ⟨n, hn, rfl⟩
  cases e with
  | createDatabase d b =>
      cases hn
      exact hinv.createDatabase b hsafe
  | removeDatabase d =>
      cases hn
      exact hinv.removeDatabase hsafe
  | setCollectionMeta d c b =>
      cases hn
      exact hinv.setCollectionMeta b hsafe
  | removeCollection d c =>
      cases hn
      exact hinv.removeCollection hsafe.1 hsafe.2
  | openCollection d c =>
      cases hn
      exact hinv.openCollection hsafe.1 hsafe.2
  | applyOps ops =>
      cases hn
      exact hinv.applyOps hsafe
  | flush =>
      cases hn
      exact hinv.flushes hinv.consistent.flush hinv.inScope.flush hinv.journals
        Flusher.settled_flush
  | storageCall =>
      rw [Node.step] at hn
      split at hn
      · rename_i batch call calls htask
        cases hn
        have hcall := hinv.consistent.calls _ htask call List.mem_cons_self
        refine hinv.flushes (hinv.consistent.call htask) ⟨hinv.inScope.queues, ?_⟩
          (hinv.journals.apply (hinv.inScope.batch _ htask) hcall)
          (Flusher.settled_call hinv.consistent htask)
        rintro task ⟨⟩
        exact hinv.inScope.batch ⟨batch, call :: calls⟩ htask
      · cases hn
  | storageFails reached survives =>
      rw [Node.step] at hn
      split at hn
      · rename_i batch call calls htask
        cases hn
        -- the call may have reached the storage or not; its batch is queued again
        have hcall := hinv.consistent.calls _ htask call List.mem_cons_self
        have hbatch := hinv.inScope.batch _ htask
        exact hinv.flushes (hinv.consistent.fail htask _)
          ⟨scoped_requeue hinv.inScope.queues hbatch, nofun⟩
          (hinv.journals.applyPartly hbatch hcall reached survives)
          (Flusher.settled_fail hinv.consistent htask (hsafe _ htask) reached survives)
      · cases hn
  | flushEnds =>
      rw [Node.step] at hn
      split at hn
      · rename_i batch htask
        cases hn
        exact hinv.flushes hinv.consistent.ends ⟨hinv.inScope.queues, nofun⟩ hinv.journals
          (Flusher.settled_ends hinv.consistent htask)
      · cases hn

theorem run_inv {events : List Event} (hinv : h.Inv config) (hsafe : h.SafeRun config events)
    {last : History} (hrun : h.run config events = some last) : last.Inv config := by
  induction events generalizing h with
  | nil =>
      cases hrun
      exact hinv
  | cons e events ih =>
      rcases Option.bind_eq_some_iff.mp hrun with ⟨next, hnext, hrest⟩
      exact ih (hinv.step hsafe.1 hnext) (hsafe.2 next hnext) hrest

end

end History

end Persist
end ObjyDb
