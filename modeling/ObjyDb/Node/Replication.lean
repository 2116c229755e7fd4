import ObjyDb.Node.PullRuns
import ObjyDb.Store.Convergence

/-!
# Replication — nodes that have pulled everything agree

Nodes write, cut their logs behind acknowledgements and pull from each other, in any interleaving.
Timestamps are never used twice, as every node has a clock of its own, and the store of a node is
what the operations that arrived make of it.  A node whose cursors have come to the last operations
of all others returns for each object what the newest write of all nodes made of it.

- `System.Honest`: the invariant
- `System.caughtUp_agree`
-/

namespace ObjyDb

open Js Persist

/-- What the writer of an operation takes care of: names that the store can join, and a value that
is an object. -/
structure Op.Clean (op : Op) : Prop where
  names : Store.PlainNames op.db op.coll
  id : op.id ≠ []
  nodup : (Assoc.keys op.storedValue).Nodup

theorem Op.Clean.isOp {op : Op} (h : op.Clean) : CRDTNode.isOp op = true := by
  simp [CRDTNode.isOp, h.names.db_ne, h.names.coll_ne, h.id]

theorem Op.Clean.valid {vectorField : Option JsString} {op : Op} (h : op.Clean)
    (hvector : ValidVector vectorField op.storedValue) : op.Valid vectorField :=
  ⟨h.names.db_plain, h.names.coll_plain, h.nodup, hvector⟩

/-! ## Stores -/

namespace Store

variable {vectorField : Option JsString} {s t : Store} {ops ops' : List Op}

theorem Represents.congr (h : s.Represents vectorField ops)
    (hsame : ∀ db coll, newestWrites ops db coll = newestWrites ops' db coll) :
    s.Represents vectorField ops' :=
  ⟨h.field, h.databases, h.collections, fun db coll => hsame db coll ▸ h.holds db coll⟩

/-- Collections that are opened have no rows. -/
theorem Represents.like (h : s.Represents vectorField ops) (hlike : Like s t) :
    t.Represents vectorField ops where
  field := hlike.vectorField.trans h.field
  databases := hlike.grows.databases.trans h.databases
  collections := hlike.grows.collections.trans h.collections
  holds := by
    intro db coll
    rw [hlike.collectionOf]
    exact h.holds db coll

end Store

namespace CRDTNode

/-- The shard of an operation does not matter to the store. -/
theorem newestWrites_withShard (n : CRDTNode) (ops batch : List Op) (db coll : JsString) :
    newestWrites (ops ++ (batch.map fun op => { op with shard := some (n.shardOf op) }).filter isOp)
        db coll = newestWrites (ops ++ batch.filter isOp) db coll := by
  funext id
  rw [newestWrites, newestWrites, writesTo_append, writesTo_append]
  refine congrArg (fun writes => Lww.newest Write.ts (writesTo db coll id ops ++ writes)) ?_
  rw [writesTo, writesTo, List.filter_map, List.filter_map, List.map_map]
  rfl

theorem foldl_touchOp_name (ops : List Op) (clock : Clock) :
    (ops.foldl touchOp clock).n = clock.n := by
  induction ops generalizing clock with
  | nil => rfl
  | cons op ops ih =>
      rw [List.foldl_cons, ih, touchOp, touch]
      split_ifs <;> rfl

/-- A batch of a peer arrives at a store that has what arrived before. -/
theorem applyRemote_represents {n : CRDTNode} {vectorField : Option JsString} {arrived : List Op}
    (h : n.db.Represents vectorField (arrived.filter isOp)) {batch : List Op}
    (hvalid : ∀ op ∈ batch, op.Valid vectorField) (cursorKey : JsString) :
    (∃ count, (n.applyRemote batch cursorKey).2 = .ok count) ∧
      (n.applyRemote batch cursorKey).1.db.Represents vectorField
        ((arrived ++ batch).filter isOp) := by
  have hincoming : ∀ op ∈ (batch.map fun op => { op with shard := some (n.shardOf op) }).filter
      isOp, op.Valid vectorField := by
    intro op hop
    rcases List.mem_map.mp (List.mem_of_mem_filter hop) with ⟨sent, hsent, rfl⟩
    have hsentValid := hvalid sent hsent
    exact ⟨hsentValid.db, hsentValid.coll, hsentValid.nodup, hsentValid.vector⟩
  rcases Store.applyOps_represents h hincoming with ⟨s, applied, hresult, hrep⟩
  have happly : applyOps { n with clock := batch.foldl touchOp n.clock }
      (batch.map fun op => { op with shard := some (n.shardOf op) }) = (s, .ok applied) := hresult
  rw [applyRemote]
  dsimp only
  rw [happly]
  refine ⟨⟨_, rfl⟩, ?_⟩
  change (notifyOps _ applied).db.Represents vectorField _
  rw [notifyOps_db, List.filter_append]
  exact hrep.congr fun db coll => newestWrites_withShard n _ batch db coll

theorem applyRemote_clock (n : CRDTNode) (batch : List Op) (cursorKey : JsString) :
    (n.applyRemote batch cursorKey).1.clock = batch.foldl touchOp n.clock ∧
      (n.applyRemote batch cursorKey).1.operationLog = n.operationLog := by
  rw [applyRemote]
  dsimp only
  split
  · exact ⟨rfl, rfl⟩
  · refine ⟨notifyOps_clock _ _, ?_⟩
    change (notifyOps _ _).operationLog = _
    rw [notifyOps]
    split_ifs <;> rfl

theorem commitLocalOps_clock (n : CRDTNode) (ops : List Op) :
    (n.commitLocalOps ops).1.clock = n.clock ∧
      (n.commitLocalOps ops).1.operationLog = n.operationLog := by
  rw [commitLocalOps, logOps_eq]
  dsimp only
  cases (n.withLogged ops).applyOps (n.numbered ops) with
  | mk s result =>
      cases result with
      | error err => exact ⟨rfl, rfl⟩
      | ok applied =>
          refine ⟨notifyOps_clock _ _, ?_⟩
          change (notifyOps _ _).operationLog = _
          rw [notifyOps]
          split_ifs <;> rfl

/-- A commit makes of the store what its operations make of it. -/
theorem commitLocalOps_represents {n : CRDTNode} {vectorField : Option JsString}
    {arrived : List Op} (h : n.db.Represents vectorField (arrived.filter isOp)) {ops : List Op}
    (hvalid : ∀ op ∈ n.numbered ops, op.Valid vectorField) :
    (n.commitLocalOps ops).1.db.Represents vectorField
      ((arrived ++ n.numbered ops).filter isOp) := by
  have hincoming : ∀ op ∈ (n.numbered ops).filter isOp, op.Valid vectorField := fun op hop =>
    hvalid op (List.mem_of_mem_filter hop)
  rcases Store.applyOps_represents h hincoming with ⟨s, applied, hresult, hrep⟩
  have happly : (n.withLogged ops).applyOps (n.numbered ops) = (s, .ok applied) := hresult
  rw [commitLocalOps, logOps_eq]
  dsimp only
  rw [happly]
  change (notifyOps _ applied).db.Represents vectorField _
  rw [notifyOps_db, List.filter_append]
  exact hrep

/-- The operations of a commit have the timestamps they were drafted with. -/
theorem Stamps.numbered {before after : Clock} {ops : List Op} (h : Stamps before after ops)
    (n : CRDTNode) : Stamps before after (n.numbered ops) where
  ascending := by
    have hget := List.pairwise_iff_getElem.mp h.ascending
    rw [List.pairwise_iff_getElem]
    intro i j hi hj hij
    simp only [CRDTNode.numbered, List.getElem_mapIdx]
    exact hget i j (by simpa [CRDTNode.numbered] using hi) (by simpa [CRDTNode.numbered] using hj)
      hij
  named := by
    intro op hop
    rcases mem_numbered hop with ⟨drafted, hdrafted, shard, seq, rfl⟩
    exact h.named drafted hdrafted
  between := by
    intro op hop
    rcases mem_numbered hop with ⟨drafted, hdrafted, shard, seq, rfl⟩
    exact h.between drafted hdrafted

end CRDTNode

/-! ## Nodes -/

/-- The operations of a node have timestamps of its clock, and its store is what those that arrived
make of it. -/
structure NodeOk (vectorField : Option JsString) (id : JsString) (t : Traced) (arrived : List Op) :
    Prop where
  operationLog : t.replica.node.operationLog = true
  clockName : t.replica.node.clock.n = id
  ascending : t.history.Pairwise fun a b => a.ts.c < b.ts.c
  stamped : ∀ op ∈ t.history, op.ts.n = id ∧ op.ts.c ≤ t.replica.node.clock.c
  own : ∀ op ∈ t.history, op ∈ arrived
  vectors : ∀ op ∈ t.history, ValidVector vectorField op.storedValue
  store : t.replica.node.db.Represents vectorField (arrived.filter CRDTNode.isOp)

namespace NodeOk

variable {vectorField : Option JsString} {id : JsString} {t t' : Traced} {arrived : List Op}

/-- What has to do with the log and the cursors only. -/
theorem congr (h : NodeOk vectorField id t arrived) (hhistory : t'.history = t.history)
    (hlog : t'.replica.node.operationLog = t.replica.node.operationLog)
    (hclock : t'.replica.node.clock = t.replica.node.clock)
    (hdb : t'.replica.node.db = t.replica.node.db) : NodeOk vectorField id t' arrived where
  operationLog := hlog.trans h.operationLog
  clockName := hclock ▸ h.clockName
  ascending := hhistory ▸ h.ascending
  stamped := hhistory ▸ hclock ▸ h.stamped
  own := hhistory ▸ h.own
  vectors := hhistory ▸ h.vectors
  store := hdb ▸ h.store

/-- A write that throws. -/
theorem drafting (h : NodeOk vectorField id t arrived) {m : CRDTNode}
    (hdrafting : CRDTNode.Drafting t.replica.node m) (hsteady : CRDTNode.Steady t.replica.node m) :
    NodeOk vectorField id (t.withNode m) arrived where
  operationLog := hdrafting.operationLog.trans h.operationLog
  clockName := hsteady.clockName.trans h.clockName
  ascending := h.ascending
  stamped := fun op hop => ⟨(h.stamped op hop).1, (h.stamped op hop).2.trans hdrafting.clock⟩
  own := h.own
  vectors := h.vectors
  store := h.store.like hdrafting.like

/-- A write that is committed. -/
theorem committed (h : NodeOk vectorField id t arrived) {db coll : JsString} {m : CRDTNode}
    {ops : List Op} (hdrafting : CRDTNode.Drafting t.replica.node m)
    (hsteady : CRDTNode.Steady t.replica.node m)
    (hstamps : CRDTNode.Stamps t.replica.node.clock m.clock ops)
    (hops : ∀ op ∈ ops, CRDTNode.DraftedOn t.replica.node db coll op)
    (hclean : ∀ op ∈ m.numbered ops, op.Clean) :
    NodeOk vectorField id
      ⟨{ t.replica with node := (m.commitLocalOps ops).1 }, t.history ++ m.numbered ops,
        t.discarded⟩ (arrived ++ m.numbered ops) := by
  rcases m.commitLocalOps_clock ops with ⟨hclock, hlog⟩
  have hnumbered := hstamps.numbered m
  have hvectors : ∀ op ∈ m.numbered ops, ValidVector vectorField op.storedValue := by
    intro op hop
    rcases CRDTNode.mem_numbered hop with ⟨drafted, hdrafted, shard, seq, rfl⟩
    have hvector := (hops drafted hdrafted).vector
    rw [(h.store.holds db coll).field] at hvector
    exact hvector
  refine ⟨?_, ?_, ?_, ?_, ?_, ?_, ?_⟩
  · exact hlog.trans (hdrafting.operationLog.trans h.operationLog)
  · change (m.commitLocalOps ops).1.clock.n = id
    rw [hclock, hsteady.clockName, h.clockName]
  · refine List.pairwise_append.mpr ⟨h.ascending, hnumbered.ascending, ?_⟩
    intro a ha b hb
    exact (h.stamped a ha).2.trans_lt (hnumbered.between b hb).1
  · intro op hop
    change op.ts.n = id ∧ op.ts.c ≤ (m.commitLocalOps ops).1.clock.c
    rw [hclock]
    rcases List.mem_append.mp hop with hold | hnew
    · exact ⟨(h.stamped op hold).1, (h.stamped op hold).2.trans hdrafting.clock⟩
    · exact ⟨(hnumbered.named op hnew).trans h.clockName, (hnumbered.between op hnew).2⟩
  · intro op hop
    rcases List.mem_append.mp hop with hold | hnew
    · exact List.mem_append_left _ (h.own op hold)
    · exact List.mem_append_right _ hnew
  · intro op hop
    rcases List.mem_append.mp hop with hold | hnew
    · exact h.vectors op hold
    · exact hvectors op hnew
  · exact CRDTNode.commitLocalOps_represents (h.store.like hdrafting.like) fun op hop =>
      (hclean op hop).valid (hvectors op hop)

/-- A batch of a peer arrives. -/
theorem receive (h : NodeOk vectorField id t arrived) {batch : List Op}
    (hvalid : ∀ op ∈ batch, op.Valid vectorField) (cursorKey : JsString) :
    (∃ count, (t.replica.node.applyRemote batch cursorKey).2 = .ok count) ∧
      NodeOk vectorField id (t.withNode (t.replica.node.applyRemote batch cursorKey).1)
        (arrived ++ batch) := by
  rcases CRDTNode.applyRemote_represents h.store hvalid cursorKey with ⟨hok, hstore⟩
  rcases t.replica.node.applyRemote_clock batch cursorKey with ⟨hclock, hlog⟩
  refine ⟨hok, hlog.trans h.operationLog, ?_, h.ascending, ?_, ?_, h.vectors, hstore⟩
  · change (t.replica.node.applyRemote batch cursorKey).1.clock.n = id
    rw [hclock, CRDTNode.foldl_touchOp_name, h.clockName]
  · intro op hop
    change op.ts.n = id ∧ op.ts.c ≤ (t.replica.node.applyRemote batch cursorKey).1.clock.c
    rw [hclock]
    exact ⟨(h.stamped op hop).1,
      (h.stamped op hop).2.trans (CRDTNode.foldl_touchOp batch _).1⟩
  · exact fun op hop => List.mem_append_left _ (h.own op hop)

end NodeOk

/-! ## The system -/

/-- Writes, cuts of the log and pulls. -/
def SystemEvent.pulling : SystemEvent → Bool
  | .replica _ (.node (.write _ _ _)) => true
  | .replica _ (.receiveAck _ _ _) => true
  | .replica _ (.replaceShardMap _) => true
  | .replica _ _ => false
  | .catchUp _ _ _ _ _ _ _ => false
  | _ => true

namespace System

variable {net : Network} {vectorField : Option JsString} {s s' : System}

/-- Some node has logged the operation. -/
def Written (s : System) (op : Op) : Prop :=
  ∃ id, op ∈ (s.nodes id).history

/-- All operations are such as writers make them. -/
def Clean (s : System) : Prop :=
  ∀ op, s.Written op → op.Clean

/-- Nodes are what arrived at them, nothing arrives that was not written, and nothing is thrown
away with a collection. -/
structure Honest (net : Network) (vectorField : Option JsString) (s : System) : Prop where
  nodes : ∀ id, NodeOk vectorField id (s.nodes id) (s.arrived id)
  written : ∀ id, ∀ op ∈ s.arrived id, s.Written op
  sent : ∀ p ∈ s.pulls, ∀ a, p.answer = some a → ∀ op ∈ a.ops, s.Written op
  discarded : ∀ id, (s.nodes id).discarded = []

theorem Honest.valid (h : s.Honest net vectorField) (hclean : s.Clean) {op : Op}
    (hop : s.Written op) : op.Valid vectorField := by
  rcases hop with ⟨id, hid⟩
  exact (hclean op ⟨id, hid⟩).valid ((h.nodes id).vectors op hid)

/-- A step changes pulls only, and their operations were written. -/
theorem Honest.withPulls (h : s.Honest net vectorField) {pulls : List Pull}
    (hpulls : ∀ p ∈ pulls, p ∈ s.pulls ∨
      ∀ a, p.answer = some a → ∀ op ∈ a.ops, s.Written op) :
    ({ s with pulls } : System).Honest net vectorField where
  nodes := h.nodes
  written := h.written
  sent := by
    intro p hp a ha op hop
    rcases hpulls p hp with hold | hnew
    · exact h.sent p hold a ha op hop
    · exact hnew a ha op hop
  discarded := h.discarded

/-- A node and what arrived at it change, and pulls. -/
theorem Honest.withNode (h : s.Honest net vectorField) {id : JsString} {n : CRDTNode}
    {ops : List Op} {pulls : List Pull}
    (hnode : NodeOk vectorField id ((s.nodes id).withNode n) (s.arrived id ++ ops))
    (hops : ∀ op ∈ ops, s.Written op) (hpulls : ∀ p ∈ pulls, p ∈ s.pulls ∨
      ∀ a, p.answer = some a → ∀ op ∈ a.ops, s.Written op) :
    ({ s.withNode id n ops with pulls } : System).Honest net vectorField := by
  have hsame : ∀ op, s.Written op → (s.withNode id n ops).Written op := by
    rintro op ⟨source, hop⟩
    refine ⟨source, ?_⟩
    rw [withNode_nodes]
    split_ifs with hid
    · rw [hid] at hop
      exact hop
    · exact hop
  refine ⟨?_, ?_, ?_, ?_⟩
  · intro id'
    change NodeOk vectorField id' ((s.withNode id n ops).nodes id')
      ((s.withNode id n ops).arrived id')
    rw [withNode_nodes, withNode_arrived]
    split_ifs with hid
    · rw [hid]
      exact hnode
    · exact h.nodes id'
  · intro id' op hop
    change op ∈ (s.withNode id n ops).arrived id' at hop
    rw [withNode_arrived] at hop
    refine hsame op ?_
    split_ifs at hop with hid
    · rcases List.mem_append.mp hop with hold | hnew
      · exact h.written id op hold
      · exact hops op hnew
    · exact h.written id' op hop
  · intro p hp a ha op hop
    refine hsame op ?_
    rcases hpulls p hp with hold | hnew
    · exact h.sent p hold a ha op hop
    · exact hnew a ha op hop
  · intro id'
    change ((s.withNode id n ops).nodes id').discarded = []
    rw [withNode_nodes]
    split_ifs
    · exact h.discarded id
    · exact h.discarded id'

/-! ### Steps -/

/-- An answer has operations of the log of its node. -/
theorem written_opsAfter (hsound : s.Sound net) (source : JsString) (after : ℚ) (limit : ℕ)
    (scope : Option Scope) :
    ∀ op ∈ (s.nodes source).replica.opsAfter after limit scope, s.Written op := by
  intro op hop
  refine ⟨source, (hsound.kept source).log.subset ?_⟩
  rw [Replica.opsAfter] at hop
  split_ifs at hop
  · exact List.mem_of_mem_filter hop
  · exact List.mem_of_mem_filter (List.mem_of_mem_take hop)

theorem Honest.serveStep (h : s.Honest net vectorField) (hsound : s.Sound net) (i : ℕ) {p : Pull}
    (hp : p ∈ s.pulls) : (s.serveStep net i p).Honest net vectorField := by
  rw [System.serveStep]
  dsimp only
  split_ifs
  · refine h.withPulls fun q hq => ?_
    rcases List.mem_or_eq_of_mem_set hq with hold | rfl
    · exact Or.inl hold
    · exact Or.inr (h.sent p hp)
  · refine h.withPulls ?_
    intro q hq
    rcases List.mem_or_eq_of_mem_set hq with hold | rfl
    · exact Or.inl hold
    · refine Or.inr ?_
      intro a ha op hop
      cases ha
      exact written_opsAfter hsound _ _ _ _ op hop

theorem Honest.lookStep (h : s.Honest net vectorField) (hsound : s.Sound net) (i : ℕ) {p : Pull}
    {a : Answer} (hp : p ∈ s.pulls) (ha : p.answer = some a) :
    (s.lookStep net i p a).Honest net vectorField := by
  rw [System.lookStep]
  refine h.withPulls ?_
  intro q hq
  rcases List.mem_or_eq_of_mem_set hq with hold | rfl
  · exact Or.inl hold
  · refine Or.inr ?_
    intro b hb op hop
    cases hb
    rcases List.mem_append.mp hop with hold | hmore
    · exact h.sent p hp a ha op hold
    · exact written_opsAfter hsound _ _ _ _ op hmore

theorem Honest.bindStep (h : s.Honest net vectorField) (p : Pull) :
    (s.bindStep net p).Honest net vectorField := by
  rcases (s.node p.reader).bindPeer_eq (net.nodeAt p.peerKey) p.peerKey with ⟨lastSeen, hbind⟩
  rw [System.bindStep, hbind]
  refine h.withNode ?_ (by simp) fun q hq => Or.inl hq
  rw [List.append_nil]
  exact (h.nodes p.reader).congr rfl rfl rfl rfl

theorem Honest.receiveStep (h : s.Honest net vectorField) (hclean : s.Clean) (i count : ℕ)
    {p : Pull} {a : Answer} (hp : p ∈ s.pulls) (ha : p.answer = some a) :
    (s.receiveStep net i p a count).Honest net vectorField := by
  have hwritten : ∀ op ∈ a.ops, s.Written op := h.sent p hp a ha
  have hbatch : ∀ op ∈ a.ops.take count, s.Written op := fun op hop =>
    hwritten op (List.mem_of_mem_take hop)
  rcases (h.nodes p.reader).receive (fun op hop => h.valid hclean (hbatch op hop)) (p.cursor net)
    with ⟨⟨applied, hok⟩, hnode⟩
  rw [System.receiveStep]
  dsimp only
  change ((s.node p.reader).applyRemote (a.ops.take count) (p.cursor net)).2 = .ok applied at hok
  rw [hok]
  refine h.withNode hnode hbatch ?_
  intro q hq
  rcases List.mem_or_eq_of_mem_set hq with hold | rfl
  · exact Or.inl hold
  · refine Or.inr ?_
    intro b hb op hop
    cases hb
    exact hwritten op (List.mem_of_mem_drop hop)

theorem Honest.finishStep (h : s.Honest net vectorField) (i : ℕ) (p : Pull) (a : Answer) :
    (s.finishStep net i p a).Honest net vectorField := by
  have herase : ∀ q ∈ s.pulls.eraseIdx i, q ∈ s.pulls ∨
      ∀ a, q.answer = some a → ∀ op ∈ a.ops, s.Written op := fun q hq =>
    Or.inl (List.mem_of_mem_eraseIdx hq)
  rw [System.finishStep]
  by_cases hreceived : a.received = true
  · rw [if_pos hreceived]
    exact h.withPulls herase
  · rw [if_neg hreceived]
    refine h.withNode ?_ (by simp) herase
    rw [List.append_nil]
    exact (h.nodes p.reader).congr rfl rfl rfl rfl

/-- A write, a cut of the log or a new shard map. -/
theorem NodeOk.step {id : JsString} {t t' : Traced} {arrived : List Op} {e : ReplicaEvent}
    (h : NodeOk vectorField id t arrived) (hkept : t.Kept)
    (he : (SystemEvent.replica id e).pulling = true) (hstep : t.step e = some t')
    (hclean : ∀ op ∈ t'.history, op.Clean) :
    NodeOk vectorField id t'
      (arrived ++ CRDTNode.logged t.replica.node t'.replica.node) ∧
      t'.discarded = t.discarded := by
  rw [Traced.step] at hstep
  rcases Option.map_eq_some_iff.mp hstep with ⟨r, hr, rfl⟩
  cases e with
  | node e =>
      cases e with
      | write db coll w =>
          cases hr
          refine ⟨?_, List.append_nil _⟩
          have hcommit := w.apply_committed t.replica.node db coll
          dsimp only [CRDTNode.Event.step] at hclean ⊢
          generalize w.apply t.replica.node db coll = result at hcommit hclean
          cases hcommit with
          | thrown hdrafting hsteady =>
              have hnil := hkept.logged_nil (n := _) fun op hop => hdrafting.log ▸ hop
              rw [hnil, List.append_nil, List.append_nil]
              exact (h.drafting hdrafting hsteady).congr rfl rfl rfl rfl
          | @committed m ops hdrafting hsteady hstamps hops =>
              -- what comes to the log is what is committed
              have hlogged : CRDTNode.logged t.replica.node (m.commitLocalOps ops).1 =
                  m.numbered ops := by
                have happends := (CRDTNode.commitLocalOps_appends hdrafting ops).logged_eq
                  hkept.log_bound
                rw [(m.commitLocalOps_log ops).1, CRDTNode.withLogged] at happends
                dsimp only at happends
                rw [if_pos (hdrafting.operationLog.trans h.operationLog), hdrafting.log]
                  at happends
                exact (List.append_cancel_left happends).symm
              rw [hlogged] at hclean ⊢
              exact (h.committed hdrafting hsteady hstamps hops fun op hop =>
                hclean op (List.mem_append_right _ hop)).congr rfl rfl rfl rfl
      | _ => cases he
  | removeDatabase db => cases he
  | removeCollection db coll => cases he
  | receiveAck peerNodeId after scope =>
      cases hr
      have hnil := hkept.logged_nil (Traced.receiveAck_subset _ peerNodeId after scope)
      rcases t.replica.receiveAck_node peerNodeId after scope with ⟨log, hnode⟩
      dsimp only
      rw [hnil, List.append_nil, List.append_nil]
      refine ⟨h.congr rfl ?_ ?_ ?_, List.append_nil _⟩
      all_goals
        dsimp only
        rw [hnode]
  | replaceShardMap shards =>
      cases hr
      have hnil := hkept.logged_nil (n := { t.replica.node with shards }) fun op hop => hop
      dsimp only
      rw [hnil, List.append_nil, List.append_nil]
      exact ⟨h.congr rfl rfl rfl rfl, List.append_nil _⟩

theorem Honest.replicaStep (h : s.Honest net vectorField) (hsound : s.Sound net) {id : JsString}
    {e : ReplicaEvent} (he : (SystemEvent.replica id e).pulling = true) {t : Traced}
    (ht : (s.nodes id).step e = some t) (hclean : (s.withReplica net id t).Clean) :
    (s.withReplica net id t).Honest net vectorField := by
  have hcontinues := Traced.continues_of_step ht
  have hnodes : ∀ id', Function.update s.nodes id t id' = if id' = id then t else s.nodes id' :=
    Function.update_apply s.nodes id t
  -- what was written stays in the history of its writer
  have hwritten : ∀ op, s.Written op → ∃ id', op ∈ (Function.update s.nodes id t id').history := by
    rintro op ⟨source, hop⟩
    refine ⟨source, ?_⟩
    rw [hnodes]
    split_ifs with hid
    · rw [hcontinues.history]
      exact List.mem_append_left _ (hid ▸ hop)
    · exact hop
  have hlogged : ∀ op ∈ CRDTNode.logged (s.node id) t.replica.node,
      ∃ id', op ∈ (Function.update s.nodes id t id').history := by
    intro op hop
    refine ⟨id, ?_⟩
    rw [hnodes, if_pos rfl, hcontinues.history]
    exact List.mem_append_right _ hop
  rcases NodeOk.step (h.nodes id) (hsound.kept id) he ht (by
    intro op hop
    refine hclean op ⟨id, ?_⟩
    change op ∈ (Function.update s.nodes id t id).history
    rwa [hnodes, if_pos rfl]) with ⟨hnode, hdiscarded⟩
  refine ⟨?_, ?_, ?_, ?_⟩
  · intro id'
    change NodeOk vectorField id' (Function.update s.nodes id t id')
      (Function.update s.arrived id _ id')
    rw [hnodes, Function.update_apply]
    split_ifs with hid
    · rw [hid]
      exact hnode
    · exact h.nodes id'
  · intro id' op hop
    change op ∈ Function.update s.arrived id _ id' at hop
    rw [Function.update_apply] at hop
    split_ifs at hop with hid
    · rcases List.mem_append.mp hop with hold | hnew
      · exact hwritten op (h.written id op hold)
      · exact hlogged op hnew
    · exact hwritten op (h.written id' op hop)
  · -- a pull of the node may have been detached, but its answer is the same
    intro p hp a ha op hop
    refine hwritten op ?_
    rw [withReplica] at hp
    dsimp only at hp
    split_ifs at hp
    · exact h.sent p hp a ha op hop
    · rcases List.mem_map.mp hp with ⟨q, hq, rfl⟩
      rw [Pull.detach] at ha
      split_ifs at ha
      · rcases Option.map_eq_some_iff.mp ha with ⟨b, hb, rfl⟩
        exact h.sent q hq b hb op hop
      · exact h.sent q hq a ha op hop
  · intro id'
    change (Function.update s.nodes id t id').discarded = []
    rw [hnodes]
    split_ifs
    · rw [hdiscarded]
      exact h.discarded id
    · exact h.discarded id'

/-! ### Runs -/

/-- The history of a node is its own: only its own steps go on with it. -/
theorem history_step {e : SystemEvent} (hstep : s.step net e = some s') (id : JsString) :
    (s'.nodes id).history = (s.nodes id).history ∨
      ∃ e', e = .replica id e' ∧ Traced.Continues (s.nodes id) (s'.nodes id) := by
  rcases nodes_step hstep id with hsame | ⟨e', he, -, hstep'⟩ | ⟨n, hnode, -⟩
  · exact Or.inl (congrArg Traced.history hsame)
  · exact Or.inr ⟨e', he, Traced.continues_of_step hstep'⟩
  · rw [hnode]
    exact Or.inl rfl

/-- What was written stays written. -/
theorem written_step {e : SystemEvent} (hstep : s.step net e = some s') {op : Op}
    (hop : s.Written op) : s'.Written op := by
  rcases hop with ⟨id, hop⟩
  refine ⟨id, ?_⟩
  rcases history_step hstep id with hsame | ⟨e', -, hcontinues⟩
  · rw [hsame]
    exact hop
  · rw [hcontinues.history]
    exact List.mem_append_left _ hop

theorem Honest.step (h : s.Honest net vectorField) (hsound : s.Sound net) {e : SystemEvent}
    (he : e.pulling = true) (hstep : s.step net e = some s') (hclean : s'.Clean) :
    s'.Honest net vectorField := by
  have hbefore : s.Clean := fun op hop => hclean op (written_step hstep hop)
  cases took_of_step hstep with
  | replica _ ht => exact h.replicaStep hsound he ht hclean
  | pull hpull =>
      rw [System.pullStep] at hpull
      split_ifs at hpull
      cases hpull
      refine h.withPulls ?_
      intro p hp
      rcases List.mem_append.mp hp with hold | hnew
      · exact Or.inl hold
      · rw [List.mem_singleton.mp hnew]
        exact Or.inr (by simp)
  | serve hp => exact h.serveStep hsound _ hp
  | look hp ha _ => exact h.lookStep hsound _ hp ha
  | bind hp => exact h.bindStep _
  | receive hp ha _ => exact h.receiveStep hbefore _ _ hp ha
  | finish hp ha _ => exact h.finishStep _ _ _
  | abandon i => exact h.withPulls fun q hq => Or.inl (List.mem_of_mem_eraseIdx hq)
  | catchUp _ => cases he

theorem honest_start {config : JsString → NodeConfig} (hlog : ∀ id, (config id).operationLog = true)
    (hclock : ∀ id, (config id).clock.n = id)
    (hfield : ∀ id, (config id).vectorField = vectorField) :
    (start config).Honest net vectorField where
  nodes := by
    intro id
    refine ⟨hlog id, hclock id, .nil, by simp [start, Traced.new], by simp [start, Traced.new],
      by simp [start, Traced.new], ?_⟩
    have hnew := Store.represents_new (config id).vectorField (config id).compression
    rw [hfield] at hnew
    change (Store.new (config id).vectorField (config id).compression).Represents _ _
    rw [hfield]
    exact hnew
  written := by
    intro id op hop
    cases hop
  sent := by
    intro p hp
    cases hp
  discarded := fun _ => rfl

theorem runs_honest {config : JsString → NodeConfig}
    (hlog : ∀ id, (config id).operationLog = true) (hclock : ∀ id, (config id).clock.n = id)
    (hfield : ∀ id, (config id).vectorField = vectorField) {events : List SystemEvent}
    (h : Runs (step net) (start config) events s) (hevents : ∀ e ∈ events, e.pulling = true)
    (hclean : s.Clean) : s.Honest net vectorField := by
  have hrun : ∀ (s₀ : System), s₀.Sound net → (s₀.Clean → s₀.Honest net vectorField) →
      Runs (step net) s₀ events s → s.Honest net vectorField := by
    clear h
    induction events with
    | nil =>
        intro s₀ _ hhonest h
        cases h
        exact hhonest hclean
    | cons e events ih =>
        intro s₀ hsound hhonest h
        cases h with
        | @cons _ s₁ _ _ _ hstep hrest =>
            refine ih (fun e he => hevents e (List.mem_cons_of_mem _ he)) s₁ (hsound.step hstep)
              ?_ hrest
            intro hclean₁
            have hclean₀ : s₀.Clean := fun op hop => hclean₁ op (written_step hstep hop)
            exact (hhonest hclean₀).step hsound (hevents e List.mem_cons_self) hstep hclean₁
  exact hrun _ (sound_start net config) (fun _ => honest_start hlog hclock hfield) h

/-! ## Agreement -/

/-- A cursor of the node has come to every operation of every other node. -/
def CaughtUp (net : Network) (s : System) (reader : JsString) : Prop :=
  ∀ source, source ≠ reader → ∀ op ∈ (s.nodes source).history,
    ∃ key ∈ net.peerKeys, net.nodeAt key = source ∧ ∃ scope ∈ net.scopes,
      (s.nodes source).Wanted scope op ∧ op.seq ≤ (s.node reader).seen (peerCursorKey key scope)

theorem CaughtUp.mem_arrived {reader : JsString} (h : s.CaughtUp net reader)
    (hsound : s.Sound net) (hhonest : s.Honest net vectorField) {op : Op} :
    op ∈ s.arrived reader ↔ s.Written op := by
  constructor
  · exact hhonest.written reader op
  · rintro ⟨source, hop⟩
    by_cases hsource : source = reader
    · exact (hhonest.nodes reader).own op (hsource ▸ hop)
    · rcases h source hsource op hop with ⟨key, hkey, rfl, scope, hscope, hwanted, hle⟩
      exact (hsound.has_seen reader hkey hscope).2 op hwanted hle

/-- No two writes have one timestamp: nodes have clocks of their own. -/
theorem Honest.coherent (h : s.Honest net vectorField) (hclean : s.Clean) :
    Coherent vectorField s.Written where
  valid := fun hop => h.valid hclean hop
  unique := by
    rintro a b ⟨source, ha⟩ ⟨source', hb⟩ _ _ _ hts
    have hnode := h.nodes source
    have hname := ((hnode.stamped a ha).1.symm.trans (congrArg Ts.n hts)).trans
      ((h.nodes source').stamped b hb).1
    rw [← hname] at hb
    -- of two operations of one node, the later one has the later timestamp
    have hget := List.pairwise_iff_getElem.mp hnode.ascending
    rcases List.mem_iff_getElem.mp ha with ⟨i, hi, rfl⟩
    rcases List.mem_iff_getElem.mp hb with ⟨j, hj, rfl⟩
    rcases lt_trichotomy i j with hlt | rfl | hlt
    · exact absurd (congrArg Ts.c hts) (hget i j hi hj hlt).ne
    · rfl
    · exact absurd (congrArg Ts.c hts) (hget j i hj hi hlt).ne'

/-- A node that everything has come to is what the newest write of all nodes makes of it. -/
theorem Honest.read (h : s.Honest net vectorField) (hclean : s.Clean) {reader : JsString}
    (hreader : ∀ op, s.Written op → op ∈ s.arrived reader) {ops : List Op}
    (hops : ∀ op, op ∈ ops ↔ s.Written op) (db coll id : JsString) :
    (s.node reader).db.read db coll id =
      Collection.shown vectorField id (newestWrites ops db coll id) := by
  have hstore := (h.nodes reader).store
  have hall : (s.arrived reader).filter CRDTNode.isOp = s.arrived reader :=
    List.filter_eq_self.mpr fun op hop => (hclean op (h.written reader op hop)).isOp
  rw [hall] at hstore
  have hsame : ∀ op, op ∈ s.arrived reader ↔ op ∈ ops := fun op =>
    ⟨fun hop => (hops op).mpr (h.written reader op hop), fun hop => hreader op ((hops op).mp hop)⟩
  have hnewest : newestWrites (s.arrived reader) db coll id = newestWrites ops db coll id := by
    refine Lww.newest_congr Write.ts (unique_writesTo (h.coherent hclean) (h.written reader) db coll
      id) fun w => ?_
    simp only [writesTo, List.mem_map, List.mem_filter, hsame]
  rw [← hnewest]
  exact hstore.read db coll id

theorem Honest.read_effect_iff (h : s.Honest net vectorField) (hclean : s.Clean)
    {reader : JsString} (hreader : ∀ op, s.Written op → op ∈ s.arrived reader) {ops : List Op}
    (hops : ∀ op, op ∈ ops ↔ s.Written op) (db coll id : JsString) :
    (s.node reader).db.read db coll id =
        Store.effect vectorField id (newestWrites ops db coll id) ↔
      Store.NoProtoField vectorField (newestWrites ops db coll id) := by
  rw [h.read hclean hreader hops]
  exact Store.shown_eq_effect_iff id fun w value hw hvalue =>
    Store.nodup_newestWrites (h.coherent hclean) (fun op hop => (hops op).mp hop) hw hvalue

/-- Nodes that everything has come to return the same objects. -/
theorem Honest.agree (h : s.Honest net vectorField) (hclean : s.Clean) {reader reader' : JsString}
    (hreader : ∀ op, s.Written op → op ∈ s.arrived reader)
    (hreader' : ∀ op, s.Written op → op ∈ s.arrived reader') (db coll id : JsString) :
    (s.node reader).db.read db coll id = (s.node reader').db.read db coll id := by
  have hops : ∀ op, op ∈ s.arrived reader ↔ s.Written op := fun op =>
    ⟨h.written reader op, hreader op⟩
  rw [h.read hclean hreader hops, h.read hclean hreader' hops]

/-- A node that takes no steps of its own has no history. -/
theorem history_of_idle {events : List SystemEvent} (h : Runs (step net) s events s')
    {id : JsString} (hidle : ∀ e ∈ events, ∀ e', e ≠ .replica id e') :
    (s'.nodes id).history = (s.nodes id).history := by
  induction h with
  | nil => rfl
  | cons hstep _ ih =>
      rw [ih fun e he => hidle e (List.mem_cons_of_mem _ he)]
      rcases history_step hstep id with hsame | ⟨e', heq, -⟩
      · exact hsame
      · exact absurd heq (hidle _ List.mem_cons_self e')

/-- Who writes has taken a step. -/
theorem writer_of_runs {config : JsString → NodeConfig} {events : List SystemEvent}
    (h : Runs (step net) (start config) events s) {ids : List JsString}
    (hids : ∀ id e, SystemEvent.replica id e ∈ events → id ∈ ids) {id : JsString} {op : Op}
    (hop : op ∈ (s.nodes id).history) : id ∈ ids := by
  by_contra hother
  rw [history_of_idle h fun e he e' heq => hother (hids id e' (heq ▸ he))] at hop
  cases hop

/-- Two nodes write, and pull from each other at the same time. -/
def pullsBothWays : List SystemEvent :=
  [.replica (js "a") (.node (.write (js "d") (js "c") (.insert (fun _ => js "x") [none]))),
    .replica (js "b") (.node (.write (js "d") (js "c") (.insert (fun _ => js "y") [none]))),
    .pull (js "b") (js "a") none 0, .pull (js "a") (js "b") none 0, .serve 0, .serve 1,
    .receive 0 1, .receive 1 1, .finish 0, .finish 0]

/-- The system after the events. -/
def pulledBothWays : System :=
  pullsBothWays.foldl (fun s e => (s.step twoNodes e).getD s) (start plainConfig)

theorem runs_pulledBothWays :
    Runs (step twoNodes) (start plainConfig) pullsBothWays pulledBothWays :=
  .cons rfl (.cons rfl (.cons rfl (.cons rfl (.cons rfl (.cons rfl (.cons rfl (.cons rfl
    (.cons rfl (.cons rfl (.nil _))))))))))

theorem writer_pulledBothWays {id : JsString} {op : Op}
    (hop : op ∈ (pulledBothWays.nodes id).history) : id = js "a" ∨ id = js "b" := by
  have hwriter : id ∈ [js "a", js "b"] := by
    refine writer_of_runs runs_pulledBothWays ?_ hop
    intro id e he
    simp only [pullsBothWays, List.mem_cons, SystemEvent.replica.injEq, reduceCtorEq, List.not_mem_nil,
      or_false, false_or] at he
    rcases he with ⟨rfl, -⟩ | ⟨rfl, -⟩ <;> simp
  simpa using hwriter

theorem caughtUp_pulledBothWays {reader : JsString} (hreader : reader = js "a" ∨ reader = js "b") :
    pulledBothWays.CaughtUp twoNodes reader := by
  intro source hne op hop
  rcases writer_pulledBothWays hop with rfl | rfl <;> rcases hreader with rfl | rfl
  · exact absurd rfl hne
  · refine ⟨js "a", by decide, rfl, none, by decide, ⟨hop, rfl, List.not_mem_nil⟩, ?_⟩
    revert op
    decide +kernel
  · refine ⟨js "b", by decide, rfl, none, by decide, ⟨hop, rfl, List.not_mem_nil⟩, ?_⟩
    revert op
    decide +kernel
  · exact absurd rfl hne

theorem clean_pulledBothWays : pulledBothWays.Clean := by
  rintro op ⟨id, hop⟩
  have hall : ∀ id ∈ [js "a", js "b"], ∀ op ∈ (pulledBothWays.nodes id).history,
      (op.db ≠ [] ∧ op.coll ≠ [] ∧ (0 : CodeUnit) ∉ op.db ∧ (0 : CodeUnit) ∉ op.coll) ∧
        op.id ≠ [] ∧ (Assoc.keys op.storedValue).Nodup := by decide +kernel
  rcases hall id (by simpa using writer_pulledBothWays hop) op hop with
    ⟨⟨hdb, hcoll, hdb', hcoll'⟩, hid, hnodup⟩
  exact ⟨⟨hdb, hcoll, hdb', hcoll'⟩, hid, hnodup⟩

end System
end ObjyDb
