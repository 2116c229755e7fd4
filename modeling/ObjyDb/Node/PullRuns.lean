import ObjyDb.Node.Pulling

/-!
# PullRuns — cursors are never ahead of what arrived

Whatever the order in which nodes write, cut their logs, answer, stream, read and break off: every
operation of a peer up to the cursor of a node has arrived at that node.  No operation is skipped.

- `System.Has`: a node has all of a peer up to a number
- `System.Sound`: the invariant, over the cursors and over the pulls under way
- `System.cursors_sound`
-/

namespace ObjyDb

open Js Persist

/-! ## Cursor keys of a node -/

namespace CRDTNode

theorem advance_cases {n : CRDTNode} {key key' : JsString} {seen k : ℕ}
    (h : Assoc.get? (n.advance key seen).lastSeen key' = some k) :
    (key = key' ∧ k = max (n.seen key) seen) ∨ Assoc.get? n.lastSeen key' = some k := by
  rw [advance, Assoc.get?_set] at h
  split_ifs at h with hkey
  · exact Or.inl ⟨hkey, (Option.some.inj h).symm⟩
  · exact Or.inr h

theorem bindPeer_cases {n : CRDTNode} {nodeId previousKey key : JsString} {k : ℕ}
    (h : Assoc.get? (n.bindPeer nodeId previousKey).lastSeen key = some k) :
    (key = nodeId ∧ ∃ previous, Assoc.get? n.lastSeen previousKey = some previous ∧
        k = max (n.seen nodeId) previous) ∨
      Assoc.get? n.lastSeen key = some k := by
  rw [bindPeer] at h
  split_ifs at h with hsame
  · exact Or.inr h
  · cases hprevious : Assoc.get? n.lastSeen previousKey with
    | none =>
        rw [hprevious] at h
        exact Or.inr h
    | some previous =>
        rw [hprevious] at h
        dsimp only at h
        rw [Assoc.get?_erase, Assoc.get?_set] at h
        split_ifs at h with hprev hnode
        · exact Or.inl ⟨hnode.symm, previous, rfl, (Option.some.inj h).symm⟩
        · exact Or.inr h

/-- Only cursors are set. -/
theorem bindPeer_eq (n : CRDTNode) (nodeId previousKey : JsString) :
    ∃ lastSeen, n.bindPeer nodeId previousKey = { n with lastSeen } := by
  rw [bindPeer]
  split_ifs
  · exact ⟨n.lastSeen, rfl⟩
  · cases Assoc.get? n.lastSeen previousKey with
    | none => exact ⟨n.lastSeen, rfl⟩
    | some previous => exact ⟨_, rfl⟩

@[simp]
theorem notifyOps_lastSeen (n : CRDTNode) (ops : List Op) :
    (n.notifyOps ops).lastSeen = n.lastSeen :=
  (notifyOps_steady n ops).lastSeen

/-- Where the operations are applied, the cursor moves to the last of them. -/
theorem applyRemote_lastSeen (n : CRDTNode) (ops : List Op) (cursorKey : JsString) :
    (∃ err, (n.applyRemote ops cursorKey).2 = .error err ∧
        (n.applyRemote ops cursorKey).1.lastSeen = n.lastSeen) ∨
      ∃ count, (n.applyRemote ops cursorKey).2 = .ok count ∧
        (n.applyRemote ops cursorKey).1.lastSeen =
          (n.advance cursorKey ((ops.getLast?.map Op.seq).getD 0)).lastSeen := by
  rw [applyRemote]
  dsimp only
  cases applyOps { n with clock := ops.foldl touchOp n.clock }
      (ops.map fun op => { op with shard := some (n.shardOf op) }) with
  | mk s result =>
      cases result with
      | error err => exact Or.inl ⟨_, rfl, rfl⟩
      | ok applied =>
          refine Or.inr ⟨_, rfl, ?_⟩
          rw [advance, List.getLast?_map, Option.map_map]
          rfl

theorem bindPeer_id (n : CRDTNode) (nodeId previousKey : JsString) :
    (n.bindPeer nodeId previousKey).id = n.id := by
  rcases n.bindPeer_eq nodeId previousKey with ⟨lastSeen, heq⟩
  rw [heq]

theorem applyRemote_id (n : CRDTNode) (ops : List Op) (cursorKey : JsString) :
    (n.applyRemote ops cursorKey).1.id = n.id := by
  rw [applyRemote]
  dsimp only
  split
  · rfl
  · change (notifyOps _ _).id = _
    rw [notifyOps]
    split_ifs <;> rfl

/-- The steps that set no cursor leave the name of the node alone, too. -/
theorem step_same (n : CRDTNode) {e : Event} (he : (ReplicaEvent.node e).setsCursor = false)
    (hforgets : e.forgets = false) :
    (e.step n).lastSeen = n.lastSeen ∧ (e.step n).id = n.id := by
  cases e with
  | write db coll w => exact ⟨(w.apply_steady n db coll).lastSeen, (w.apply_steady n db coll).id⟩
  | applyRemote ops cursorKey => cases he
  | applySnapshot collections lastSeq cursorKey => cases he
  | applySnapshotObjects database collection objects lastSeq scopeShard cursorKey => cases he
  | removeDatabase db => cases hforgets
  | removeCollection db coll => cases hforgets
  | prune cut => cases hforgets
  | setCollectionMeta db coll next =>
      rw [Event.step, setCollectionMeta]
      split <;> exact ⟨rfl, rfl⟩
  | createIndex db coll path =>
      rw [Event.step, createIndex, changeIndexes]
      split <;> exact ⟨rfl, rfl⟩
  | dropIndex db coll path =>
      rw [Event.step, dropIndex, changeIndexes]
      split <;> exact ⟨rfl, rfl⟩
  | adoptSeq seq => exact ⟨rfl, rfl⟩
  | createDatabase db => exact ⟨rfl, rfl⟩
  | beginBulkLoad => exact ⟨rfl, rfl⟩
  | endBulkLoad => exact ⟨rfl, rfl⟩
  | restoreDatabase db => exact ⟨rfl, rfl⟩
  | restoreDatabaseTombstone db => exact ⟨rfl, rfl⟩
  | restoreCollection db coll next => exact ⟨rfl, rfl⟩
  | restoreCollectionTombstone db coll => exact ⟨rfl, rfl⟩
  | scheduleIndexBuilds db coll => exact ⟨rfl, rfl⟩
  | stepJob db coll job => exact ⟨rfl, rfl⟩

theorem removeDatabase_same (n : CRDTNode) (db : JsString) :
    (n.removeDatabase db).seq = n.seq ∧
      (n.removeDatabase db).lastSeen = n.lastSeen ∧ (n.removeDatabase db).id = n.id := by
  rw [removeDatabase]
  dsimp only
  split_ifs <;> exact ⟨rfl, rfl, rfl⟩

theorem removeCollection_same (n : CRDTNode) (db coll : JsString) :
    (n.removeCollection db coll).seq = n.seq ∧
      (n.removeCollection db coll).lastSeen = n.lastSeen ∧
      (n.removeCollection db coll).id = n.id := by
  rw [removeCollection]
  dsimp only
  split_ifs <;> exact ⟨rfl, rfl, rfl⟩

end CRDTNode

theorem ReplicaEvent.step_same {r r' : Replica} {e : ReplicaEvent} (h : e.step r = some r')
    (he : e.setsCursor = false) :
    r'.node.lastSeen = r.node.lastSeen ∧ r'.node.id = r.node.id := by
  cases e with
  | node e =>
      rw [ReplicaEvent.step] at h
      split_ifs at h with hforgets
      cases h
      exact CRDTNode.step_same _ he (by simpa using hforgets)
  | removeDatabase db =>
      cases h
      rw [Replica.removeDatabase_node]
      exact (CRDTNode.removeDatabase_same _ _).2
  | removeCollection db coll =>
      cases h
      rw [Replica.removeCollection_node]
      exact (CRDTNode.removeCollection_same _ _ _).2
  | receiveAck peerNodeId after scope =>
      cases h
      rcases r.receiveAck_node peerNodeId after scope with ⟨log, hnode⟩
      rw [hnode]
      exact ⟨rfl, rfl⟩
  | replaceShardMap shards =>
      cases h
      exact ⟨rfl, rfl⟩

/-! ## Traces that go on -/

namespace Traced

variable {t t' : Traced}

theorem Wanted.congr {scope : Option Scope} {op : Op} (hhistory : t'.history = t.history)
    (hdiscarded : t'.discarded = t.discarded) (h : t'.Wanted scope op) : t.Wanted scope op := by
  cases t
  cases t'
  cases hhistory
  cases hdiscarded
  exact h

theorem Kept.withNode (h : t.Kept) {n : CRDTNode} (hlog : n.log = t.replica.node.log)
    (hseq : n.seq = t.replica.node.seq) : (t.withNode n).Kept where
  sorted := h.sorted
  positive := h.positive
  bound := fun op hop => (h.bound op hop).trans hseq.ge
  log := by
    change n.log.Sublist t.history
    rw [hlog]
    exact h.log
  forgotten := by
    intro op hop hgone
    change op ∉ n.log at hgone
    rw [hlog] at hgone
    exact ⟨(h.forgotten op hop hgone).cut, (h.forgotten op hop hgone).remembered⟩

/-- What a step of a replica does to its trace. -/
structure Continues (t t' : Traced) : Prop where
  seq : t.replica.node.seq ≤ t'.replica.node.seq
  history : t'.history = t.history ++ CRDTNode.logged t.replica.node t'.replica.node
  discarded : ∀ op ∈ t.discarded, op ∈ t'.discarded

theorem continues_of_step {e : ReplicaEvent} (h : t.step e = some t') : Continues t t' := by
  rw [Traced.step] at h
  rcases Option.map_eq_some_iff.mp h with ⟨r, hr, rfl⟩
  refine ⟨?_, rfl, fun op hop => List.mem_append_left _ hop⟩
  change t.replica.node.seq ≤ r.node.seq
  cases e with
  | node e =>
      rw [ReplicaEvent.step] at hr
      split_ifs at hr with hforgets
      cases hr
      exact (CRDTNode.step_appends _ (by simpa using hforgets)).seq
  | removeDatabase db =>
      cases hr
      rw [Replica.removeDatabase_node]
      exact (CRDTNode.removeDatabase_same _ _).1.ge
  | removeCollection db coll =>
      cases hr
      rw [Replica.removeCollection_node]
      exact (CRDTNode.removeCollection_same _ _ _).1.ge
  | receiveAck peerNodeId after scope =>
      cases hr
      rcases t.replica.receiveAck_node peerNodeId after scope with ⟨log, hnode⟩
      rw [hnode]
  | replaceShardMap shards =>
      cases hr
      exact le_rfl

/-- What was wanted before a step and is not discarded is wanted after it. -/
theorem Continues.wanted (h : Continues t t') {scope : Option Scope} {op : Op}
    (hwanted : t'.Wanted scope op) (hle : op.seq ≤ t.replica.node.seq) : t.Wanted scope op := by
  rcases hwanted with ⟨hhistory, hmatches, hexempt⟩
  rw [h.history] at hhistory
  refine ⟨?_, hmatches, ?_⟩
  · rcases List.mem_append.mp hhistory with hold | hlogged
    · exact hold
    · have hlt := of_decide_eq_true (List.mem_filter.mp hlogged).2
      exact absurd hle (Nat.not_le.mpr hlt)
  · intro hbefore
    refine hexempt ?_
    cases scope with
    | none => exact h.discarded op hbefore
    | some scope => exact hbefore

end Traced

/-! ## Systems that go on -/

namespace System

/-- Histories grow by operations with greater numbers, and what arrived stays. -/
structure Grows (s s' : System) : Prop where
  seq : ∀ id, (s.node id).seq ≤ (s'.node id).seq
  wanted : ∀ id scope op, (s'.nodes id).Wanted scope op → op.seq ≤ (s.node id).seq →
    (s.nodes id).Wanted scope op
  arrived : ∀ id op, op ∈ s.arrived id → op ∈ s'.arrived id

/-- No log changes. -/
structure Quiet (s s' : System) : Prop where
  seq : ∀ id, (s'.node id).seq = (s.node id).seq
  log : ∀ id, (s'.node id).log = (s.node id).log
  history : ∀ id, (s'.nodes id).history = (s.nodes id).history
  discarded : ∀ id, (s'.nodes id).discarded = (s.nodes id).discarded
  arrived : ∀ id op, op ∈ s.arrived id → op ∈ s'.arrived id

variable {net : Network} {s s' : System}

theorem Quiet.wanted (h : Quiet s s') {id : JsString} {scope : Option Scope} {op : Op}
    (hwanted : (s'.nodes id).Wanted scope op) : (s.nodes id).Wanted scope op :=
  hwanted.congr (h.history id) (h.discarded id)

theorem Quiet.grows (h : Quiet s s') : Grows s s' where
  seq := fun id => (h.seq id).ge
  wanted := fun _ _ _ hwanted _ => h.wanted hwanted
  arrived := h.arrived

theorem withNode_nodes (s : System) (id : JsString) (n : CRDTNode) (ops : List Op)
    (id' : JsString) : (s.withNode id n ops).nodes id' =
      if id' = id then (s.nodes id).withNode n else s.nodes id' := by
  exact Function.update_apply s.nodes id _ id'

theorem withNode_node (s : System) (id : JsString) (n : CRDTNode) (ops : List Op)
    (id' : JsString) : (s.withNode id n ops).node id' = if id' = id then n else s.node id' := by
  rw [node, withNode_nodes]
  split_ifs <;> rfl

theorem withNode_arrived (s : System) (id : JsString) (n : CRDTNode) (ops : List Op)
    (id' : JsString) : (s.withNode id n ops).arrived id' =
      if id' = id then s.arrived id ++ ops else s.arrived id' := by
  exact Function.update_apply s.arrived id _ id'

theorem quiet_withNode (s : System) (id : JsString) {n : CRDTNode} (ops : List Op)
    (hlog : n.log = (s.node id).log) (hseq : n.seq = (s.node id).seq) :
    Quiet s (s.withNode id n ops) := by
  refine ⟨?_, ?_, ?_, ?_, ?_⟩
  · intro id'
    rw [withNode_node]
    split_ifs with hid
    · rw [hseq, hid]
    · rfl
  · intro id'
    rw [withNode_node]
    split_ifs with hid
    · rw [hlog, hid]
    · rfl
  · intro id'
    rw [withNode_nodes]
    split_ifs with hid
    · rw [hid]
      rfl
    · rfl
  · intro id'
    rw [withNode_nodes]
    split_ifs with hid
    · rw [hid]
      rfl
    · rfl
  · intro id' op hop
    rw [withNode_arrived]
    split_ifs with hid
    · exact List.mem_append_left _ (hid ▸ hop)
    · exact hop

/-! ## The invariant -/

/-- The reader has every operation of the source that a peer asking for the scope counts on, up
to `k`. -/
def Has (s : System) (reader source : JsString) (scope : Option Scope) (k : ℕ) : Prop :=
  k ≤ (s.node source).seq ∧
    Cursors.Covered Op.seq ((s.nodes source).Wanted scope) (· ∈ s.arrived reader) k

/-- What an answer still has to give: the reader has all up to `base`, and the answer all from
there up to `top`. -/
structure AnswerOk (s : System) (reader source : JsString) (scope : Option Scope) (after : ℕ)
    (a : Answer) (base top : ℕ) : Prop where
  covered : Cursors.Covered Op.seq ((s.nodes source).Wanted scope) (· ∈ s.arrived reader) base
  le : base ≤ top
  top_le : top ≤ (s.node source).seq
  segment : Cursors.Segment Op.seq ((s.nodes source).Wanted scope) base top a.ops
  /-- The iteration of an attached answer comes to all that is logged. -/
  attached : a.attached = true → top = a.looked ∧
    ∀ op, (s.nodes source).Wanted scope op → a.looked < op.seq → op ∈ (s.node source).log
  /-- Where nothing was received there was nothing to receive. -/
  unread : a.received = false → after ≤ base ∧ (a.ops = [] → a.lastSeq ≤ top)

structure PullOk (net : Network) (s : System) (p : Pull) : Prop where
  key : p.peerKey ∈ net.peerKeys
  scope : p.scope ∈ net.scopes
  asked : s.Has p.reader (net.nodeAt p.peerKey) p.scope p.after
  answer : ∀ a, p.answer = some a → ∃ base top,
    s.AnswerOk p.reader (net.nodeAt p.peerKey) p.scope p.after a base top

/-- Logs are what their histories left, and no cursor is ahead of what arrived. -/
structure Sound (net : Network) (s : System) : Prop where
  kept : ∀ id, (s.nodes id).Kept
  cursors : ∀ reader, ∀ key ∈ net.peerKeys, ∀ scope ∈ net.scopes, ∀ k,
    Assoc.get? (s.node reader).lastSeen (peerCursorKey key scope) = some k →
      s.Has reader (net.nodeAt key) scope k
  pulls : ∀ p ∈ s.pulls, PullOk net s p

theorem Has.grow {reader source : JsString} {scope : Option Scope} {k : ℕ}
    (h : s.Has reader source scope k) (hgrows : Grows s s') : s'.Has reader source scope k := by
  refine ⟨h.1.trans (hgrows.seq source), h.2.mono ?_ (hgrows.arrived reader) le_rfl⟩
  exact fun op hwanted hle => hgrows.wanted source scope op hwanted (hle.trans h.1)

theorem Has.max {reader source : JsString} {scope : Option Scope} {k k' : ℕ}
    (h : s.Has reader source scope k) (h' : s.Has reader source scope k') :
    s.Has reader source scope (max k k') :=
  ⟨max_le h.1 h'.1, h.2.max h'.2⟩

theorem has_zero (hkept : ∀ id, (s.nodes id).Kept) (reader source : JsString)
    (scope : Option Scope) : s.Has reader source scope 0 := by
  refine ⟨Nat.zero_le _, ?_⟩
  intro op hwanted hle
  exact absurd hle (Nat.not_le.mpr ((hkept source).positive op hwanted.1))

/-- A cursor that is read, also one that was never set. -/
theorem Sound.has_seen (h : s.Sound net) (reader : JsString) {key : JsString}
    (hkey : key ∈ net.peerKeys) {scope : Option Scope} (hscope : scope ∈ net.scopes) :
    s.Has reader (net.nodeAt key) scope ((s.node reader).seen (peerCursorKey key scope)) := by
  rw [CRDTNode.seen]
  cases hseen : Assoc.get? (s.node reader).lastSeen (peerCursorKey key scope) with
  | none => exact has_zero h.kept reader _ scope
  | some k => exact h.cursors reader key hkey scope hscope k hseen

/-- An answer stays what it is while the system goes on, if its iteration keeps up. -/
theorem AnswerOk.grow {reader source : JsString} {scope : Option Scope} {after base top : ℕ}
    {a : Answer} (h : s.AnswerOk reader source scope after a base top) (hgrows : Grows s s')
    (hlog : a.attached = true → ∀ op, (s'.nodes source).Wanted scope op → a.looked < op.seq →
      op ∈ (s'.node source).log) : s'.AnswerOk reader source scope after a base top where
  covered := h.covered.mono
    (fun op hwanted hle => hgrows.wanted source scope op hwanted
      (hle.trans (h.le.trans h.top_le))) (hgrows.arrived reader) le_rfl
  le := h.le
  top_le := h.top_le.trans (hgrows.seq source)
  segment := h.segment.mono fun op hwanted hle =>
    hgrows.wanted source scope op hwanted (hle.trans h.top_le)
  attached := fun ha => ⟨(h.attached ha).1, hlog ha⟩
  unread := h.unread

theorem AnswerOk.quiet {reader source : JsString} {scope : Option Scope} {after base top : ℕ}
    {a : Answer} (h : s.AnswerOk reader source scope after a base top) (hquiet : Quiet s s') :
    s'.AnswerOk reader source scope after a base top := by
  refine h.grow hquiet.grows ?_
  intro ha op hwanted hlt
  rw [hquiet.log]
  exact (h.attached ha).2 op (hquiet.wanted hwanted) hlt

theorem PullOk.quiet {p : Pull} (h : PullOk net s p) (hquiet : Quiet s s') : PullOk net s' p where
  key := h.key
  scope := h.scope
  asked := h.asked.grow hquiet.grows
  answer := by
    intro a ha
    rcases h.answer a ha with ⟨base, top, hok⟩
    exact ⟨base, top, hok.quiet hquiet⟩

/-! ## Answers that are sent -/

/-- What is found in a log that has all that is wanted above `base`: a segment, up to the end of
the log unless a limit was reached. -/
theorem opsAfter_segment {t : Traced} (hkept : t.Kept) {base : ℕ} (limit : ℕ)
    {scope : Option Scope} (hbase : base ≤ t.replica.node.seq)
    (hcomplete : ∀ op, t.Wanted scope op → base < op.seq → op ∈ t.replica.node.log) :
    ∃ top, base ≤ top ∧ top ≤ t.replica.node.seq ∧
      Cursors.Segment Op.seq (t.Wanted scope) base top (t.replica.opsAfter base limit scope) ∧
      (limit = 0 ∨ (t.replica.opsAfter base limit scope).length < limit →
        top = t.replica.node.seq) := by
  have hall : Cursors.Segment Op.seq (t.Wanted scope) base t.replica.node.seq
      (t.replica.node.log.filter (Replica.isAfter base scope)) := by
    refine Cursors.Segment.of_filter (hkept.sorted.sublist hkept.log) ?_ hkept.log_bound ?_
    · intro op _ hafter
      have hlt := (Bool.and_eq_true_iff.mp hafter).1
      simpa using hlt
    · intro op hwanted hlt
      refine ⟨hcomplete op hwanted hlt, ?_⟩
      simp [Replica.isAfter, hlt, hwanted.2.1]
  rw [Replica.opsAfter]
  by_cases hlimit : limit = 0
  · rw [if_pos hlimit]
    exact ⟨_, hbase, le_rfl, hall, fun _ => rfl⟩
  · rw [if_neg hlimit]
    generalize t.replica.node.log.filter (Replica.isAfter base scope) = found at hall
    by_cases hshort : found.length < limit
    · rw [List.take_of_length_le hshort.le]
      exact ⟨_, hbase, le_rfl, hall, fun _ => rfl⟩
    · -- the limit is reached, and the segment ends with the last operation
      have hlength : (found.take limit).length = limit := by
        rw [List.length_take]
        omega
      have hne : found.take limit ≠ [] := by
        intro hnil
        rw [hnil, List.length_nil] at hlength
        exact hlimit hlength.symm
      have hlast := List.getLast?_eq_some_getLast hne
      have hmem := hall.mem _ (List.mem_of_mem_take (List.getLast_mem hne))
      refine ⟨_, hmem.1.le, hmem.2, hall.take hlast, ?_⟩
      rintro (hzero | hlt)
      · exact absurd hzero hlimit
      · rw [hlength] at hlt
        exact absurd hlt (lt_irrefl limit)

/-- A node that does not refuse answers with a segment. -/
theorem answerOk_start (hkept : ∀ id, (s.nodes id).Kept) {reader source : JsString}
    {scope : Option Scope} {after : ℕ} (limit : ℕ) (hasked : s.Has reader source scope after)
    (hserves : (s.nodes source).replica.needsSnapshot after scope = false) :
    ∃ base top, s.AnswerOk reader source scope after
      (Answer.start (s.nodes source).replica after limit scope) base top := by
  have hlog : ∀ op, (s.nodes source).Wanted scope op → after < op.seq →
      op ∈ (s.nodes source).replica.node.log := fun op hwanted hlt =>
    (hkept source).mem_log hserves hwanted (by exact_mod_cast hlt)
  rcases opsAfter_segment (hkept source) limit hasked.1 hlog with
    ⟨top, hle, htop, hsegment, hend⟩
  refine ⟨after, top, hasked.2, hle, htop, hsegment, ?_, ?_⟩
  · intro hattached
    refine ⟨hend (of_decide_eq_true hattached), ?_⟩
    intro op hwanted hlt
    exact absurd ((hkept source).bound op hwanted.1) (Nat.not_le.mpr hlt)
  · intro _
    refine ⟨le_rfl, ?_⟩
    intro hnil
    have hnil' : (s.nodes source).replica.opsAfter after limit scope = [] := hnil
    have hfull : limit = 0 ∨
        ((s.nodes source).replica.opsAfter after limit scope).length < limit := by
      rw [hnil', List.length_nil]
      omega
    exact (hend hfull).ge

/-- The iteration of a streamed answer goes on with the next segment. -/
theorem AnswerOk.look (hkept : ∀ id, (s.nodes id).Kept) {reader source : JsString}
    {scope : Option Scope} {after base top : ℕ} {a : Answer}
    (h : s.AnswerOk reader source scope after a base top) (hattached : a.attached = true) :
    ∃ top', s.AnswerOk reader source scope after (a.look (s.nodes source).replica scope)
      base top' := by
  rcases h.attached hattached with ⟨rfl, hlog⟩
  rcases opsAfter_segment (hkept source) a.room h.top_le hlog with
    ⟨top', hle, htop', hsegment, hend⟩
  refine ⟨top', h.covered, h.le.trans hle, htop', h.segment.append hsegment h.le hle, ?_, ?_⟩
  · intro hstill
    refine ⟨hend (of_decide_eq_true hstill), ?_⟩
    intro op hwanted hlt
    exact absurd ((hkept source).bound op hwanted.1) (Nat.not_le.mpr hlt)
  · intro hunread
    refine ⟨(h.unread hunread).1, ?_⟩
    intro hnil
    exact ((h.unread hunread).2 (List.append_eq_nil_iff.mp hnil).1).trans hle

/-! ## Answers that are read -/

/-- The reader takes the next operations: it has all up to the last of them. -/
theorem AnswerOk.receive {reader source : JsString} {scope : Option Scope} {after base top : ℕ}
    {a : Answer} (h : s.AnswerOk reader source scope after a base top) {count : ℕ} {last : Op}
    (hlast : (a.ops.take count).getLast? = some last) (hquiet : Quiet s s')
    (harrived : ∀ op ∈ a.ops.take count, op ∈ s'.arrived reader) :
    s'.Has reader source scope last.seq ∧
      s'.AnswerOk reader source scope after { a with ops := a.ops.drop count, received := true }
        last.seq top := by
  have hnext := h.quiet hquiet
  have hsegment := hnext.segment
  rw [← List.take_append_drop count a.ops] at hsegment
  rcases hsegment.piece hlast hnext.covered harrived with ⟨hcovered, hrest⟩
  have hmem := hnext.segment.mem last (List.mem_of_mem_take (List.mem_of_getLast? hlast))
  refine ⟨⟨hmem.2.trans hnext.top_le, hcovered⟩, hcovered, hmem.2, hnext.top_le, hrest,
    hnext.attached, ?_⟩
  intro hunread
  cases hunread

/-- At the end of an answer without operations the reader has all up to what it is told. -/
theorem AnswerOk.finish {reader source : JsString} {scope : Option Scope} {after base top : ℕ}
    {a : Answer} (h : s.AnswerOk reader source scope after a base top) (hnil : a.ops = [])
    (hunread : a.received = false) :
    s.Has reader source scope (if a.lastSeq = 0 then after else a.lastSeq) := by
  have hsegment := h.segment
  rw [hnil] at hsegment
  have hcovered := hsegment.covered_top h.covered
  rcases h.unread hunread with ⟨hafter, hseq⟩
  have hle : (if a.lastSeq = 0 then after else a.lastSeq) ≤ top := by
    split_ifs
    · exact hafter.trans h.le
    · exact hseq hnil
  exact ⟨hle.trans h.top_le, hcovered.mono (fun _ hwanted _ => hwanted) (fun _ h => h) hle⟩

/-! ## Steps -/

theorem quiet_refl (s : System) : Quiet s s :=
  ⟨fun _ => rfl, fun _ => rfl, fun _ => rfl, fun _ => rfl, fun _ _ hop => hop⟩

theorem Quiet.withPulls (h : Quiet s s') (pulls : List Pull) : Quiet s { s' with pulls } :=
  ⟨h.seq, h.log, h.history, h.discarded, h.arrived⟩

/-- A step that changes no log keeps the invariant if it does so for the cursors that it sets and
the pulls that it changes. -/
theorem Sound.quiet (h : s.Sound net) (hquiet : Quiet s s') (hkept : ∀ id, (s'.nodes id).Kept)
    (hcursors : ∀ reader, ∀ key ∈ net.peerKeys, ∀ scope ∈ net.scopes, ∀ k,
      Assoc.get? (s'.node reader).lastSeen (peerCursorKey key scope) = some k →
        Assoc.get? (s.node reader).lastSeen (peerCursorKey key scope) = some k ∨
          s'.Has reader (net.nodeAt key) scope k)
    (hpulls : ∀ p ∈ s'.pulls, p ∈ s.pulls ∨ PullOk net s' p) : s'.Sound net where
  kept := hkept
  cursors := by
    intro reader key hkey scope hscope k hk
    rcases hcursors reader key hkey scope hscope k hk with hold | hnew
    · exact (h.cursors reader key hkey scope hscope k hold).grow hquiet.grows
    · exact hnew
  pulls := by
    intro p hp
    rcases hpulls p hp with hold | hnew
    · exact (h.pulls p hold).quiet hquiet
    · exact hnew

/-- A step that changes pulls only. -/
theorem Sound.withPulls (h : s.Sound net) {pulls : List Pull}
    (hpulls : ∀ p ∈ pulls, p ∈ s.pulls ∨ PullOk net s p) :
    ({ s with pulls } : System).Sound net := by
  refine h.quiet ((quiet_refl s).withPulls pulls) h.kept (fun _ _ _ _ _ _ hk => Or.inl hk) ?_
  intro p hp
  exact (hpulls p hp).imp_right fun hok => hok.quiet ((quiet_refl s).withPulls pulls)

/-- A step that changes cursors of one node, what arrived at it, and pulls. -/
theorem Sound.withNode (h : s.Sound net) {id : JsString} {n : CRDTNode} {ops : List Op}
    {pulls : List Pull} (hlog : n.log = (s.node id).log) (hseq : n.seq = (s.node id).seq)
    (hcursors : ∀ key ∈ net.peerKeys, ∀ scope ∈ net.scopes, ∀ k,
      Assoc.get? n.lastSeen (peerCursorKey key scope) = some k →
        Assoc.get? (s.node id).lastSeen (peerCursorKey key scope) = some k ∨
          (s.withNode id n ops).Has id (net.nodeAt key) scope k)
    (hpulls : ∀ p ∈ pulls, p ∈ s.pulls ∨ PullOk net (s.withNode id n ops) p) :
    ({ s.withNode id n ops with pulls } : System).Sound net := by
  have hquiet := quiet_withNode s id ops hlog hseq
  refine h.quiet (hquiet.withPulls pulls) ?_ ?_ ?_
  · intro id'
    change ((s.withNode id n ops).nodes id').Kept
    rw [withNode_nodes]
    split_ifs
    · exact (h.kept id).withNode hlog hseq
    · exact h.kept id'
  · intro reader key hkey scope hscope k hk
    change Assoc.get? ((s.withNode id n ops).node reader).lastSeen _ = some k at hk
    rw [withNode_node] at hk
    split_ifs at hk with hid
    · rw [hid]
      exact hcursors key hkey scope hscope k hk
    · exact Or.inl hk
  · intro p hp
    refine (hpulls p hp).imp_right fun hok => hok.quiet ?_
    exact (quiet_refl _).withPulls pulls

theorem Sound.pullStep (h : s.Sound net) {reader peerKey : JsString} {scope : Option Scope}
    {limit : ℕ} (hstep : s.pullStep net reader peerKey scope limit = some s') : s'.Sound net := by
  rw [System.pullStep] at hstep
  split_ifs at hstep with hguard
  cases hstep
  refine h.withPulls ?_
  intro p hp
  rcases List.mem_append.mp hp with hold | hnew
  · exact Or.inl hold
  · rw [List.mem_singleton.mp hnew]
    exact Or.inr ⟨hguard.1, hguard.2.1, h.has_seen reader hguard.1 hguard.2.1, by simp⟩

theorem Sound.eraseIdx (h : s.Sound net) (i : ℕ) :
    ({ s with pulls := s.pulls.eraseIdx i } : System).Sound net :=
  h.withPulls fun _ hp => Or.inl (List.mem_of_mem_eraseIdx hp)

/-- A pull gets on with its answer. -/
theorem Sound.setAnswer (h : s.Sound net) {i : ℕ} {p : Pull} (hp : p ∈ s.pulls) {a : Answer}
    {base top : ℕ}
    (ha : s.AnswerOk p.reader (net.nodeAt p.peerKey) p.scope p.after a base top) :
    ({ s with pulls := s.pulls.set i { p with answer := some a } } : System).Sound net := by
  have hok := h.pulls p hp
  refine h.withPulls ?_
  intro q hq
  rcases List.mem_or_eq_of_mem_set hq with hold | rfl
  · exact Or.inl hold
  · refine Or.inr ⟨hok.key, hok.scope, hok.asked, ?_⟩
    intro a' ha'
    cases ha'
    exact ⟨base, top, ha⟩

theorem Sound.serveStep (h : s.Sound net) {i : ℕ} {p : Pull} (hp : p ∈ s.pulls) :
    (s.serveStep net i p).Sound net := by
  rw [System.serveStep]
  dsimp only
  split_ifs with hrefused
  · have hok := h.pulls p hp
    refine h.withPulls fun q hq => ?_
    rcases List.mem_or_eq_of_mem_set hq with hold | rfl
    · exact Or.inl hold
    · exact Or.inr ⟨hok.key, hok.scope, hok.asked, hok.answer⟩
  · rcases answerOk_start h.kept p.limit (h.pulls p hp).asked (by simpa using hrefused)
      with ⟨base, top, hstart⟩
    exact h.setAnswer hp hstart

theorem Sound.lookStep (h : s.Sound net) {i : ℕ} {p : Pull} {a : Answer} (hp : p ∈ s.pulls)
    (ha : p.answer = some a) (hattached : a.attached = true) :
    (s.lookStep net i p a).Sound net := by
  rcases (h.pulls p hp).answer a ha with ⟨base, top, hok⟩
  rcases hok.look h.kept hattached with ⟨top', hlook⟩
  exact h.setAnswer hp hlook

/-- Only the cursor of a node and scope has their key. -/
theorem cursorKey_eq {p : Pull} (hok : PullOk net s p) {key : JsString} (hkey : key ∈ net.peerKeys)
    {scope : Option Scope} (hscope : scope ∈ net.scopes)
    (heq : p.cursor net = peerCursorKey key scope) :
    net.nodeAt key = net.nodeAt p.peerKey ∧ scope = p.scope := by
  rcases net.cursorKey_inj _ (net.nodeAt_mem _ hok.key) key hkey _ hok.scope scope hscope heq with
    ⟨rfl, rfl⟩
  exact ⟨net.nodeAt_nodeAt _ hok.key, rfl⟩

theorem Sound.has_cursor (h : s.Sound net) {p : Pull} (hok : PullOk net s p) :
    s.Has p.reader (net.nodeAt p.peerKey) p.scope ((s.node p.reader).seen (p.cursor net)) := by
  have hseen := h.has_seen p.reader (net.nodeAt_mem _ hok.key) hok.scope
  rw [net.nodeAt_nodeAt _ hok.key] at hseen
  exact hseen

theorem Sound.bindStep (h : s.Sound net) {p : Pull} (hp : p ∈ s.pulls) :
    (s.bindStep net p).Sound net := by
  have hok := h.pulls p hp
  rcases (s.node p.reader).bindPeer_eq (net.nodeAt p.peerKey) p.peerKey with ⟨lastSeen, hbind⟩
  have hlog : ((s.node p.reader).bindPeer (net.nodeAt p.peerKey) p.peerKey).log =
      (s.node p.reader).log := by rw [hbind]
  have hseq : ((s.node p.reader).bindPeer (net.nodeAt p.peerKey) p.peerKey).seq =
      (s.node p.reader).seq := by rw [hbind]
  refine h.withNode hlog hseq ?_ fun q hq => Or.inl hq
  intro key hkey scope hscope k hk
  rcases CRDTNode.bindPeer_cases hk with ⟨heq, previous, hprevious, rfl⟩ | hold
  · -- the cursor of the node takes over that of its address
    have hquiet := quiet_withNode s p.reader [] hlog hseq
    have hnode := net.nodeAt_mem _ hok.key
    rcases net.cursorKey_inj key hkey _ hnode scope hscope none net.unscoped heq with ⟨rfl, rfl⟩
    rw [net.nodeAt_nodeAt _ hok.key]
    have hseen := h.has_seen p.reader hnode net.unscoped
    rw [net.nodeAt_nodeAt _ hok.key] at hseen
    have hprev := h.cursors p.reader p.peerKey hok.key none net.unscoped previous hprevious
    exact Or.inr ((hseen.max hprev).grow hquiet.grows)
  · exact Or.inl hold

theorem Sound.receiveStep (h : s.Sound net) {i count : ℕ} {p : Pull} {a : Answer}
    (hp : p ∈ s.pulls) (ha : p.answer = some a) (hne : a.ops.take count ≠ []) :
    (s.receiveStep net i p a count).Sound net := by
  have hok := h.pulls p hp
  rcases (s.node p.reader).applyRemote_log (a.ops.take count) (p.cursor net) with ⟨hlog, hseq⟩
  rw [System.receiveStep]
  dsimp only
  rcases (s.node p.reader).applyRemote_lastSeen (a.ops.take count) (p.cursor net) with
    ⟨err, hresult, hseen⟩ | ⟨applied, hresult, hseen⟩
  · -- the store throws
    rw [hresult]
    refine h.withNode hlog hseq ?_ fun q hq => Or.inl (List.mem_of_mem_eraseIdx hq)
    intro key _ scope _ k hk
    rw [hseen] at hk
    exact Or.inl hk
  · rw [hresult]
    have hquiet := quiet_withNode s p.reader (a.ops.take count) hlog hseq
    have hlast := List.getLast?_eq_some_getLast hne
    rcases hok.answer a ha with ⟨base, top, hanswer⟩
    rcases hanswer.receive hlast hquiet (by
      intro op hop
      rw [withNode_arrived, if_pos rfl]
      exact List.mem_append_right _ hop) with ⟨hhas, hrest⟩
    refine h.withNode hlog hseq ?_ ?_
    · intro key hkey scope hscope k hk
      rw [hseen, hlast] at hk
      rcases CRDTNode.advance_cases hk with ⟨heq, rfl⟩ | hold
      · rcases cursorKey_eq hok hkey hscope heq with ⟨hnode, rfl⟩
        rw [hnode]
        exact Or.inr (((h.has_cursor hok).grow hquiet.grows).max hhas)
      · exact Or.inl hold
    · intro q hq
      rcases List.mem_or_eq_of_mem_set hq with hold | rfl
      · exact Or.inl hold
      · refine Or.inr ⟨hok.key, hok.scope, hok.asked.grow hquiet.grows, ?_⟩
        intro a' ha'
        cases ha'
        exact ⟨_, top, hrest⟩

theorem Sound.finishStep (h : s.Sound net) {i : ℕ} {p : Pull} {a : Answer} (hp : p ∈ s.pulls)
    (ha : p.answer = some a) (hnil : a.ops = []) : (s.finishStep net i p a).Sound net := by
  have hok := h.pulls p hp
  rw [System.finishStep]
  by_cases hreceived : a.received = true
  · rw [if_pos hreceived]
    exact h.eraseIdx i
  · rw [if_neg hreceived]
    rcases hok.answer a ha with ⟨base, top, hanswer⟩
    have hhas := hanswer.finish hnil (by simpa using hreceived)
    have hquiet := quiet_withNode s p.reader (n := (s.node p.reader).advance (p.cursor net)
      (if a.lastSeq = 0 then p.after else a.lastSeq)) [] rfl rfl
    refine h.withNode rfl rfl ?_ fun q hq => Or.inl (List.mem_of_mem_eraseIdx hq)
    intro key hkey scope hscope k hk
    rcases CRDTNode.advance_cases hk with ⟨heq, rfl⟩ | hold
    · rcases cursorKey_eq hok hkey hscope heq with ⟨hnode, rfl⟩
      rw [hnode]
      exact Or.inr (((h.has_cursor hok).max hhas).grow hquiet.grows)
    · exact Or.inl hold

theorem Sound.catchUpStep (h : s.Sound net) {reader peerKey : JsString} {scope : Option Scope}
    {db : Store} {clock : Clock} {ops : List Op} {seq : ℕ}
    (hstep : s.catchUpStep net reader peerKey scope db clock ops seq = some s') :
    s'.Sound net := by
  rw [System.catchUpStep] at hstep
  dsimp only at hstep
  split_ifs at hstep with hguard
  rcases hguard with ⟨hpeer, hscope, hseq, hstored⟩
  cases hstep
  refine h.withNode (n := { (s.node reader) with
      db := db, clock := clock,
      lastSeen := Assoc.set (s.node reader).lastSeen
        (peerCursorKey (net.nodeAt peerKey) scope) seq }) rfl rfl ?_ fun q hq => Or.inl hq
  intro key hkey scope' hscope' k hk
  rw [Assoc.get?_set] at hk
  split_ifs at hk with heq
  · cases hk
    rcases net.cursorKey_inj _ (net.nodeAt_mem _ hpeer) key hkey scope hscope scope' hscope' heq
      with ⟨rfl, rfl⟩
    have hquiet := quiet_withNode s reader (n := { (s.node reader) with
      db := db, clock := clock,
      lastSeen := Assoc.set (s.node reader).lastSeen
        (peerCursorKey (net.nodeAt peerKey) scope) seq }) ops rfl rfl
    rw [net.nodeAt_nodeAt _ hpeer]
    refine Or.inr ⟨hseq.trans (hquiet.seq _).ge, ?_⟩
    -- what is stored has everything up to the number
    intro op hwanted hle
    have hwas := hquiet.wanted hwanted
    rw [withNode_arrived, if_pos rfl]
    exact List.mem_append_right _ (hstored op hwas.1 hwas.2.1 hle)
  · exact Or.inl hk

/-! ### Steps of a replica -/

theorem Sound.replicaStep (h : s.Sound net) {id : JsString} {e : ReplicaEvent}
    (he : e.setsCursor = false) {t : Traced} (ht : (s.nodes id).step e = some t) :
    (s.withReplica net id t).Sound net := by
  have hcontinues := Traced.continues_of_step ht
  have hnodes : ∀ id', Function.update s.nodes id t id' = if id' = id then t else s.nodes id' :=
    Function.update_apply s.nodes id t
  have hlastSeen : t.replica.node.lastSeen = (s.node id).lastSeen := by
    rw [Traced.step] at ht
    rcases Option.map_eq_some_iff.mp ht with ⟨r, hr, rfl⟩
    exact (ReplicaEvent.step_same hr he).1
  set s' := s.withReplica net id t with hs'
  have hself : s'.nodes id = t := by
    change Function.update s.nodes id t id = t
    rw [hnodes, if_pos rfl]
  have hother : ∀ id', id' ≠ id → s'.nodes id' = s.nodes id' := by
    intro id' hne
    change Function.update s.nodes id t id' = s.nodes id'
    rw [hnodes, if_neg hne]
  have hgrows : Grows s s' := by
    refine ⟨?_, ?_, ?_⟩
    · intro id'
      rw [node, node]
      by_cases hid : id' = id
      · rw [hid, hself]
        exact hcontinues.seq
      · rw [hother id' hid]
    · intro id' scope op hwanted hle
      by_cases hid : id' = id
      · subst hid
        rw [hself] at hwanted
        exact hcontinues.wanted hwanted hle
      · rwa [hother id' hid] at hwanted
    · intro id' op hop
      change op ∈ Function.update s.arrived id _ id'
      rw [Function.update_apply]
      split_ifs with hid
      · exact List.mem_append_left _ (hid ▸ hop)
      · exact hop
  -- the iteration of an answer whose log was not replaced keeps up
  have hkeeps : ∀ source, (source = id → (s.node id).log <+: t.replica.node.log) →
      ∀ scope looked, (∀ op, (s.nodes source).Wanted scope op → looked < op.seq →
        op ∈ (s.node source).log) →
      ∀ op, (s'.nodes source).Wanted scope op → looked < op.seq → op ∈ (s'.node source).log := by
    intro source hinit scope looked hlog op hwanted hlt
    rw [node]
    by_cases hid : source = id
    · subst hid
      rw [hself] at hwanted ⊢
      have hhistory := hwanted.1
      rw [hcontinues.history] at hhistory
      rcases List.mem_append.mp hhistory with hold | hlogged
      · have hbound := (h.kept source).bound op hold
        exact (hinit rfl).subset (hlog op (hcontinues.wanted hwanted hbound) hlt)
      · exact List.mem_of_mem_filter hlogged
    · rw [hother source hid] at hwanted ⊢
      exact hlog op hwanted hlt
  refine ⟨?_, ?_, ?_⟩
  · intro id'
    by_cases hid : id' = id
    · rw [hid, hself]
      exact (h.kept id).step ht
    · rw [hother id' hid]
      exact h.kept id'
  · intro reader key hkey scope hscope k hk
    have hsame : (s'.node reader).lastSeen = (s.node reader).lastSeen := by
      rw [node]
      by_cases hid : reader = id
      · rw [hid, hself, hlastSeen]
      · rw [hother reader hid, node]
    rw [hsame] at hk
    exact (h.cursors reader key hkey scope hscope k hk).grow hgrows
  · intro p hp
    change p ∈ (if (s.node id).log <+: t.replica.node.log then s.pulls
      else s.pulls.map (Pull.detach net id)) at hp
    split_ifs at hp with hinit
    · have hok := h.pulls p hp
      refine ⟨hok.key, hok.scope, hok.asked.grow hgrows, ?_⟩
      intro a ha
      rcases hok.answer a ha with ⟨base, top, hanswer⟩
      exact ⟨base, top, hanswer.grow hgrows fun hattached =>
        hkeeps _ (fun _ => hinit) _ _ (hanswer.attached hattached).2⟩
    · -- the log of the node was replaced: its streams come to no later operations
      rcases List.mem_map.mp hp with ⟨q, hq, rfl⟩
      have hok := h.pulls q hq
      rw [Pull.detach]
      split_ifs with hsource
      · refine ⟨hok.key, hok.scope, hok.asked.grow hgrows, ?_⟩
        intro a ha
        rcases Option.map_eq_some_iff.mp ha with ⟨b, hb, rfl⟩
        rcases hok.answer b hb with ⟨base, top, hanswer⟩
        have hdetached : s.AnswerOk q.reader (net.nodeAt q.peerKey) q.scope q.after
            { b with attached := false } base top :=
          ⟨hanswer.covered, hanswer.le, hanswer.top_le, hanswer.segment, by simp, hanswer.unread⟩
        exact ⟨base, top, hdetached.grow hgrows (by simp)⟩
      · refine ⟨hok.key, hok.scope, hok.asked.grow hgrows, ?_⟩
        intro a ha
        rcases hok.answer a ha with ⟨base, top, hanswer⟩
        exact ⟨base, top, hanswer.grow hgrows fun hattached =>
          hkeeps _ (fun hid => absurd hid hsource) _ _ (hanswer.attached hattached).2⟩

/-! ## Runs -/

/-! ### Steps of the system -/

/-- What a step of the system can be. -/
inductive Took (net : Network) (s : System) : SystemEvent → System → Prop
  | replica {id e t} (he : e.setsCursor = false) (ht : (s.nodes id).step e = some t) :
      Took net s (.replica id e) (s.withReplica net id t)
  | pull {reader peerKey scope limit s'} (h : s.pullStep net reader peerKey scope limit = some s') :
      Took net s (.pull reader peerKey scope limit) s'
  | serve {i p} (hp : p ∈ s.pulls) : Took net s (.serve i) (s.serveStep net i p)
  | look {i p a} (hp : p ∈ s.pulls) (ha : p.answer = some a) (hattached : a.attached = true) :
      Took net s (.look i) (s.lookStep net i p a)
  | bind {i p} (hp : p ∈ s.pulls) : Took net s (.bind i) (s.bindStep net p)
  | receive {i count p a} (hp : p ∈ s.pulls) (ha : p.answer = some a)
      (hne : a.ops.take count ≠ []) : Took net s (.receive i count) (s.receiveStep net i p a count)
  | finish {i p a} (hp : p ∈ s.pulls) (ha : p.answer = some a) (hnil : a.ops = []) :
      Took net s (.finish i) (s.finishStep net i p a)
  | abandon (i : ℕ) : Took net s (.abandon i) { s with pulls := s.pulls.eraseIdx i }
  | catchUp {reader peerKey scope db clock ops seq s'}
      (h : s.catchUpStep net reader peerKey scope db clock ops seq = some s') :
      Took net s (.catchUp reader peerKey scope db clock ops seq) s'

theorem took_of_step {e : SystemEvent} (h : s.step net e = some s') : Took net s e s' := by
  cases e with
  | replica id e =>
      rw [System.step, System.replicaStep] at h
      split_ifs at h with he
      rcases Option.map_eq_some_iff.mp h with ⟨t, ht, rfl⟩
      exact .replica (by simpa using he) ht
  | pull reader peerKey scope limit => exact .pull h
  | serve i =>
      rcases Option.bind_eq_some_iff.mp h with ⟨p, hp, h⟩
      split_ifs at h
      cases h
      exact .serve (List.mem_of_getElem? hp)
  | look i =>
      rcases Option.bind_eq_some_iff.mp h with ⟨p, hp, h⟩
      rcases Option.bind_eq_some_iff.mp h with ⟨a, ha, h⟩
      split_ifs at h with hattached
      cases h
      exact .look (List.mem_of_getElem? hp) ha hattached
  | bind i =>
      rcases Option.bind_eq_some_iff.mp h with ⟨p, hp, h⟩
      split_ifs at h
      cases h
      exact .bind (List.mem_of_getElem? hp)
  | receive i count =>
      rcases Option.bind_eq_some_iff.mp h with ⟨p, hp, h⟩
      rcases Option.bind_eq_some_iff.mp h with ⟨a, ha, h⟩
      split_ifs at h with hne
      cases h
      exact .receive (List.mem_of_getElem? hp) ha hne
  | finish i =>
      rcases Option.bind_eq_some_iff.mp h with ⟨p, hp, h⟩
      rcases Option.bind_eq_some_iff.mp h with ⟨a, ha, h⟩
      split_ifs at h with hnil
      cases h
      exact .finish (List.mem_of_getElem? hp) ha hnil
  | abandon i =>
      cases h
      exact .abandon i
  | catchUp reader peerKey scope db clock ops seq => exact .catchUp h

/-- What becomes of a node: nothing, a step of its own, or cursors and a store that are new. -/
theorem nodes_step {e : SystemEvent} (h : s.step net e = some s') (id : JsString) :
    s'.nodes id = s.nodes id ∨
      (∃ e', e = .replica id e' ∧ e'.setsCursor = false ∧
        (s.nodes id).step e' = some (s'.nodes id)) ∨
      ∃ n, s'.nodes id = (s.nodes id).withNode n ∧ n.id = (s.node id).id := by
  have hwithNode : ∀ {reader : JsString} {n : CRDTNode} (ops : List Op),
      n.id = (s.node reader).id →
      (s.withNode reader n ops).nodes id = s.nodes id ∨
        ∃ m, (s.withNode reader n ops).nodes id = (s.nodes id).withNode m ∧
          m.id = (s.node id).id := by
    intro reader n ops hn
    rw [withNode_nodes]
    split_ifs with hid
    · subst hid
      exact Or.inr ⟨n, rfl, hn⟩
    · exact Or.inl rfl
  -- every step of a pull changes the node of its reader at most
  have hnew : ∀ {t : System}, (t.nodes id = s.nodes id ∨
      ∃ n, t.nodes id = (s.nodes id).withNode n ∧ n.id = (s.node id).id) →
      t.nodes id = s.nodes id ∨
      (∃ e', e = .replica id e' ∧ e'.setsCursor = false ∧
        (s.nodes id).step e' = some (t.nodes id)) ∨
      ∃ n, t.nodes id = (s.nodes id).withNode n ∧ n.id = (s.node id).id :=
    Or.imp_right Or.inr
  cases took_of_step h with
  | @replica id' e t he ht =>
      have hnode : (s.withReplica net id' t).nodes id = if id = id' then t else s.nodes id :=
        Function.update_apply s.nodes id' t id
      by_cases hid : id = id'
      · subst hid
        rw [hnode, if_pos rfl]
        exact Or.inr (Or.inl ⟨e, rfl, he, ht⟩)
      · rw [hnode, if_neg hid]
        exact Or.inl rfl
  | pull hpull =>
      rw [System.pullStep] at hpull
      split_ifs at hpull
      cases hpull
      exact Or.inl rfl
  | serve hp =>
      rw [System.serveStep]
      dsimp only
      split_ifs <;> exact Or.inl rfl
  | look hp ha hattached => exact Or.inl rfl
  | bind hp => exact hnew (hwithNode [] (CRDTNode.bindPeer_id _ _ _))
  | @receive i count p a hp ha hne =>
      rw [System.receiveStep]
      dsimp only
      split
      · exact hnew (hwithNode [] (CRDTNode.applyRemote_id _ _ _))
      · exact hnew (hwithNode (a.ops.take count) (CRDTNode.applyRemote_id _ _ _))
  | @finish i p a hp ha hnil =>
      by_cases hreceived : a.received = true
      · rw [System.finishStep, if_pos hreceived]
        exact Or.inl rfl
      · rw [System.finishStep, if_neg hreceived]
        have hcursor := hwithNode (n := (s.node p.reader).advance (p.cursor net)
          (if a.lastSeq = 0 then p.after else a.lastSeq)) [] rfl
        exact hnew hcursor
  | abandon i => exact Or.inl rfl
  | catchUp hcatchUp =>
      rw [System.catchUpStep] at hcatchUp
      dsimp only at hcatchUp
      split_ifs at hcatchUp
      cases hcatchUp
      exact hnew (hwithNode _ rfl)

/-- No step renames a node. -/
theorem step_id {e : SystemEvent} (h : s.step net e = some s') (id : JsString) :
    (s'.node id).id = (s.node id).id := by
  rcases nodes_step h id with hsame | ⟨e', -, he, hstep⟩ | ⟨n, hnode, hid⟩
  · rw [System.node, hsame]
    rfl
  · rw [Traced.step] at hstep
    rcases Option.map_eq_some_iff.mp hstep with ⟨r, hr, heq⟩
    rw [System.node, ← heq]
    exact (ReplicaEvent.step_same hr he).2
  · rw [System.node, hnode]
    exact hid

/-- What has arrived stays. -/
theorem arrived_step {e : SystemEvent} (h : s.step net e = some s') {id : JsString} {op : Op}
    (hop : op ∈ s.arrived id) : op ∈ s'.arrived id := by
  have hmore : ∀ (reader : JsString) (ops : List Op),
      op ∈ Function.update s.arrived reader (s.arrived reader ++ ops) id := by
    intro reader ops
    rw [Function.update_apply]
    split_ifs with hid
    · exact List.mem_append_left _ (hid ▸ hop)
    · exact hop
  cases took_of_step h with
  | replica he ht => exact hmore _ _
  | pull hpull =>
      rw [System.pullStep] at hpull
      split_ifs at hpull
      cases hpull
      exact hop
  | serve hp =>
      rw [System.serveStep]
      dsimp only
      split_ifs <;> exact hop
  | look hp ha hattached => exact hop
  | bind hp => exact hmore _ _
  | @receive i count p a hp ha hne =>
      rw [System.receiveStep]
      dsimp only
      split
      · exact hmore p.reader []
      · exact hmore p.reader (a.ops.take count)
  | @finish i p a hp ha hnil =>
      by_cases hreceived : a.received = true
      · rw [System.finishStep, if_pos hreceived]
        exact hop
      · rw [System.finishStep, if_neg hreceived]
        exact hmore p.reader []
  | abandon i => exact hop
  | catchUp hcatchUp =>
      rw [System.catchUpStep] at hcatchUp
      dsimp only at hcatchUp
      split_ifs at hcatchUp
      cases hcatchUp
      exact hmore _ _

theorem Sound.step (h : s.Sound net) {e : SystemEvent} (hstep : s.step net e = some s') :
    s'.Sound net := by
  cases took_of_step hstep with
  | replica he ht => exact h.replicaStep he ht
  | pull hpull => exact h.pullStep hpull
  | serve hp => exact h.serveStep hp
  | look hp ha hattached => exact h.lookStep hp ha hattached
  | bind hp => exact h.bindStep hp
  | receive hp ha hne => exact h.receiveStep hp ha hne
  | finish hp ha hnil => exact h.finishStep hp ha hnil
  | abandon i => exact h.eraseIdx i
  | catchUp hcatchUp => exact h.catchUpStep hcatchUp

theorem sound_start (net : Network) (config : JsString → NodeConfig) :
    (start config).Sound net where
  kept := fun id => Traced.kept_new rfl _
  cursors := by
    intro reader key _ scope _ k hk
    cases hk
  pulls := by
    intro p hp
    cases hp

theorem runs_sound {config : JsString → NodeConfig} {events : List SystemEvent}
    (h : Runs (step net) (start config) events s) : s.Sound net :=
  h.invariant (fun _ _ _ hsound hstep => hsound.step hstep) (sound_start net config)

/-- Two nodes that know each other by their ids and pull everything. -/
def twoNodes : Network :=
  .ofIds [js "a", js "b"] [none] (by decide) (by decide) (by simp)

def plainConfig (id : JsString) : NodeConfig :=
  ⟨makeClock id, true, [], none, none, 0⟩

/-- A node pulls twice at the same time, and one of the answers comes late. -/
def pullsTwice : List SystemEvent :=
  [.replica (js "a") (.node (.write (js "d") (js "c") (.insert (fun _ => js "x") [none]))),
    .pull (js "b") (js "a") none 0, .pull (js "b") (js "a") none 0, .serve 0,
    .replica (js "a") (.node (.write (js "d") (js "c") (.insert (fun _ => js "y") [none]))),
    .serve 1, .receive 1 2, .receive 0 1, .finish 0]

end System
end ObjyDb
