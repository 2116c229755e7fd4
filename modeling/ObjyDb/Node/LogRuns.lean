import ObjyDb.Lib.Cursors
import ObjyDb.Lib.Runs
import ObjyDb.Node.Replica

/-!
# LogRuns — what a replica can still send

Along a run of a replica the log is what is left of the history of all operations it ever got.
What was cut or discarded is remembered well enough: a peer is refused, or it is sent every
operation of the history that it asks for.

- `Traced`: a replica with its history
- `Traced.Kept`: the log against the history
- `Traced.answers_complete`: no operation is lost without notice
-/

namespace ObjyDb

open Js Persist

/-! ## The log in one step of a node -/

namespace CRDTNode

variable {n n' : CRDTNode}

/-- Operations with greater numbers come to the end of the log. -/
structure Appends (n n' : CRDTNode) : Prop where
  seq : n.seq ≤ n'.seq
  log : ∃ new : List Op, n'.log = n.log ++ new ∧ new.Pairwise (fun a b => a.seq < b.seq) ∧
    ∀ op ∈ new, n.seq < op.seq ∧ op.seq ≤ n'.seq

theorem Appends.of_eq (hlog : n'.log = n.log) (hseq : n.seq ≤ n'.seq) : Appends n n' :=
  ⟨hseq, [], by rw [hlog, List.append_nil], .nil, by simp⟩

theorem Drafting.appends (h : Drafting n n') : Appends n n' :=
  .of_eq h.log h.seq.ge

/-- The operations that came to the log. -/
def logged (n n' : CRDTNode) : List Op :=
  n'.log.filter fun op => decide (n.seq < op.seq)

theorem Appends.logged_eq (h : Appends n n') (hbound : ∀ op ∈ n.log, op.seq ≤ n.seq) :
    n'.log = n.log ++ logged n n' := by
  rcases h.log with ⟨new, hlog, _, hnew⟩
  have hold : n.log.filter (fun op => decide (n.seq < op.seq)) = [] :=
    List.filter_eq_nil_iff.mpr fun op hop => by simpa using hbound op hop
  have hall : new.filter (fun op => decide (n.seq < op.seq)) = new :=
    List.filter_eq_self.mpr fun op hop => by simpa using (hnew op hop).1
  rw [logged, hlog, List.filter_append, hold, hall, List.nil_append]

theorem pairwise_numbered (n : CRDTNode) (ops : List Op) :
    (n.numbered ops).Pairwise fun a b => a.seq < b.seq := by
  rw [List.pairwise_iff_getElem]
  intro i j hi hj hij
  simp only [numbered, List.getElem_mapIdx]
  exact Nat.add_lt_add_left hij _

theorem seq_of_mem_numbered {ops : List Op} {op : Op} (h : op ∈ n.numbered ops) :
    n.seq < op.seq ∧ op.seq ≤ n.seq + ops.length := by
  rcases List.mem_mapIdx.mp h with ⟨i, hi, rfl⟩
  exact ⟨by dsimp only; omega, by dsimp only; omega⟩

theorem appends_withLogged (n : CRDTNode) (ops : List Op) : Appends n (n.withLogged ops) := by
  refine ⟨Nat.le_add_right _ _, ?_⟩
  rw [withLogged]
  dsimp only
  split_ifs
  · exact ⟨n.numbered ops, rfl, pairwise_numbered n ops, fun op hop => seq_of_mem_numbered hop⟩
  · exact ⟨[], (List.append_nil _).symm, .nil, by simp⟩

@[simp]
theorem notifyOps_log (n : CRDTNode) (ops : List Op) : (n.notifyOps ops).log = n.log := by
  rw [notifyOps]
  split_ifs <;> rfl

@[simp]
theorem notifyOps_seq (n : CRDTNode) (ops : List Op) : (n.notifyOps ops).seq = n.seq := by
  rw [notifyOps]
  split_ifs <;> rfl

/-- The operations are logged before they are applied, and stay when that fails. -/
theorem commitLocalOps_log (n : CRDTNode) (ops : List Op) :
    (n.commitLocalOps ops).1.log = (n.withLogged ops).log ∧
      (n.commitLocalOps ops).1.seq = (n.withLogged ops).seq := by
  rw [commitLocalOps, logOps_eq]
  dsimp only
  cases (n.withLogged ops).applyOps (n.numbered ops) with
  | mk s result =>
      cases result with
      | error err => exact ⟨rfl, rfl⟩
      | ok applied => exact ⟨notifyOps_log _ _, notifyOps_seq _ _⟩

theorem commitLocalOps_appends (h : Drafting n n') (ops : List Op) :
    Appends n (n'.commitLocalOps ops).1 := by
  rcases commitLocalOps_log n' ops with ⟨hlog, hseq⟩
  have happends := appends_withLogged n' ops
  rcases happends.log with ⟨new, hnew, hsorted, hbound⟩
  refine ⟨?_, new, ?_, hsorted, ?_⟩
  · rw [hseq]
    exact h.seq.ge.trans happends.seq
  · rw [hlog, hnew, h.log]
  · intro op hop
    rw [hseq, ← h.seq]
    exact hbound op hop

theorem LocalWrite.apply_appends (n : CRDTNode) (db coll : JsString) (w : LocalWrite) :
    Appends n (w.apply n db coll).1 := by
  have houtcome := w.apply_outcome n db coll
  generalize w.apply n db coll = result at houtcome
  cases houtcome with
  | thrown hdrafting => exact hdrafting.appends
  | puts hdrafting _ _ _ _ _ _ => exact commitLocalOps_appends hdrafting _
  | deletes hdrafting _ _ _ _ _ _ => exact commitLocalOps_appends hdrafting _

theorem applyRemote_log (n : CRDTNode) (ops : List Op) (cursorKey : JsString) :
    (n.applyRemote ops cursorKey).1.log = n.log ∧
      (n.applyRemote ops cursorKey).1.seq = n.seq := by
  rw [applyRemote]
  dsimp only
  split
  · exact ⟨rfl, rfl⟩
  · exact ⟨notifyOps_log _ _, notifyOps_seq _ _⟩

theorem applySnapshot_log (n : CRDTNode) (collections : List SnapshotCollection) (lastSeq : ℕ)
    (cursorKey : JsString) : (n.applySnapshot collections lastSeq cursorKey).1.log = n.log ∧
      (n.applySnapshot collections lastSeq cursorKey).1.seq = n.seq := by
  rw [applySnapshot]
  dsimp only
  split
  · exact ⟨rfl, rfl⟩
  · split_ifs <;> exact ⟨rfl, rfl⟩

theorem applySnapshotObjects_log (n : CRDTNode) (database collection : JsString)
    (objects : List Collection.SnapshotRow) (lastSeq : ℕ) (scopeShard : Option JsString)
    (cursorKey : JsString) :
    (n.applySnapshotObjects database collection objects lastSeq scopeShard cursorKey).1.log =
        n.log ∧
      (n.applySnapshotObjects database collection objects lastSeq scopeShard cursorKey).1.seq =
        n.seq := by
  rw [applySnapshotObjects]
  split_ifs
  · exact ⟨rfl, rfl⟩
  · dsimp only
    split
    · exact ⟨rfl, rfl⟩
    · split_ifs <;> exact ⟨rfl, rfl⟩

theorem setCollectionMeta_log (n : CRDTNode) (db coll : JsString) (next : CollectionMeta) :
    (n.setCollectionMeta db coll next).log = n.log ∧
      (n.setCollectionMeta db coll next).seq = n.seq := by
  rw [setCollectionMeta]
  split <;> exact ⟨rfl, rfl⟩

theorem changeIndexes_log (n : CRDTNode) (db coll : JsString) (work : Collection → Collection) :
    (n.changeIndexes db coll work).log = n.log ∧ (n.changeIndexes db coll work).seq = n.seq := by
  rw [changeIndexes]
  split <;> exact ⟨rfl, rfl⟩

/-- The steps that take operations out of the log. -/
def Event.forgets : Event → Bool
  | .removeDatabase _ => true
  | .removeCollection _ _ => true
  | .prune _ => true
  | _ => false

theorem step_appends (n : CRDTNode) {e : Event} (he : e.forgets = false) :
    Appends n (e.step n) := by
  cases e with
  | write db coll w => exact w.apply_appends n db coll
  | applyRemote ops cursorKey =>
      rcases applyRemote_log n ops cursorKey with ⟨hlog, hseq⟩
      exact .of_eq hlog hseq.ge
  | applySnapshot collections lastSeq cursorKey =>
      rcases applySnapshot_log n collections lastSeq cursorKey with ⟨hlog, hseq⟩
      exact .of_eq hlog hseq.ge
  | applySnapshotObjects database collection objects lastSeq scopeShard cursorKey =>
      rcases applySnapshotObjects_log n database collection objects lastSeq scopeShard cursorKey
        with ⟨hlog, hseq⟩
      exact .of_eq hlog hseq.ge
  | setCollectionMeta db coll next =>
      rcases setCollectionMeta_log n db coll next with ⟨hlog, hseq⟩
      exact .of_eq hlog hseq.ge
  | createIndex db coll path =>
      rcases changeIndexes_log n db coll (fun c => c.createIndex path) with ⟨hlog, hseq⟩
      exact .of_eq hlog hseq.ge
  | dropIndex db coll path =>
      rcases changeIndexes_log n db coll (fun c => c.dropIndex path) with ⟨hlog, hseq⟩
      exact .of_eq hlog hseq.ge
  | removeDatabase db => cases he
  | removeCollection db coll => cases he
  | prune cut => cases he
  -- a restore adopts the sequence number that was persisted, and the rest leaves it alone
  | adoptSeq seq => exact .of_eq rfl (le_max_left _ _)
  | createDatabase db => exact .of_eq rfl le_rfl
  | beginBulkLoad => exact .of_eq rfl le_rfl
  | endBulkLoad => exact .of_eq rfl le_rfl
  | restoreDatabase db => exact .of_eq rfl le_rfl
  | restoreDatabaseTombstone db => exact .of_eq rfl le_rfl
  | restoreCollection db coll next => exact .of_eq rfl le_rfl
  | restoreCollectionTombstone db coll => exact .of_eq rfl le_rfl
  | scheduleIndexBuilds db coll => exact .of_eq rfl le_rfl
  | stepJob db coll job => exact .of_eq rfl le_rfl

end CRDTNode

/-! ## Runs of a replica -/

/-- Anything that happens to a replica. -/
inductive ReplicaEvent
  | node (e : CRDTNode.Event)
  | removeDatabase (db : JsString)
  | removeCollection (db coll : JsString)
  | receiveAck (peerNodeId : JsString) (after : Option ℚ) (scope : Option Scope)
  | replaceShardMap (shards : ShardNames)

namespace ReplicaEvent

/-- What takes operations out of the log is not a step of the node alone. -/
def step (r : Replica) : ReplicaEvent → Option Replica
  | .node e => if e.forgets then none else some { r with node := e.step r.node }
  | .removeDatabase db => some (r.removeDatabase db)
  | .removeCollection db coll => some (r.removeCollection db coll)
  | .receiveAck peerNodeId after scope => some (r.receiveAck peerNodeId after scope).1
  | .replaceShardMap shards => some { r with node := { r.node with shards } }

/-- The operations that the step discards with their database or collection. -/
def discards (r r' : Replica) : ReplicaEvent → List Op
  | .removeDatabase _ => r.node.log.filter fun op => decide (op ∉ r'.node.log)
  | .removeCollection _ _ => r.node.log.filter fun op => decide (op ∉ r'.node.log)
  | _ => []

end ReplicaEvent

/-- A replica, all operations that ever came to its log, and those it discarded with their database
or collection. -/
structure Traced where
  replica : Replica
  history : List Op
  discarded : List Op

namespace Traced

def new (node : CRDTNode) (retainOps : ℕ) : Traced :=
  ⟨Replica.new node retainOps, [], []⟩

def step (t : Traced) (e : ReplicaEvent) : Option Traced :=
  (e.step t.replica).map fun r =>
    ⟨r, t.history ++ CRDTNode.logged t.replica.node r.node,
      t.discarded ++ e.discards t.replica r⟩

/-- The names of the operation are such that its scope can be remembered. -/
def Named (op : Op) : Prop :=
  ∃ shard, op.shard = some shard ∧ (Scope.mk op.db op.coll shard).Plain

/-- What a peer that asks for a scope cannot count on: without a scope, operations of what was
deleted; with one, operations whose names hold a line feed or are empty. -/
def Exempt (t : Traced) (scope : Option Scope) (op : Op) : Prop :=
  match scope with
  | none => op ∈ t.discarded
  | some _ => ¬Named op

/-- The operations that a peer which asks for the scope counts on. -/
def Wanted (t : Traced) (scope : Option Scope) (op : Op) : Prop :=
  op ∈ t.history ∧ scope.all (opMatchesScope op) = true ∧ ¬t.Exempt scope op

/-! ## The log against the history -/

/-- The operation can be told from `trimmed`, or was discarded, and its scope is remembered. -/
structure Forgotten (t : Traced) (op : Op) : Prop where
  cut : (op.seq : ℚ) ≤ t.replica.trimmed ∨ op ∈ t.discarded
  remembered : ∀ shard, op.shard = some shard → (Scope.mk op.db op.coll shard).Plain →
    ∃ trim, Assoc.get? t.replica.scopeTrimmed (scopeKey ⟨op.db, op.coll, shard⟩) = some trim ∧
      op.seq ≤ trim

/-- The log is the history without what is forgotten. -/
structure Kept (t : Traced) : Prop where
  sorted : t.history.Pairwise fun a b => a.seq < b.seq
  positive : ∀ op ∈ t.history, 0 < op.seq
  bound : ∀ op ∈ t.history, op.seq ≤ t.replica.node.seq
  log : t.replica.node.log.Sublist t.history
  forgotten : ∀ op ∈ t.history, op ∉ t.replica.node.log → t.Forgotten op

theorem kept_new {node : CRDTNode} (hlog : node.log = []) (retainOps : ℕ) :
    (new node retainOps).Kept where
  sorted := .nil
  positive := by simp [new]
  bound := by simp [new]
  log := by simp [new, Replica.new, hlog]
  forgotten := by simp [new]

/-! ### Remembered scopes -/

theorem rememberScopeTrim_le (scopeTrimmed : List (JsString × ℕ)) (op : Op) {key : JsString}
    {trim : ℕ} (h : Assoc.get? scopeTrimmed key = some trim) :
    ∃ trim', Assoc.get? (Replica.rememberScopeTrim scopeTrimmed op) key = some trim' ∧
      trim ≤ trim' := by
  rw [Replica.rememberScopeTrim]
  split_ifs
  · exact ⟨trim, h, le_rfl⟩
  · cases normalizeShard op.shard with
    | none => exact ⟨trim, h, le_rfl⟩
    | some shard =>
        dsimp only
        rw [Assoc.get?_set]
        split_ifs with hkey
        · rw [hkey, h]
          exact ⟨_, rfl, le_max_left _ _⟩
        · exact ⟨trim, h, le_rfl⟩

theorem rememberScopeTrim_self (scopeTrimmed : List (JsString × ℕ)) {op : Op} {shard : JsString}
    (hshard : op.shard = some shard) (hplain : (Scope.mk op.db op.coll shard).Plain) :
    ∃ trim, Assoc.get? (Replica.rememberScopeTrim scopeTrimmed op)
        (scopeKey ⟨op.db, op.coll, shard⟩) = some trim ∧ op.seq ≤ trim := by
  have hnames : ¬(op.db = [] ∨ op.coll = []) := by
    rintro (hdb | hcoll)
    · exact hplain.database.nonempty hdb
    · exact hplain.collection.nonempty hcoll
  have hnormal : normalizeShard op.shard = some shard := by
    rw [hshard]
    cases shard with
    | nil => exact absurd rfl hplain.shard.nonempty
    | cons unit rest => rfl
  rw [Replica.rememberScopeTrim, if_neg hnames, hnormal]
  dsimp only
  rw [Assoc.get?_set, if_pos rfl]
  exact ⟨_, rfl, le_max_right _ _⟩

theorem foldl_rememberScopeTrim_le (ops : List Op) (scopeTrimmed : List (JsString × ℕ))
    {key : JsString} {trim : ℕ} (h : Assoc.get? scopeTrimmed key = some trim) :
    ∃ trim', Assoc.get? (ops.foldl Replica.rememberScopeTrim scopeTrimmed) key = some trim' ∧
      trim ≤ trim' := by
  induction ops generalizing scopeTrimmed trim with
  | nil => exact ⟨trim, h, le_rfl⟩
  | cons op ops ih =>
      rcases rememberScopeTrim_le scopeTrimmed op h with ⟨next, hnext, hle⟩
      rcases ih _ hnext with ⟨last, hlast, hle'⟩
      exact ⟨last, hlast, hle.trans hle'⟩

theorem foldl_rememberScopeTrim_mem {ops : List Op} (scopeTrimmed : List (JsString × ℕ)) {op : Op}
    (hop : op ∈ ops) {shard : JsString} (hshard : op.shard = some shard)
    (hplain : (Scope.mk op.db op.coll shard).Plain) :
    ∃ trim, Assoc.get? (ops.foldl Replica.rememberScopeTrim scopeTrimmed)
        (scopeKey ⟨op.db, op.coll, shard⟩) = some trim ∧ op.seq ≤ trim := by
  induction ops generalizing scopeTrimmed with
  | nil => cases hop
  | cons first ops ih =>
      rcases List.mem_cons.mp hop with rfl | hop
      · -- remembered here, and not lowered later
        rcases rememberScopeTrim_self scopeTrimmed hshard hplain with ⟨trim, htrim, hle⟩
        rcases foldl_rememberScopeTrim_le ops _ htrim with ⟨last, hlast, hle'⟩
        exact ⟨last, hlast, hle.trans hle'⟩
      · exact ih _ hop

/-! ### Steps -/

variable {t t' : Traced}

theorem Kept.log_bound (h : t.Kept) : ∀ op ∈ t.replica.node.log, op.seq ≤ t.replica.node.seq :=
  fun op hop => h.bound op (h.log.subset hop)

/-- Operations leave the log; each is told from the new `trimmed` or is discarded. -/
theorem Kept.keepOps (h : t.Kept) {keep : Op → Bool} {r : Replica} {discarded : List Op}
    (hseq : r.node.seq = t.replica.node.seq) (hlog : r.node.log = t.replica.node.log.filter keep)
    (hscope : r.scopeTrimmed = (t.replica.keepOps keep).scopeTrimmed)
    (htrimmed : t.replica.trimmed ≤ r.trimmed) (hdiscarded : ∀ op ∈ t.discarded, op ∈ discarded)
    (hleft : ∀ op ∈ t.replica.node.log, keep op = false →
      (op.seq : ℚ) ≤ r.trimmed ∨ op ∈ discarded) :
    (Traced.mk r t.history discarded).Kept where
  sorted := h.sorted
  positive := h.positive
  bound := hseq.symm ▸ h.bound
  log := hlog.symm ▸ List.filter_sublist.trans h.log
  forgotten := by
    intro op hop hgone
    change op ∉ r.node.log at hgone
    by_cases hlogged : op ∈ t.replica.node.log
    · have hkeep : keep op = false := by
        by_contra hkept
        rw [hlog] at hgone
        exact hgone (List.mem_filter.mpr ⟨hlogged, by simpa using hkept⟩)
      refine ⟨hleft op hlogged hkeep, ?_⟩
      intro shard hshard hplain
      change ∃ trim, Assoc.get? r.scopeTrimmed _ = some trim ∧ _
      rw [hscope]
      exact foldl_rememberScopeTrim_mem _ (List.mem_filter.mpr ⟨hlogged, by simp [hkeep]⟩) hshard
        hplain
    · -- forgotten before
      have hbefore := h.forgotten op hop hlogged
      refine ⟨?_, ?_⟩
      · rcases hbefore.cut with hle | hmem
        · exact Or.inl (hle.trans htrimmed)
        · exact Or.inr (hdiscarded op hmem)
      · intro shard hshard hplain
        rcases hbefore.remembered shard hshard hplain with ⟨trim, htrim, hle⟩
        rcases foldl_rememberScopeTrim_le (t.replica.node.log.filter fun op => !keep op) _ htrim
          with ⟨trim', htrim', hle'⟩
        refine ⟨trim', ?_, hle.trans hle'⟩
        change Assoc.get? r.scopeTrimmed _ = some trim'
        rw [hscope]
        exact htrim'

theorem Kept.node (h : t.Kept) {n : CRDTNode} (happends : CRDTNode.Appends t.replica.node n) :
    (Traced.mk { t.replica with node := n } (t.history ++ CRDTNode.logged t.replica.node n)
      t.discarded).Kept := by
  have hlogged := happends.logged_eq h.log_bound
  have hnew : ∀ op ∈ CRDTNode.logged t.replica.node n,
      t.replica.node.seq < op.seq ∧ op.seq ≤ n.seq := by
    rcases happends.log with ⟨new, hlog, _, hnew⟩
    rw [hlogged] at hlog
    rw [List.append_cancel_left hlog]
    exact hnew
  have hsorted : (CRDTNode.logged t.replica.node n).Pairwise fun a b => a.seq < b.seq := by
    rcases happends.log with ⟨new, hlog, hsorted, _⟩
    rw [hlogged] at hlog
    rw [List.append_cancel_left hlog]
    exact hsorted
  refine ⟨?_, ?_, ?_, ?_, ?_⟩
  · refine List.pairwise_append.mpr ⟨h.sorted, hsorted, ?_⟩
    intro a ha b hb
    exact (h.bound a ha).trans_lt (hnew b hb).1
  · intro op hop
    rcases List.mem_append.mp hop with hold | hadded
    · exact h.positive op hold
    · exact Nat.zero_lt_of_lt (hnew op hadded).1
  · intro op hop
    rcases List.mem_append.mp hop with hold | hadded
    · exact (h.bound op hold).trans happends.seq
    · exact (hnew op hadded).2
  · change n.log.Sublist _
    rw [hlogged]
    exact h.log.append (List.Sublist.refl _)
  · intro op hop hgone
    change op ∉ n.log at hgone
    rw [hlogged] at hgone
    rcases List.mem_append.mp hop with hold | hadded
    · have hbefore := h.forgotten op hold fun hin => hgone (List.mem_append_left _ hin)
      exact ⟨hbefore.cut, hbefore.remembered⟩
    · exact absurd (List.mem_append_right _ hadded) hgone

/-- Nothing comes to the log where its operations are those of before. -/
theorem Kept.logged_nil (h : t.Kept) {n : CRDTNode}
    (hlog : ∀ op ∈ n.log, op ∈ t.replica.node.log) : CRDTNode.logged t.replica.node n = [] :=
  List.filter_eq_nil_iff.mpr fun op hop => by simpa using h.log_bound op (hlog op hop)

theorem Kept.receiveAck (h : t.Kept) (peerNodeId : JsString) (after : Option ℚ)
    (scope : Option Scope) :
    (Traced.mk (t.replica.receiveAck peerNodeId after scope).1 t.history t.discarded).Kept := by
  have hsame : ∀ acks, (Traced.mk { t.replica with acks } t.history t.discarded).Kept := by
    intro acks
    exact ⟨h.sorted, h.positive, h.bound, h.log, fun op hop hgone =>
      ⟨(h.forgotten op hop hgone).cut, (h.forgotten op hop hgone).remembered⟩⟩
  rw [Replica.receiveAck, Replica.prune]
  dsimp only
  split_ifs with _ _ hremoved
  · exact hsame _
  · exact hsame _
  · -- the cut is behind the old one
    refine (hsame _).keepOps rfl rfl rfl (sub_pos.mp hremoved).le (fun _ hop => hop) ?_
    intro op _ hcut
    exact Or.inl (not_lt.mp (of_decide_eq_false hcut))
  · exact hsame _

/-- A deletion discards the operations that it takes out of the log. -/
theorem Kept.discard (h : t.Kept) (keep : Op → Bool) {r : Replica}
    (hseq : r.node.seq = t.replica.node.seq) (hlog : r.node.log = t.replica.node.log.filter keep)
    (hscope : r.scopeTrimmed = (t.replica.keepOps keep).scopeTrimmed)
    (htrimmed : r.trimmed = t.replica.trimmed) :
    (Traced.mk r t.history
      (t.discarded ++ t.replica.node.log.filter fun op => decide (op ∉ r.node.log))).Kept := by
  refine h.keepOps hseq hlog hscope htrimmed.ge (fun _ hop => List.mem_append_left _ hop) ?_
  intro op hop hkeep
  refine Or.inr (List.mem_append_right _ (List.mem_filter.mpr ⟨hop, ?_⟩))
  have hgone : op ∉ r.node.log := by
    rw [hlog]
    intro hin
    rw [(List.mem_filter.mp hin).2] at hkeep
    cases hkeep
  exact decide_eq_true hgone

theorem keepOps_true (r : Replica) :
    (r.keepOps fun _ => true).scopeTrimmed = r.scopeTrimmed ∧
      r.node.log = r.node.log.filter fun _ => true := by
  simp [Replica.keepOps]

theorem Kept.removeDatabase (h : t.Kept) (db : JsString) :
    (Traced.mk (t.replica.removeDatabase db) t.history
      (t.discarded ++ t.replica.node.log.filter fun op =>
        decide (op ∉ (t.replica.removeDatabase db).node.log))).Kept := by
  rw [Replica.removeDatabase]
  dsimp only
  split_ifs
  · exact h.discard _ rfl rfl rfl rfl
  · rcases keepOps_true t.replica with ⟨hscope, hlog⟩
    exact h.discard (fun _ => true) rfl hlog hscope.symm rfl

theorem Kept.removeCollection (h : t.Kept) (db coll : JsString) :
    (Traced.mk (t.replica.removeCollection db coll) t.history
      (t.discarded ++ t.replica.node.log.filter fun op =>
        decide (op ∉ (t.replica.removeCollection db coll).node.log))).Kept := by
  rw [Replica.removeCollection]
  dsimp only
  split_ifs
  · exact h.discard _ rfl rfl rfl rfl
  · rcases keepOps_true t.replica with ⟨hscope, hlog⟩
    exact h.discard (fun _ => true) rfl hlog hscope.symm rfl

theorem removeDatabase_subset (r : Replica) (db : JsString) :
    ∀ op ∈ (r.removeDatabase db).node.log, op ∈ r.node.log := by
  rw [Replica.removeDatabase]
  dsimp only
  split_ifs
  · exact fun op hop => List.mem_of_mem_filter hop
  · exact fun op hop => hop

theorem removeCollection_subset (r : Replica) (db coll : JsString) :
    ∀ op ∈ (r.removeCollection db coll).node.log, op ∈ r.node.log := by
  rw [Replica.removeCollection]
  dsimp only
  split_ifs
  · exact fun op hop => List.mem_of_mem_filter hop
  · exact fun op hop => hop

theorem receiveAck_subset (r : Replica) (peerNodeId : JsString) (after : Option ℚ)
    (scope : Option Scope) :
    ∀ op ∈ (r.receiveAck peerNodeId after scope).1.node.log, op ∈ r.node.log := by
  rw [Replica.receiveAck, Replica.prune]
  dsimp only
  split_ifs
  · exact fun op hop => hop
  · exact fun op hop => hop
  · exact fun op hop => List.mem_of_mem_filter hop
  · exact fun op hop => hop

/-- Every step keeps the log against the history. -/
theorem Kept.step (h : t.Kept) {e : ReplicaEvent} (hstep : t.step e = some t') : t'.Kept := by
  rw [Traced.step] at hstep
  rcases Option.map_eq_some_iff.mp hstep with ⟨r, hr, rfl⟩
  cases e with
  | node e =>
      rw [ReplicaEvent.step] at hr
      split_ifs at hr with hforgets
      cases hr
      simp only [ReplicaEvent.discards, List.append_nil]
      exact h.node (CRDTNode.step_appends _ (by simpa using hforgets))
  | removeDatabase db =>
      cases hr
      rw [h.logged_nil (removeDatabase_subset _ db), List.append_nil]
      exact h.removeDatabase db
  | removeCollection db coll =>
      cases hr
      rw [h.logged_nil (removeCollection_subset _ db coll), List.append_nil]
      exact h.removeCollection db coll
  | receiveAck peerNodeId after scope =>
      cases hr
      rw [h.logged_nil (receiveAck_subset _ peerNodeId after scope)]
      simp only [ReplicaEvent.discards, List.append_nil]
      exact h.receiveAck peerNodeId after scope
  | replaceShardMap shards =>
      cases hr
      simp only [ReplicaEvent.discards, List.append_nil]
      exact h.node (n := { t.replica.node with shards }) (.of_eq rfl le_rfl)

/-! ## Answers -/

theorem opMatchesScope_eq {op : Op} {shard : JsString} (hshard : op.shard = some shard)
    (scope : Scope) :
    scopeMatches ⟨op.db, op.coll, shard⟩ scope = opMatchesScope op scope := by
  simp only [scopeMatches, opMatchesScope, hshard, Option.some_inj, eq_comm]

/-- A node that does not refuse a peer still has what the peer counts on. -/
theorem Kept.mem_log (h : t.Kept) {after : ℚ} {scope : Option Scope}
    (hserves : t.replica.needsSnapshot after scope = false) {op : Op} (hwanted : t.Wanted scope op)
    (hafter : after < op.seq) : op ∈ t.replica.node.log := by
  rcases hwanted with ⟨hhistory, hmatches, hexempt⟩
  by_contra hgone
  have hforgotten := h.forgotten op hhistory hgone
  cases scope with
  | none =>
      have htrimmed : t.replica.trimmed ≤ after := not_lt.mp (of_decide_eq_false hserves)
      rcases hforgotten.cut with hle | hdiscarded
      · exact absurd hafter (not_lt.mpr (hle.trans htrimmed))
      · exact hexempt hdiscarded
  | some scope =>
      -- its scope was remembered, and the peer would have been refused
      rcases not_not.mp hexempt with ⟨shard, hshard, hplain⟩
      rcases hforgotten.remembered shard hshard hplain with ⟨trim, htrim, hle⟩
      have hnone := List.any_eq_false.mp hserves _ (Assoc.mem_of_get?_eq_some htrim)
      rw [parseScopeKey_scopeKey hplain, opMatchesScope_eq hshard] at hnone
      have hlt : after < (trim : ℚ) := hafter.trans_le (by exact_mod_cast hle)
      have hmatch : opMatchesScope op scope = true := hmatches
      exact hnone (by simp [hlt, hmatch])

theorem runs_kept {node : CRDTNode} (hlog : node.log = []) {retainOps : ℕ}
    {events : List ReplicaEvent} (h : Runs step (new node retainOps) events t) : t.Kept :=
  h.invariant (fun _ _ _ hkept hstep => hkept.step hstep) (kept_new hlog retainOps)

/-- Two inserts, of which a peer has the first. -/
def cutBehindPeer : List ReplicaEvent :=
  [.node (.write (js "d") (js "c") (.insert (fun _ => js "x") [none])),
    .node (.write (js "d") (js "c") (.insert (fun _ => js "y") [none])),
    .receiveAck (js "p") (some 1) none]

end Traced
end ObjyDb
