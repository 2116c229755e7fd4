import ObjyDb.Node.LogRuns
import ObjyDb.Node.Stamping

/-!
# Pulling — nodes that pull from each other

A node pulls the operations of a peer after its cursor, and moves the cursor to the last operation
that it applied.  Pulls of all nodes are under way at the same time; each goes through the steps of
one round of `syncPeer`, in between anything else happens: writes, cuts of the log, other pulls of
the same peer.  An answer is read in pieces; one that is streamed is still written while the log of
its node goes on.

- `Network`: who answers under which key, and which cursors there are
- `System.step`: the steps of all nodes
-/

namespace ObjyDb

open Js Persist

/-! ## Cursors of a node -/

namespace CRDTNode

/-- `this.lastSeen.get(key) || 0` -/
def seen (n : CRDTNode) (key : JsString) : ℕ :=
  (Assoc.get? n.lastSeen key).getD 0

/-- `this.lastSeen.set(key, Math.max(this.lastSeen.get(key) || 0, seen))` -/
def advance (n : CRDTNode) (key : JsString) (seen : ℕ) : CRDTNode :=
  { n with lastSeen := Assoc.set n.lastSeen key (max (n.seen key) seen) }

/-- `_bindPeer(peer, nodeId, previousKey)`: the cursor of the node. -/
def bindPeer (n : CRDTNode) (nodeId previousKey : JsString) : CRDTNode :=
  if nodeId = [] ∨ previousKey = [] ∨ previousKey = nodeId then n
  else
    match Assoc.get? n.lastSeen previousKey with
    | none => n
    | some previous =>
        { n with
          lastSeen := Assoc.erase
            (Assoc.set n.lastSeen nodeId (max (n.seen nodeId) previous)) previousKey }

end CRDTNode

/-! ## Answers -/

/-- An answer with operations, as far as the reader has not read it. -/
structure Answer where
  lastSeq : ℕ
  ops : List Op
  /-- How many operations the iteration of the log may still give; zero is no limit. -/
  room : ℕ
  /-- The sequence number of the node when the iteration was last at the end of the log. -/
  looked : ℕ
  /-- The iteration still comes to what is added to the log. -/
  attached : Bool
  /-- The reader has read some operations. -/
  received : Bool

namespace Answer

/-- `GET /replicate`, and `localPeer`, of a node that does not refuse. -/
def start (r : Replica) (after limit : ℕ) (scope : Option Scope) : Answer :=
  let ops := r.opsAfter after limit scope
  ⟨r.node.seq, ops, limit - ops.length, r.node.seq,
    decide (limit = 0 ∨ ops.length < limit), false⟩

/-- The iteration of a streamed answer comes to operations that were logged in the meantime. -/
def look (a : Answer) (r : Replica) (scope : Option Scope) : Answer :=
  let more := r.opsAfter a.looked a.room scope
  { a with
    ops := a.ops ++ more
    room := a.room - more.length
    looked := r.node.seq
    attached := decide (a.room = 0 ∨ more.length < a.room) }

end Answer

/-- One round of `syncPeer(peer, scope)`. -/
structure Pull where
  reader : JsString
  /-- `_peerKey(peer)` when the round began -/
  peerKey : JsString
  scope : Option Scope
  after : ℕ
  limit : ℕ
  answer : Option Answer
  /-- The answer was `410`. -/
  refused : Bool

/-! ## The system -/

/-- The peers of the nodes.  A peer key is the id of a node or an address that one node answers at;
keys and scopes are such that no two of them share a cursor. -/
structure Network where
  nodeAt : JsString → JsString
  peerKeys : List JsString
  scopes : List (Option Scope)
  unscoped : none ∈ scopes
  nodeAt_mem : ∀ key ∈ peerKeys, nodeAt key ∈ peerKeys
  nodeAt_nodeAt : ∀ key ∈ peerKeys, nodeAt (nodeAt key) = nodeAt key
  cursorKey_inj : ∀ key ∈ peerKeys, ∀ key' ∈ peerKeys, ∀ scope ∈ scopes, ∀ scope' ∈ scopes,
    peerCursorKey key scope = peerCursorKey key' scope' → key = key' ∧ scope = scope'

/-- All nodes by their ids, the operations that each has logged or received in the order in which
they came to it, and the pulls under way. -/
structure System where
  nodes : JsString → Traced
  arrived : JsString → List Op
  pulls : List Pull

/-- Anything that happens in the system. -/
inductive SystemEvent
  | replica (id : JsString) (e : ReplicaEvent)
  /-- A node asks a peer. -/
  | pull (reader peerKey : JsString) (scope : Option Scope) (limit : ℕ)
  /-- The peer answers or refuses. -/
  | serve (i : ℕ)
  /-- The iteration of a streamed answer looks at the log again. -/
  | look (i : ℕ)
  /-- The reader learns the id of the node that answers or refuses. -/
  | bind (i : ℕ)
  /-- The reader applies the next operations of the answer. -/
  | receive (i count : ℕ)
  /-- The reader is at the end of the answer. -/
  | finish (i : ℕ)
  /-- The round breaks off. -/
  | abandon (i : ℕ)
  /-- A node that was refused restores from storage.  What is stored has the operations `ops`, with
  all of the peer up to `seq`. -/
  | catchUp (reader peerKey : JsString) (scope : Option Scope) (db : Store) (clock : Clock)
      (ops : List Op) (seq : ℕ)

namespace ReplicaEvent

/-- The steps of a node that set a cursor of their own. -/
def setsCursor : ReplicaEvent → Bool
  | .node (.applyRemote _ _) => true
  | .node (.applySnapshot _ _ _) => true
  | .node (.applySnapshotObjects _ _ _ _ _ _) => true
  | _ => false

end ReplicaEvent

namespace Traced

def withNode (t : Traced) (n : CRDTNode) : Traced :=
  { t with replica := { t.replica with node := n } }

end Traced

namespace Pull

/-- The cursor that the round moves, once the peer is known by its id. -/
def cursor (net : Network) (p : Pull) : JsString :=
  peerCursorKey (net.nodeAt p.peerKey) p.scope

/-- An iteration of the log of `id` does not see its later operations once the log was replaced. -/
def detach (net : Network) (id : JsString) (p : Pull) : Pull :=
  if net.nodeAt p.peerKey = id then
    { p with answer := p.answer.map fun a => { a with attached := false } }
  else p

end Pull

namespace System

/-- A node and what its reader has got change. -/
def withNode (s : System) (id : JsString) (n : CRDTNode) (ops : List Op) : System :=
  { s with
    nodes := Function.update s.nodes id ((s.nodes id).withNode n)
    arrived := Function.update s.arrived id (s.arrived id ++ ops) }

def node (s : System) (id : JsString) : CRDTNode :=
  (s.nodes id).replica.node

variable (net : Network)

/-- A node has taken a step of its own. -/
def withReplica (s : System) (id : JsString) (t : Traced) : System where
  nodes := Function.update s.nodes id t
  arrived := Function.update s.arrived id
    (s.arrived id ++ CRDTNode.logged (s.node id) t.replica.node)
  pulls :=
    if (s.node id).log <+: t.replica.node.log then s.pulls
    else s.pulls.map (Pull.detach net id)

def replicaStep (s : System) (id : JsString) (e : ReplicaEvent) : Option System :=
  if e.setsCursor then none else ((s.nodes id).step e).map (s.withReplica net id)

/-- The answer of a node to itself would be ignored. -/
def pullStep (s : System) (reader peerKey : JsString) (scope : Option Scope) (limit : ℕ) :
    Option System :=
  if peerKey ∈ net.peerKeys ∧ scope ∈ net.scopes ∧ net.nodeAt peerKey ≠ reader then
    some { s with
      pulls := s.pulls ++ [⟨reader, peerKey, scope,
        (s.node reader).seen (peerCursorKey peerKey scope), limit, none, false⟩] }
  else none

def serveStep (s : System) (i : ℕ) (p : Pull) : System :=
  let source := (s.nodes (net.nodeAt p.peerKey)).replica
  if source.needsSnapshot p.after p.scope then
    { s with pulls := s.pulls.set i { p with refused := true } }
  else
    let answer := Answer.start source p.after p.limit p.scope
    { s with pulls := s.pulls.set i { p with answer := some answer } }

def lookStep (s : System) (i : ℕ) (p : Pull) (a : Answer) : System :=
  let answer := a.look (s.nodes (net.nodeAt p.peerKey)).replica p.scope
  { s with pulls := s.pulls.set i { p with answer := some answer } }

def bindStep (s : System) (p : Pull) : System :=
  s.withNode p.reader ((s.node p.reader).bindPeer (net.nodeAt p.peerKey) p.peerKey) []

/-- Where the store throws, the round breaks off and the cursor stays. -/
def receiveStep (s : System) (i : ℕ) (p : Pull) (a : Answer) (count : ℕ) : System :=
  let batch := a.ops.take count
  let result := (s.node p.reader).applyRemote batch (p.cursor net)
  match result.2 with
  | .error _ => { s.withNode p.reader result.1 [] with pulls := s.pulls.eraseIdx i }
  | .ok _ =>
      let answer := { a with ops := a.ops.drop count, received := true }
      { s.withNode p.reader result.1 batch with
        pulls := s.pulls.set i { p with answer := some answer } }

/-- `res.lastSeq || after` is seen where nothing was received. -/
def finishStep (s : System) (i : ℕ) (p : Pull) (a : Answer) : System :=
  if a.received then { s with pulls := s.pulls.eraseIdx i }
  else
    let seen := if a.lastSeq = 0 then p.after else a.lastSeq
    { s.withNode p.reader ((s.node p.reader).advance (p.cursor net) seen) [] with
      pulls := s.pulls.eraseIdx i }

def catchUpStep (s : System) (reader peerKey : JsString) (scope : Option Scope) (db : Store)
    (clock : Clock) (ops : List Op) (seq : ℕ) : Option System :=
  let source := s.nodes (net.nodeAt peerKey)
  if peerKey ∈ net.peerKeys ∧ scope ∈ net.scopes ∧ seq ≤ source.replica.node.seq ∧
      ∀ op ∈ source.history, scope.all (opMatchesScope op) = true → op.seq ≤ seq → op ∈ ops then
    some (s.withNode reader
      { (s.node reader) with
        db, clock
        lastSeen := Assoc.set (s.node reader).lastSeen
          (peerCursorKey (net.nodeAt peerKey) scope) seq } ops)
  else none

/-- A step of the system, or nothing where the event cannot happen. -/
def step (s : System) : SystemEvent → Option System
  | .replica id e => s.replicaStep net id e
  | .pull reader peerKey scope limit => s.pullStep net reader peerKey scope limit
  | .serve i => s.pulls[i]?.bind fun p =>
      if p.answer.isSome || p.refused then none else some (s.serveStep net i p)
  | .look i => s.pulls[i]?.bind fun p => p.answer.bind fun a =>
      if a.attached then some (s.lookStep net i p a) else none
  | .bind i => s.pulls[i]?.bind fun p =>
      if p.answer.isSome || p.refused then some (s.bindStep net p) else none
  | .receive i count => s.pulls[i]?.bind fun p => p.answer.bind fun a =>
      if a.ops.take count = [] then none else some (s.receiveStep net i p a count)
  | .finish i => s.pulls[i]?.bind fun p => p.answer.bind fun a =>
      if a.ops = [] then some (s.finishStep net i p a) else none
  | .abandon i => some { s with pulls := s.pulls.eraseIdx i }
  | .catchUp reader peerKey scope db clock ops seq =>
      s.catchUpStep net reader peerKey scope db clock ops seq

end System

/-! ## The start -/

/-- How a node is configured. -/
structure NodeConfig where
  clock : Clock
  operationLog : Bool
  shards : ShardNames
  vectorField : Option JsString
  compression : Option Compression
  retainOps : ℕ

def NodeConfig.node (config : NodeConfig) (id : JsString) : CRDTNode :=
  CRDTNode.new id config.clock config.operationLog config.shards config.vectorField
    config.compression

/-- New nodes. -/
def System.start (config : JsString → NodeConfig) : System :=
  ⟨fun id => Traced.new ((config id).node id) (config id).retainOps, fun _ => [], []⟩

/-! ## Keys that share no cursor -/

theorem peerCursorKey_inj {key key' : JsString} {scope scope' : Option Scope}
    (hkey : bar ∉ key) (hkey' : bar ∉ key') (hne' : key' ≠ [])
    (hscope : ∀ plain, scope = some plain → ∀ node, bar ∉ node →
      CursorPlain plain.database plain.collection plain.shard node)
    (hscope' : ∀ plain, scope' = some plain →
      plain.database ≠ [] ∧ plain.collection ≠ [] ∧ plain.shard ≠ [])
    (h : peerCursorKey key scope = peerCursorKey key' scope') : key = key' ∧ scope = scope' := by
  cases scope with
  | none =>
      cases scope' with
      | none => exact ⟨h, rfl⟩
      | some scope' =>
          -- the key of a scope has a bar in it
          refine absurd ?_ hkey
          change key = cursorKey key' scope' at h
          rw [h, cursorKey]
          simp
  | some scope =>
      cases scope' with
      | none =>
          refine absurd ?_ hkey'
          change cursorKey key scope = key' at h
          rw [← h, cursorKey]
          simp
      | some scope' =>
          rcases hscope' scope' rfl with ⟨hd, hc, hs⟩
          rcases (hscope scope rfl key hkey).inj hd hc hs hne' h with ⟨hd, hc, hs⟩
          have hsame : scope = scope' := by
            cases scope
            cases scope'
            simp only at hd hc hs
            rw [hd, hc, hs]
          refine ⟨?_, congrArg some hsame⟩
          change cursorKey key scope = cursorKey key' scope' at h
          rw [hsame, cursorKey, cursorKey] at h
          exact List.append_cancel_right h

/-- Nodes that go by their ids, with ids and scopes that cursor keys tell apart. -/
def Network.ofIds (ids : List JsString) (scopes : List (Option Scope)) (hunscoped : none ∈ scopes)
    (hids : ∀ id ∈ ids, id ≠ [] ∧ bar ∉ id)
    (hscopes : ∀ plain, some plain ∈ scopes →
      (plain.database ≠ [] ∧ plain.collection ≠ [] ∧ plain.shard ≠ []) ∧
        ∀ node, bar ∉ node → CursorPlain plain.database plain.collection plain.shard node) :
    Network where
  nodeAt := fun key => key
  peerKeys := ids
  scopes := scopes
  unscoped := hunscoped
  nodeAt_mem := fun _ hkey => hkey
  nodeAt_nodeAt := fun _ _ => rfl
  cursorKey_inj := by
    intro key hkey key' hkey' scope hscope scope' hscope' h
    refine peerCursorKey_inj (hids key hkey).2 (hids key' hkey').2 (hids key' hkey').1 ?_ ?_ h
    · rintro plain rfl
      exact (hscopes plain hscope).2
    · rintro plain rfl
      exact (hscopes plain hscope').1

end ObjyDb
