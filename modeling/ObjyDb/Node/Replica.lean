import Mathlib.Data.Rat.Defs
import Mathlib.Algebra.Order.Ring.Rat
import ObjyDb.Node.Commits
import ObjyDb.Persist.Identifiers

/-!
# Replica — a node and what it forgets of its log

Peers ask a node for the operations after a sequence number and acknowledge what they have.  The
node cuts its log behind the lowest acknowledgement, discards the operations of what is deleted,
and remembers how far its log reaches back: `trimmed` for all operations, `scopeTrimmed` for those
of one collection and shard.

- `Replica.opsAfter`, `Replica.needsSnapshot`: what is answered
- `Replica.receiveAck`, `Replica.prune`, `Replica.discardOps`: what is forgotten
-/

namespace ObjyDb

open Js Persist

/-- A node with the fields that its log is cut by. -/
structure Replica where
  node : CRDTNode
  trimmed : ℚ
  scopeTrimmed : List (JsString × ℕ)
  /-- By cursor key; `NaN` is `none`. -/
  acks : List (JsString × Option ℚ)
  retainOps : ℕ

/-- `_opMatchesScope(op, scope)` -/
def opMatchesScope (op : Op) (scope : Scope) : Bool :=
  (decide (scope.database = globalDatabase) || decide (op.db = scope.database)) &&
    (decide (scope.collection = globalCollection) || decide (op.coll = scope.collection)) &&
    decide (op.shard = some scope.shard)

/-- `scopeMatches(opScope, requested)` -/
def scopeMatches (opScope requested : Scope) : Bool :=
  (decide (requested.database = globalDatabase) ||
      decide (requested.database = opScope.database)) &&
    (decide (requested.collection = globalCollection) ||
      decide (requested.collection = opScope.collection)) &&
    decide (requested.shard = opScope.shard)

/-- `_cursorKey(peerKey, scope)`, where the scope may be missing. -/
def peerCursorKey (peerKey : JsString) (scope : Option Scope) : JsString :=
  match scope with
  | none => peerKey
  | some scope => cursorKey peerKey scope

namespace Replica

def new (node : CRDTNode) (retainOps : ℕ) : Replica :=
  ⟨node, 0, [], [], retainOps⟩

/-! ## Answers -/

/-- `op.seq <= after` and `_opMatchesScope` decide what is left out. -/
def isAfter (after : ℚ) (scope : Option Scope) (op : Op) : Bool :=
  !decide ((op.seq : ℚ) ≤ after) && scope.all (opMatchesScope op)

/-- `_opsAfter(after, limit, scope)`; a limit of zero is none. -/
def opsAfter (r : Replica) (after : ℚ) (limit : ℕ) (scope : Option Scope) : List Op :=
  let found := r.node.log.filter (isAfter after scope)
  if limit = 0 then found else found.take limit

/-- `needsSnapshot(after, scope)` -/
def needsSnapshot (r : Replica) (after : ℚ) (scope : Option Scope) : Bool :=
  match scope with
  | none => decide (after < r.trimmed)
  | some scope =>
      r.scopeTrimmed.any fun entry =>
        decide (after < entry.2) && scopeMatches (parseScopeKey entry.1) scope

/-! ## Forgetting -/

/-- `_rememberScopeTrim(op)` -/
def rememberScopeTrim (scopeTrimmed : List (JsString × ℕ)) (op : Op) : List (JsString × ℕ) :=
  if op.db = [] ∨ op.coll = [] then scopeTrimmed
  else
    match normalizeShard op.shard with
    | none => scopeTrimmed
    | some shard =>
        let key := scopeKey ⟨op.db, op.coll, shard⟩
        Assoc.set scopeTrimmed key (max ((Assoc.get? scopeTrimmed key).getD 0) op.seq)

/-- The log without the operations that `keep` rejects; they are remembered by their scopes. -/
def keepOps (r : Replica) (keep : Op → Bool) : Replica :=
  { r with
    node := { r.node with log := r.node.log.filter keep }
    scopeTrimmed :=
      (r.node.log.filter fun op => !keep op).foldl rememberScopeTrim r.scopeTrimmed }

/-- The lowest acknowledgement; `Infinity` is `none`. -/
def watermark (acks : List (JsString × Option ℚ)) : Option ℚ :=
  acks.foldl (fun watermark entry =>
    match watermark, entry.2 with
    | watermark, none => watermark
    | none, some ack => some ack
    | some lowest, some ack => if ack < lowest then some ack else some lowest) none

/-- `prune()`: how many sequence numbers were cut off. -/
def prune (r : Replica) : Replica × ℚ :=
  if r.acks = [] then (r, 0)
  else
    let safe : Option ℚ := (watermark r.acks).map fun lowest => max 0 (lowest - (r.retainOps : ℚ))
    if safe.any fun safe => decide (safe ≤ r.trimmed) then (r, 0)
    else
      let cut : ℚ := (safe.map fun safe => min safe (r.node.seq : ℚ)).getD r.node.seq
      let removed := cut - r.trimmed
      if 0 < removed then
        ({ r.keepOps (fun op => decide (cut < op.seq)) with trimmed := cut }, removed)
      else (r, removed)

/-- `receiveAck(peerNodeId, after, scope)`; `NaN` is `none`. -/
def receiveAck (r : Replica) (peerNodeId : JsString) (after : Option ℚ) (scope : Option Scope) :
    Replica × ℚ :=
  prune { r with
    acks := Assoc.set r.acks (peerCursorKey peerNodeId scope)
      (after.map fun after => min after (r.node.seq : ℚ)) }

/-- `_discardOps(matches)` -/
def discardOps (r : Replica) (discards : Op → Bool) : Replica :=
  r.keepOps fun op => !discards op

/-- `removeDatabase(db)` -/
def removeDatabase (r : Replica) (db : JsString) : Replica :=
  let (s, removed) := r.node.db.deleteDatabase db
  if removed || !r.node.db.isDatabaseDeleted db then
    let r := { r with node := { r.node with db := s } }.discardOps fun op => decide (op.db = db)
    { r with node := r.node.notifyChange (.dropDatabase db) }
  else { r with node := { r.node with db := s } }

/-- `removeCollection(db, coll)` -/
def removeCollection (r : Replica) (db coll : JsString) : Replica :=
  let (s, removed) := r.node.db.deleteCollection db coll
  if removed || !r.node.db.isCollectionDeleted db coll then
    let r := { r with node := { r.node with db := s } }.discardOps fun op =>
      decide (op.db = db ∧ op.coll = coll)
    { r with node := r.node.notifyChange (.dropCollection db coll) }
  else { r with node := { r.node with db := s } }

/-! ## The node of a replica -/

variable (r : Replica)

@[simp]
theorem keepOps_log (keep : Op → Bool) : (r.keepOps keep).node.log = r.node.log.filter keep := rfl

@[simp]
theorem keepOps_seq (keep : Op → Bool) : (r.keepOps keep).node.seq = r.node.seq := rfl

@[simp]
theorem keepOps_trimmed (keep : Op → Bool) : (r.keepOps keep).trimmed = r.trimmed := rfl

/-- A cut leaves the rest of the node as it is. -/
theorem receiveAck_node (peerNodeId : JsString) (after : Option ℚ) (scope : Option Scope) :
    ∃ log, (r.receiveAck peerNodeId after scope).1.node = { r.node with log } := by
  rw [receiveAck, prune]
  dsimp only
  split_ifs <;> exact ⟨_, rfl⟩

/-- Deleting a database or a collection is what it is for the node. -/
theorem removeDatabase_node (db : JsString) :
    (r.removeDatabase db).node = r.node.removeDatabase db := by
  rw [removeDatabase, CRDTNode.removeDatabase]
  dsimp only
  split_ifs
  · simp only [discardOps, keepOps, decide_not]
  · rfl

theorem removeCollection_node (db coll : JsString) :
    (r.removeCollection db coll).node = r.node.removeCollection db coll := by
  rw [removeCollection, CRDTNode.removeCollection]
  dsimp only
  split_ifs
  · simp only [discardOps, keepOps, decide_not]
  · rfl

end Replica
end ObjyDb
