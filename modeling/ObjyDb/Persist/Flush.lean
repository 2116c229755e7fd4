import ObjyDb.Persist.Storage

/-!
# Flush — when the queues are written

A flush swaps the queues for empty ones and writes its batch call by call; changes queued in the
meantime wait for the next flush.  `flush` does nothing while one runs or a checkpoint has paused
it, and a change that fills a journal batch starts one.
-/

namespace ObjyDb
namespace Persist

open Js

/-! ## State -/

/-- A flush in flight: what it took, and the calls it still has to make. -/
structure FlushTask where
  batch : Queues
  calls : List StorageCall

structure Flusher where
  queues : Queues
  flushing : Option FlushTask
  flushPaused : Bool

namespace Flusher

def idle : Flusher := ⟨.empty, none, false⟩

/-- `flush()`, up to its first call. -/
def flush (config : Config) (f : Flusher) : Flusher :=
  if f.flushPaused || f.flushing.isSome || f.queues.isEmpty then f
  else { f with queues := .empty, flushing := some ⟨f.queues, flushCalls config f.queues⟩ }

/-- `_queueOp(op)` -/
def queueOp (config : Config) (f : Flusher) (op : Op) : Flusher :=
  let queued := { f with queues := f.queues.queueOp op }
  if Queues.queueable op ∧ config.opBatchSize ≤ (queued.queues.opsAt (scopeKey (opScope op))).length then
    queued.flush config
  else queued

/-- The queueing of `_queueOps(ops)`. -/
def queueOps (config : Config) (f : Flusher) (ops : List Op) : Flusher :=
  ops.foldl (queueOp config) f

/-- A flush whose calls fail puts its batch back. -/
def fail (f : Flusher) (task : FlushTask) : Flusher :=
  { f with queues := f.queues.requeue task.batch, flushing := none }

end Flusher

end Persist
end ObjyDb
