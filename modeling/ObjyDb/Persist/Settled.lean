import ObjyDb.Persist.Pending

/-!
# Settled — what storage will hold

`settled` is the image of storage after the flush in flight and one more flush succeed.  Queueing a
change makes the change there; starting, continuing and ending a flush leave it as it is, and so
does a failed flush when nothing queued since drops what its batch holds.
-/

namespace ObjyDb
namespace Persist

open Js WriteBehind

namespace Flusher

/-- What storage will hold when the flush in flight has succeeded. -/
noncomputable def landed (f : Flusher) (s : Storage) : StorageImage :=
  match f.flushing with
  | none => image s
  | some task => (image s).flush task.batch.image

/-- What storage will hold when the queues are flushed after that. -/
noncomputable def settled (f : Flusher) (s : Storage) : StorageImage :=
  (f.landed s).flush f.queues.image

/-- The calls a flush still has to make, and what they will do. -/
structure Consistent (config : Config) (f : Flusher) (s : Storage) : Prop where
  keyed : f.queues.Keyed
  batch : ∀ task, f.flushing = some task → task.batch.Keyed
  calls : ∀ task, f.flushing = some task → ∀ call ∈ task.calls,
    call ∈ flushCalls config task.batch
  lands : ∀ task, f.flushing = some task →
    image (applyCalls task.calls s) = (image s).flush task.batch.image

section

variable {config : Config} {f : Flusher} {s : Storage}

theorem keyed_empty : Queues.empty.Keyed :=
  ⟨List.nodup_nil, List.nodup_nil, List.nodup_nil, by simp [Queues.empty, Assoc.keys]⟩

theorem image_empty : Queues.empty.image = Pending.none := by
  simp only [Queues.empty, Queues.image, Queues.Holds, Pending.none, List.not_mem_nil, false_and,
    exists_false]
  rfl

theorem consistent_idle : Consistent config Flusher.idle s :=
  ⟨keyed_empty, nofun, nofun, nofun⟩

/-! ## A change is queued -/

/-- The queues after a change that keeps their keys in order. -/
theorem Consistent.queue (h : f.Consistent config s) {q : Queues} (hq : q.Keyed) :
    Consistent config { f with queues := q } s :=
  ⟨hq, h.batch, h.calls, h.lands⟩

theorem settled_queue (q : Queues) :
    settled { f with queues := q } s = (f.landed s).flush q.image := rfl

/-! ## A flush goes on -/

theorem Consistent.flush (h : f.Consistent config s) : (f.flush config).Consistent config s := by
  unfold Flusher.flush
  split_ifs
  · exact h
  · refine ⟨keyed_empty, ?_, ?_, ?_⟩ <;> rintro task ⟨⟩
    · exact h.keyed
    · exact fun call hcall => hcall
    · exact image_flushCalls h.keyed s

theorem settled_flush : (f.flush config).settled s = f.settled s := by
  unfold Flusher.flush
  split_ifs with hbusy
  · rfl
  · have hidle : f.flushing = none := by
      cases hf : f.flushing with
      | none => rfl
      | some task => simp [hf] at hbusy
    simp [settled, landed, hidle, image_empty]

theorem Consistent.call (h : f.Consistent config s) {batch : Queues} {call : StorageCall}
    {calls : List StorageCall} (htask : f.flushing = some ⟨batch, call :: calls⟩) :
    Consistent config { f with flushing := some ⟨batch, calls⟩ } (call.apply s) := by
  have hbatch := h.batch _ htask
  have hcall := h.calls _ htask call List.mem_cons_self
  have hwithin := flush_within (within_call hbatch hcall s).1
  refine ⟨h.keyed, ?_, ?_, ?_⟩ <;> rintro task ⟨⟩
  · exact hbatch
  · exact fun c hc => h.calls _ htask c (List.mem_cons_of_mem _ hc)
  · exact (h.lands _ htask).trans hwithin.symm

theorem settled_call (h : f.Consistent config s) {batch : Queues} {call : StorageCall}
    {calls : List StorageCall} (htask : f.flushing = some ⟨batch, call :: calls⟩) :
    settled { f with flushing := some ⟨batch, calls⟩ } (call.apply s) = f.settled s := by
  have hwithin := flush_within (within_call (h.batch _ htask)
    (h.calls _ htask call List.mem_cons_self) s).1
  simp only [settled, landed, htask, hwithin]

theorem Consistent.ends (h : f.Consistent config s) :
    Consistent config { f with flushing := none } s :=
  ⟨h.keyed, nofun, nofun, nofun⟩

theorem settled_ends (h : f.Consistent config s) {batch : Queues}
    (htask : f.flushing = some ⟨batch, []⟩) :
    settled { f with flushing := none } s = f.settled s := by
  have hlands := h.lands _ htask
  simp only [settled, landed, htask]
  rw [← hlands]
  rfl

theorem Consistent.fail (h : f.Consistent config s) {task : FlushTask}
    (htask : f.flushing = some task) (s' : Storage) : (f.fail task).Consistent config s' :=
  ⟨keyed_requeue h.keyed (h.batch _ htask), nofun, nofun, nofun⟩

theorem settled_fail (h : f.Consistent config s) {batch : Queues} {call : StorageCall}
    {calls : List StorageCall} (htask : f.flushing = some ⟨batch, call :: calls⟩)
    (hspares : f.queues.image.Spares batch.image) (reached : Bool)
    (survives : StorageKey → Bool) :
    (f.fail ⟨batch, call :: calls⟩).settled (call.applyPartly reached survives s) =
      f.settled s := by
  have hwithin := flush_within ((within_call (h.batch _ htask)
    (h.calls _ htask call List.mem_cons_self) s).2 reached survives)
  calc
    (f.fail ⟨batch, call :: calls⟩).settled (call.applyPartly reached survives s)
        = (image (call.applyPartly reached survives s)).flush
            (f.queues.image.requeue batch.image) := by
          rw [← image_requeue h.keyed]
          rfl
    _ = ((image (call.applyPartly reached survives s)).flush batch.image).flush
            f.queues.image := flush_requeue hspares _
    _ = f.settled s := by
          rw [hwithin]
          simp only [settled, landed, htask]

/-! ## Operations are queued -/

theorem Consistent.queueOp (h : f.Consistent config s) (op : Op) :
    (f.queueOp config op).Consistent config s := by
  have hqueued := h.queue (keyed_queueOp h.keyed op)
  unfold Flusher.queueOp
  dsimp only
  split_ifs
  · exact hqueued.flush
  · exact hqueued

theorem settled_queueOp (h : f.Consistent config s) {op : Op} (hop : PlainOp op) :
    (f.queueOp config op).settled s = (f.settled s).record op.db op.coll op := by
  have hqueued : settled { f with queues := f.queues.queueOp op } s =
      (f.settled s).record op.db op.coll op := by
    rw [settled_queue, image_queueOp h.keyed hop, flush_record]
    rfl
  unfold Flusher.queueOp
  dsimp only
  split_ifs
  · exact settled_flush.trans hqueued
  · exact hqueued

end

end Flusher

end Persist
end ObjyDb
