import ObjyDb.Lib.Runs
import Mathlib.Data.List.Nodup
import Mathlib.Tactic.Common

/-!
# Derived — the scheduler of derived-state builds

Index, column and vector builds are jobs of one scheduler.  It starts them in order, a number of
them at a time; a started job first yields to the event loop and then runs, unless it was cancelled
meanwhile.

* `Valid.step` — what every event keeps
* `rebuilds_spec` — the guarantees over any order of events
-/

namespace ObjyDb

/-- A job; `owner` is `none` for `null` and `undefined`. -/
structure DerivedJob (Owner : Type) where
  id : Nat
  owner : Option Owner
  cancelled : Bool

/-- A started job first waits in `yieldToEventLoop`, then in `job.run`. -/
inductive JobPhase
  | yielding
  | running
  deriving DecidableEq

structure ActiveJob (Owner : Type) where
  job : DerivedJob Owner
  phase : JobPhase

/-- What the promise of a job is settled with. -/
inductive JobOutcome (Value Error : Type)
  | resolved (value : Value)
  | rejected (error : Error)
  | cancelled
  | closed

/-- The scheduler.  The last four fields are its history: the owner of every job ever scheduled, by
id, and the jobs started, run and settled, in order. -/
structure DerivedStateScheduler (Owner Value Error : Type) where
  maxConcurrent : Nat
  queue : List (DerivedJob Owner)
  active : List (ActiveJob Owner)
  completed : Nat
  failed : Nat
  closed : Bool
  owners : List (Option Owner)
  starts : List Nat
  runs : List Nat
  settled : List (Nat × JobOutcome Value Error)

namespace DerivedStateScheduler

section

variable {Owner Value Error : Type}

def new (maxConcurrent : Nat) : DerivedStateScheduler Owner Value Error where
  maxConcurrent
  queue := []
  active := []
  completed := 0
  failed := 0
  closed := false
  owners := []
  starts := []
  runs := []
  settled := []

/-- `job.resolve(…)` and `job.reject(…)` -/
def settle (s : DerivedStateScheduler Owner Value Error) (id : Nat)
    (outcome : JobOutcome Value Error) : DerivedStateScheduler Owner Value Error :=
  { s with settled := s.settled ++ [(id, outcome)] }

/-- `_run(job)` as far as it goes at once. -/
def start (s : DerivedStateScheduler Owner Value Error) (job : DerivedJob Owner) :
    DerivedStateScheduler Owner Value Error :=
  { s with active := s.active ++ [⟨job, .yielding⟩], starts := s.starts ++ [job.id] }

/-- The loop of `_drain`, for the queue that is left. -/
def drainFrom (s : DerivedStateScheduler Owner Value Error) :
    List (DerivedJob Owner) → DerivedStateScheduler Owner Value Error
  | [] => { s with queue := [] }
  | job :: queue =>
      if s.closed = false ∧ s.active.length < s.maxConcurrent then (s.start job).drainFrom queue
      else { s with queue := job :: queue }

/-- `_drain()` -/
def drain (s : DerivedStateScheduler Owner Value Error) : DerivedStateScheduler Owner Value Error :=
  s.drainFrom s.queue

/-- The job that is scheduled next. -/
def newJob (s : DerivedStateScheduler Owner Value Error) (owner : Option Owner) :
    DerivedJob Owner where
  id := s.owners.length
  owner
  cancelled := false

/-- `schedule(name, run, { owner })`; the promise of a closed scheduler is rejected at once. -/
def schedule (s : DerivedStateScheduler Owner Value Error) (owner : Option Owner) :
    DerivedStateScheduler Owner Value Error :=
  let known := { s with owners := s.owners ++ [owner] }
  if s.closed then known.settle s.owners.length .closed
  else drain { known with queue := s.queue ++ [s.newJob owner] }

def cancelJob [DecidableEq Owner] (owner : Owner) (a : ActiveJob Owner) : ActiveJob Owner :=
  if a.job.owner = some owner then { a with job := { a.job with cancelled := true } } else a

/-- `cancel(owner)`, with the number of jobs it cancels. -/
def cancel [DecidableEq Owner] (s : DerivedStateScheduler Owner Value Error) :
    Option Owner → DerivedStateScheduler Owner Value Error × Nat
  | none => (s, 0)
  | some owner =>
      let mine := s.queue.filter fun job => job.owner = some owner
      ({ s with
          queue := s.queue.filter fun job => job.owner ≠ some owner
          active := s.active.map (cancelJob owner)
          settled := s.settled ++ mine.map fun job => (job.id, .cancelled) },
        mine.length + s.active.countP fun a => a.job.owner = some owner ∧ a.job.cancelled = false)

/-- `close()` -/
def close (s : DerivedStateScheduler Owner Value Error) : DerivedStateScheduler Owner Value Error :=
  { s with
    closed := true
    queue := []
    settled := s.settled ++ s.queue.map fun job => (job.id, .closed) }

/-- The `finally` of `_run(job)`. -/
def leave (s : DerivedStateScheduler Owner Value Error) (id : Nat) :
    DerivedStateScheduler Owner Value Error :=
  drain { s with active := s.active.filter fun a => a.job.id ≠ id }

/-- The active job of an id in a phase. -/
def activeIn (s : DerivedStateScheduler Owner Value Error) (id : Nat) (phase : JobPhase) :
    Option (ActiveJob Owner) :=
  s.active.find? fun a => a.job.id = id ∧ a.phase = phase

def runJob (id : Nat) (a : ActiveJob Owner) : ActiveJob Owner :=
  if a.job.id = id then { a with phase := .running } else a

/-- `_run(job)` after the yield: a cancelled job is over, any other job runs. -/
def resume (s : DerivedStateScheduler Owner Value Error) (id : Nat) (job : DerivedJob Owner) :
    DerivedStateScheduler Owner Value Error :=
  if job.cancelled then
    leave { s.settle id .cancelled with completed := s.completed + 1 } id
  else
    { s with
      active := s.active.map (runJob id)
      runs := s.runs ++ [id] }

/-- `_run(job)` after `job.run`. -/
def finish (s : DerivedStateScheduler Owner Value Error) (id : Nat) :
    Except Error Value → DerivedStateScheduler Owner Value Error
  | .ok value => leave { s.settle id (.resolved value) with completed := s.completed + 1 } id
  | .error error => leave { s.settle id (.rejected error) with failed := s.failed + 1 } id

inductive Event (Owner Value Error : Type)
  | schedule (owner : Option Owner)
  | cancel (owner : Option Owner)
  | close
  | resume (id : Nat)
  | finish (id : Nat) (result : Except Error Value)

def step [DecidableEq Owner] (s : DerivedStateScheduler Owner Value Error) :
    Event Owner Value Error → Option (DerivedStateScheduler Owner Value Error)
  | .schedule owner => some (s.schedule owner)
  | .cancel owner => some (s.cancel owner).1
  | .close => some s.close
  | .resume id => (s.activeIn id .yielding).map fun a => s.resume id a.job
  | .finish id result => (s.activeIn id .running).map fun _ => s.finish id result

/-! ## What every event keeps -/

def queueIds (s : DerivedStateScheduler Owner Value Error) : List Nat :=
  s.queue.map (·.id)

def activeIds (s : DerivedStateScheduler Owner Value Error) : List Nat :=
  s.active.map (·.job.id)

def settledIds (s : DerivedStateScheduler Owner Value Error) : List Nat :=
  s.settled.map Prod.fst

/-- The scheduler at any moment, also between two turns of `_drain`. -/
structure Core (s : DerivedStateScheduler Owner Value Error) : Prop where
  room : s.active.length ≤ s.maxConcurrent
  order : (s.starts ++ s.queueIds).Pairwise (· < ·)
  known : ∀ id ∈ s.starts ++ s.queueIds, id < s.owners.length
  owned : ∀ job ∈ s.queue ++ s.active.map (·.job), s.owners[job.id]? = some job.owner
  activeStarted : s.activeIds.Sublist s.starts
  runStarted : ∀ id ∈ s.runs, id ∈ s.starts
  runOnce : s.runs.Nodup
  yielding : ∀ a ∈ s.active, a.phase = .yielding → a.job.id ∉ s.runs
  settledOnce : s.settledIds.Nodup
  unsettled : ∀ id ∈ s.queueIds ++ s.activeIds, id ∉ s.settledIds
  settledKnown : ∀ id ∈ s.settledIds, id < s.owners.length
  accounted : ∀ id < s.owners.length, id ∈ s.settledIds ++ (s.queueIds ++ s.activeIds)

/-- The scheduler between two events: a queue waits for active jobs only. -/
structure Valid (s : DerivedStateScheduler Owner Value Error) : Prop extends Core s where
  full : s.queue ≠ [] → s.closed = false ∧ s.active.length = s.maxConcurrent

variable {s : DerivedStateScheduler Owner Value Error}

theorem Core.nodup_starts (h : Core s) : (s.starts ++ s.queueIds).Nodup :=
  h.order.imp fun hlt => Nat.ne_of_lt hlt

theorem Core.nodup_active (h : Core s) : s.activeIds.Nodup :=
  (List.nodup_append.mp h.nodup_starts).1.sublist h.activeStarted

theorem Core.start {job : DerivedJob Owner} {queue : List (DerivedJob Owner)}
    (h : Core { s with queue := job :: queue }) (hroom : s.active.length < s.maxConcurrent) :
    Core { s.start job with queue := queue } := by
  have hfresh : job.id ∉ s.starts := by
    intro hmem
    exact (List.nodup_append.mp h.nodup_starts).2.2 _ hmem _ List.mem_cons_self rfl
  have hids : ∀ id, id ∈ queue.map (·.id) ++ (s.activeIds ++ [job.id]) ↔
      id ∈ (job :: queue).map (·.id) ++ s.activeIds := by
    intro id
    simp only [List.mem_append, List.map_cons, List.mem_cons, List.not_mem_nil, or_false]
    tauto
  have hactive : activeIds { s.start job with queue := queue } = s.activeIds ++ [job.id] := by
    simp [activeIds, DerivedStateScheduler.start]
  have horder : (s.starts ++ [job.id]) ++ queue.map (·.id) =
      s.starts ++ (job :: queue).map (·.id) := by simp
  refine
    { room := ?_, order := ?_, known := ?_, owned := ?_, activeStarted := ?_, runStarted := ?_
      runOnce := h.runOnce, yielding := ?_, settledOnce := h.settledOnce, unsettled := ?_
      settledKnown := h.settledKnown, accounted := ?_ }
  · simpa [DerivedStateScheduler.start] using Nat.succ_le_of_lt hroom
  · exact horder ▸ h.order
  · exact horder ▸ h.known
  · intro other hother
    refine h.owned other ?_
    simp only [DerivedStateScheduler.start, List.map_append, List.mem_append, List.map_cons,
      List.map_nil, List.mem_cons, List.not_mem_nil, or_false] at hother ⊢
    tauto
  · rw [hactive]
    exact h.activeStarted.append (List.Sublist.refl _)
  · exact fun id hid => List.mem_append_left _ (h.runStarted id hid)
  · intro a ha hphase
    rcases List.mem_append.mp ha with ha | ha
    · exact h.yielding a ha hphase
    · cases List.mem_singleton.mp ha
      exact fun hrun => hfresh (h.runStarted _ hrun)
  · intro id hid
    rw [hactive] at hid
    exact h.unsettled id ((hids id).mp hid)
  · intro id hid
    rw [hactive]
    have hmem := h.accounted id hid
    rw [List.mem_append] at hmem ⊢
    exact hmem.imp_right (hids id).mpr

/-- Draining starts jobs as long as there is room. -/
theorem Core.drainFrom {queue : List (DerivedJob Owner)} (h : Core { s with queue := queue })
    (hclosed : s.closed = true → queue = []) : Valid (s.drainFrom queue) := by
  induction queue generalizing s with
  | nil => exact ⟨h, fun hne => absurd rfl hne⟩
  | cons job queue ih =>
      have hopen : s.closed = false := by
        cases hc : s.closed with
        | false => rfl
        | true => exact nomatch hclosed hc
      rw [DerivedStateScheduler.drainFrom]
      split_ifs with hroom
      · refine ih (h.start hroom.2) fun hc => ?_
        exact nomatch hopen.symm.trans hc
      · refine ⟨h, fun _ => ⟨hopen, ?_⟩⟩
        exact Nat.le_antisymm h.room (Nat.not_lt.mp fun hlt => hroom ⟨hopen, hlt⟩)

theorem Valid.schedule (h : Valid s) (owner : Option Owner) : Valid (s.schedule owner) := by
  have hknown : ∀ {id : Nat}, id < s.owners.length → id < (s.owners ++ [owner]).length := by
    intro id hid
    rw [List.length_append]
    exact Nat.lt_add_right _ hid
  have howned : ∀ {id : Nat} {o : Option Owner}, s.owners[id]? = some o → (s.owners ++ [owner])[id]? = some o := by
    intro id o hid
    rw [List.getElem?_append_left (List.getElem?_eq_some_iff.mp hid).1, hid]
  have hlast : ∀ {id : Nat}, id < (s.owners ++ [owner]).length → id < s.owners.length ∨
      id = s.owners.length := by
    intro id hid
    rw [List.length_append, List.length_singleton] at hid
    exact Nat.lt_succ_iff_lt_or_eq.mp hid
  have hfresh : s.owners.length ∉ s.settledIds := fun hmem =>
    Nat.lt_irrefl _ (h.settledKnown _ hmem)
  unfold DerivedStateScheduler.schedule
  dsimp only
  split_ifs with hclosed
  · -- the promise of the new job is rejected, and nothing else changes
    have hqueue : s.queue = [] := by
      by_contra hne
      exact nomatch (h.full hne).1.symm.trans hclosed
    have hsettled : settledIds (settle { s with owners := s.owners ++ [owner] } s.owners.length
        .closed) = s.settledIds ++ [s.owners.length] := by simp [settledIds, settle]
    refine
      { room := h.room, order := h.order, known := fun id hid => hknown (h.known id hid)
        owned := fun job hjob => howned (h.owned job hjob), activeStarted := h.activeStarted
        runStarted := h.runStarted, runOnce := h.runOnce, yielding := h.yielding
        settledOnce := ?_, unsettled := ?_, settledKnown := ?_, accounted := ?_
        full := fun hne => absurd hqueue hne }
    · rw [hsettled]
      exact List.nodup_append.mpr ⟨h.settledOnce, List.nodup_singleton _, fun id hid id' hid' => by
        rw [List.mem_singleton.mp hid']
        rintro rfl
        exact hfresh hid⟩
    · intro id hid
      rw [hsettled, List.mem_append, List.mem_singleton]
      rintro (hmem | rfl)
      · exact h.unsettled id hid hmem
      · -- the ids of the queue and of the active jobs are older
        rcases List.mem_append.mp hid with hid | hid
        · exact Nat.lt_irrefl _ (h.known _ (List.mem_append_right _ hid))
        · exact Nat.lt_irrefl _ (h.known _ (List.mem_append_left _ (h.activeStarted.subset hid)))
    · intro id hid
      rw [hsettled, List.mem_append, List.mem_singleton] at hid
      rcases hid with hid | rfl
      · exact hknown (h.settledKnown id hid)
      · simp [settle]
    · intro id hid
      rw [hsettled]
      rcases hlast hid with hid | rfl
      · have hmem := h.accounted id hid
        rw [List.mem_append] at hmem ⊢
        exact hmem.imp_left (List.mem_append_left _)
      · exact List.mem_append_left _ (List.mem_append_right _ (List.mem_singleton_self _))
  · -- the job is queued behind the others before the queue is drained
    have hopen : s.closed = false := Bool.not_eq_true _ ▸ hclosed
    refine Core.drainFrom ?_ fun hc => absurd hc hclosed
    have hqueue : ∀ id, id ∈ (s.queue ++ [s.newJob owner]).map (·.id) ↔
        id ∈ s.queueIds ∨ id = s.owners.length := by
      intro id
      simp [queueIds, newJob]
    refine
      { room := h.room, order := ?_, known := ?_, owned := ?_, activeStarted := h.activeStarted
        runStarted := h.runStarted, runOnce := h.runOnce, yielding := h.yielding
        settledOnce := h.settledOnce, unsettled := ?_
        settledKnown := fun id hid => hknown (h.settledKnown id hid), accounted := ?_ }
    · have hids : s.starts ++ (s.queue ++ [s.newJob owner]).map (·.id) =
          (s.starts ++ s.queueIds) ++ [s.owners.length] := by simp [queueIds, newJob]
      change (s.starts ++ (s.queue ++ [s.newJob owner]).map (·.id)).Pairwise (· < ·)
      rw [hids, List.pairwise_append]
      refine ⟨h.order, List.pairwise_singleton _ _, fun id hid id' hid' => ?_⟩
      rw [List.mem_singleton.mp hid']
      exact h.known id hid
    · intro id hid
      rcases List.mem_append.mp hid with hid | hid
      · exact hknown (h.known id (List.mem_append_left _ hid))
      · rcases (hqueue id).mp hid with hid | rfl
        · exact hknown (h.known id (List.mem_append_right _ hid))
        · simp
    · intro job hjob
      rcases List.mem_append.mp hjob with hjob | hjob
      · rcases List.mem_append.mp hjob with hjob | hjob
        · exact howned (h.owned job (List.mem_append_left _ hjob))
        · cases List.mem_singleton.mp hjob
          exact List.getElem?_concat_length
      · exact howned (h.owned job (List.mem_append_right _ hjob))
    · intro id hid
      rcases List.mem_append.mp hid with hid | hid
      · rcases (hqueue id).mp hid with hid | rfl
        · exact h.unsettled id (List.mem_append_left _ hid)
        · exact hfresh
      · exact h.unsettled id (List.mem_append_right _ hid)
    · intro id hid
      rcases hlast hid with hid | rfl
      · have hmem := h.accounted id hid
        simp only [List.mem_append] at hmem ⊢
        rcases hmem with hmem | hmem | hmem
        · exact .inl hmem
        · exact .inr (.inl ((hqueue id).mpr (.inl hmem)))
        · exact .inr (.inr hmem)
      · exact List.mem_append_right _ (List.mem_append_left _ ((hqueue _).mpr (.inr rfl)))

theorem map_id_cancelJob [DecidableEq Owner] (owner : Owner) (active : List (ActiveJob Owner)) :
    (active.map (cancelJob owner)).map (·.job.id) = active.map (·.job.id) := by
  rw [List.map_map]
  refine List.map_congr_left fun a _ => ?_
  simp only [Function.comp_apply, cancelJob]
  split_ifs <;> rfl

theorem Valid.cancel [DecidableEq Owner] (h : Valid s) (owner : Option Owner) :
    Valid (s.cancel owner).1 := by
  cases owner with
  | none => exact h
  | some owner =>
      have hactive : activeIds (s.cancel (some owner)).1 = s.activeIds := map_id_cancelJob owner _
      have hqueue : (queueIds (s.cancel (some owner)).1).Sublist s.queueIds :=
        List.filter_sublist.map _
      have hsettled : settledIds (s.cancel (some owner)).1 = s.settledIds ++
          (s.queue.filter fun job => job.owner = some owner).map (·.id) := by
        simp [settledIds, DerivedStateScheduler.cancel, Function.comp_def]
      -- the queued jobs of the owner are settled; a running one is only marked
      have hmine : ((s.queue.filter fun job => job.owner = some owner).map (·.id)).Sublist
          s.queueIds := List.filter_sublist.map _
      have hnodup : s.queueIds.Nodup := (List.nodup_append.mp h.nodup_starts).2.1
      have hphase : ∀ a ∈ (s.cancel (some owner)).1.active, ∃ a' ∈ s.active,
          a.job.id = a'.job.id ∧ a.phase = a'.phase ∧ a.job.owner = a'.job.owner := by
        intro a ha
        rcases List.mem_map.mp ha with ⟨a', ha', rfl⟩
        refine ⟨a', ha', ?_⟩
        unfold cancelJob
        split_ifs <;> exact ⟨rfl, rfl, rfl⟩
      refine
        { room := ?_, order := ?_, known := ?_, owned := ?_, activeStarted := hactive ▸ h.activeStarted
          runStarted := h.runStarted, runOnce := h.runOnce, yielding := ?_, settledOnce := ?_
          unsettled := ?_, settledKnown := ?_, accounted := ?_, full := ?_ }
      · exact Nat.le_trans (Nat.le_of_eq (List.length_map (cancelJob owner))) h.room
      · exact h.order.sublist (List.Sublist.append (List.Sublist.refl _) hqueue)
      · intro id hid
        refine h.known id ?_
        exact (List.Sublist.append (List.Sublist.refl _) hqueue).subset hid
      · intro job hjob
        rcases List.mem_append.mp hjob with hjob | hjob
        · exact h.owned job (List.mem_append_left _ (List.mem_filter.mp hjob).1)
        · rcases List.mem_map.mp hjob with ⟨a, ha, rfl⟩
          rcases hphase a ha with ⟨a', ha', hid, -, howner⟩
          rw [hid, howner]
          exact h.owned a'.job (List.mem_append_right _ (List.mem_map_of_mem ha'))
      · intro a ha hyielding
        rcases hphase a ha with ⟨a', ha', hid, hph, -⟩
        rw [hid]
        exact h.yielding a' ha' (hph ▸ hyielding)
      · rw [hsettled]
        refine List.nodup_append.mpr ⟨h.settledOnce, hnodup.sublist hmine, ?_⟩
        rintro id hid id' hid' rfl
        exact h.unsettled id (List.mem_append_left _ (hmine.subset hid')) hid
      · intro id hid
        rw [hactive] at hid
        rw [hsettled, List.mem_append]
        rintro (hmem | hmem)
        · refine h.unsettled id ?_ hmem
          exact (List.Sublist.append hqueue (List.Sublist.refl _)).subset hid
        · rcases List.mem_append.mp hid with hid | hid
          · -- one job cannot both stay and go
            rcases List.mem_map.mp hmem with ⟨job, hjob, rfl⟩
            rcases List.mem_map.mp hid with ⟨job', hjob', heq⟩
            have hsame := List.inj_on_of_nodup_map hnodup (List.mem_filter.mp hjob').1
              (List.mem_filter.mp hjob).1 heq
            subst hsame
            exact of_decide_eq_true (List.mem_filter.mp hjob').2
              (of_decide_eq_true (List.mem_filter.mp hjob).2)
          · have hstarted := h.activeStarted.subset hid
            exact (List.nodup_append.mp h.nodup_starts).2.2 id hstarted id (hmine.subset hmem) rfl
      · intro id hid
        rw [hsettled, List.mem_append] at hid
        rcases hid with hid | hid
        · exact h.settledKnown id hid
        · exact h.known id (List.mem_append_right _ (hmine.subset hid))
      · intro id hid
        rw [hsettled, hactive]
        have hmem := h.accounted id hid
        simp only [List.mem_append] at hmem ⊢
        rcases hmem with hmem | hmem | hmem
        · exact .inl (.inl hmem)
        · -- a queued job is settled now, or stays in the queue
          rcases List.mem_map.mp hmem with ⟨job, hjob, rfl⟩
          by_cases howner : job.owner = some owner
          · exact .inl (.inr (List.mem_map_of_mem
              (List.mem_filter.mpr ⟨hjob, decide_eq_true howner⟩)))
          · exact .inr (.inl (List.mem_map_of_mem
              (List.mem_filter.mpr ⟨hjob, decide_eq_true howner⟩)))
        · exact .inr (.inr hmem)
      · intro hne
        have hne' : s.queue ≠ [] := by
          intro hnil
          refine hne ?_
          simp [DerivedStateScheduler.cancel, hnil]
        exact ⟨(h.full hne').1, (List.length_map (cancelJob owner)).trans (h.full hne').2⟩

theorem Valid.close (h : Valid s) : Valid s.close := by
  have hsettled : settledIds s.close = s.settledIds ++ s.queueIds := by
    simp [settledIds, queueIds, DerivedStateScheduler.close, Function.comp_def]
  refine
    { room := h.room, order := ?_, known := ?_, owned := ?_, activeStarted := h.activeStarted
      runStarted := h.runStarted, runOnce := h.runOnce, yielding := h.yielding, settledOnce := ?_
      unsettled := ?_, settledKnown := ?_, accounted := ?_, full := fun hne => absurd rfl hne }
  · exact h.order.sublist (List.Sublist.append (List.Sublist.refl _) (List.nil_sublist _))
  · intro id hid
    rcases List.mem_append.mp hid with hid | hid
    · exact h.known id (List.mem_append_left _ hid)
    · exact nomatch hid
  · exact fun job hjob => h.owned job (List.mem_append_right _ hjob)
  · rw [hsettled]
    refine List.nodup_append.mpr ⟨h.settledOnce, (List.nodup_append.mp h.nodup_starts).2.1, ?_⟩
    rintro id hid id' hid' rfl
    exact h.unsettled id (List.mem_append_left _ hid') hid
  · intro id hid
    rw [hsettled, List.mem_append]
    rintro (hmem | hmem)
    · exact h.unsettled id (List.mem_append_right _ hid) hmem
    · exact (List.nodup_append.mp h.nodup_starts).2.2 id (h.activeStarted.subset hid) id hmem rfl
  · intro id hid
    rw [hsettled, List.mem_append] at hid
    rcases hid with hid | hid
    · exact h.settledKnown id hid
    · exact h.known id (List.mem_append_right _ hid)
  · intro id hid
    rw [hsettled]
    have hmem := h.accounted id hid
    simp only [List.mem_append] at hmem ⊢
    rcases hmem with hmem | hmem | hmem
    · exact .inl (.inl hmem)
    · exact .inl (.inr hmem)
    · exact .inr (.inr hmem)

/-- A job that is settled leaves its place to the next ones. -/
theorem Valid.leave (h : Valid s) {a : ActiveJob Owner} (ha : a ∈ s.active)
    (outcome : JobOutcome Value Error) (completed failed : Nat) :
    Valid (leave { s.settle a.job.id outcome with completed := completed, failed := failed }
      a.job.id) := by
  have hid : a.job.id ∈ s.activeIds := List.mem_map_of_mem ha
  have hactive : ((s.active.filter fun a' => a'.job.id ≠ a.job.id).map (·.job.id)).Sublist
      s.activeIds := List.filter_sublist.map _
  have hsettled : (s.settled ++ [(a.job.id, outcome)]).map Prod.fst =
      s.settledIds ++ [a.job.id] := by simp [settledIds]
  refine Core.drainFrom ?_ fun hc => ?_
  · refine
      { room := ?_, order := h.order, known := h.known, owned := ?_
        activeStarted := hactive.trans h.activeStarted, runStarted := h.runStarted
        runOnce := h.runOnce, yielding := ?_, settledOnce := ?_, unsettled := ?_
        settledKnown := ?_, accounted := ?_ }
    · exact Nat.le_trans (List.length_filter_le _ _) h.room
    · intro job hjob
      refine h.owned job ?_
      exact (List.Sublist.append (List.Sublist.refl _) (List.filter_sublist.map _)).subset hjob
    · exact fun a' ha' => h.yielding a' (List.mem_filter.mp ha').1
    · change ((s.settled ++ [(a.job.id, outcome)]).map Prod.fst).Nodup
      rw [hsettled]
      refine List.nodup_append.mpr ⟨h.settledOnce, List.nodup_singleton _, ?_⟩
      rintro id hmem id' hid' rfl
      rw [List.mem_singleton.mp hid'] at hmem
      exact h.unsettled _ (List.mem_append_right _ hid) hmem
    · intro id hmem
      change id ∉ (s.settled ++ [(a.job.id, outcome)]).map Prod.fst
      rw [hsettled, List.mem_append, List.mem_singleton]
      rintro (hset | rfl)
      · refine h.unsettled id ?_ hset
        exact (List.Sublist.append (List.Sublist.refl _) hactive).subset hmem
      · rcases List.mem_append.mp hmem with hmem | hmem
        · exact (List.nodup_append.mp h.nodup_starts).2.2 _ (h.activeStarted.subset hid) _ hmem rfl
        · rcases List.mem_map.mp hmem with ⟨a', ha', heq⟩
          exact of_decide_eq_true (List.mem_filter.mp ha').2 heq
    · intro id hmem
      change id ∈ (s.settled ++ [(a.job.id, outcome)]).map Prod.fst at hmem
      rw [hsettled, List.mem_append, List.mem_singleton] at hmem
      rcases hmem with hmem | rfl
      · exact h.settledKnown id hmem
      · exact h.known _ (List.mem_append_left _ (h.activeStarted.subset hid))
    · intro id hlt
      change id ∈ (s.settled ++ [(a.job.id, outcome)]).map Prod.fst ++ (s.queueIds ++
        (s.active.filter fun a' => a'.job.id ≠ a.job.id).map (·.job.id))
      rw [hsettled]
      have hmem := h.accounted id hlt
      simp only [List.mem_append] at hmem ⊢
      rcases hmem with hmem | hmem | hmem
      · exact .inl (.inl hmem)
      · exact .inr (.inl hmem)
      · by_cases heq : id = a.job.id
        · exact .inl (.inr (List.mem_singleton.mpr heq))
        · rcases List.mem_map.mp hmem with ⟨a', ha', rfl⟩
          exact .inr (.inr (List.mem_map_of_mem
            (List.mem_filter.mpr ⟨ha', decide_eq_true heq⟩)))
  · by_contra hne
    exact nomatch (h.full hne).1.symm.trans hc

/-- What `activeIn` finds. -/
theorem activeIn_eq_some {id : Nat} {phase : JobPhase} {a : ActiveJob Owner}
    (h : s.activeIn id phase = some a) : a ∈ s.active ∧ a.job.id = id ∧ a.phase = phase := by
  refine ⟨List.mem_of_find?_eq_some h, ?_⟩
  have hfound := List.find?_some h
  exact of_decide_eq_true hfound

theorem Valid.resume (h : Valid s) {id : Nat} {a : ActiveJob Owner}
    (ha : s.activeIn id .yielding = some a) : Valid (s.resume id a.job) := by
  rcases activeIn_eq_some ha with ⟨hmem, rfl, hphase⟩
  unfold DerivedStateScheduler.resume
  split_ifs with hcancelled
  · exact h.leave hmem .cancelled (s.completed + 1) s.failed
  · have hactive : (s.active.map (runJob a.job.id)).map (·.job) = s.active.map (·.job) := by
      rw [List.map_map]
      refine List.map_congr_left fun a' _ => ?_
      simp only [Function.comp_apply, runJob]
      split_ifs <;> rfl
    have hids : (s.active.map (runJob a.job.id)).map (·.job.id) = s.activeIds := by
      have hmap := congrArg (List.map fun job : DerivedJob Owner => job.id) hactive
      simpa [activeIds, Function.comp_def] using hmap
    have hid : a.job.id ∈ s.activeIds := List.mem_map_of_mem hmem
    refine
      { room := ?_, order := h.order, known := h.known, owned := ?_
        activeStarted := ?_, runStarted := ?_, runOnce := ?_, yielding := ?_
        settledOnce := h.settledOnce, unsettled := ?_, settledKnown := h.settledKnown
        accounted := ?_, full := ?_ }
    · exact Nat.le_trans (Nat.le_of_eq (List.length_map _)) h.room
    · intro job hjob
      refine h.owned job ?_
      change job ∈ s.queue ++ (s.active.map (runJob a.job.id)).map (·.job) at hjob
      rwa [hactive] at hjob
    · change ((s.active.map (runJob a.job.id)).map (·.job.id)).Sublist s.starts
      rw [hids]
      exact h.activeStarted
    · intro id hrun
      rcases List.mem_append.mp hrun with hrun | hrun
      · exact h.runStarted id hrun
      · rw [List.mem_singleton.mp hrun]
        exact h.activeStarted.subset hid
    · refine List.nodup_append.mpr ⟨h.runOnce, List.nodup_singleton _, ?_⟩
      rintro id hrun id' hid' rfl
      rw [List.mem_singleton.mp hid'] at hrun
      exact h.yielding a hmem hphase hrun
    · intro a'' ha'' hyielding hrun
      rcases List.mem_map.mp ha'' with ⟨a', ha', rfl⟩
      unfold runJob at hyielding hrun
      by_cases heq : a'.job.id = a.job.id
      · rw [if_pos heq] at hyielding
        cases hyielding
      · rw [if_neg heq] at hyielding hrun
        rcases List.mem_append.mp hrun with hrun | hrun
        · exact h.yielding a' ha' hyielding hrun
        · exact heq (List.mem_singleton.mp hrun)
    · intro id hmem'
      change id ∈ s.queueIds ++ (s.active.map (runJob a.job.id)).map (·.job.id) at hmem'
      rw [hids] at hmem'
      exact h.unsettled id hmem'
    · intro id hlt
      change id ∈ s.settledIds ++ (s.queueIds ++ (s.active.map (runJob a.job.id)).map (·.job.id))
      rw [hids]
      exact h.accounted id hlt
    · exact fun hne => ⟨(h.full hne).1, (List.length_map _).trans (h.full hne).2⟩

theorem Valid.finish (h : Valid s) {id : Nat} {a : ActiveJob Owner}
    (ha : s.activeIn id .running = some a) (result : Except Error Value) :
    Valid (s.finish id result) := by
  rcases activeIn_eq_some ha with ⟨hmem, rfl, -⟩
  cases result with
  | ok value => exact h.leave hmem (.resolved value) (s.completed + 1) s.failed
  | error error => exact h.leave hmem (.rejected error) s.completed (s.failed + 1)

theorem Valid.new (maxConcurrent : Nat) :
    Valid (new maxConcurrent : DerivedStateScheduler Owner Value Error) where
  room := Nat.zero_le _
  order := List.Pairwise.nil
  known := fun _ hid => nomatch hid
  owned := fun _ hjob => nomatch hjob
  activeStarted := List.Sublist.refl _
  runStarted := fun _ hid => nomatch hid
  runOnce := List.nodup_nil
  yielding := fun _ ha => nomatch ha
  settledOnce := List.nodup_nil
  unsettled := fun _ hid => nomatch hid
  settledKnown := fun _ hid => nomatch hid
  accounted := fun _ hid => nomatch hid
  full := fun hne => absurd rfl hne

/-- Every event keeps the scheduler valid. -/
theorem Valid.step [DecidableEq Owner] (h : Valid s) {event : Event Owner Value Error}
    {s' : DerivedStateScheduler Owner Value Error} (hstep : s.step event = some s') :
    Valid s' := by
  cases event with
  | schedule owner =>
      cases hstep
      exact h.schedule owner
  | cancel owner =>
      cases hstep
      exact h.cancel owner
  | close =>
      cases hstep
      exact h.close
  | resume id =>
      rcases Option.map_eq_some_iff.mp hstep with ⟨a, ha, rfl⟩
      exact h.resume ha
  | finish id result =>
      rcases Option.map_eq_some_iff.mp hstep with ⟨a, ha, rfl⟩
      exact h.finish ha result

/-! ## What draining leaves alone -/

theorem drainFrom_fields (s : DerivedStateScheduler Owner Value Error)
    (queue : List (DerivedJob Owner)) :
    (s.drainFrom queue).settled = s.settled ∧ (s.drainFrom queue).runs = s.runs ∧
      (s.drainFrom queue).owners = s.owners ∧ (s.drainFrom queue).closed = s.closed := by
  induction queue generalizing s with
  | nil => exact ⟨rfl, rfl, rfl, rfl⟩
  | cons job queue ih =>
      rw [drainFrom]
      split_ifs
      · exact ih (s.start job)
      · exact ⟨rfl, rfl, rfl, rfl⟩

theorem mem_drainFrom (s : DerivedStateScheduler Owner Value Error)
    (queue : List (DerivedJob Owner)) :
    (∀ job ∈ (s.drainFrom queue).queue, job ∈ queue) ∧
      ∀ a ∈ (s.drainFrom queue).active, a ∈ s.active ∨ a.phase = .yielding ∧ a.job ∈ queue := by
  induction queue generalizing s with
  | nil => exact ⟨fun _ hjob => (nomatch hjob), fun _ ha => .inl ha⟩
  | cons job queue ih =>
      rw [drainFrom]
      split_ifs
      · refine ⟨fun other hjob => List.mem_cons_of_mem _ ((ih (s.start job)).1 other hjob),
          fun a ha => ?_⟩
        rcases (ih (s.start job)).2 a ha with ha | ⟨hphase, hjob⟩
        · rcases List.mem_append.mp ha with ha | ha
          · exact .inl ha
          · cases List.mem_singleton.mp ha
            exact .inr ⟨rfl, List.mem_cons_self⟩
        · exact .inr ⟨hphase, List.mem_cons_of_mem _ hjob⟩
      · exact ⟨fun _ hjob => hjob, fun _ ha => .inl ha⟩

/-! ## Outcomes -/

/-- The owners of the jobs that the events schedule. -/
def scheduledOwners (events : List (Event Owner Value Error)) : List (Option Owner) :=
  events.filterMap fun event => match event with
    | .schedule owner => some owner
    | _ => none

/-- The owner of the job was cancelled after the job was scheduled. -/
def CancelledIn (events : List (Event Owner Value Error)) (id : Nat) : Prop :=
  ∃ before after owner, events = before ++ .cancel (some owner) :: after ∧
    (scheduledOwners before)[id]? = some (some owner)

/-- The events bear the outcome of the job out. -/
def Matches (events : List (Event Owner Value Error)) (runs : List Nat) (id : Nat) :
    JobOutcome Value Error → Prop
  | .resolved value => id ∈ runs ∧ .finish id (.ok value) ∈ events
  | .rejected error => id ∈ runs ∧ .finish id (.error error) ∈ events
  | .cancelled => id ∉ runs ∧ CancelledIn events id
  | .closed => id ∉ runs ∧ .close ∈ events

/-- What the events before a state say of it. -/
structure History (events : List (Event Owner Value Error))
    (s : DerivedStateScheduler Owner Value Error) : Prop where
  valid : Valid s
  owners : s.owners = scheduledOwners events
  closing : s.closed = true → .close ∈ events
  waiting : ∀ job ∈ s.queue, job.cancelled = false
  ran : ∀ a ∈ s.active, a.phase = .running → a.job.id ∈ s.runs
  flagged : ∀ a ∈ s.active, a.job.cancelled = true → CancelledIn events a.job.id
  matching : ∀ id outcome, (id, outcome) ∈ s.settled →
    Matches events s.runs id outcome

theorem CancelledIn.snoc {events : List (Event Owner Value Error)} {id : Nat}
    (h : CancelledIn events id) (event : Event Owner Value Error) :
    CancelledIn (events ++ [event]) id := by
  rcases h with ⟨before, after, owner, rfl, howner⟩
  exact ⟨before, after ++ [event], owner, by simp, howner⟩

theorem Matches.snoc {events : List (Event Owner Value Error)} {runs runs' : List Nat} {id : Nat}
    {outcome : JobOutcome Value Error} (h : Matches events runs id outcome)
    (event : Event Owner Value Error) (hruns : id ∈ runs' ↔ id ∈ runs) :
    Matches (events ++ [event]) runs' id outcome := by
  cases outcome with
  | resolved value => exact ⟨hruns.mpr h.1, List.mem_append_left _ h.2⟩
  | rejected error => exact ⟨hruns.mpr h.1, List.mem_append_left _ h.2⟩
  | cancelled => exact ⟨fun hmem => h.1 (hruns.mp hmem), h.2.snoc event⟩
  | closed => exact ⟨fun hmem => h.1 (hruns.mp hmem), List.mem_append_left _ h.2⟩

variable {events : List (Event Owner Value Error)}

/-- Draining keeps what is known of a state, once its validity is. -/
theorem History.drainFrom {queue : List (DerivedJob Owner)} (hvalid : Valid (s.drainFrom queue))
    (howners : s.owners = scheduledOwners events) (hclosing : s.closed = true → .close ∈ events)
    (hwaiting : ∀ job ∈ queue, job.cancelled = false)
    (hran : ∀ a ∈ s.active, a.phase = .running → a.job.id ∈ s.runs)
    (hflagged : ∀ a ∈ s.active, a.job.cancelled = true → CancelledIn events a.job.id)
    (hmatching : ∀ id outcome, (id, outcome) ∈ s.settled →
      Matches events s.runs id outcome) : History events (s.drainFrom queue) := by
  rcases drainFrom_fields s queue with ⟨hsettled, hruns, hsame, hclosed⟩
  rcases mem_drainFrom s queue with ⟨hqueue, hactive⟩
  refine ⟨hvalid, hsame.trans howners, fun hc => hclosing (hclosed ▸ hc),
    fun job hjob => hwaiting job (hqueue job hjob), fun a ha hphase => ?_, fun a ha hflag => ?_, ?_⟩
  · rw [hruns]
    rcases hactive a ha with ha | ⟨hyielding, -⟩
    · exact hran a ha hphase
    · cases hyielding.symm.trans hphase
  · rcases hactive a ha with ha | ⟨-, hjob⟩
    · exact hflagged a ha hflag
    · cases (hwaiting _ hjob).symm.trans hflag
  · rw [hsettled, hruns]
    exact hmatching

theorem scheduledOwners_snoc (events : List (Event Owner Value Error))
    (event : Event Owner Value Error) : scheduledOwners (events ++ [event]) =
      scheduledOwners events ++ scheduledOwners [event] :=
  List.filterMap_append

/-- Other events schedule nothing. -/
theorem History.owners_snoc (h : History events s) {event : Event Owner Value Error}
    (hevent : scheduledOwners [event] = []) : s.owners = scheduledOwners (events ++ [event]) := by
  rw [scheduledOwners_snoc, hevent, List.append_nil, h.owners]

theorem History.schedule (h : History events s) (owner : Option Owner) :
    History (events ++ [.schedule owner]) (s.schedule owner) := by
  have hvalid := h.valid.schedule owner
  have howners : s.owners ++ [owner] =
      scheduledOwners (events ++ [(.schedule owner : Event Owner Value Error)]) := by
    rw [h.owners, scheduledOwners_snoc]
    rfl
  have hmatching : ∀ id outcome, (id, outcome) ∈ s.settled → Matches
      (events ++ [.schedule owner]) s.runs id outcome :=
    fun id outcome hmem => (h.matching id outcome hmem).snoc _ Iff.rfl
  have hclosing : s.closed = true → .close ∈ events ++ [(.schedule owner : Event Owner Value Error)] :=
    fun hc => List.mem_append_left _ (h.closing hc)
  unfold DerivedStateScheduler.schedule at hvalid ⊢
  dsimp only at hvalid ⊢
  split_ifs at hvalid ⊢ with hclosed
  · refine ⟨hvalid, howners, hclosing, h.waiting, h.ran,
      fun a ha hflag => (h.flagged a ha hflag).snoc _, fun id outcome hmem => ?_⟩
    rcases List.mem_append.mp hmem with hmem | hmem
    · exact hmatching id outcome hmem
    · -- the job that was just rejected
      cases List.mem_singleton.mp hmem
      refine ⟨fun hrun => ?_, hclosing hclosed⟩
      exact Nat.lt_irrefl _ (h.valid.known _ (List.mem_append_left _ (h.valid.runStarted _ hrun)))
  · refine History.drainFrom hvalid howners hclosing (fun job hjob => ?_) h.ran
      (fun a ha hflag => (h.flagged a ha hflag).snoc _) hmatching
    rcases List.mem_append.mp hjob with hjob | hjob
    · exact h.waiting job hjob
    · cases List.mem_singleton.mp hjob
      rfl

/-- A queued job has not run. -/
theorem Valid.notMem_runs (h : Valid s) {job : DerivedJob Owner} (hjob : job ∈ s.queue) :
    job.id ∉ s.runs := fun hrun =>
  (List.nodup_append.mp h.nodup_starts).2.2 _ (h.runStarted _ hrun) _ (List.mem_map_of_mem hjob) rfl

theorem History.cancel [DecidableEq Owner] (h : History events s) (owner : Option Owner) :
    History (events ++ [.cancel owner]) (s.cancel owner).1 := by
  have hvalid := h.valid.cancel owner
  have howners : s.owners =
      scheduledOwners (events ++ [(.cancel owner : Event Owner Value Error)]) := h.owners_snoc rfl
  have hold : ∀ {id}, CancelledIn events id → CancelledIn (events ++ [.cancel owner]) id :=
    fun hid => hid.snoc _
  have hmatching : ∀ id outcome, (id, outcome) ∈ s.settled →
      Matches (events ++ [.cancel owner]) s.runs id outcome :=
    fun id outcome hmem => (h.matching id outcome hmem).snoc _ Iff.rfl
  have hclosing := fun hc => List.mem_append_left [(.cancel owner : Event Owner Value Error)]
    (h.closing hc)
  cases owner with
  | none =>
      exact ⟨hvalid, howners, hclosing, h.waiting, h.ran,
        fun a ha hflag => hold (h.flagged a ha hflag),
        hmatching⟩
  | some owner =>
      have hnew : ∀ {job : DerivedJob Owner}, job ∈ s.queue ++ s.active.map (·.job) →
          job.owner = some owner →
            CancelledIn (events ++ [.cancel (some owner)]) job.id := by
        intro job hjob howner
        have howned := h.valid.owned job hjob
        rw [howner, h.owners] at howned
        exact ⟨events, [], owner, rfl, howned⟩
      refine ⟨hvalid, howners, hclosing, fun job hjob => h.waiting job (List.mem_filter.mp hjob).1,
        fun a ha hphase => ?_, fun a ha hflag => ?_, fun id outcome hmem => ?_⟩
      · rcases List.mem_map.mp ha with ⟨a', ha', rfl⟩
        unfold cancelJob at hphase ⊢
        split_ifs at hphase ⊢
        · exact h.ran a' ha' hphase
        · exact h.ran a' ha' hphase
      · rcases List.mem_map.mp ha with ⟨a', ha', rfl⟩
        unfold cancelJob at hflag ⊢
        split_ifs at hflag ⊢ with howner
        · have hjob : a'.job ∈ s.active.map (·.job) := List.mem_map_of_mem ha'
          have hcancelled := hnew (List.mem_append_right _ hjob) howner
          exact hcancelled
        · exact hold (h.flagged a' ha' hflag)
      · rcases List.mem_append.mp hmem with hmem | hmem
        · exact hmatching id outcome hmem
        · rcases List.mem_map.mp hmem with ⟨job, hjob, heq⟩
          cases heq
          have hqueued := (List.mem_filter.mp hjob).1
          exact ⟨h.valid.notMem_runs hqueued, hnew (List.mem_append_left _ hqueued)
            (of_decide_eq_true (List.mem_filter.mp hjob).2)⟩

theorem History.close (h : History events s) : History (events ++ [.close]) s.close := by
  have hclose : .close ∈ events ++ [(.close : Event Owner Value Error)] :=
    List.mem_append_right _ (List.mem_singleton_self _)
  refine ⟨h.valid.close, h.owners_snoc rfl, fun _ => hclose, fun _ hjob => (nomatch hjob), h.ran,
    fun a ha hflag => (h.flagged a ha hflag).snoc _, fun id outcome hmem => ?_⟩
  rcases List.mem_append.mp hmem with hmem | hmem
  · exact (h.matching id outcome hmem).snoc _ Iff.rfl
  · rcases List.mem_map.mp hmem with ⟨job, hjob, heq⟩
    cases heq
    exact ⟨h.valid.notMem_runs hjob, hclose⟩

/-- A settled job leaves with an outcome that the events bear out. -/
theorem History.leave (h : History events s) {a : ActiveJob Owner} (ha : a ∈ s.active)
    {outcome : JobOutcome Value Error} {event : Event Owner Value Error}
    (hevent : scheduledOwners [event] = []) (completed failed : Nat)
    (houtcome : Matches (events ++ [event]) s.runs a.job.id outcome) :
    History (events ++ [event]) (leave
      { s.settle a.job.id outcome with completed := completed, failed := failed } a.job.id) := by
  refine History.drainFrom (h.valid.leave ha outcome completed failed) (h.owners_snoc hevent)
    (fun hc => List.mem_append_left _ (h.closing hc)) h.waiting
    (fun a' ha' => h.ran a' (List.mem_filter.mp ha').1)
    (fun a' ha' hflag => (h.flagged a' (List.mem_filter.mp ha').1 hflag).snoc _)
    (fun id outcome' hmem => ?_)
  rcases List.mem_append.mp hmem with hmem | hmem
  · exact (h.matching id outcome' hmem).snoc _ Iff.rfl
  · cases List.mem_singleton.mp hmem
    exact houtcome

theorem History.resume (h : History events s) {id : Nat} {a : ActiveJob Owner}
    (ha : s.activeIn id .yielding = some a) :
    History (events ++ [.resume id]) (s.resume id a.job) := by
  have hvalid := h.valid.resume ha
  rcases activeIn_eq_some ha with ⟨hmem, rfl, hphase⟩
  have hflagged : ∀ a' ∈ s.active, a'.job.cancelled = true →
      CancelledIn (events ++ [.resume a.job.id]) a'.job.id :=
    fun a' ha' hflag => (h.flagged a' ha' hflag).snoc _
  unfold DerivedStateScheduler.resume at hvalid ⊢
  split_ifs at hvalid ⊢ with hcancelled
  · exact h.leave hmem rfl (s.completed + 1) s.failed
      ⟨h.valid.yielding a hmem hphase, hflagged a hmem hcancelled⟩
  · refine ⟨hvalid, h.owners_snoc rfl, fun hc => List.mem_append_left _ (h.closing hc), h.waiting,
      fun a'' ha'' hrunning => ?_, fun a'' ha'' hflag => ?_, fun id outcome hset => ?_⟩
    · rcases List.mem_map.mp ha'' with ⟨a', ha', rfl⟩
      unfold runJob at hrunning ⊢
      split_ifs at hrunning ⊢ with heq
      · exact List.mem_append_right _ (List.mem_singleton.mpr heq)
      · exact List.mem_append_left _ (h.ran a' ha' hrunning)
    · rcases List.mem_map.mp ha'' with ⟨a', ha', rfl⟩
      unfold runJob at hflag ⊢
      split_ifs at hflag ⊢
      · exact hflagged a' ha' hflag
      · exact hflagged a' ha' hflag
    · -- the job that runs now is active, so it is not settled
      have hne : id ≠ a.job.id := by
        rintro rfl
        exact h.valid.unsettled _ (List.mem_append_right _ (List.mem_map_of_mem hmem))
          (List.mem_map_of_mem (f := Prod.fst) hset)
      have hiff : id ∈ s.runs ++ [a.job.id] ↔ id ∈ s.runs := by
        rw [List.mem_append, List.mem_singleton, or_iff_left hne]
      exact (h.matching id outcome hset).snoc _ hiff

theorem History.finish (h : History events s) {id : Nat} {a : ActiveJob Owner}
    (ha : s.activeIn id .running = some a) (result : Except Error Value) :
    History (events ++ [.finish id result]) (s.finish id result) := by
  rcases activeIn_eq_some ha with ⟨hmem, rfl, hphase⟩
  have hrun := h.ran a hmem hphase
  have hevent : .finish a.job.id result ∈
      events ++ [(.finish a.job.id result : Event Owner Value Error)] :=
    List.mem_append_right _ (List.mem_singleton_self _)
  cases result with
  | ok value =>
      exact @History.leave _ _ _ s events h a hmem (.resolved value) _ rfl (s.completed + 1) s.failed
        ⟨hrun, hevent⟩
  | error error =>
      exact @History.leave _ _ _ s events h a hmem (.rejected error) _ rfl s.completed (s.failed + 1)
        ⟨hrun, hevent⟩

theorem History.step [DecidableEq Owner] (h : History events s)
    {event : Event Owner Value Error} {s' : DerivedStateScheduler Owner Value Error}
    (hstep : s.step event = some s') : History (events ++ [event]) s' := by
  cases event with
  | schedule owner =>
      cases hstep
      exact h.schedule owner
  | cancel owner =>
      cases hstep
      exact h.cancel owner
  | close =>
      cases hstep
      exact h.close
  | resume id =>
      rcases Option.map_eq_some_iff.mp hstep with ⟨a, ha, rfl⟩
      exact h.resume ha
  | finish id result =>
      rcases Option.map_eq_some_iff.mp hstep with ⟨a, ha, rfl⟩
      exact h.finish ha result

theorem History.new (maxConcurrent : Nat) :
    History [] (new maxConcurrent : DerivedStateScheduler Owner Value Error) where
  valid := Valid.new maxConcurrent
  owners := rfl
  closing := fun hc => nomatch hc
  waiting := fun _ hjob => nomatch hjob
  ran := fun _ ha => nomatch ha
  flagged := fun _ ha => nomatch ha
  matching := fun _ _ hmem => nomatch hmem

/-! ## Jobs that never run -/

/-- The job has not run and will not: it is not queued, and active at most as a cancelled one. -/
structure Doomed (id : Nat) (s : DerivedStateScheduler Owner Value Error) : Prop where
  known : id < s.owners.length
  notRun : id ∉ s.runs
  notQueued : id ∉ s.queueIds
  cancelled : ∀ a ∈ s.active, a.job.id = id → a.job.cancelled = true

theorem Doomed.drainFrom {id : Nat} {queue : List (DerivedJob Owner)}
    (h : Doomed id { s with queue := queue }) : Doomed id (s.drainFrom queue) := by
  rcases drainFrom_fields s queue with ⟨-, hruns, howners, -⟩
  rcases mem_drainFrom s queue with ⟨hqueue, hactive⟩
  refine ⟨howners ▸ h.known, hruns ▸ h.notRun, fun hid => ?_, fun a ha heq => ?_⟩
  · rcases List.mem_map.mp hid with ⟨job, hjob, rfl⟩
    exact h.notQueued (List.mem_map_of_mem (hqueue job hjob))
  · rcases hactive a ha with ha | ⟨-, hjob⟩
    · exact h.cancelled a ha heq
    · refine absurd (List.mem_map.mpr ⟨a.job, hjob, heq⟩) h.notQueued

theorem Doomed.leave {id left : Nat} (h : Doomed id s) (outcome : JobOutcome Value Error)
    (completed failed : Nat) : Doomed id (leave
      { s.settle left outcome with completed := completed, failed := failed } left) :=
  Doomed.drainFrom ⟨h.known, h.notRun, h.notQueued,
    fun a ha => h.cancelled a (List.mem_filter.mp ha).1⟩

theorem Doomed.step [DecidableEq Owner] {id : Nat} (h : Doomed id s)
    {event : Event Owner Value Error} {s' : DerivedStateScheduler Owner Value Error}
    (hstep : s.step event = some s') : Doomed id s' := by
  cases event with
  | schedule owner =>
      cases hstep
      have hknown : id < (s.owners ++ [owner]).length := by
        rw [List.length_append]
        exact Nat.lt_add_right _ h.known
      unfold DerivedStateScheduler.schedule
      dsimp only
      split_ifs
      · exact ⟨hknown, h.notRun, h.notQueued, h.cancelled⟩
      · refine Doomed.drainFrom ⟨hknown, h.notRun, fun hid => ?_, h.cancelled⟩
        have hid' : id ∈ (s.queue ++ [s.newJob owner]).map (·.id) := hid
        rw [List.map_append, List.mem_append] at hid'
        rcases hid' with hid' | hid'
        · exact h.notQueued hid'
        · -- the new job has a new id
          exact absurd (List.mem_singleton.mp hid') (Nat.ne_of_lt h.known)
  | cancel owner =>
      cases hstep
      cases owner with
      | none => exact h
      | some owner =>
          refine ⟨h.known, h.notRun, fun hid => ?_, fun a ha heq => ?_⟩
          · exact h.notQueued ((List.filter_sublist.map _).subset hid)
          · rcases List.mem_map.mp ha with ⟨a', ha', rfl⟩
            unfold cancelJob at heq ⊢
            split_ifs at heq ⊢
            · rfl
            · exact h.cancelled a' ha' heq
  | close =>
      cases hstep
      exact ⟨h.known, h.notRun, fun hid => (nomatch hid), h.cancelled⟩
  | resume other =>
      rcases Option.map_eq_some_iff.mp hstep with ⟨a, ha, rfl⟩
      rcases activeIn_eq_some ha with ⟨hmem, rfl, -⟩
      unfold DerivedStateScheduler.resume
      split_ifs with hcancelled
      · exact h.leave .cancelled (s.completed + 1) s.failed
      · have hne : id ≠ a.job.id := fun heq => hcancelled (h.cancelled a hmem heq.symm)
        refine ⟨h.known, fun hrun => ?_, h.notQueued, fun a'' ha'' heq => ?_⟩
        · rcases List.mem_append.mp hrun with hrun | hrun
          · exact h.notRun hrun
          · exact hne (List.mem_singleton.mp hrun)
        · rcases List.mem_map.mp ha'' with ⟨a', ha', rfl⟩
          unfold runJob at heq ⊢
          split_ifs at heq ⊢
          · exact h.cancelled a' ha' heq
          · exact h.cancelled a' ha' heq
  | finish other result =>
      rcases Option.map_eq_some_iff.mp hstep with ⟨a, ha, rfl⟩
      cases result with
      | ok value => exact h.leave (.resolved value) (s.completed + 1) s.failed
      | error error => exact h.leave (.rejected error) s.completed (s.failed + 1)

/-- A cancelled job that has not run never will. -/
theorem Valid.doomed_of_cancel [DecidableEq Owner] (h : Valid s) {id : Nat} {owner : Owner}
    (howner : s.owners[id]? = some (some owner)) (hrun : id ∉ s.runs) :
    Doomed id (s.cancel (some owner)).1 := by
  refine ⟨(List.getElem?_eq_some_iff.mp howner).1, hrun, fun hid => ?_, fun a ha heq => ?_⟩
  · rcases List.mem_map.mp hid with ⟨job, hjob, rfl⟩
    rcases List.mem_filter.mp hjob with ⟨hqueued, hother⟩
    have howned := h.owned job (List.mem_append_left _ hqueued)
    exact of_decide_eq_true hother (Option.some.inj (howned.symm.trans howner))
  · rcases List.mem_map.mp ha with ⟨a', ha', rfl⟩
    unfold cancelJob at heq ⊢
    split_ifs at heq ⊢ with hmine
    · rfl
    · have hjob : a'.job ∈ s.active.map (·.job) := List.mem_map_of_mem ha'
      have howned := h.owned a'.job (List.mem_append_right _ hjob)
      rw [heq] at howned
      exact absurd (Option.some.inj (howned.symm.trans howner)) hmine

/-- The scheduler is closed and the job not started. -/
structure Shut (id : Nat) (s : DerivedStateScheduler Owner Value Error) : Prop where
  closed : s.closed = true
  empty : s.queue = []
  notStarted : id ∉ s.starts

theorem Shut.leave {id left : Nat} (h : Shut id s) (outcome : JobOutcome Value Error)
    (completed failed : Nat) : Shut id (leave
      { s.settle left outcome with completed := completed, failed := failed } left) := by
  unfold DerivedStateScheduler.leave drain
  rw [show ({ s.settle left outcome with completed := completed, failed := failed } :
    DerivedStateScheduler Owner Value Error).queue = [] from h.empty]
  exact ⟨h.closed, rfl, h.notStarted⟩

theorem Shut.step [DecidableEq Owner] {id : Nat} (h : Shut id s)
    {event : Event Owner Value Error} {s' : DerivedStateScheduler Owner Value Error}
    (hstep : s.step event = some s') : Shut id s' := by
  cases event with
  | schedule owner =>
      cases hstep
      unfold DerivedStateScheduler.schedule
      dsimp only
      rw [if_pos h.closed]
      exact ⟨h.closed, h.empty, h.notStarted⟩
  | cancel owner =>
      cases hstep
      cases owner with
      | none => exact h
      | some owner =>
          refine ⟨h.closed, ?_, h.notStarted⟩
          simp [DerivedStateScheduler.cancel, h.empty]
  | close =>
      cases hstep
      exact ⟨rfl, rfl, h.notStarted⟩
  | resume other =>
      rcases Option.map_eq_some_iff.mp hstep with ⟨a, ha, rfl⟩
      unfold DerivedStateScheduler.resume
      split_ifs
      · exact h.leave .cancelled (s.completed + 1) s.failed
      · exact ⟨h.closed, h.empty, h.notStarted⟩
  | finish other result =>
      rcases Option.map_eq_some_iff.mp hstep with ⟨a, ha, rfl⟩
      cases result with
      | ok value => exact h.leave (.resolved value) (s.completed + 1) s.failed
      | error error => exact h.leave (.rejected error) s.completed (s.failed + 1)

/-! ## Runs -/

theorem maxConcurrent_drainFrom (s : DerivedStateScheduler Owner Value Error)
    (queue : List (DerivedJob Owner)) :
    (s.drainFrom queue).maxConcurrent = s.maxConcurrent := by
  induction queue generalizing s with
  | nil => rfl
  | cons job queue ih =>
      rw [drainFrom]
      split_ifs
      · exact ih (s.start job)
      · rfl

theorem maxConcurrent_step [DecidableEq Owner] {event : Event Owner Value Error}
    {s' : DerivedStateScheduler Owner Value Error} (hstep : s.step event = some s') :
    s'.maxConcurrent = s.maxConcurrent := by
  cases event with
  | schedule owner =>
      cases hstep
      unfold DerivedStateScheduler.schedule
      dsimp only
      split_ifs
      · rfl
      · exact maxConcurrent_drainFrom _ _
  | cancel owner =>
      cases hstep
      cases owner <;> rfl
  | close =>
      cases hstep
      rfl
  | resume id =>
      rcases Option.map_eq_some_iff.mp hstep with ⟨a, ha, rfl⟩
      unfold DerivedStateScheduler.resume
      split_ifs
      · exact maxConcurrent_drainFrom _ _
      · rfl
  | finish id result =>
      rcases Option.map_eq_some_iff.mp hstep with ⟨a, ha, rfl⟩
      cases result with
      | ok value => exact maxConcurrent_drainFrom _ _
      | error error => exact maxConcurrent_drainFrom _ _

/-- Over any order of events: no more jobs are active than allowed, and that many while others wait;
jobs start in the order of their ids, which is the order they are scheduled in; a job runs at most
once, not if it was cancelled before it ran, nor if the scheduler was closed before it started; and
its promise is settled at most once, with what the events say of it. -/
theorem rebuilds_spec [DecidableEq Owner] {maxConcurrent : Nat}
    (hruns : Runs step (new maxConcurrent) events s) :
    s.active.length ≤ maxConcurrent ∧
    (s.queue ≠ [] → s.closed = false → s.active.length = maxConcurrent) ∧
    (s.starts ++ s.queueIds).Pairwise (· < ·) ∧
    (s.runs.Nodup ∧ ∀ id ∈ s.runs, id ∈ s.starts) ∧
    (∀ before after owner, events = before ++ .cancel (some owner) :: after →
      ∀ t, Runs step (new maxConcurrent) before t → ∀ id : Nat,
        (scheduledOwners before)[id]? = some (some owner) → id ∉ t.runs → id ∉ s.runs) ∧
    (∀ before after, events = before ++ .close :: after →
      ∀ t, Runs step (new maxConcurrent) before t → ∀ id, id ∉ t.starts → id ∉ s.starts) ∧
    s.settledIds.Nodup ∧
    (∀ id outcome, (id, outcome) ∈ s.settled → Matches events s.runs id outcome) ∧
    ∀ id < s.owners.length, id ∈ s.settledIds ∨ id ∈ s.queueIds ∨ id ∈ s.activeIds := by
  have hhistory : History events s :=
    hruns.history (P := History) (fun _ _ _ _ h hstep => h.step hstep) (History.new maxConcurrent)
  have hmax : s.maxConcurrent = maxConcurrent :=
    hruns.invariant (P := fun s => s.maxConcurrent = maxConcurrent)
      (fun _ _ _ h hstep => (maxConcurrent_step hstep).trans h) rfl
  have hvalid := hhistory.valid
  refine ⟨hmax ▸ hvalid.room, fun hne _ => hmax ▸ (hvalid.full hne).2, hvalid.order,
    ⟨hvalid.runOnce, hvalid.runStarted⟩, ?_, ?_, hvalid.settledOnce, hhistory.matching,
    fun id hid => ?_⟩
  · -- once cancelled, a job of the owner that has not run never does
    rintro before after owner rfl t ht id howner hrun
    have hhistoryt : History before t :=
      ht.history (P := History) (fun _ _ _ _ h hstep => h.step hstep) (History.new maxConcurrent)
    refine (Runs.after (P := Doomed id) (fun _ _ _ h hstep => h.step hstep) hruns ht ?_).notRun
    rintro _ ⟨⟩
    exact hhistoryt.valid.doomed_of_cancel (hhistoryt.owners ▸ howner) hrun
  · -- once closed, the scheduler starts nothing
    rintro before after rfl t ht id hstart
    refine (Runs.after (P := Shut id) (fun _ _ _ h hstep => h.step hstep) hruns ht ?_).notStarted
    rintro _ ⟨⟩
    exact ⟨rfl, rfl, hstart⟩
  · have hmem := hvalid.accounted id (hhistory.owners ▸ hid)
    simpa only [List.mem_append] using hmem

end

/-- Two jobs, one at a time; the first is cancelled before it runs, and the second takes its
place. -/
theorem rebuilds_spec_cancelled : ∃ s : DerivedStateScheduler Nat Nat Nat,
    Runs step (new 1) [.schedule (some 7), .schedule (some 8), .cancel (some 7), .resume 0] s ∧
      0 ∉ s.runs ∧ s.active.length ≤ 1 ∧ s.activeIds = [1] := by
  have hruns : Runs step (new 1 : DerivedStateScheduler Nat Nat Nat)
      [.schedule (some 7), .schedule (some 8), .cancel (some 7), .resume 0] _ :=
    .cons rfl (.cons rfl (.cons rfl (.cons rfl (.nil _))))
  have hbefore : Runs step (new 1 : DerivedStateScheduler Nat Nat Nat)
      [.schedule (some 7), .schedule (some 8)] _ := .cons rfl (.cons rfl (.nil _))
  have hspec := rebuilds_spec hruns
  refine ⟨_, hruns, ?_, hspec.1, rfl⟩
  exact hspec.2.2.2.2.1 _ _ 7 rfl _ hbefore 0 rfl List.not_mem_nil

end DerivedStateScheduler

end ObjyDb
