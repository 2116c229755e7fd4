import ObjyDb.Js.Text

/-!
# Dispatch — one run of a chain of hooks

The runner calls the first handler, which goes on to the next one by calling `next()`; the last
`next()` calls the operation itself, `execute`.  Handlers are arbitrary asynchronous code: they may
call their `next` at any time and any number of times, and settle when they like.  Each dispatch of
a run is recorded under the number in which it was started, and its promise by the same number.

* `start_reached` — in every run handlers are entered in order, each and `execute` at most once,
  and the run fulfils only with the result of `execute`, when no handler threw;
* `step_timely` — nothing is executed after the run has settled, as long as no handler goes on
  after its dispatch has settled, or throws while the rest of the chain goes on.
-/

namespace ObjyDb
namespace Hooks

open Js

/-! ## Promises -/

/-- A thrown error, with its `status`. -/
structure Thrown where
  message : JsString
  status : Option Nat
  deriving DecidableEq

/-- `if (!err.status) err.status = 500` -/
def Thrown.withStatus (err : Thrown) : Thrown :=
  match err.status with
  | none | some 0 => { err with status := some 500 }
  | some _ => err

/-- `hookExecutionError(message)` -/
def hookExecutionError (message : JsString) : Thrown :=
  ⟨message, some 500⟩

inductive Promise (α : Type)
  | pending
  | fulfilled (value : α)
  | rejected (err : Thrown)
  deriving DecidableEq

def Promise.settled {α : Type} : Promise α → Bool
  | pending => false
  | fulfilled _ | rejected _ => true

/-! ## The state of a run -/

/-- What a dispatch calls. -/
inductive Stage
  | handler
  | execute
  /-- Nothing: it is rejected at once. -/
  | refused
  deriving DecidableEq

/-- One call of `dispatch`. -/
structure DispatchCall (V : Type) where
  index : Nat
  stage : Stage
  /-- `called` and `nextPromise` -/
  called : Bool
  nextPromise : Option Nat
  /-- The promise of the handler. -/
  handler : Promise Unit
  /-- The promise of `execute`. -/
  execution : Promise V
  /-- It has returned `nextPromise`. -/
  following : Bool
  /-- The promise of the dispatch itself. -/
  promise : Promise V
  deriving DecidableEq

structure HookRun (V : Type) where
  calls : List (DispatchCall V)
  cursor : Int
  /-- `context.result` -/
  result : Option V
  /-- The handlers called, in order. -/
  entered : List Nat
  /-- How often `execute` was called. -/
  starts : Nat
  deriving DecidableEq

section Runs

variable {V : Type}

/-- `dispatch(index)`, up to its first `await`. -/
def dispatch (chain : List JsString) (run : HookRun V) (index : Nat) : HookRun V :=
  let call : DispatchCall V := ⟨index, .handler, false, none, .pending, .pending, false, .pending⟩
  if (index : Int) ≤ run.cursor then
    let err := hookExecutionError (js "object hook next() called more than once")
    { run with calls := run.calls ++ [{ call with stage := .refused, promise := .rejected err }] }
  else if index = chain.length then
    { run with
      calls := run.calls ++ [{ call with stage := .execute }]
      cursor := index
      starts := run.starts + 1 }
  else
    { run with
      calls := run.calls ++ [call]
      cursor := index
      entered := run.entered ++ [index] }

/-- The start of `run`: without hooks the operation is executed directly. -/
def startRun (chain : List JsString) : HookRun V :=
  dispatch chain ⟨[], -1, none, [], 0⟩ 0

/-- `object hook ${name} called next() more than once` -/
def calledTwice (name : JsString) : Thrown :=
  hookExecutionError (js "object hook " ++ name ++ js " called next() more than once")

/-- `object hook ${name} must call next()` -/
def mustCallNext (name : JsString) : Thrown :=
  hookExecutionError (js "object hook " ++ name ++ js " must call next()")

def hookName (chain : List JsString) (index : Nat) : JsString :=
  chain.getD index []

inductive RunEvent (V : Type)
  /-- The `next` that the handler of this call was given is called, by whom and whenever. -/
  | next (call : Nat)
  | handlerSettles (call : Nat) (outcome : Except Thrown Unit)
  | executeSettles (call : Nat) (outcome : Except Thrown V)
  /-- The call goes on after its `await`. -/
  | resume (call : Nat)
  /-- The call, which returned the promise of the next one, settles as that one has. -/
  | follow (call : Nat)
  deriving DecidableEq

def settle {α : Type} : Except Thrown α → Promise α
  | .ok value => .fulfilled value
  | .error err => .rejected err

def HookRun.setCall (run : HookRun V) (k : Nat) (call : DispatchCall V) : HookRun V :=
  { run with calls := run.calls.set k call }

/-- `next()` of the call `k`: the error is thrown to whoever calls it. -/
def next (chain : List JsString) (run : HookRun V) (k : Nat) (call : DispatchCall V) :
    Except Thrown (HookRun V) :=
  if call.called = true then .error (calledTwice (hookName chain call.index))
  else
    let run := run.setCall k { call with called := true, nextPromise := some run.calls.length }
    .ok (dispatch chain run (call.index + 1))

/-- The rest of a dispatch after its `await`; none while what it awaits is pending. -/
def resume (chain : List JsString) (run : HookRun V) (k : Nat) (call : DispatchCall V) :
    Option (HookRun V) :=
  match call.stage with
  | .handler =>
      match call.handler with
      | .pending => none
      | .rejected err => some (run.setCall k { call with promise := .rejected err.withStatus })
      | .fulfilled _ =>
          if call.called = true then some (run.setCall k { call with following := true })
          else
            let err := mustCallNext (hookName chain call.index)
            some (run.setCall k { call with promise := .rejected err })
  | .execute =>
      match call.execution with
      | .pending => none
      | .rejected err => some (run.setCall k { call with promise := .rejected err })
      | .fulfilled v =>
          some { run.setCall k { call with promise := .fulfilled v } with result := some v }
  | .refused => none

/-- What an event does; none when it cannot happen. -/
def step (chain : List JsString) (run : HookRun V) : RunEvent V → Option (HookRun V)
  | .next k => do
      let call ← run.calls[k]?
      if call.stage ≠ .handler then none
      else
        match next chain run k call with
        | .ok run => some run
        | .error _ => some run
  | .handlerSettles k outcome => do
      let call ← run.calls[k]?
      if call.stage ≠ .handler ∨ call.handler.settled = true then none
      else some (run.setCall k { call with handler := settle outcome })
  | .executeSettles k outcome => do
      let call ← run.calls[k]?
      if call.stage ≠ .execute ∨ call.execution.settled = true then none
      else some (run.setCall k { call with execution := settle outcome })
  | .resume k => do
      let call ← run.calls[k]?
      if call.following = true ∨ call.promise.settled = true then none
      else resume chain run k call
  | .follow k => do
      let call ← run.calls[k]?
      let inner ← run.calls[(← call.nextPromise)]?
      if call.following = false ∨ call.promise.settled = true ∨ inner.promise.settled = false then none
      else some (run.setCall k { call with promise := inner.promise })

/-- The promise that `run` returns. -/
def HookRun.promise (run : HookRun V) : Promise V :=
  match run.calls[0]? with
  | some call => call.promise
  | none => .pending

/-- The runs of a chain. -/
inductive Reached (chain : List JsString) : HookRun V → Prop
  | start : Reached chain (startRun chain)
  | step {run run' : HookRun V} (h : Reached chain run) (event : RunEvent V)
      (hstep : Hooks.step chain run event = some run') : Reached chain run'

/-- A handler goes on before its dispatch has settled; and when its error is passed on, the dispatch
it has started has settled, or `execute` has been called. -/
def Timely (run : HookRun V) : RunEvent V → Prop
  | .next k => ∀ call, run.calls[k]? = some call → call.called = false →
      call.promise.settled = false
  | .resume k => ∀ call err inner, run.calls[k]? = some call → call.handler = .rejected err →
      run.calls[k + 1]? = some inner → inner.promise.settled = true ∨ 0 < run.starts
  | _ => True

/-- The runs whose steps are all timely. -/
inductive TimelyReached (chain : List JsString) : HookRun V → Prop
  | start : TimelyReached chain (startRun chain)
  | step {run run' : HookRun V} (h : TimelyReached chain run) (event : RunEvent V)
      (htimely : Timely run event) (hstep : Hooks.step chain run event = some run') :
      TimelyReached chain run'

theorem TimelyReached.reached {chain : List JsString} {run : HookRun V}
    (h : TimelyReached chain run) : Reached chain run := by
  induction h with
  | start => exact .start
  | step _ event _ hstep ih => exact .step ih event hstep

/-! ## What a step does -/

/-- The calls of a run, one for each level of the chain that was entered. -/
structure Linked (chain : List JsString) (run : HookRun V) : Prop where
  length_pos : 0 < run.calls.length
  length_le : run.calls.length ≤ chain.length + 1
  cursor : run.cursor = (run.calls.length : Int) - 1
  entered : run.entered = List.range (min run.calls.length chain.length)
  starts : run.starts = if run.calls.length = chain.length + 1 then 1 else 0
  calls : ∀ (k : Nat) (call : DispatchCall V), run.calls[k]? = some call →
    call.index = k ∧ (call.stage = if k < chain.length then .handler else .execute) ∧
    (call.called = true ↔ k + 1 < run.calls.length) ∧
    (∀ j, call.nextPromise = some j → j = k + 1)
  following : ∀ (k : Nat) (call : DispatchCall V), run.calls[k]? = some call → call.following = true →
    call.stage = .handler ∧ call.called = true ∧ call.handler = .fulfilled ()
  fulfilled : ∀ (k : Nat) (call : DispatchCall V) v, run.calls[k]? = some call → call.promise = .fulfilled v →
    call.stage = .execute ∧ call.execution = .fulfilled v ∨
      call.following = true ∧ ∃ inner, run.calls[k + 1]? = some inner ∧
        inner.promise = .fulfilled v

/-- The part of a call that only `next` changes. -/
structure SameLink (call call' : DispatchCall V) : Prop where
  index : call'.index = call.index
  stage : call'.stage = call.stage
  called : call'.called = call.called
  nextPromise : call'.nextPromise = call.nextPromise

/-- The call after its first `next()`. -/
def goneOn (run : HookRun V) (call : DispatchCall V) : DispatchCall V :=
  { call with called := true, nextPromise := some run.calls.length }

/-- A step changes one call, or adds the next one. -/
theorem step_cases {chain : List JsString} {run run' : HookRun V} {event : RunEvent V}
    (h : step chain run event = some run') :
    run' = run ∨
    (∃ k call, event = .next k ∧ run.calls[k]? = some call ∧ call.stage = .handler ∧
      call.called = false ∧
      run' = dispatch chain (run.setCall k (goneOn run call)) (call.index + 1)) ∨
    (∃ k call, run.calls[k]? = some call ∧ ∃ outcome, call.stage = .handler ∧
      call.handler.settled = false ∧ event = .handlerSettles k outcome ∧
      run' = run.setCall k { call with handler := settle outcome }) ∨
    (∃ k call, run.calls[k]? = some call ∧ ∃ outcome, call.stage = .execute ∧
      call.execution.settled = false ∧ event = .executeSettles k outcome ∧
      run' = run.setCall k { call with execution := settle outcome }) ∨
    (∃ k call, event = .resume k ∧ run.calls[k]? = some call ∧ call.following = false ∧
      call.promise.settled = false ∧ resume chain run k call = some run') ∨
    (∃ k call j inner, event = .follow k ∧ run.calls[k]? = some call ∧
      call.nextPromise = some j ∧ run.calls[j]? = some inner ∧ call.following = true ∧
      call.promise.settled = false ∧ inner.promise.settled = true ∧
      run' = run.setCall k { call with promise := inner.promise }) := by
  cases event with
  | next k =>
      rw [step] at h
      rcases Option.bind_eq_some_iff.mp h with ⟨call, hcall, h⟩
      split_ifs at h with hstage
      rw [next] at h
      split_ifs at h with hcalled
      · -- the second call of `next` throws, and the run is as before
        cases h
        exact Or.inl rfl
      · cases h
        exact Or.inr (Or.inl ⟨k, call, rfl, hcall, not_ne_iff.mp hstage, by simpa using hcalled, rfl⟩)
  | handlerSettles k outcome =>
      rw [step] at h
      rcases Option.bind_eq_some_iff.mp h with ⟨call, hcall, h⟩
      split_ifs at h with hguard
      cases h
      rcases not_or.mp hguard with ⟨hstage, hpending⟩
      exact Or.inr (Or.inr (Or.inl
        ⟨k, call, hcall, outcome, not_ne_iff.mp hstage, by simpa using hpending, rfl, rfl⟩))
  | executeSettles k outcome =>
      rw [step] at h
      rcases Option.bind_eq_some_iff.mp h with ⟨call, hcall, h⟩
      split_ifs at h with hguard
      cases h
      rcases not_or.mp hguard with ⟨hstage, hpending⟩
      exact Or.inr (Or.inr (Or.inr (Or.inl
        ⟨k, call, hcall, outcome, not_ne_iff.mp hstage, by simpa using hpending, rfl, rfl⟩)))
  | resume k =>
      rw [step] at h
      rcases Option.bind_eq_some_iff.mp h with ⟨call, hcall, h⟩
      split_ifs at h with hguard
      rcases not_or.mp hguard with ⟨hfollowing, hpending⟩
      exact Or.inr (Or.inr (Or.inr (Or.inr (Or.inl
        ⟨k, call, rfl, hcall, by simpa using hfollowing, by simpa using hpending, h⟩))))
  | follow k =>
      rw [step] at h
      rcases Option.bind_eq_some_iff.mp h with ⟨call, hcall, h⟩
      rcases Option.bind_eq_some_iff.mp h with ⟨j, hj, h⟩
      rcases Option.bind_eq_some_iff.mp h with ⟨inner, hinner, h⟩
      split_ifs at h with hguard
      cases h
      rcases not_or.mp hguard with ⟨hfollowing, hrest⟩
      rcases not_or.mp hrest with ⟨hpending, hsettled⟩
      exact Or.inr (Or.inr (Or.inr (Or.inr (Or.inr ⟨k, call, j, inner, rfl, hcall, hj, hinner,
        by simpa using hfollowing, by simpa using hpending, by simpa using hsettled, rfl⟩))))

/-- The rest of a dispatch: it follows the promise of the next one, it is rejected, or it is
fulfilled with what `execute` gave. -/
theorem resume_cases {chain : List JsString} {run run' : HookRun V} {k : Nat}
    {call : DispatchCall V} (h : resume chain run k call = some run') :
    ∃ call' result, run' = { run.setCall k call' with result := result } ∧ SameLink call call' ∧
      ((call.stage = .handler ∧ call.called = true ∧ call.handler = .fulfilled () ∧
          call' = { call with following := true }) ∨
        (∃ err, call' = { call with promise := .rejected err } ∧
          (call.stage = .handler → (∃ err, call.handler = .rejected err) ∨ call.called = false)) ∨
        ∃ v, call.stage = .execute ∧ call.execution = .fulfilled v ∧
          call' = { call with promise := .fulfilled v }) := by
  unfold resume at h
  split at h
  · rename_i hstage
    split at h
    · cases h
    · rename_i err herr
      cases h
      exact ⟨_, run.result, rfl, ⟨rfl, rfl, rfl, rfl⟩,
        Or.inr (Or.inl ⟨_, rfl, fun _ => Or.inl ⟨err, herr⟩⟩)⟩
    · rename_i hdone
      split_ifs at h with hcalled
      · cases h
        exact ⟨_, run.result, rfl, ⟨rfl, rfl, rfl, rfl⟩,
          Or.inl ⟨hstage, hcalled, hdone, rfl⟩⟩
      · cases h
        exact ⟨_, run.result, rfl, ⟨rfl, rfl, rfl, rfl⟩,
          Or.inr (Or.inl ⟨_, rfl, fun _ => Or.inr (by simpa using hcalled)⟩)⟩
  · rename_i hstage
    split at h
    · cases h
    · rename_i err herr
      cases h
      refine ⟨_, run.result, rfl, ⟨rfl, rfl, rfl, rfl⟩, Or.inr (Or.inl ⟨err, rfl, ?_⟩)⟩
      intro hhandler
      rw [hstage] at hhandler
      cases hhandler
    · rename_i v hv
      cases h
      exact ⟨_, some v, rfl, ⟨rfl, rfl, rfl, rfl⟩, Or.inr (Or.inr ⟨v, hstage, hv, rfl⟩)⟩
  · cases h

/-! ## Every run -/

section Invariant

variable {chain : List JsString} {run : HookRun V} {k : Nat} {call : DispatchCall V}

theorem getElem?_setCall (hcall : run.calls[k]? = some call) (call' : DispatchCall V) (j : Nat) :
    (run.setCall k call').calls[j]? = if j = k then some call' else run.calls[j]? := by
  have hlt := (List.getElem?_eq_some_iff.mp hcall).1
  rw [HookRun.setCall, List.getElem?_set]
  by_cases hj : j = k
  · subst hj
    simp [hlt]
  · rw [if_neg (fun heq => hj heq.symm), if_neg hj]

/-- One call goes on by itself. -/
theorem Linked.setCall (h : Linked chain run) (hcall : run.calls[k]? = some call)
    {call' : DispatchCall V} (hlink : SameLink call call')
    (hfollowing : call'.following = true →
      call.stage = .handler ∧ call.called = true ∧ call'.handler = .fulfilled ())
    (hfulfilled : ∀ v, call'.promise = .fulfilled v →
      call.stage = .execute ∧ call'.execution = .fulfilled v ∨
        call'.following = true ∧ ∃ inner, run.calls[k + 1]? = some inner ∧
          inner.promise = .fulfilled v)
    (hkept : ∀ v, call.promise = .fulfilled v → call'.promise = .fulfilled v) :
    Linked chain (run.setCall k call') := by
  have hlength : (run.setCall k call').calls.length = run.calls.length := by
    simp [HookRun.setCall]
  have hget := getElem?_setCall hcall call'
  refine ⟨?_, ?_, ?_, ?_, ?_, ?_, ?_, ?_⟩
  · rw [hlength]
    exact h.length_pos
  · rw [hlength]
    exact h.length_le
  · rw [hlength]
    exact h.cursor
  · rw [hlength]
    exact h.entered
  · rw [hlength]
    exact h.starts
  · intro j other hother
    rw [hget] at hother
    rw [hlength]
    split_ifs at hother with hj
    · cases hother
      subst hj
      rw [hlink.index, hlink.stage, hlink.called, hlink.nextPromise]
      exact h.calls j call hcall
    · exact h.calls j other hother
  · intro j other hother hset
    rw [hget] at hother
    split_ifs at hother with hj
    · cases hother
      rw [hlink.stage, hlink.called]
      exact hfollowing hset
    · exact h.following j other hother hset
  · intro j other v hother hv
    rw [hget] at hother
    -- the promise of the call after this one is kept
    have hinner : (∃ inner, run.calls[j + 1]? = some inner ∧ inner.promise = .fulfilled v) →
        ∃ inner, (run.setCall k call').calls[j + 1]? = some inner ∧
          inner.promise = .fulfilled v := by
      rintro ⟨inner, hinner, hsettled⟩
      rw [hget]
      by_cases hj : j + 1 = k
      · rw [if_pos hj]
        rw [hj, hcall] at hinner
        cases hinner
        exact ⟨call', rfl, hkept v hsettled⟩
      · rw [if_neg hj]
        exact ⟨inner, hinner, hsettled⟩
    split_ifs at hother with hj
    · cases hother
      subst hj
      rw [hlink.stage]
      exact (hfulfilled v hv).imp_right fun hnext => ⟨hnext.1, hinner hnext.2⟩
    · exact (h.fulfilled j other v hother hv).imp_right fun hnext => ⟨hnext.1, hinner hnext.2⟩

theorem Linked.withResult (h : Linked chain run) (result : Option V) :
    Linked chain { run with result := result } :=
  ⟨h.length_pos, h.length_le, h.cursor, h.entered, h.starts, h.calls, h.following, h.fulfilled⟩

/-- What a new dispatch starts with. -/
def freshCall (V : Type) (chain : List JsString) (index : Nat) : DispatchCall V :=
  ⟨index, if index < chain.length then .handler else .execute, false, none, .pending, .pending,
    false, .pending⟩

theorem dispatch_fresh {index : Nat} (hcursor : run.cursor < index) (hle : index ≤ chain.length) :
    (dispatch chain run index).calls = run.calls ++ [freshCall V chain index] ∧
      (dispatch chain run index).cursor = index ∧
      (dispatch chain run index).entered =
        (if index < chain.length then run.entered ++ [index] else run.entered) ∧
      (dispatch chain run index).starts =
        (if index < chain.length then run.starts else run.starts + 1) := by
  unfold dispatch freshCall
  rw [if_neg (not_le.mpr hcursor)]
  rcases hle.lt_or_eq with hlt | rfl
  · rw [if_neg hlt.ne, if_pos hlt, if_pos hlt, if_pos hlt]
    exact ⟨rfl, rfl, rfl, rfl⟩
  · rw [if_pos rfl, if_neg (lt_irrefl _), if_neg (lt_irrefl _), if_neg (lt_irrefl _)]
    exact ⟨rfl, rfl, rfl, rfl⟩

theorem linked_startRun (chain : List JsString) : Linked chain (startRun chain : HookRun V) := by
  have hcursor : (⟨[], -1, none, [], 0⟩ : HookRun V).cursor < (0 : Nat) := by
    show (-1 : Int) < 0
    decide
  rcases dispatch_fresh hcursor (Nat.zero_le chain.length) with ⟨hcalls, hat, hentered, hstarts⟩
  have hcalls' : (startRun chain : HookRun V).calls = [freshCall V chain 0] := hcalls
  have honly : ∀ k (call : DispatchCall V), (startRun chain : HookRun V).calls[k]? = some call →
      k = 0 ∧ call = freshCall V chain 0 := by
    intro k call hcall
    rw [hcalls'] at hcall
    cases k with
    | zero => exact ⟨rfl, (Option.some.inj hcall).symm⟩
    | succ k => cases hcall
  refine ⟨?_, ?_, ?_, ?_, ?_, ?_, ?_, ?_⟩
  · simp [hcalls']
  · simp [hcalls']
  · rw [hcalls']
    exact hat
  · rw [hcalls', show (startRun chain : HookRun V).entered = _ from hentered]
    rcases Nat.eq_zero_or_pos chain.length with hzero | hpos
    · simp [hzero]
    · rw [if_pos hpos, List.length_singleton, min_eq_left hpos]
      rfl
  · rw [hcalls', show (startRun chain : HookRun V).starts = _ from hstarts]
    rcases Nat.eq_zero_or_pos chain.length with hzero | hpos
    · simp [hzero]
    · rw [if_pos hpos, List.length_singleton, if_neg (by omega)]
  · intro k call hcall
    rcases honly k call hcall with ⟨rfl, rfl⟩
    rw [hcalls']
    exact ⟨rfl, rfl, by simp [freshCall], by simp [freshCall]⟩
  · intro k call hcall hfollowing
    rcases honly k call hcall with ⟨rfl, rfl⟩
    cases hfollowing
  · intro k call v hcall hv
    rcases honly k call hcall with ⟨rfl, rfl⟩
    cases hv

/-- The call that goes on is the last one. -/
theorem Linked.last (h : Linked chain run) (hcall : run.calls[k]? = some call)
    (hstage : call.stage = .handler) (hcalled : call.called = false) :
    k + 1 = run.calls.length ∧ k < chain.length ∧ call.index = k := by
  rcases h.calls k call hcall with ⟨hindex, hstageEq, hcalledIff, -⟩
  have hlt := (List.getElem?_eq_some_iff.mp hcall).1
  have hnot : ¬k + 1 < run.calls.length := fun hmore => by
    rw [hcalledIff.mpr hmore] at hcalled
    cases hcalled
  refine ⟨by omega, ?_, hindex⟩
  by_contra hk
  rw [hstage, if_neg hk] at hstageEq
  cases hstageEq

/-- The dispatch that the last call starts. -/
theorem Linked.next_spec (h : Linked chain run) (hcall : run.calls[k]? = some call)
    (hlast : k + 1 = run.calls.length) (hk : k < chain.length) :
    let run' := dispatch chain (run.setCall k (goneOn run call)) (k + 1)
    run'.calls.length = run.calls.length + 1 ∧ run'.cursor = (k : Int) + 1 ∧
      run'.entered = (if k + 1 < chain.length then run.entered ++ [k + 1] else run.entered) ∧
      run'.starts = (if k + 1 < chain.length then run.starts else run.starts + 1) ∧
      (∀ j, j < run.calls.length →
        run'.calls[j]? = if j = k then some (goneOn run call) else run.calls[j]?) ∧
      ∀ j (other : DispatchCall V), run'.calls[j]? = some other →
        (j = k ∧ other = goneOn run call) ∨ (j < k ∧ run.calls[j]? = some other) ∨
          (j = k + 1 ∧ other = freshCall V chain (k + 1)) := by
  intro run'
  have hcursor : (run.setCall k (goneOn run call)).cursor < (k + 1 : Nat) := by
    show run.cursor < _
    rw [h.cursor]
    omega
  rcases dispatch_fresh hcursor hk with ⟨hcalls, hat, hentered, hstarts⟩
  have hlength : run'.calls.length = run.calls.length + 1 := by
    rw [hcalls]
    simp [HookRun.setCall]
  have hget : ∀ j, j < run.calls.length →
      run'.calls[j]? = if j = k then some (goneOn run call) else run.calls[j]? := by
    intro j hj
    rw [hcalls, List.getElem?_append_left (by simpa [HookRun.setCall] using hj),
      getElem?_setCall hcall]
  refine ⟨hlength, hat.trans (by simp), hentered, hstarts, hget, ?_⟩
  intro j other hother
  have hjlt := (List.getElem?_eq_some_iff.mp hother).1
  rcases Nat.lt_or_ge j run.calls.length with hj | hj
  · rw [hget j hj] at hother
    split_ifs at hother with hjk
    · exact Or.inl ⟨hjk, (Option.some.inj hother).symm⟩
    · exact Or.inr (Or.inl ⟨by omega, hother⟩)
  · have hj' : j = run.calls.length := by omega
    rw [hcalls, hj', List.getElem?_append_right (by simp [HookRun.setCall])] at hother
    simp only [HookRun.setCall, List.length_set, Nat.sub_self, List.getElem?_cons_zero] at hother
    exact Or.inr (Or.inr ⟨by omega, (Option.some.inj hother).symm⟩)

/-- The last call goes on to the next level. -/
theorem Linked.next (h : Linked chain run) (hcall : run.calls[k]? = some call)
    (hstage : call.stage = .handler) (hcalled : call.called = false) :
    Linked chain (dispatch chain (run.setCall k (goneOn run call)) (call.index + 1)) := by
  rcases h.last hcall hstage hcalled with ⟨hlast, hk, hindex⟩
  rcases h.next_spec hcall hlast hk with ⟨hlength, hat, hentered, hstarts, hget, hcases⟩
  rw [hindex]
  set run' := dispatch chain (run.setCall k (goneOn run call)) (k + 1) with hrun'
  have hstageEq := (h.calls k call hcall).2.1
  refine ⟨?_, ?_, ?_, ?_, ?_, ?_, ?_, ?_⟩
  · rw [hlength]
    exact Nat.succ_pos _
  · rw [hlength]
    omega
  · rw [hat, hlength]
    omega
  · rw [hentered, hlength, h.entered, min_eq_left (by omega), ← hlast]
    split_ifs with hmore
    · rw [← List.range_succ, min_eq_left (by omega)]
    · rw [min_eq_right (by omega)]
      congr 1
      omega
  · have hnone : run.starts = 0 := by
      rw [h.starts, if_neg (by omega)]
    rw [hstarts, hlength, hnone]
    split_ifs <;> omega
  · -- a call is the one that goes on, an older one or the new one
    intro j other hother
    rw [hlength]
    rcases hcases j other hother with ⟨rfl, rfl⟩ | ⟨hj, hother⟩ | ⟨rfl, rfl⟩
    · refine ⟨hindex, hstageEq, by simp [goneOn, hlast], ?_⟩
      intro i hi
      exact (Option.some.inj hi).symm.trans hlast.symm
    · rcases h.calls j other hother with ⟨hi, hs, hc, hn⟩
      exact ⟨hi, hs, hc.trans (by omega), hn⟩
    · exact ⟨rfl, rfl, by simp [freshCall, hlast], by simp [freshCall]⟩
  · intro j other hother hset
    rcases hcases j other hother with ⟨rfl, rfl⟩ | ⟨-, hother⟩ | ⟨rfl, rfl⟩
    · have hold := h.following j call hcall hset
      exact ⟨hold.1, rfl, hold.2.2⟩
    · exact h.following j other hother hset
    · cases hset
  · intro j other v hother hv
    rcases hcases j other hother with ⟨rfl, rfl⟩ | ⟨hj, hother⟩ | ⟨rfl, rfl⟩
    · -- the last call had nobody to follow
      rcases h.fulfilled j call v hcall hv with hexecute | ⟨-, inner, hinner, -⟩
      · exact Or.inl hexecute
      · exact absurd (List.getElem?_eq_some_iff.mp hinner).1 (by omega)
    · rcases h.fulfilled j other v hother hv with hexecute | ⟨hfollowing, inner, hinner, hsettled⟩
      · exact Or.inl hexecute
      · refine Or.inr ⟨hfollowing, ?_⟩
        rw [hget (j + 1) (by omega)]
        by_cases hjk : j + 1 = k
        · rw [if_pos hjk]
          rw [hjk, hcall] at hinner
          cases hinner
          exact ⟨goneOn run call, rfl, hsettled⟩
        · rw [if_neg hjk]
          exact ⟨inner, hinner, hsettled⟩
    · cases hv

theorem not_settled_fulfilled {α : Type} {p : Promise α} (h : p.settled = false) (v : α) :
    p ≠ .fulfilled v := by
  rintro rfl
  cases h

theorem Linked.resume (h : Linked chain run) (hcall : run.calls[k]? = some call)
    (hfollowing : call.following = false) (hpending : call.promise.settled = false)
    {run' : HookRun V} (hresume : resume chain run k call = some run') : Linked chain run' := by
  have hkept : ∀ {p : Promise V} v, call.promise = .fulfilled v → p = .fulfilled v :=
    fun v hv => absurd hv (not_settled_fulfilled hpending v)
  have hnot : ∀ {P : Prop}, call.following = true → P := by
    intro P hset
    rw [hfollowing] at hset
    cases hset
  rcases resume_cases hresume with ⟨call', result, rfl, hlink, hcases⟩
  apply Linked.withResult
  rcases hcases with ⟨hstage, hcalled, hhandler, rfl⟩ | ⟨err, rfl, -⟩ | ⟨v, hstage, hdone, rfl⟩
  · refine h.setCall hcall hlink (fun _ => ⟨hstage, hcalled, hhandler⟩) ?_ fun v hv => hv
    exact fun v hv => absurd hv (not_settled_fulfilled hpending v)
  · refine h.setCall hcall hlink hnot ?_ hkept
    intro v hv
    cases hv
  · refine h.setCall hcall hlink hnot ?_ hkept
    intro w hw
    cases hw
    exact Or.inl ⟨hstage, hdone⟩

theorem Linked.step (h : Linked chain run) {event : RunEvent V} {run' : HookRun V}
    (hstep : step chain run event = some run') : Linked chain run' := by
  rcases step_cases hstep with rfl | ⟨k, call, -, hcall, hstage, hcalled, rfl⟩ |
    ⟨k, call, hcall, outcome, hstage, hpending, -, rfl⟩ |
    ⟨k, call, hcall, outcome, hstage, hpending, -, rfl⟩ |
    ⟨k, call, -, hcall, hfollowing, hpending, hresume⟩ |
    ⟨k, call, j, inner, -, hcall, hnext, hinner, hfollowing, hpending, -, rfl⟩
  · exact h
  · exact h.next hcall hstage hcalled
  · -- a handler settles: its call does not follow anything yet
    refine h.setCall hcall ⟨rfl, rfl, rfl, rfl⟩ ?_ (fun v hv => h.fulfilled k call v hcall hv)
      fun v hv => hv
    intro hset
    have hdone := (h.following k call hcall hset).2.2
    rw [hdone] at hpending
    cases hpending
  · refine h.setCall hcall ⟨rfl, rfl, rfl, rfl⟩ (h.following k call hcall) ?_ fun v hv => hv
    intro v hv
    rcases h.fulfilled k call v hcall hv with ⟨-, hdone⟩ | hfollow
    · rw [hdone] at hpending
      cases hpending
    · exact Or.inr hfollow
  · exact h.resume hcall hfollowing hpending hresume
  · have hj := (h.calls k call hcall).2.2.2 j hnext
    subst hj
    refine h.setCall hcall ⟨rfl, rfl, rfl, rfl⟩ (h.following k call hcall) ?_ ?_
    · exact fun v hv => Or.inr ⟨hfollowing, inner, hinner, hv⟩
    · exact fun v hv => absurd hv (not_settled_fulfilled hpending v)

theorem Reached.linked {run : HookRun V} (h : Reached chain run) : Linked chain run := by
  induction h with
  | start => exact linked_startRun chain
  | step _ _ hstep ih => exact ih.step hstep

/-- A fulfilled promise comes down the whole chain from `execute`. -/
theorem Linked.chain_fulfilled (h : Linked chain run) (hcall : run.calls[k]? = some call) {v : V}
    (hv : call.promise = .fulfilled v) :
    run.calls.length = chain.length + 1 ∧
      (∀ i, k ≤ i → i < chain.length → ∃ call, run.calls[i]? = some call ∧ call.called = true ∧
        call.handler = .fulfilled ()) ∧
      ∃ call, run.calls[chain.length]? = some call ∧ call.execution = .fulfilled v := by
  obtain ⟨n, hn⟩ : ∃ n, chain.length - k = n := ⟨_, rfl⟩
  induction n generalizing k call with
  | zero =>
      -- the last level is `execute`
      have hlt := (List.getElem?_eq_some_iff.mp hcall).1
      have hle := h.length_le
      have hk : k = chain.length := by omega
      subst hk
      rcases h.fulfilled _ call v hcall hv with ⟨-, hdone⟩ | ⟨-, inner, hinner, -⟩
      · exact ⟨by omega, fun i hi hlt' => absurd hlt' (by omega), call, hcall, hdone⟩
      · exact absurd (List.getElem?_eq_some_iff.mp hinner).1 (by omega)
  | succ n ih =>
      have hk : k < chain.length := by omega
      have hstage := (h.calls k call hcall).2.1
      rw [if_pos hk] at hstage
      rcases h.fulfilled k call v hcall hv with ⟨hexecute, -⟩ | ⟨hfollowing, inner, hinner, hdone⟩
      · rw [hstage] at hexecute
        cases hexecute
      · rcases ih hinner hdone (by omega) with ⟨hlength, hrest, hlast⟩
        refine ⟨hlength, fun i hi hlt => ?_, hlast⟩
        rcases Nat.eq_or_lt_of_le hi with rfl | hlt'
        · have hdone' := h.following k call hcall hfollowing
          exact ⟨call, hcall, hdone'.2.1, hdone'.2.2⟩
        · exact hrest i hlt' hlt

end Invariant

/-! ## Timely runs -/

/-- Once a dispatch has settled, so have those it started, or `execute` has been called. -/
def Sealed (run : HookRun V) : Prop :=
  ∀ (k : Nat) (call : DispatchCall V), run.calls[k]? = some call → call.promise.settled = true →
    0 < run.starts ∨ ∀ (j : Nat) (other : DispatchCall V), k ≤ j → run.calls[j]? = some other →
      other.promise.settled = true

section Timely

variable {chain : List JsString} {run : HookRun V} {k : Nat} {call : DispatchCall V}

/-- The promises of a call and of all others stay as settled as they were. -/
theorem Sealed.setCall (h : Sealed run) (hcall : run.calls[k]? = some call)
    {call' : DispatchCall V} (hkept : call.promise.settled = true → call'.promise.settled = true)
    (hnew : call.promise.settled = false → call'.promise.settled = true → 0 < run.starts ∨
      ∀ (j : Nat) (other : DispatchCall V), k < j → run.calls[j]? = some other →
        other.promise.settled = true) : Sealed (run.setCall k call') := by
  have hget := getElem?_setCall hcall call'
  intro i other hother hsettled
  rw [hget] at hother
  -- the others are as they were, and the changed call is settled when it has to be
  have hall : (∀ (j : Nat) (last : DispatchCall V), i ≤ j → j ≠ k → run.calls[j]? = some last →
      last.promise.settled = true) → (i ≤ k → call'.promise.settled = true) →
      ∀ (j : Nat) (last : DispatchCall V), i ≤ j → (run.setCall k call').calls[j]? = some last →
        last.promise.settled = true := by
    intro hrest hchanged j last hij hlast
    rw [hget] at hlast
    split_ifs at hlast with hj
    · cases hlast
      exact hchanged (hj ▸ hij)
    · exact hrest j last hij hj hlast
  split_ifs at hother with hik
  · subst hik
    cases hother
    cases hbefore : call.promise.settled with
    | true =>
        rcases h i call hcall hbefore with hstarts | hsealed
        · exact Or.inl hstarts
        · exact Or.inr (hall (fun j last hij _ hlast => hsealed j last hij hlast)
            fun _ => hsettled)
    | false =>
        rcases hnew hbefore hsettled with hstarts | hsealed
        · exact Or.inl hstarts
        · exact Or.inr (hall (fun j last hij hne hlast => hsealed j last (by omega) hlast)
            fun _ => hsettled)
  · rcases h i other hother hsettled with hstarts | hsealed
    · exact Or.inl hstarts
    · exact Or.inr (hall (fun j last hij _ hlast => hsealed j last hij hlast)
        fun hle => hkept (hsealed k call hle hcall))

theorem sealed_startRun (chain : List JsString) : Sealed (startRun chain : HookRun V) := by
  have hcursor : (⟨[], -1, none, [], 0⟩ : HookRun V).cursor < (0 : Nat) := by
    show (-1 : Int) < 0
    decide
  have hcalls : (startRun chain : HookRun V).calls = [freshCall V chain 0] :=
    (dispatch_fresh hcursor (Nat.zero_le chain.length)).1
  intro k call hcall hsettled
  rw [hcalls] at hcall
  cases k with
  | zero =>
      cases hcall
      cases hsettled
  | succ k => cases hcall

theorem Sealed.step (h : Sealed run) (hlinked : Linked chain run) {event : RunEvent V}
    (htimely : Timely run event) {run' : HookRun V} (hstep : step chain run event = some run') :
    Sealed run' := by
  rcases step_cases hstep with rfl | ⟨k, call, rfl, hcall, hstage, hcalled, rfl⟩ |
    ⟨k, call, hcall, outcome, hstage, hpending, -, rfl⟩ |
    ⟨k, call, hcall, outcome, hstage, hpending, -, rfl⟩ |
    ⟨k, call, rfl, hcall, hfollowing, hpending, hresume⟩ |
    ⟨k, call, j, inner, -, hcall, hnext, hinner, hfollowing, hpending, hsettled, rfl⟩
  · exact h
  · -- the last call goes on while it is pending, so no call has settled yet
    rcases hlinked.last hcall hstage hcalled with ⟨hlast, hk, hindex⟩
    have hcases := (hlinked.next_spec hcall hlast hk).2.2.2.2.2
    have hcallPending := htimely call hcall hcalled
    have hnone : ∀ (i : Nat) (other : DispatchCall V), run.calls[i]? = some other →
        other.promise.settled = false := by
      intro i other hother
      by_contra hsettled
      rcases h i other hother (by simpa using hsettled) with hstarts | hsealed
      · rw [hlinked.starts, if_neg (by omega)] at hstarts
        cases hstarts
      · have hlt := (List.getElem?_eq_some_iff.mp hother).1
        rw [hsealed k call (by omega) hcall] at hcallPending
        cases hcallPending
    rw [hindex]
    intro i other hother hsettled
    rcases hcases i other hother with ⟨-, rfl⟩ | ⟨-, hother⟩ | ⟨-, rfl⟩
    · rw [show (goneOn run call).promise = call.promise from rfl, hcallPending] at hsettled
      cases hsettled
    · rw [hnone i other hother] at hsettled
      cases hsettled
    · cases hsettled
  · exact h.setCall hcall id fun hbefore hafter => absurd hafter (by simp [hbefore])
  · exact h.setCall hcall id fun hbefore hafter => absurd hafter (by simp [hbefore])
  · rcases resume_cases hresume with ⟨call', result, rfl, hlink, hcases⟩
    have hlevel := hlinked.calls k call hcall
    -- below the last call there is nothing
    have hbottom : ¬k + 1 < run.calls.length → ∀ (j : Nat) (other : DispatchCall V), k < j →
        run.calls[j]? = some other → other.promise.settled = true := by
      intro hmore j other hkj hother
      exact absurd (List.getElem?_eq_some_iff.mp hother).1 (by omega)
    have hexecute : call.stage ≠ .handler → ¬k + 1 < run.calls.length := by
      intro hstage
      have hle := hlinked.length_le
      by_cases hk : k < chain.length
      · exact absurd (hlevel.2.1.trans (if_pos hk)) hstage
      · omega
    have hsealed : Sealed (run.setCall k call') := by
      refine h.setCall hcall (fun hbefore => ?_) fun _ hafter => ?_
      · rw [hpending] at hbefore
        cases hbefore
      · rcases hcases with ⟨-, -, -, rfl⟩ | ⟨err, rfl, hhandler⟩ | ⟨v, hstage, -, rfl⟩
        · rw [show ({ call with following := true } : DispatchCall V).promise = call.promise
            from rfl, hpending] at hafter
          cases hafter
        · by_cases hstage : call.stage = .handler
          · rcases hhandler hstage with ⟨err', herr⟩ | hcalled
            · by_cases hmore : k + 1 < run.calls.length
              · -- its error is passed on: the dispatch it started has settled
                have hinner := List.getElem?_eq_getElem hmore
                rcases htimely call err' _ hcall herr hinner with hsettled | hstarts
                · rcases h (k + 1) _ hinner hsettled with hstarts | hsealed
                  · exact Or.inl hstarts
                  · exact Or.inr fun j other hkj hother => hsealed j other hkj hother
                · exact Or.inl hstarts
              · exact Or.inr (hbottom hmore)
            · refine Or.inr (hbottom fun hmore => ?_)
              rw [hlevel.2.2.1.mpr hmore] at hcalled
              cases hcalled
          · exact Or.inr (hbottom (hexecute hstage))
        · exact Or.inr (hbottom (hexecute (by simp [hstage])))
    exact hsealed
  · have hj := (hlinked.calls k call hcall).2.2.2 j hnext
    subst hj
    refine h.setCall hcall (fun _ => hsettled) fun _ _ => ?_
    rcases h (k + 1) inner hinner hsettled with hstarts | hsealed
    · exact Or.inl hstarts
    · exact Or.inr fun j other hkj hother => hsealed j other hkj hother

theorem TimelyReached.isSealed {run : HookRun V} (h : TimelyReached chain run) : Sealed run := by
  induction h with
  | start => exact sealed_startRun chain
  | step hrun _ htimely hstep ih => exact ih.step hrun.reached.linked htimely hstep

/-- Only the last `next()` calls `execute`. -/
theorem Linked.starts_step (h : Linked chain run) {event : RunEvent V} {run' : HookRun V}
    (hstep : Hooks.step chain run event = some run') : run'.starts = run.starts ∨
      ∃ k call, event = .next k ∧ run.calls[k]? = some call ∧ call.called = false ∧
        run.starts = 0 := by
  rcases step_cases hstep with rfl | ⟨k, call, rfl, hcall, hstage, hcalled, rfl⟩ |
    ⟨k, call, hcall, outcome, -, -, -, rfl⟩ | ⟨k, call, hcall, outcome, -, -, -, rfl⟩ |
    ⟨k, call, -, hcall, -, -, hresume⟩ | ⟨k, call, j, inner, -, hcall, -, hinner, -, -, -, rfl⟩
  · exact Or.inl rfl
  · rcases h.last hcall hstage hcalled with ⟨hlast, hk, -⟩
    refine Or.inr ⟨k, call, rfl, hcall, hcalled, ?_⟩
    rw [h.starts, if_neg (by omega)]
  · exact Or.inl rfl
  · exact Or.inl rfl
  · rcases resume_cases hresume with ⟨call', result, rfl, -, -⟩
    exact Or.inl rfl
  · exact Or.inl rfl

end Timely

section Main

variable {chain : List JsString} {run : HookRun V}

/-- In every run: `execute` is called at most once, the handlers are entered in order, and the
promise is fulfilled only by the whole chain. -/
theorem Reached.once_in_order (h : Reached chain run) :
    run.starts ≤ 1 ∧ (∃ m, m ≤ chain.length ∧ run.entered = List.range m) ∧
      ∀ v, run.promise = .fulfilled v →
        (∀ i, i < chain.length → ∃ call, run.calls[i]? = some call ∧ call.called = true ∧
          call.handler = .fulfilled ()) ∧
        ∃ call, run.calls[chain.length]? = some call ∧ call.execution = .fulfilled v := by
  have hlinked := h.linked
  refine ⟨?_, ⟨_, min_le_right _ _, hlinked.entered⟩, ?_⟩
  · rw [hlinked.starts]
    split_ifs <;> omega
  · intro v hv
    rw [HookRun.promise] at hv
    split at hv
    · rename_i call hcall
      rcases hlinked.chain_fulfilled hcall hv with ⟨-, hall, hlast⟩
      exact ⟨fun i hi => hall i (Nat.zero_le i) hi, hlast⟩
    · cases hv

/-- A run whose handlers go on in time: `execute` is called at most once, and not after the run has
settled; the handlers are entered in order, each at most once; and the run fulfils only when all of
them called `next` and none threw, with what `execute` was fulfilled with. -/
theorem TimelyReached.run_spec (h : TimelyReached chain run) :
    run.starts ≤ 1 ∧
      (∀ event run', Timely run event → Hooks.step chain run event = some run' →
        run.promise.settled = true → run'.starts = run.starts) ∧
      (∃ m, m ≤ chain.length ∧ run.entered = List.range m) ∧
      ∀ v, run.promise = .fulfilled v →
        (∀ i, i < chain.length → ∃ call, run.calls[i]? = some call ∧ call.called = true ∧
          call.handler = .fulfilled ()) ∧
        ∃ call, run.calls[chain.length]? = some call ∧ call.execution = .fulfilled v := by
  rcases h.reached.once_in_order with ⟨honce, horder, hfulfilled⟩
  refine ⟨honce, ?_, horder, hfulfilled⟩
  intro event run' htimely hstep hsettled
  have hlinked := h.reached.linked
  rcases hlinked.starts_step hstep with hsame | ⟨k, call, rfl, hcall, hcalled, hnone⟩
  · exact hsame
  · -- the call that goes on is pending, but with the run every call has settled
    exfalso
    have hpending := htimely call hcall hcalled
    have hfirst := List.getElem?_eq_getElem hlinked.length_pos
    rw [HookRun.promise, hfirst] at hsettled
    rcases h.isSealed 0 _ hfirst hsettled with hstarts | hsealed
    · omega
    · rw [hsealed k call (Nat.zero_le k) hcall] at hpending
      cases hpending

end Main

end Runs

/-! ## Two runs -/

def auditChain : List JsString := [js "audit"]

def auditOwnerChain : List JsString := [js "audit", js "owner"]

theorem timely_run_spec_audit : ∃ run : HookRun Nat, TimelyReached auditChain run ∧
    run.promise = .fulfilled 5 ∧ run.starts ≤ 1 ∧
      (∀ event run', Timely run event → step auditChain run event = some run' →
        run.promise.settled = true → run'.starts = run.starts) ∧
      (∃ m, m ≤ auditChain.length ∧ run.entered = List.range m) ∧
      ∀ v, run.promise = .fulfilled v →
        (∀ i, i < auditChain.length → ∃ call, run.calls[i]? = some call ∧ call.called = true ∧
          call.handler = .fulfilled ()) ∧
        ∃ call, run.calls[auditChain.length]? = some call ∧ call.execution = .fulfilled v := by
  -- the hook awaits `next()`, and returns
  have h₁ : TimelyReached auditChain (V := Nat) _ := .step .start (.next 0) (by
    intro call hcall _
    cases hcall
    rfl) rfl
  have h₂ : TimelyReached auditChain (V := Nat) _ :=
    .step h₁ (.executeSettles 1 (.ok 5)) trivial rfl
  have h₃ : TimelyReached auditChain (V := Nat) _ := .step h₂ (.resume 1) (by
    intro call err inner hcall herr
    cases hcall
    cases herr) rfl
  have h₄ : TimelyReached auditChain (V := Nat) _ :=
    .step h₃ (.handlerSettles 0 (.ok ())) trivial rfl
  have h₅ : TimelyReached auditChain (V := Nat) _ := .step h₄ (.resume 0) (by
    intro call err inner hcall herr
    cases hcall
    cases herr) rfl
  have h₆ : TimelyReached auditChain (V := Nat) _ := .step h₅ (.follow 0) trivial rfl
  exact ⟨_, h₆, rfl, h₆.run_spec⟩

/-- A hook keeps its `next` and returns, and the run is rejected; the `next` called later executes
the operation.  So does the one of an inner hook after an outer one has thrown. -/
theorem executed_after_settled :
    (∃ run run' : HookRun Nat, Reached auditChain run ∧
      run.promise = .rejected (mustCallNext (js "audit")) ∧ run.starts = 0 ∧
      step auditChain run (.next 0) = some run' ∧ run'.starts = 1) ∧
    ∃ run run' : HookRun Nat, Reached auditOwnerChain run ∧
      run.promise = .rejected ⟨js "refused", some 500⟩ ∧ run.starts = 0 ∧
      step auditOwnerChain run (.next 1) = some run' ∧ run'.starts = 1 := by
  constructor
  · have h₁ : Reached auditChain (V := Nat) _ := .step .start (.handlerSettles 0 (.ok ())) rfl
    have h₂ : Reached auditChain (V := Nat) _ := .step h₁ (.resume 0) rfl
    exact ⟨_, _, h₂, rfl, rfl, rfl, rfl⟩
  · have h₁ : Reached auditOwnerChain (V := Nat) _ := .step .start (.next 0) rfl
    have h₂ : Reached auditOwnerChain (V := Nat) _ :=
      .step h₁ (.handlerSettles 0 (.error ⟨js "refused", none⟩)) rfl
    have h₃ : Reached auditOwnerChain (V := Nat) _ := .step h₂ (.resume 0) rfl
    exact ⟨_, _, h₃, rfl, rfl, rfl, rfl⟩

end Hooks
end ObjyDb
