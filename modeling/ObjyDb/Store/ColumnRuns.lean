import ObjyDb.Store.ColumnUpdates
import ObjyDb.Js.Exact
import ObjyDb.Lib.Runs
import Mathlib.Data.Int.Log

/-!
# ColumnRuns — every sequence of calls on a typed column

States are given, builds are started, failed and replaced, and columns filled by scans are
installed, in any order.

* `columns_spec` — counts and strings agree with the rows in every state, the sum too while nothing
  is rounded, and an installed build shows the states given since it was started, then the scan.
-/

namespace ObjyDb
namespace Arrays

open Js

inductive ColumnEvent
  /-- `updateScalarState(rid, columnScalarState(value))`, which is `remove(rid)` without a value -/
  | update (rid : Nat) (value : Option Json)
  | startBuild
  /-- `new TypedRidColumn(path)` for a scan -/
  | openScan (k : Nat)
  /-- the scan reads a row -/
  | scan (k : Nat) (rid : Nat) (value : Option Json)
  | install (k : Nat) (buildId : Nat)
  | fail (buildId : Nat)
  deriving DecidableEq

/-- A column and the columns that scans are filling. -/
structure ColumnRun where
  column : TypedRidColumn
  scans : List (Nat × TypedRidColumn)

namespace ColumnRun

def start : ColumnRun := ⟨.new, []⟩

def step (fl : Doubles) (s : ColumnRun) : ColumnEvent → Option ColumnRun
  | .update rid value =>
      some { s with column := s.column.updateScalarState fl rid (columnScalarState value) }
  | .startBuild => some { s with column := s.column.startBuild }
  | .openScan k => some { s with scans := Assoc.set s.scans k .new }
  | .scan k rid value =>
      (Assoc.get? s.scans k).map fun source =>
        let read := source.updateScalarState fl rid (columnScalarState value)
        { s with scans := Assoc.set s.scans k read }
  | .install k buildId =>
      (Assoc.get? s.scans k).map fun source =>
        { column := (s.column.install fl source buildId).getD s.column
          scans := Assoc.erase s.scans k }
  | .fail buildId => some { s with column := s.column.fail buildId }

/-- No sum is rounded in the step. -/
def exact (fl : Doubles) (s : ColumnRun) : ColumnEvent → Bool
  | .update rid value =>
      decide (s.column.status = .building) ||
        s.column.sumExact fl rid (columnScalarState value)
  | .scan k rid value =>
      match Assoc.get? s.scans k with
      | some source => source.sumExact fl rid (columnScalarState value)
      | none => true
  | .install k buildId =>
      match Assoc.get? s.scans k with
      | some source =>
          decide (buildId ≠ s.column.buildId) ||
            (s.column.takeOver source).statesExact fl s.column.pending
      | none => true
  | _ => true

/-- The steps in which no sum is rounded. -/
def exactStep (fl : Doubles) (s : ColumnRun) (e : ColumnEvent) : Option ColumnRun :=
  if s.exact fl e then s.step fl e else none

/-! ## What was given and read -/

/-- How many builds were started. -/
def starts (es : List ColumnEvent) : Nat :=
  es.foldl (fun n e => if e = .startBuild then n + 1 else n) 0

/-- The last state given for a row. -/
def lastGiven (es : List ColumnEvent) (rid : Nat) : Option (Option Json) :=
  es.foldl (fun last e =>
    match e with
    | .update r value => if r = rid then some value else last
    | _ => last) none

/-- The last value that the scan read for a row since it was opened. -/
def lastRead (k : Nat) (es : List ColumnEvent) (rid : Nat) : Option Json :=
  es.foldl (fun last e =>
    match e with
    | .openScan k' => if k' = k then none else last
    | .scan k' r value => if k' = k ∧ r = rid then value else last
    | _ => last) none

theorem starts_append (es : List ColumnEvent) (e : ColumnEvent) :
    starts (es ++ [e]) = if e = .startBuild then starts es + 1 else starts es := by
  rw [starts, List.foldl_append]
  rfl

theorem lastGiven_append (es : List ColumnEvent) (e : ColumnEvent) (rid : Nat) :
    lastGiven (es ++ [e]) rid =
      match e with
      | .update r value => if r = rid then some value else lastGiven es rid
      | _ => lastGiven es rid := by
  rw [lastGiven, List.foldl_append]
  rfl

theorem lastRead_append (k : Nat) (es : List ColumnEvent) (e : ColumnEvent) (rid : Nat) :
    lastRead k (es ++ [e]) rid =
      match e with
      | .openScan k' => if k' = k then none else lastRead k es rid
      | .scan k' r value => if k' = k ∧ r = rid then value else lastRead k es rid
      | _ => lastRead k es rid := by
  rw [lastRead, List.foldl_append]
  rfl

theorem lastRead_openScan (k k' : Nat) (es : List ColumnEvent) (rid : Nat) :
    lastRead k (es ++ [.openScan k']) rid = if k' = k then none else lastRead k es rid :=
  lastRead_append ..

theorem lastRead_scan (k k' : Nat) (es : List ColumnEvent) (r rid : Nat) (value : Option Json) :
    lastRead k (es ++ [.scan k' r value]) rid =
      if k' = k ∧ r = rid then value else lastRead k es rid :=
  lastRead_append ..

/-! ## The invariant of every run -/

/-- A column that a scan fills shows what was read. -/
structure Filled (k : Nat) (es : List ColumnEvent) (source : TypedRidColumn) : Prop where
  sound : source.Sound
  status : source.status = .ready
  shown : ∀ rid, source.valueFor rid = lastRead k es rid

structure Inv (es : List ColumnEvent) (s : ColumnRun) : Prop where
  sound : s.column.Sound
  buildId : s.column.buildId = starts es
  scans : ∀ k source, Assoc.get? s.scans k = some source → Filled k es source

theorem inv_start : Inv [] start where
  sound := TypedRidColumn.sound_new
  buildId := rfl
  scans := by
    intro k source h
    cases h

variable {fl : Doubles} {s t : ColumnRun} {es : List ColumnEvent}

/-- Events that leave a scan alone keep what it has filled. -/
theorem Filled.append {k : Nat} {source : TypedRidColumn} (h : Filled k es source) {e : ColumnEvent}
    (he : ∀ rid, lastRead k (es ++ [e]) rid = lastRead k es rid) : Filled k (es ++ [e]) source :=
  ⟨h.sound, h.status, fun rid => (h.shown rid).trans (he rid).symm⟩

/-- A scan reads one more row. -/
theorem Filled.read {k : Nat} {source : TypedRidColumn} (h : Filled k es source) (rid : Nat)
    (value : Option Json) :
    Filled k (es ++ [.scan k rid value])
      (source.updateScalarState fl rid (columnScalarState value)) := by
  have hstatus : source.status ≠ .building := by
    rw [h.status]
    decide
  have happly : source.updateScalarState fl rid (columnScalarState value) =
      source.applyState fl rid (columnScalarState value) := if_neg hstatus
  refine ⟨h.sound.updateScalarState fl rid value, ?_, fun r => ?_⟩
  · rw [happly, (TypedRidColumn.applyState_frame fl source rid _).1]
    exact h.status
  · rw [happly, TypedRidColumn.valueFor_applyState fl h.sound.balanced, lastRead_scan, h.shown]
    by_cases hr : r = rid
    · rw [if_pos hr, if_pos ⟨rfl, hr.symm⟩]
    · rw [if_neg hr, if_neg (fun hand => hr hand.2.symm)]

theorem filled_new (k : Nat) (es : List ColumnEvent) :
    Filled k (es ++ [.openScan k]) TypedRidColumn.new := by
  refine ⟨TypedRidColumn.sound_new, rfl, fun rid => ?_⟩
  rw [lastRead_openScan, if_pos rfl]
  rfl

/-- What an event does to the `buildId`. -/
theorem buildId_step (hs : s.column.Sound)
    (hscans : ∀ k source, Assoc.get? s.scans k = some source → source.Sound) {e : ColumnEvent}
    (h : step fl s e = some t) :
    t.column.buildId = if e = .startBuild then s.column.buildId + 1 else s.column.buildId := by
  cases e with
  | update rid value =>
      cases h
      change (s.column.updateScalarState fl rid _).buildId = s.column.buildId
      unfold TypedRidColumn.updateScalarState
      split_ifs
      · rfl
      · exact (TypedRidColumn.applyState_frame fl _ _ _).2.1
  | startBuild =>
      cases h
      rfl
  | openScan k =>
      cases h
      rfl
  | scan k rid value =>
      rcases Option.map_eq_some_iff.mp h with ⟨source, -, rfl⟩
      rfl
  | install k buildId =>
      rcases Option.map_eq_some_iff.mp h with ⟨source, hsource, rfl⟩
      change ((s.column.install fl source buildId).getD s.column).buildId = s.column.buildId
      cases hinstall : s.column.install fl source buildId with
      | none => rfl
      | some installed =>
          exact (TypedRidColumn.install_spec hs (hscans k source hsource) hinstall).2.2.2.1
  | fail buildId =>
      cases h
      change (s.column.fail buildId).buildId = s.column.buildId
      unfold TypedRidColumn.fail
      split_ifs <;> rfl

theorem sound_step (hs : s.column.Sound)
    (hscans : ∀ k source, Assoc.get? s.scans k = some source → source.Sound) {e : ColumnEvent}
    (h : step fl s e = some t) : t.column.Sound := by
  cases e with
  | update rid value =>
      cases h
      exact hs.updateScalarState fl rid value
  | startBuild =>
      cases h
      exact hs.startBuild
  | openScan k =>
      cases h
      exact hs
  | scan k rid value =>
      rcases Option.map_eq_some_iff.mp h with ⟨source, -, rfl⟩
      exact hs
  | install k buildId =>
      rcases Option.map_eq_some_iff.mp h with ⟨source, hsource, rfl⟩
      change TypedRidColumn.Sound ((s.column.install fl source buildId).getD s.column)
      cases hinstall : s.column.install fl source buildId with
      | none => exact hs
      | some installed =>
          exact (TypedRidColumn.install_spec hs (hscans k source hsource) hinstall).2.1
  | fail buildId =>
      cases h
      exact hs.fail buildId

theorem Inv.step (h : Inv es s) {e : ColumnEvent} (hstep : step fl s e = some t) :
    Inv (es ++ [e]) t := by
  have hsources := fun k source hk => (h.scans k source hk).sound
  refine ⟨sound_step h.sound hsources hstep, ?_, ?_⟩
  · rw [buildId_step h.sound hsources hstep, starts_append, h.buildId]
  · intro k source hget
    cases e with
    | update rid value =>
        cases hstep
        exact (h.scans k source hget).append (fun r => lastRead_append ..)
    | startBuild =>
        cases hstep
        exact (h.scans k source hget).append (fun r => lastRead_append ..)
    | openScan k' =>
        cases hstep
        change Assoc.get? (Assoc.set s.scans k' .new) k = some source at hget
        rw [Assoc.get?_set] at hget
        split_ifs at hget with hk
        · cases hget
          rw [hk]
          exact filled_new k es
        · refine (h.scans k source hget).append (fun r => ?_)
          rw [lastRead_openScan, if_neg hk]
    | scan k' rid value =>
        rcases Option.map_eq_some_iff.mp hstep with ⟨source', hsource', rfl⟩
        change Assoc.get? (Assoc.set s.scans k' _) k = some source at hget
        rw [Assoc.get?_set] at hget
        split_ifs at hget with hk
        · cases hget
          rw [← hk]
          exact (h.scans k' source' hsource').read rid value
        · refine (h.scans k source hget).append (fun r => ?_)
          rw [lastRead_scan, if_neg (fun hand => hk hand.1)]
    | install k' buildId =>
        rcases Option.map_eq_some_iff.mp hstep with ⟨source', hsource', rfl⟩
        change Assoc.get? (Assoc.erase s.scans k') k = some source at hget
        rw [Assoc.get?_erase] at hget
        split_ifs at hget
        exact (h.scans k source hget).append (fun r => lastRead_append ..)
    | fail buildId =>
        cases hstep
        exact (h.scans k source hget).append (fun r => lastRead_append ..)

/-- The invariant holds in every state of every run. -/
theorem inv_run (h : Runs (step fl) start es s) : Inv es s :=
  Runs.history_nil (fun _ _ _ _ hinv hstep => hinv.step hstep) h inv_start

/-! ## Between the start of a build and its end -/

/-- No other build is started and none is installed under the `buildId`. -/
structure Quiet (buildId : Nat) (es : List ColumnEvent) : Prop where
  startBuild : .startBuild ∉ es
  install : ∀ k, .install k buildId ∉ es

theorem Quiet.init {buildId : Nat} {e : ColumnEvent} (h : Quiet buildId (es ++ [e])) :
    Quiet buildId es ∧ e ≠ .startBuild ∧ ∀ k, e ≠ .install k buildId := by
  refine ⟨⟨fun hmem => h.startBuild (List.mem_append_left _ hmem),
    fun k hmem => h.install k (List.mem_append_left _ hmem)⟩, ?_, ?_⟩
  · rintro rfl
    exact h.startBuild (List.mem_append_right _ List.mem_cons_self)
  · rintro k rfl
    exact h.install k (List.mem_append_right _ List.mem_cons_self)

theorem lastGiven_update (es : List ColumnEvent) (r rid : Nat) (value : Option Json) :
    lastGiven (es ++ [.update r value]) rid = if r = rid then some value else lastGiven es rid :=
  lastGiven_append ..

theorem lastGiven_append_list (es es' : List ColumnEvent) (rid : Nat) :
    lastGiven (es ++ es') rid = (lastGiven es' rid).or (lastGiven es rid) := by
  induction es' using List.reverseRecOn with
  | nil =>
      rw [List.append_nil]
      rfl
  | append_singleton es' e ih =>
      rw [← List.append_assoc, lastGiven_append, lastGiven_append]
      cases e with
      | update r value =>
          simp only
          split_ifs
          · rfl
          · exact ih
      | _ => exact ih

/-- An event that gives no state, starts nothing and ends another build leaves the column. -/
theorem column_of_other {e : ColumnEvent} (h : step fl s e = some t)
    (hupdate : ∀ rid value, e ≠ .update rid value) (hstart : e ≠ .startBuild)
    (hinstall : ∀ k, e ≠ .install k s.column.buildId) (hfail : e ≠ .fail s.column.buildId) :
    t.column = s.column := by
  cases e with
  | update rid value => exact absurd rfl (hupdate rid value)
  | startBuild => exact absurd rfl hstart
  | openScan k =>
      cases h
      rfl
  | scan k rid value =>
      rcases Option.map_eq_some_iff.mp h with ⟨source, -, rfl⟩
      rfl
  | install k buildId =>
      rcases Option.map_eq_some_iff.mp h with ⟨source, -, rfl⟩
      have hid : buildId ≠ s.column.buildId := fun hid => hinstall k (by rw [hid])
      change (s.column.install fl source buildId).getD s.column = s.column
      rw [TypedRidColumn.install_eq_none hid]
      rfl
  | fail buildId =>
      cases h
      have hid : buildId ≠ s.column.buildId := fun hid => hfail (by rw [hid])
      exact if_pos hid

/-- While a build is in progress the pending map holds the states given since its start. -/
theorem open_run {during : List ColumnEvent} (hbuilding : s.column.status = .building)
    (hpending : s.column.pending = []) (hrun : Runs (step fl) s during t)
    (hquiet : Quiet s.column.buildId during) (hfail : .fail s.column.buildId ∉ during) :
    t.column.status = .building ∧ t.column.buildId = s.column.buildId ∧
      ∀ rid, Assoc.get? t.column.pending rid = (lastGiven during rid).map columnScalarState := by
  refine Runs.history_nil (P := fun es u => Quiet s.column.buildId es → .fail s.column.buildId ∉ es →
    u.column.status = .building ∧ u.column.buildId = s.column.buildId ∧
      ∀ rid, Assoc.get? u.column.pending rid = (lastGiven es rid).map columnScalarState)
    ?_ hrun (fun _ _ => ⟨hbuilding, rfl, fun rid => by rw [hpending]; rfl⟩) hquiet hfail
  intro es u e v ih hstep hquiet hfail
  rcases hquiet.init with ⟨hquiet', hstart, hinstall⟩
  rcases ih hquiet' (fun hmem => hfail (List.mem_append_left _ hmem)) with ⟨hstatus, hid, hgiven⟩
  by_cases hupdate : ∃ rid value, e = .update rid value
  · rcases hupdate with ⟨rid, value, rfl⟩
    cases hstep
    have hupdated : u.column.updateScalarState fl rid (columnScalarState value) =
        { u.column with pending := Assoc.set u.column.pending rid (columnScalarState value) } :=
      if_pos hstatus
    simp only [hupdated]
    refine ⟨hstatus, hid, fun r => ?_⟩
    rw [Assoc.get?_set, lastGiven_update, hgiven]
    split_ifs <;> rfl
  · have hfail' : e ≠ .fail s.column.buildId := by
      rintro rfl
      exact hfail (List.mem_append_right _ List.mem_cons_self)
    rw [← hid] at hinstall hfail'
    rw [column_of_other hstep (fun rid value he => hupdate ⟨rid, value, he⟩) hstart hinstall hfail']
    refine ⟨hstatus, hid, fun r => ?_⟩
    rw [hgiven, lastGiven_append]
    cases e with
    | update rid value => exact absurd ⟨rid, value, rfl⟩ hupdate
    | _ => rfl

/-- While no build is in progress the rows show the states given, and else what they showed. -/
theorem quiet_run {before after : List ColumnEvent} (hinv : Inv before s)
    (hnot : s.column.status ≠ .building) (hrun : Runs (step fl) s after t)
    (hquiet : Quiet s.column.buildId after) :
    (t.column.status = s.column.status ∨ t.column.status = .error) ∧
      (.fail s.column.buildId ∉ after → t.column.status = s.column.status) ∧
      ∀ rid, t.column.valueFor rid = (lastGiven after rid).getD (s.column.valueFor rid) := by
  have hhistory := Runs.history_nil (P := fun es u => Inv (before ++ es) u ∧
    (Quiet s.column.buildId es → u.column.buildId = s.column.buildId ∧
      (u.column.status = s.column.status ∨ u.column.status = .error) ∧
      (.fail s.column.buildId ∉ es → u.column.status = s.column.status) ∧
      ∀ rid, u.column.valueFor rid = (lastGiven es rid).getD (s.column.valueFor rid)))
    ?_ hrun ⟨(List.append_nil before).symm ▸ hinv,
      fun _ => ⟨rfl, Or.inl rfl, fun _ => rfl, fun _ => rfl⟩⟩
  · exact (hhistory.2 hquiet).2
  intro es u e v ih hstep
  rcases ih with ⟨hinv, ih⟩
  refine ⟨List.append_assoc before es [e] ▸ hinv.step hstep, fun hquiet => ?_⟩
  rcases hquiet.init with ⟨hquiet', hstart, hinstall⟩
  rcases ih hquiet' with ⟨hid, hstatus, hready, hshown⟩
  have hidle : u.column.status ≠ .building := by
    rcases hstatus with hsame | herror
    · rw [hsame]
      exact hnot
    · rw [herror]
      decide
  -- an update is given to the column at once, and no other event that is left changes a value
  by_cases hupdate : ∃ rid value, e = .update rid value
  · rcases hupdate with ⟨rid, value, rfl⟩
    cases hstep
    have hupdated : u.column.updateScalarState fl rid (columnScalarState value) =
        u.column.applyState fl rid (columnScalarState value) := if_neg hidle
    have hframe := TypedRidColumn.applyState_frame fl u.column rid (columnScalarState value)
    simp only [hupdated, hframe.1, hframe.2.1]
    refine ⟨hid, hstatus, fun hfail => hready (fun hmem => hfail (List.mem_append_left _ hmem)),
      fun r => ?_⟩
    rw [TypedRidColumn.valueFor_applyState fl hinv.sound.balanced, lastGiven_update]
    by_cases hr : r = rid
    · rw [if_pos hr, if_pos hr.symm]
      rfl
    · rw [if_neg hr, if_neg (fun h => hr h.symm), hshown]
  · have hgiven : ∀ r, lastGiven (es ++ [e]) r = lastGiven es r := by
      intro r
      rw [lastGiven_append]
      cases e with
      | update rid value => exact absurd ⟨rid, value, rfl⟩ hupdate
      | _ => rfl
    simp only [hgiven]
    by_cases hfail : e = .fail u.column.buildId
    · subst hfail
      cases hstep
      have hfailed : u.column.fail u.column.buildId =
          { u.column with status := .error, pending := [] } := if_neg (not_not.mpr rfl)
      simp only [hfailed]
      refine ⟨hid, Or.inr trivial, fun hnone => ?_, hshown⟩
      exact absurd (List.mem_append_right es (by rw [hid]; exact List.mem_cons_self)) hnone
    · rw [← hid] at hinstall
      rw [column_of_other hstep (fun rid value he => hupdate ⟨rid, value, he⟩) hstart hinstall hfail]
      exact ⟨hid, hstatus, fun hnone => hready (fun hmem => hnone (List.mem_append_left _ hmem)),
        hshown⟩

/-! ## Runs without rounding -/

/-- The sums of the column and of the columns that scans are filling. -/
structure AllSummed (fl : Doubles) (s : ColumnRun) : Prop where
  column : s.column.Summed fl
  scans : ∀ k source, Assoc.get? s.scans k = some source → source.Summed fl

theorem exactStep_eq_some {e : ColumnEvent} (h : exactStep fl s e = some t) :
    s.exact fl e = true ∧ step fl s e = some t := by
  unfold exactStep at h
  split_ifs at h with hexact
  exact ⟨hexact, h⟩

theorem summed_updateScalarState {c : TypedRidColumn} (h : c.Sound) (hsum : c.Summed fl) {rid : Nat}
    {state : ColumnState}
    (hexact : c.status ≠ .building → c.sumExact fl rid state = true) :
    (c.updateScalarState fl rid state).Summed fl := by
  unfold TypedRidColumn.updateScalarState
  split_ifs with hstatus
  · exact hsum
  · exact TypedRidColumn.summed_applyState h.balanced hsum (hexact hstatus)

theorem AllSummed.step (hinv : Inv es s) (h : AllSummed fl s) {e : ColumnEvent}
    (hexact : s.exact fl e = true) (hstep : step fl s e = some t) : AllSummed fl t := by
  cases e with
  | update rid value =>
      cases hstep
      refine ⟨summed_updateScalarState hinv.sound h.column (fun hstatus => ?_), h.scans⟩
      simpa [exact, hstatus] using hexact
  | startBuild =>
      cases hstep
      exact ⟨h.column, h.scans⟩
  | openScan k =>
      cases hstep
      refine ⟨h.column, fun k' source hget => ?_⟩
      change Assoc.get? (Assoc.set s.scans k .new) k' = some source at hget
      rw [Assoc.get?_set] at hget
      split_ifs at hget
      · cases hget
        exact TypedRidColumn.summed_new fl
      · exact h.scans k' source hget
  | scan k rid value =>
      rcases Option.map_eq_some_iff.mp hstep with ⟨source, hsource, rfl⟩
      refine ⟨h.column, fun k' source' hget => ?_⟩
      change Assoc.get? (Assoc.set s.scans k _) k' = some source' at hget
      rw [Assoc.get?_set] at hget
      split_ifs at hget
      · cases hget
        refine summed_updateScalarState (hinv.scans k source hsource).sound
          (h.scans k source hsource) (fun _ => ?_)
        simpa [exact, hsource] using hexact
      · exact h.scans k' source' hget
  | install k buildId =>
      rcases Option.map_eq_some_iff.mp hstep with ⟨source, hsource, rfl⟩
      refine ⟨?_, fun k' source' hget => ?_⟩
      · change TypedRidColumn.Summed fl ((s.column.install fl source buildId).getD s.column)
        unfold TypedRidColumn.install
        split_ifs with hid
        · exact h.column
        · have hstates : (s.column.takeOver source).statesExact fl s.column.pending = true := by
            simpa [exact, hsource, hid] using hexact
          have htaken := hinv.sound.takeOver (hinv.scans k source hsource).sound
          exact TypedRidColumn.summed_applyStates htaken.balanced (h.scans k source hsource) hstates
      · change Assoc.get? (Assoc.erase s.scans k) k' = some source' at hget
        rw [Assoc.get?_erase] at hget
        split_ifs at hget
        exact h.scans k' source' hget
  | fail buildId =>
      cases hstep
      refine ⟨?_, h.scans⟩
      change TypedRidColumn.Summed fl (s.column.fail buildId)
      unfold TypedRidColumn.fail
      split_ifs
      · exact h.column
      · exact h.column

theorem summed_run (h : Runs (exactStep fl) start es s) : Inv es s ∧ AllSummed fl s := by
  refine Runs.history_nil (P := fun es s => Inv es s ∧ AllSummed fl s) ?_ h ?_
  · intro before s e t hs hstep
    rcases exactStep_eq_some hstep with ⟨hexact, hstep'⟩
    exact ⟨hs.1.step hstep', hs.2.step hs.1 hexact hstep'⟩
  · refine ⟨inv_start, ⟨TypedRidColumn.summed_new fl, ?_⟩⟩
    intro k source hget
    cases hget

/-! ## Doubles -/

/-- The nearest integer, the even one of two. -/
def roundEven (q : ℚ) : ℤ :=
  let below := ⌊q⌋
  if q - below < 1 / 2 then below
  else if 1 / 2 < q - below then below + 1
  else if below % 2 = 0 then below
  else below + 1

/-- The nearest number with 53 significant bits. -/
def roundDouble (q : ℚ) : ℚ :=
  if q = 0 then 0
  else
    let ulp := (2 : ℚ) ^ (Int.log 2 |q| - 52)
    roundEven (q / ulp) * ulp

def binary64 : Doubles := ⟨fun x => roundDouble x.toRat, roundDouble⟩

theorem toRat_ofNat (n : Nat) : (JsNumber.ofNat n).toRat = n := by
  rw [JsNumber.ofNat, JsNumber.toRat_ofDigits, digitsValue_decimalDigits]
  simp [JsNumber.sign]

theorem roundEven_intCast (z : ℤ) : roundEven z = z := by
  simp [roundEven]

theorem roundDouble_natCast {n e : Nat} (hlow : 2 ^ e ≤ n) (hhigh : n < 2 ^ (e + 1)) :
    roundDouble n = roundEven (n / (2 : ℚ) ^ ((e : ℤ) - 52)) * (2 : ℚ) ^ ((e : ℤ) - 52) := by
  have hpos : 0 < n := Nat.lt_of_lt_of_le (Nat.two_pow_pos e) hlow
  have hne : (n : ℚ) ≠ 0 := by exact_mod_cast hpos.ne'
  have hlog : Int.log 2 |(n : ℚ)| = e := by
    rw [Nat.abs_cast, Int.log_natCast, Nat.log_eq_of_pow_le_of_lt_pow hlow hhigh]
  rw [roundDouble, if_neg hne]
  simp only [hlog]

theorem roundDouble_one : roundDouble 1 = 1 := by
  have h := roundDouble_natCast (n := 1) (e := 0) (by decide) (by decide)
  have hscaled : ((1 : Nat) : ℚ) / (2 : ℚ) ^ (((0 : Nat) : ℤ) - 52) = ((2 ^ 52 : ℤ) : ℚ) := by
    norm_num
  rw [hscaled, roundEven_intCast] at h
  norm_num at h
  exact h

/-- Two to the 53rd, and what the next number is rounded to. -/
theorem roundDouble_big :
    roundDouble 9007199254740992 = 9007199254740992 ∧
      roundDouble 9007199254740993 = 9007199254740992 := by
  constructor
  · have h := roundDouble_natCast (n := 9007199254740992) (e := 53) (by norm_num) (by norm_num)
    have hscaled : ((9007199254740992 : Nat) : ℚ) / (2 : ℚ) ^ (((53 : Nat) : ℤ) - 52) =
        ((4503599627370496 : ℤ) : ℚ) := by norm_num
    rw [hscaled, roundEven_intCast] at h
    norm_num at h
    exact h
  · have h := roundDouble_natCast (n := 9007199254740993) (e := 53) (by norm_num) (by norm_num)
    have hscaled : ((9007199254740993 : Nat) : ℚ) / (2 : ℚ) ^ (((53 : Nat) : ℤ) - 52) =
        9007199254740993 / 2 := by norm_num
    have heven : roundEven (9007199254740993 / 2) = 4503599627370496 := by
      have hfloor : ⌊(9007199254740993 / 2 : ℚ)⌋ = 4503599627370496 := by
        rw [Int.floor_eq_iff]
        norm_num
      unfold roundEven
      simp only [hfloor]
      norm_num
    rw [hscaled, heven] at h
    norm_num at h
    exact h

/-! ## Every sequence of calls -/

/-- The build started after `before` is installed after `during` from the scan `k`. -/
structure Built (es before during after : List ColumnEvent) (k : Nat) : Prop where
  events : es = before ++ .startBuild :: (during ++ .install k (starts before + 1) :: after)
  opened : Quiet (starts before + 1) during
  kept : ColumnEvent.fail (starts before + 1) ∉ during
  settled : Quiet (starts before + 1) after

/-- An installed build shows the states given since its start, and else what the scan read. -/
theorem install_spec {before during : List ColumnEvent} {k : Nat} {u : ColumnRun}
    (hinv : Inv before s) (hrun : Runs (step fl) { s with column := s.column.startBuild } during t)
    (hquiet : Quiet (starts before + 1) during) (hkept : .fail (starts before + 1) ∉ during)
    (hinstall : step fl t (.install k (starts before + 1)) = some u) :
    Inv (before ++ .startBuild :: (during ++ [.install k (starts before + 1)])) u ∧
      u.column.status = .ready ∧ u.column.buildId = starts before + 1 ∧
      ∀ rid, u.column.valueFor rid =
        (lastGiven during rid).getD (lastRead k (before ++ .startBuild :: during) rid) := by
  have hstart : step fl s .startBuild = some { s with column := s.column.startBuild } := rfl
  have hstarted := hinv.step hstart
  have hid : s.column.startBuild.buildId = starts before + 1 := congrArg (· + 1) hinv.buildId
  have hinv' : Inv (before ++ .startBuild :: during) t :=
    List.append_cons before _ during ▸
      Runs.history (P := Inv) (fun _ _ _ _ hinv hstep => hinv.step hstep) hrun hstarted
  rcases open_run (s := { s with column := s.column.startBuild }) rfl rfl hrun
    (by rw [hid]; exact hquiet) (by rw [hid]; exact hkept) with ⟨-, hid', hpending⟩
  have hcurrent : t.column.buildId = starts before + 1 := hid'.trans hid
  have hinv'' := hinv'.step hinstall
  rw [List.append_assoc, List.cons_append] at hinv''
  rcases Option.map_eq_some_iff.mp hinstall with ⟨source, hsource, rfl⟩
  have hfilled := hinv'.scans k source hsource
  cases hinstalled : t.column.install fl source (starts before + 1) with
  | none =>
      -- no other build was started, so the installation is accepted
      unfold TypedRidColumn.install at hinstalled
      rw [if_neg (not_not.mpr hcurrent.symm)] at hinstalled
      cases hinstalled
  | some installed =>
      rw [hinstalled] at hinv''
      rcases TypedRidColumn.install_spec hinv'.sound hfilled.sound hinstalled with
        ⟨-, -, hready, hid'', hvalues⟩
      refine ⟨hinv'', hready, hid''.trans hcurrent, fun rid => ?_⟩
      change installed.valueFor rid = _
      rw [hvalues, hpending, hfilled.shown]
      cases lastGiven during rid with
      | none => rfl
      | some value => exact ObjyDb.TypedRidColumn.value?_columnScalarState value

theorem valueFor_of_built {before during after : List ColumnEvent} {k : Nat}
    (hrun : Runs (step fl) start es s) (h : Built es before during after k) :
    s.column.status ≠ .building ∧ (.fail (starts before + 1) ∉ after → s.column.status = .ready) ∧
      ∀ rid, s.column.valueFor rid =
        (lastGiven (during ++ after) rid).getD
          (lastRead k (before ++ .startBuild :: during) rid) := by
  rcases h with ⟨rfl, hopened, hkept, hsettled⟩
  rcases hrun.split with ⟨s₁, hbefore, hrest⟩
  cases hrest with
  | cons hstart hrest =>
      cases hstart
      rcases hrest.split with ⟨s₂, hduring, hrest⟩
      cases hrest with
      | @cons _ s₃ _ _ _ hinstall hafter =>
          rcases install_spec (inv_run hbefore) hduring hopened hkept hinstall with
            ⟨hinv, hready, hid, hvalues⟩
          have hidle : s₃.column.status ≠ .building := by
            rw [hready]
            decide
          rcases quiet_run hinv hidle hafter (hid.symm ▸ hsettled) with ⟨hstatus, hkeeps, hshown⟩
          rw [hready] at hstatus hkeeps
          rw [hid] at hkeeps
          refine ⟨?_, hkeeps, fun rid => ?_⟩
          · rcases hstatus with hsame | herror
            · rw [hsame]
              decide
            · rw [herror]
              decide
          · rw [hshown, hvalues, lastGiven_append_list]
            cases lastGiven after rid <;> rfl

/-- A build that failed leaves a column that is not ready until it is rebuilt. -/
theorem status_of_failed {before after : List ColumnEvent}
    (hrun : Runs (step fl) start (before ++ .fail (starts before) :: after) s)
    (hquiet : Quiet (starts before) after) : s.column.status = .error := by
  rcases hrun.split with ⟨s₁, hbefore, hrest⟩
  have hinv := inv_run hbefore
  cases hrest with
  | cons hfail hafter =>
      have hinv' := hinv.step hfail
      cases hfail
      have hfailed : s₁.column.fail (starts before) =
          { s₁.column with status := .error, pending := [] } :=
        if_neg (not_not.mpr hinv.buildId.symm)
      rw [hfailed] at hafter hinv'
      have hquiet' := quiet_run hinv' (by rintro ⟨⟩) hafter (by
        change Quiet s₁.column.buildId after
        rw [hinv.buildId]
        exact hquiet)
      rcases hquiet'.1 with hsame | herror
      · exact hsame
      · exact herror

/-- A column without a build shows the last states given. -/
theorem valueFor_of_unbuilt (hrun : Runs (step fl) start es s) (hquiet : Quiet 0 es) (rid : Nat) :
    s.column.valueFor rid = (lastGiven es rid).getD none :=
  (quiet_run inv_start (by decide) hrun hquiet).2.2 rid

/-- In every state that any sequence of calls reaches, the counts are numbers of rows and the string
table agrees with the rows; the sum is exact while no sum was rounded.  An installed build shows,
for each row, the last state given since the build was started, and else what its scan read last;
a column without builds shows the last states given; after its last build failed, a column is not
ready. -/
theorem columns_spec (fl : Doubles) {es : List ColumnEvent} {s : ColumnRun}
    (hrun : Runs (step fl) start es s) :
    (s.column.Counted ∧ s.column.Coded ∧
      (Runs (exactStep fl) start es s → s.column.numberSum =
        total (fun rid => numberOf fl (s.column.valueFor rid)) s.column.size)) ∧
    (∀ before during after k, Built es before during after k →
      s.column.status ≠ .building ∧
      (.fail (starts before + 1) ∉ after → s.column.status = .ready) ∧
      ∀ rid, s.column.valueFor rid =
        (lastGiven (during ++ after) rid).getD
          (lastRead k (before ++ .startBuild :: during) rid)) ∧
    (Quiet 0 es → ∀ rid, s.column.valueFor rid = (lastGiven es rid).getD none) ∧
    (∀ before after, es = before ++ .fail (starts before) :: after →
      Quiet (starts before) after → s.column.status = .error) := by
  have hsound := (inv_run hrun).sound
  refine ⟨⟨hsound.balanced.counted hsound.proper, hsound.balanced.coded hsound.proper,
    fun hexact => ?_⟩, fun before during after k => valueFor_of_built hrun,
    fun hquiet => valueFor_of_unbuilt hrun hquiet, ?_⟩
  · exact (summed_run hexact).2.column.rows hsound.balanced hsound.proper
  · rintro before after rfl hquiet
    exact status_of_failed hrun hquiet

theorem columns_spec_installed : ∃ s, Runs (step binary64) start
    [.startBuild, .openScan 0, .scan 0 0 (some (.num (.ofNat 2))), .scan 0 1 (some .null),
      .update 0 (some (.num (.ofNat 1))), .install 0 1] s ∧
      s.column.Counted ∧ s.column.Coded ∧ s.column.status = .ready ∧
      s.column.valueFor 0 = some (.num (.ofNat 1)) ∧ s.column.valueFor 1 = some .null := by
  have hrun : ∃ s, Runs (step binary64) start
      [.startBuild, .openScan 0, .scan 0 0 (some (.num (.ofNat 2))), .scan 0 1 (some .null),
        .update 0 (some (.num (.ofNat 1))), .install 0 1] s :=
    ⟨_, .cons rfl (.cons rfl (.cons rfl (.cons rfl (.cons rfl (.cons rfl (.nil _))))))⟩
  rcases hrun with ⟨s, hrun⟩
  rcases columns_spec binary64 hrun with ⟨⟨hcounted, hcoded, -⟩, hbuilt, -⟩
  rcases hbuilt []
    [.openScan 0, .scan 0 0 (some (.num (.ofNat 2))), .scan 0 1 (some .null),
      .update 0 (some (.num (.ofNat 1)))] [] 0
    ⟨rfl, ⟨by simp, by simp⟩, by simp, ⟨by simp, by simp⟩⟩ with ⟨-, hready, hvalue⟩
  exact ⟨s, hrun, hcounted, hcoded, hready (by simp), hvalue 0, hvalue 1⟩

/-! ## What the calls can lose -/

theorem numberSum_applyState (fl : Doubles) (c : TypedRidColumn) (rid : Nat) (x : JsNumber)
    (hrow : c.valueFor rid = none) :
    (c.applyState fl rid (.scalar (.num x))).numberSum = fl.round (c.numberSum + fl.val x) := by
  have hpresent : item c.numberPresent rid false = false := by
    cases h : item c.numberPresent rid false with
    | false => rfl
    | true =>
        rw [TypedRidColumn.valueFor, if_pos h] at hrow
        cases hrow
  have hclear : (c.clearRid fl rid).numberSum = c.numberSum := by
    rw [TypedRidColumn.numberSum_clearRid, hpresent]
    rfl
  have hensure : ((c.clearRid fl rid).ensure rid).numberSum = c.numberSum := by
    rw [← hclear]
    unfold TypedRidColumn.ensure
    split_ifs <;> rfl
  unfold TypedRidColumn.applyState
  rw [if_neg (by rintro ⟨⟩), ← hensure]
  rfl

/-- A ready column after one number. -/
theorem updated_new (fl : Doubles) (rid : Nat) (x : JsNumber) :
    TypedRidColumn.new.updateScalarState fl rid (columnScalarState (some (.num x))) =
        TypedRidColumn.new.applyState fl rid (.scalar (.num x)) ∧
      (TypedRidColumn.new.applyState fl rid (.scalar (.num x))).status = .ready ∧
      (TypedRidColumn.new.applyState fl rid (.scalar (.num x))).buildId = 0 ∧
      (TypedRidColumn.new.applyState fl rid (.scalar (.num x))).Balanced ∧
      ∀ r, (TypedRidColumn.new.applyState fl rid (.scalar (.num x))).valueFor r =
        if r = rid then some (.num x) else none := by
  have hframe := TypedRidColumn.applyState_frame fl TypedRidColumn.new rid (.scalar (.num x))
  refine ⟨if_neg (by rintro ⟨⟩), hframe.1, hframe.2.1,
    TypedRidColumn.balanced_applyState fl TypedRidColumn.balanced_new rid _, fun r => ?_⟩
  exact TypedRidColumn.valueFor_applyState fl TypedRidColumn.balanced_new rid (some (.num x)) r

theorem step_update (fl : Doubles) (s : ColumnRun) (rid : Nat) (value : Option Json)
    {c : TypedRidColumn}
    (h : s.column.updateScalarState fl rid (columnScalarState value) = c) :
    step fl s (.update rid value) = some { s with column := c } := by
  rw [← h]
  rfl

/-- A state given while a build fails is lost. -/
theorem failed_loses_state : ∃ s, Runs (step binary64) start
    [.update 0 (some (.num (.ofNat 1))), .startBuild, .update 0 (some (.num (.ofNat 2))), .fail 1] s ∧
      s.column.status ≠ .building ∧ s.column.valueFor 0 = some (.num (.ofNat 1)) := by
  rcases updated_new binary64 0 (.ofNat 1) with ⟨hupdated, -, hid, -, hvalue⟩
  generalize TypedRidColumn.new.applyState binary64 0 (.scalar (.num (.ofNat 1))) = c at *
  have hrun : ∃ s, Runs (step binary64) ⟨c, []⟩
      [.startBuild, .update 0 (some (.num (.ofNat 2))), .fail 1] s ∧
        s.column.status = .error ∧ s.column.valueFor 0 = c.valueFor 0 := by
    refine ⟨_, .cons rfl (.cons rfl (.cons rfl (.nil _))), ?_⟩
    have hcurrent : ¬(1 ≠ c.buildId + 1) := by
      rw [hid]
      decide
    change (if 1 ≠ c.buildId + 1 then _ else _ : TypedRidColumn).status = _ ∧
      (if 1 ≠ c.buildId + 1 then _ else _ : TypedRidColumn).valueFor 0 = _
    rw [if_neg hcurrent]
    exact ⟨rfl, rfl⟩
  rcases hrun with ⟨s, hrun, hstatus, hshown⟩
  refine ⟨s, .cons (step_update binary64 start 0 _ hupdated) hrun, ?_, hshown.trans (hvalue 0)⟩
  rw [hstatus]
  rintro ⟨⟩

/-- Two numbers whose sum is rounded. -/
theorem rounded_sum : ∃ s, Runs (step binary64) start
    [.update 0 (some (.num (.ofNat 9007199254740992))), .update 1 (some (.num (.ofNat 1)))] s ∧
      s.column.status ≠ .building ∧
      s.column.valueFor 0 = some (.num (.ofNat 9007199254740992)) ∧
      s.column.valueFor 1 = some (.num (.ofNat 1)) ∧ s.column.numberSum = 9007199254740992 := by
  rcases updated_new binary64 0 (.ofNat 9007199254740992) with
    ⟨hupdated, hready, -, hbalanced, hvalue⟩
  have hsum := numberSum_applyState binary64 TypedRidColumn.new 0 (.ofNat 9007199254740992) rfl
  have hbig : binary64.val (.ofNat 9007199254740992) = 9007199254740992 := by
    change roundDouble (JsNumber.toRat _) = _
    rw [toRat_ofNat]
    exact roundDouble_big.1
  have hone : binary64.val (.ofNat 1) = 1 := by
    change roundDouble (JsNumber.toRat _) = _
    rw [toRat_ofNat]
    exact roundDouble_one
  have hfirst : TypedRidColumn.new.numberSum + binary64.val (.ofNat 9007199254740992) =
      9007199254740992 := by
    rw [hbig]
    exact zero_add _
  rw [hfirst] at hsum
  have hsum' : (TypedRidColumn.new.applyState binary64 0
      (.scalar (.num (.ofNat 9007199254740992)))).numberSum = 9007199254740992 :=
    hsum.trans roundDouble_big.1
  generalize TypedRidColumn.new.applyState binary64 0
    (.scalar (.num (.ofNat 9007199254740992))) = c at *
  have hvalue' := TypedRidColumn.valueFor_applyState binary64 hbalanced 1 (some (.num (.ofNat 1)))
  have hupdated' : c.updateScalarState binary64 1 (columnScalarState (some (.num (.ofNat 1)))) =
      c.applyState binary64 1 (.scalar (.num (.ofNat 1))) := if_neg (by rw [hready]; rintro ⟨⟩)
  refine ⟨⟨c.applyState binary64 1 (.scalar (.num (.ofNat 1))), []⟩, ?_, ?_, ?_, ?_, ?_⟩
  · exact .cons (step_update binary64 start 0 _ hupdated)
      (.cons (step_update binary64 ⟨c, []⟩ 1 _ hupdated') (.nil _))
  · change (c.applyState binary64 1 (.scalar (.num (.ofNat 1)))).status ≠ .building
    rw [(TypedRidColumn.applyState_frame binary64 c 1 _).1, hready]
    rintro ⟨⟩
  · exact (hvalue' 0).trans (hvalue 0)
  · exact hvalue' 1
  · refine (numberSum_applyState binary64 c 1 (.ofNat 1) (hvalue 1)).trans ?_
    rw [hsum', hone]
    norm_num
    exact roundDouble_big.2

/-- A state given before the scan reads its row hides what is read. -/
theorem early_state_kept : ∃ s, Runs (step binary64) start
    [.startBuild, .openScan 0, .update 0 (some (.num (.ofNat 1))),
      .scan 0 0 (some (.num (.ofNat 2))), .install 0 1] s ∧
      s.column.status = .ready ∧ s.column.valueFor 0 = some (.num (.ofNat 1)) := by
  have hrun : ∃ s, Runs (step binary64) start
      [.startBuild, .openScan 0, .update 0 (some (.num (.ofNat 1))),
        .scan 0 0 (some (.num (.ofNat 2))), .install 0 1] s :=
    ⟨_, .cons rfl (.cons rfl (.cons rfl (.cons rfl (.cons rfl (.nil _)))))⟩
  rcases hrun with ⟨s, hrun⟩
  have hbuilt : Built
      [.startBuild, .openScan 0, .update 0 (some (.num (.ofNat 1))),
        .scan 0 0 (some (.num (.ofNat 2))), .install 0 1] []
      [.openScan 0, .update 0 (some (.num (.ofNat 1))), .scan 0 0 (some (.num (.ofNat 2)))] [] 0 :=
    ⟨rfl, ⟨by simp, by simp⟩, by simp, ⟨by simp, by simp⟩⟩
  rcases valueFor_of_built hrun hbuilt with ⟨-, hready, hvalue⟩
  exact ⟨s, hrun, hready (by simp), hvalue 0⟩

/-- A build that is installed after it failed has lost what was given meanwhile. -/
theorem installed_after_failure : ∃ s, Runs (step binary64) start
    [.startBuild, .openScan 0, .update 0 (some (.num (.ofNat 1))), .fail 1, .install 0 1] s ∧
      s.column.status = .ready ∧ s.column.valueFor 0 = none :=
  ⟨_, .cons rfl (.cons rfl (.cons rfl (.cons rfl (.cons rfl (.nil _))))), rfl, rfl⟩

/-- The last state given is lost when the build fails, and by an installation after that; it hides
what the scan reads later; and the sum is not that of the rows once it was rounded. -/
theorem columns_lose_states :
    (∃ s, Runs (step binary64) start
        [.update 0 (some (.num (.ofNat 1))), .startBuild, .update 0 (some (.num (.ofNat 2))), .fail 1]
        s ∧
      s.column.status ≠ .building ∧ s.column.valueFor 0 = some (.num (.ofNat 1))) ∧
    (∃ s, Runs (step binary64) start
        [.startBuild, .openScan 0, .update 0 (some (.num (.ofNat 1))), .fail 1, .install 0 1] s ∧
      s.column.status = .ready ∧ s.column.valueFor 0 = none) ∧
    (∃ s, Runs (step binary64) start
        [.startBuild, .openScan 0, .update 0 (some (.num (.ofNat 1))),
          .scan 0 0 (some (.num (.ofNat 2))), .install 0 1] s ∧
      s.column.status = .ready ∧ s.column.valueFor 0 = some (.num (.ofNat 1))) ∧
    ∃ s, Runs (step binary64) start
        [.update 0 (some (.num (.ofNat 9007199254740992))), .update 1 (some (.num (.ofNat 1)))] s ∧
      s.column.status ≠ .building ∧
      s.column.valueFor 0 = some (.num (.ofNat 9007199254740992)) ∧
      s.column.valueFor 1 = some (.num (.ofNat 1)) ∧ s.column.numberSum = 9007199254740992 :=
  ⟨failed_loses_state, installed_after_failure, early_state_kept, rounded_sum⟩

end ColumnRun

end Arrays
end ObjyDb
