import ObjyDb.Store.ColumnCounts

/-!
# ColumnUpdates — the public methods of a typed column

* `Sound` — a balanced column whose pending map holds states of values;
* `Sound.updateScalarState`, `Sound.install` and the others — every method keeps it;
* `install_spec` — the rows of an accepted installation;
* `Shows` — the column of `Store.Column` that the arrays stand for, method by method.
-/

namespace ObjyDb
namespace Arrays

open Js

namespace TypedRidColumn

/-- What every method keeps. -/
structure Sound (c : TypedRidColumn) : Prop where
  balanced : c.Balanced
  proper : c.Proper
  pending : ∀ rid state, Assoc.get? c.pending rid = some state →
    ∃ value, state = columnScalarState value
  nodup : (Assoc.keys c.pending).Nodup

variable {fl : Doubles} {c source : TypedRidColumn}

theorem sound_new : Sound new where
  balanced := balanced_new
  proper := proper_new
  pending := by
    intro rid state h
    cases h
  nodup := List.nodup_nil

/-- A column with the same arrays, maps and counts is as balanced. -/
theorem Sound.of_pending (h : Sound c) {pending : List (Nat × ColumnState)}
    (hpending : ∀ rid state, Assoc.get? pending rid = some state →
      ∃ value, state = columnScalarState value)
    (hnodup : (Assoc.keys pending).Nodup) (status : ColumnStatus) (buildId : Nat) :
    Sound { c with pending := pending, status := status, buildId := buildId } where
  balanced := ⟨⟨h.balanced.aligned.numberPresent, h.balanced.aligned.booleanValues,
      h.balanced.aligned.booleanPresent, h.balanced.aligned.stringCodes, h.balanced.aligned.nulls⟩,
    h.balanced.outside, h.balanced.exclusive, h.balanced.nodup, h.balanced.numberCount,
    h.balanced.scalarCount, h.balanced.nullCount, h.balanced.table⟩
  proper := h.proper
  pending := hpending
  nodup := hnodup

theorem no_pending : ∀ rid state, Assoc.get? ([] : List (Nat × ColumnState)) rid = some state →
    ∃ value, state = columnScalarState value := by
  intro rid state h
  cases h

theorem Sound.applyState (h : Sound c) (fl : Doubles) (rid : Nat) (value : Option Json) :
    Sound (c.applyState fl rid (columnScalarState value)) where
  balanced := balanced_applyState fl h.balanced rid _
  proper := proper_applyState fl h.proper rid value
  pending := by
    rw [(applyState_frame fl c rid _).2.2]
    exact h.pending
  nodup := by
    rw [(applyState_frame fl c rid _).2.2]
    exact h.nodup

theorem Sound.startBuild (h : Sound c) : Sound c.startBuild :=
  h.of_pending no_pending List.nodup_nil _ _

theorem Sound.fail (h : Sound c) (buildId : Nat) : Sound (c.fail buildId) := by
  unfold TypedRidColumn.fail
  split_ifs
  · exact h
  · exact h.of_pending no_pending List.nodup_nil _ _

theorem Sound.updateScalarState (h : Sound c) (fl : Doubles) (rid : Nat) (value : Option Json) :
    Sound (c.updateScalarState fl rid (columnScalarState value)) := by
  unfold TypedRidColumn.updateScalarState
  split_ifs
  · refine h.of_pending (fun r state hget => ?_) (Assoc.nodup_keys_set _ _ h.nodup) _ _
    rw [Assoc.get?_set] at hget
    split_ifs at hget
    · exact ⟨value, (Option.some.inj hget).symm⟩
    · exact h.pending r state hget
  · exact h.applyState fl rid value

/-! ## Installing -/

/-- Applying a map of states: the rows of the map show them. -/
theorem applyStates_spec (fl : Doubles) {states : List (Nat × ColumnState)} (h : Sound c)
    (hstates : ∀ rid state, Assoc.get? states rid = some state →
      ∃ value, state = columnScalarState value)
    (hnodup : (Assoc.keys states).Nodup) :
    Sound (c.applyStates fl states) ∧ ∀ r, (c.applyStates fl states).valueFor r =
      match Assoc.get? states r with
      | some state => state.value?
      | none => c.valueFor r := by
  induction states generalizing c with
  | nil => exact ⟨h, fun _ => rfl⟩
  | cons entry rest ih =>
      rcases entry with ⟨rid, state⟩
      rw [Assoc.keys, List.map_cons, List.nodup_cons] at hnodup
      have hnone : Assoc.get? rest rid = none := Assoc.get?_eq_none_iff.mpr hnodup.1
      rcases hstates rid state (by rw [Assoc.get?_cons, if_pos rfl]) with ⟨value, rfl⟩
      have hrest : ∀ r state, Assoc.get? rest r = some state →
          ∃ value, state = columnScalarState value := by
        intro r state hget
        refine hstates r state ?_
        rw [Assoc.get?_cons]
        split_ifs with hr
        · have hr' : rid = r := hr
          rw [hr', hget] at hnone
          cases hnone
        · exact hget
      rcases ih (h.applyState fl rid value) hrest hnodup.2 with ⟨hsound, hvalues⟩
      refine ⟨hsound, fun r => ?_⟩
      change ((c.applyState fl rid _).applyStates fl rest).valueFor r = _
      rw [hvalues, valueFor_applyState fl h.balanced, Assoc.get?_cons]
      by_cases hr : r = rid
      · rw [hr, hnone, if_pos rfl, if_pos rfl]
        exact (ObjyDb.TypedRidColumn.value?_columnScalarState value).symm
      · rw [if_neg hr, if_neg (fun h => hr h.symm)]

theorem applyStates_frame (fl : Doubles) (c : TypedRidColumn) (states : List (Nat × ColumnState)) :
    (c.applyStates fl states).buildId = c.buildId := by
  induction states generalizing c with
  | nil => rfl
  | cons entry rest ih => exact (ih _).trans (applyState_frame fl c entry.1 entry.2).2.1

/-- The arrays of the source, the pending map of the column. -/
theorem Sound.takeOver (h : Sound c) (hsource : Sound source) : Sound (c.takeOver source) :=
  hsource.of_pending h.pending h.nodup _ _

theorem valueFor_takeOver (c source : TypedRidColumn) (r : Nat) :
    (c.takeOver source).valueFor r = source.valueFor r := rfl

/-- What an accepted installation leaves. -/
theorem install_spec (h : Sound c) (hsource : Sound source) {buildId : Nat}
    {installed : TypedRidColumn} (hinstall : c.install fl source buildId = some installed) :
    buildId = c.buildId ∧ Sound installed ∧ installed.status = .ready ∧
      installed.buildId = c.buildId ∧ ∀ r, installed.valueFor r =
        match Assoc.get? c.pending r with
        | some state => state.value?
        | none => source.valueFor r := by
  unfold TypedRidColumn.install at hinstall
  split_ifs at hinstall with hid
  cases hinstall
  rcases applyStates_spec fl (h.takeOver hsource) h.pending h.nodup with ⟨hsound, hvalues⟩
  exact ⟨not_not.mp hid, hsound.of_pending no_pending List.nodup_nil _ _, rfl,
    applyStates_frame fl _ _, hvalues⟩

theorem install_eq_none {buildId : Nat} (h : buildId ≠ c.buildId) :
    c.install fl source buildId = none := if_pos h

/-! ## The sum -/

/-- No sum is rounded when the states are applied one after the other. -/
def statesExact (fl : Doubles) : TypedRidColumn → List (Nat × ColumnState) → Bool
  | _, [] => true
  | c, (rid, state) :: rest =>
      sumExact fl c rid state && statesExact fl (c.applyState fl rid state) rest

theorem summed_applyStates {states : List (Nat × ColumnState)} (h : c.Balanced)
    (hsum : c.Summed fl) (hexact : statesExact fl c states = true) :
    (c.applyStates fl states).Summed fl := by
  induction states generalizing c with
  | nil => exact hsum
  | cons entry rest ih =>
      rcases entry with ⟨rid, state⟩
      rw [statesExact, Bool.and_eq_true] at hexact
      exact ih (balanced_applyState fl h rid state) (summed_applyState h hsum hexact.1) hexact.2

/-! ## The column that the arrays stand for -/

/-- The arrays show the same as the map of values. -/
structure Shows (c : TypedRidColumn) (a : ObjyDb.TypedRidColumn) : Prop where
  status : c.status = a.status
  buildId : c.buildId = a.buildId
  pending : c.pending = a.pending
  values : ∀ rid, c.valueFor rid = a.valueFor rid

theorem shows_new (path : JsString) : Shows new (.new path) :=
  ⟨rfl, rfl, rfl, fun _ => rfl⟩

variable {a asource : ObjyDb.TypedRidColumn}

theorem Shows.startBuild (h : Shows c a) : Shows c.startBuild a.startBuild :=
  ⟨rfl, congrArg (· + 1) h.buildId, rfl, h.values⟩

theorem Shows.fail (h : Shows c a) (buildId : Nat) : Shows (c.fail buildId) (a.fail buildId) := by
  unfold TypedRidColumn.fail ObjyDb.TypedRidColumn.fail
  rw [h.buildId]
  split_ifs
  · exact h
  · exact ⟨rfl, rfl, rfl, h.values⟩

theorem Shows.updateScalarState (hs : Sound c) (h : Shows c a) (rid : Nat) (value : Option Json) :
    Shows (c.updateScalarState fl rid (columnScalarState value))
      (a.updateScalarState rid (columnScalarState value)) := by
  unfold TypedRidColumn.updateScalarState ObjyDb.TypedRidColumn.updateScalarState
  rw [h.status]
  split_ifs
  · exact ⟨rfl, h.buildId, congrArg (Assoc.set · rid (columnScalarState value)) h.pending,
      h.values⟩
  · have hframe := applyState_frame fl c rid (columnScalarState value)
    have hframe' := a.applyState_frame rid (columnScalarState value)
    refine ⟨hframe.1.trans (h.status.trans hframe'.1.symm),
      hframe.2.1.trans (h.buildId.trans hframe'.2.1.symm),
      hframe.2.2.trans (h.pending.trans hframe'.2.2.1.symm), fun r => ?_⟩
    rw [valueFor_applyState fl hs.balanced, ObjyDb.TypedRidColumn.valueFor_applyState,
      ObjyDb.TypedRidColumn.value?_columnScalarState, h.values]
    by_cases hr : r = rid
    · rw [if_pos hr, if_pos hr.symm]
    · rw [if_neg hr, if_neg (fun h => hr h.symm)]

/-- An installation is accepted by both or by neither. -/
theorem Shows.install (hs : Sound c) (hsource : Sound source) (h : Shows c a)
    (hshows : Shows source asource) (buildId : Nat) :
    (c.install fl source buildId = none ∧ a.install asource buildId = none) ∨
      ∃ installed ainstalled, c.install fl source buildId = some installed ∧
        a.install asource buildId = some ainstalled ∧ Shows installed ainstalled := by
  by_cases hid : buildId = a.buildId
  · have hid' : buildId = c.buildId := hid.trans h.buildId.symm
    have hinstall : ∃ installed, c.install fl source buildId = some installed :=
      ⟨_, if_neg (not_not.mpr hid')⟩
    have hainstall : ∃ ainstalled, a.install asource buildId = some ainstalled :=
      ⟨_, if_neg (not_not.mpr hid)⟩
    rcases hinstall with ⟨installed, hinstall⟩
    rcases hainstall with ⟨ainstalled, hainstall⟩
    rcases install_spec hs hsource hinstall with ⟨-, -, hready, hkept, hvalues⟩
    rcases ObjyDb.TypedRidColumn.install_spec (h.pending ▸ hs.nodup) hainstall with
      ⟨-, hready', hkept', hpending', -, hvalues'⟩
    have hpending : installed.pending = [] := by
      unfold TypedRidColumn.install at hinstall
      rw [if_neg (not_not.mpr hid')] at hinstall
      cases hinstall
      rfl
    refine Or.inr ⟨installed, ainstalled, hinstall, hainstall, hready.trans hready'.symm,
      hkept.trans (h.buildId.trans hkept'.symm), hpending.trans hpending'.symm, fun r => ?_⟩
    rw [hvalues, hvalues', h.pending]
    cases Assoc.get? a.pending r with
    | none => exact hshows.values r
    | some state => rfl
  · have hid' : buildId ≠ c.buildId := fun heq => hid (heq.trans h.buildId)
    exact Or.inl ⟨if_pos hid', if_pos hid⟩

end TypedRidColumn

end Arrays
end ObjyDb
