import ObjyDb.Store.Path

/-!
# Column — typed columns of field values

A column keeps the values of one path by row id.  While it is being rebuilt, updates go to a
pending map and the installed values stay as they are, whatever they say; installing the built
values applies the pending ones and makes the column ready.
-/

namespace ObjyDb

open Js

/-- What `columnScalarState` says of a value. -/
inductive ColumnState
  | absent
  | null
  | scalar (value : Json)
  | nonScalar (value : Json)
  deriving DecidableEq

def isScalarColumnValue : Json → Bool
  | .num _ => true
  | .str _ => true
  | .bool _ => true
  | _ => false

def columnScalarState (value : Option Json) : ColumnState :=
  match value with
  | none => .absent
  | some value =>
      if isScalarColumnValue value then .scalar value
      else if value = .null then .null
      else .nonScalar value

/-- The value a state stands for. -/
def ColumnState.value? : ColumnState → Option Json
  | .absent => none
  | .null => some .null
  | .scalar value => some value
  | .nonScalar value => some (clone value)

inductive ColumnStatus
  | ready
  | building
  | error
  deriving DecidableEq

/-- One entry of `values` stands for the typed array, the null bits or the overflow map that holds
the value of a row. -/
structure TypedRidColumn where
  path : JsString
  values : List (Nat × Json)
  pending : List (Nat × ColumnState)
  status : ColumnStatus
  buildId : Nat

namespace TypedRidColumn

def new (path : JsString) : TypedRidColumn :=
  ⟨path, [], [], .ready, 0⟩

def ready (column : TypedRidColumn) : Bool :=
  decide (column.status = .ready)

/-- The column after `startBuild`, which returns the new `buildId`. -/
def startBuild (column : TypedRidColumn) : TypedRidColumn :=
  { column with status := .building, pending := [], buildId := column.buildId + 1 }

/-- `_applyState(rid, state)` -/
def applyState (column : TypedRidColumn) (rid : Nat) (state : ColumnState) : TypedRidColumn :=
  match state.value? with
  | none => { column with values := Assoc.erase column.values rid }
  | some value => { column with values := Assoc.set column.values rid value }

def updateScalarState (column : TypedRidColumn) (rid : Nat) (state : ColumnState) :
    TypedRidColumn :=
  if column.status = .building then
    { column with pending := Assoc.set column.pending rid state }
  else column.applyState rid state

def remove (column : TypedRidColumn) (rid : Nat) : TypedRidColumn :=
  column.updateScalarState rid .absent

/-- `install(source, buildId)`; `none` when the build is not the current one. -/
def install (column source : TypedRidColumn) (buildId : Nat) : Option TypedRidColumn :=
  if buildId ≠ column.buildId then none
  else
    let filled := column.pending.foldl (fun c entry => c.applyState entry.1 entry.2)
      { column with values := source.values }
    some { filled with pending := [], status := .ready }

def fail (column : TypedRidColumn) (buildId : Nat) : TypedRidColumn :=
  if buildId ≠ column.buildId then column
  else { column with status := .error, pending := [] }

/-- `valueFor(rid)`; `none` where `hasValue(rid)` is false. -/
def valueFor (column : TypedRidColumn) (rid : Nat) : Option Json :=
  Assoc.get? column.values rid

def hasValue (column : TypedRidColumn) (rid : Nat) : Bool :=
  (column.valueFor rid).isSome

/-! ## Reading back -/

theorem value?_columnScalarState (value : Option Json) :
    (columnScalarState value).value? = value := by
  cases value with
  | none => rfl
  | some v => cases v <;> rfl

@[simp] theorem valueFor_applyState (column : TypedRidColumn) (rid : Nat) (state : ColumnState)
    (r : Nat) :
    (column.applyState rid state).valueFor r =
      if rid = r then state.value? else column.valueFor r := by
  unfold applyState valueFor
  cases hstate : state.value? with
  | none => simp
  | some value => simp

@[simp] theorem applyState_frame (column : TypedRidColumn) (rid : Nat) (state : ColumnState) :
    (column.applyState rid state).status = column.status ∧
      (column.applyState rid state).buildId = column.buildId ∧
      (column.applyState rid state).pending = column.pending ∧
      (column.applyState rid state).path = column.path := by
  unfold applyState
  cases state.value? <;> exact ⟨rfl, rfl, rfl, rfl⟩

theorem updateScalarState_of_building {column : TypedRidColumn} (h : column.status = .building)
    (rid : Nat) (state : ColumnState) :
    column.updateScalarState rid state =
      { column with pending := Assoc.set column.pending rid state } :=
  if_pos h

theorem updateScalarState_of_not_building {column : TypedRidColumn}
    (h : column.status ≠ .building) (rid : Nat) (state : ColumnState) :
    column.updateScalarState rid state = column.applyState rid state :=
  if_neg h

@[simp] theorem updateScalarState_frame (column : TypedRidColumn) (rid : Nat)
    (state : ColumnState) :
    (column.updateScalarState rid state).status = column.status ∧
      (column.updateScalarState rid state).buildId = column.buildId ∧
      (column.updateScalarState rid state).path = column.path := by
  unfold updateScalarState
  split_ifs
  · exact ⟨rfl, rfl, rfl⟩
  · have h := column.applyState_frame rid state
    exact ⟨h.1, h.2.1, h.2.2.2⟩

/-- Applying a map of states: the last state given for a row counts. -/
theorem valueFor_foldl_applyState (states : List (Nat × ColumnState))
    (hnodup : (Assoc.keys states).Nodup) (column : TypedRidColumn) (r : Nat) :
    (states.foldl (fun c entry => c.applyState entry.1 entry.2) column).valueFor r =
      match Assoc.get? states r with
      | some state => state.value?
      | none => column.valueFor r := by
  induction states generalizing column with
  | nil => rfl
  | cons entry rest ih =>
      obtain ⟨rid, state⟩ := entry
      rw [Assoc.keys, List.map_cons, List.nodup_cons] at hnodup
      rw [List.foldl_cons, ih hnodup.2, Assoc.get?_cons]
      by_cases hr : rid = r
      · subst hr
        have hnone : Assoc.get? rest rid = none := Assoc.get?_eq_none_iff.mpr hnodup.1
        simp [hnone]
      · simp [hr]

theorem foldl_applyState_frame (states : List (Nat × ColumnState)) (column : TypedRidColumn) :
    (states.foldl (fun c entry => c.applyState entry.1 entry.2) column).buildId = column.buildId ∧
      (states.foldl (fun c entry => c.applyState entry.1 entry.2) column).path = column.path := by
  induction states generalizing column with
  | nil => exact ⟨rfl, rfl⟩
  | cons entry rest ih =>
      have h := column.applyState_frame entry.1 entry.2
      rw [List.foldl_cons]
      exact ⟨(ih _).1.trans h.2.1, (ih _).2.trans h.2.2.2⟩

/-- What an accepted installation leaves: a ready column whose rows show the pending states, and
the built values elsewhere. -/
theorem install_spec {column source installed : TypedRidColumn} {buildId : Nat}
    (hnodup : (Assoc.keys column.pending).Nodup)
    (h : column.install source buildId = some installed) :
    buildId = column.buildId ∧ installed.status = .ready ∧ installed.buildId = column.buildId ∧
      installed.pending = [] ∧ installed.path = column.path ∧ ∀ r, installed.valueFor r =
        match Assoc.get? column.pending r with
        | some state => state.value?
        | none => source.valueFor r := by
  unfold install at h
  split_ifs at h with hid
  obtain rfl := Option.some.inj h
  have hframe := foldl_applyState_frame column.pending { column with values := source.values }
  refine ⟨not_not.mp hid, rfl, hframe.1, rfl, hframe.2, ?_⟩
  intro r
  exact valueFor_foldl_applyState column.pending hnodup { column with values := source.values } r

end TypedRidColumn

end ObjyDb
