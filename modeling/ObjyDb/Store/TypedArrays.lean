import ObjyDb.Store.Column
import ObjyDb.Store.StringTable
import ObjyDb.Lib.Totals
import Mathlib.Data.Rat.Defs

/-!
# TypedArrays — a typed column with its arrays

`TypedRidColumn` as it is stored: six arrays by row id, the string table, the overflow map, and the
counts that are kept along.  The column of `Store.Column` is what it stands for.
-/

namespace ObjyDb
namespace Arrays

open Js

/-- Doubles: the number that a JSON number denotes, and what an exact result is rounded to. -/
structure Doubles where
  val : JsNumber → ℚ
  round : ℚ → ℚ

/-- `array[rid]`, where a missing element counts as the zero. -/
def item {α : Type} (array : List α) (rid : Nat) (zero : α) : α :=
  array.getD rid zero

structure TypedRidColumn where
  numberValues : List JsNumber
  numberPresent : List Bool
  booleanValues : List Bool
  booleanPresent : List Bool
  stringCodes : List Nat
  nulls : List Bool
  table : StringTable
  overflow : List (Nat × Json)
  pending : List (Nat × ColumnState)
  status : ColumnStatus
  buildId : Nat
  numberSum : ℚ
  numberCount : Int
  scalarCount : Int
  nullCount : Int

namespace TypedRidColumn

def new : TypedRidColumn where
  numberValues := []
  numberPresent := []
  booleanValues := []
  booleanPresent := []
  stringCodes := []
  nulls := []
  table := .empty
  overflow := []
  pending := []
  status := .ready
  buildId := 0
  numberSum := 0
  numberCount := 0
  scalarCount := 0
  nullCount := 0

/-! ## `_clearRid` -/

def clearNumber (fl : Doubles) (c : TypedRidColumn) (rid : Nat) : TypedRidColumn :=
  if item c.numberPresent rid false then
    { c with
      numberPresent := c.numberPresent.set rid false
      numberSum := fl.round (c.numberSum - fl.val (item c.numberValues rid .zero))
      numberValues := c.numberValues.set rid .zero
      numberCount := c.numberCount - 1
      scalarCount := c.scalarCount - 1 }
  else c

def clearBoolean (c : TypedRidColumn) (rid : Nat) : TypedRidColumn :=
  if item c.booleanPresent rid false then
    { c with
      booleanPresent := c.booleanPresent.set rid false
      booleanValues := c.booleanValues.set rid false
      scalarCount := c.scalarCount - 1 }
  else c

def clearString (c : TypedRidColumn) (rid : Nat) : TypedRidColumn :=
  if item c.stringCodes rid 0 ≠ 0 then
    { c with
      table := c.table.releaseCode (item c.stringCodes rid 0)
      stringCodes := c.stringCodes.set rid 0
      scalarCount := c.scalarCount - 1 }
  else c

def clearNull (c : TypedRidColumn) (rid : Nat) : TypedRidColumn :=
  if item c.nulls rid false then
    { c with
      nulls := c.nulls.set rid false
      nullCount := c.nullCount - 1 }
  else c

def clearOverflow (c : TypedRidColumn) (rid : Nat) : TypedRidColumn :=
  { c with overflow := Assoc.erase c.overflow rid }

def clearRid (fl : Doubles) (c : TypedRidColumn) (rid : Nat) : TypedRidColumn :=
  ((((c.clearNumber fl rid).clearBoolean rid).clearString rid).clearNull rid).clearOverflow rid

/-! ## `_ensure`, `_resetIfEmpty`, `_setScalar` and `_applyState` -/

/-- `while (next <= rid) next *= 2` -/
def grownLength (rid next : Nat) : Nat :=
  if next ≤ rid ∧ 0 < next then grownLength rid (2 * next) else next
termination_by rid + 1 - next

def growTypedArray {α : Type} (current : List α) (zero : α) (length : Nat) : List α :=
  current ++ List.replicate (length - current.length) zero

def ensure (c : TypedRidColumn) (rid : Nat) : TypedRidColumn :=
  if rid < c.numberValues.length then c
  else
    let next := grownLength rid (if c.numberValues.length = 0 then 1024 else c.numberValues.length)
    { c with
      numberValues := growTypedArray c.numberValues .zero next
      numberPresent := growTypedArray c.numberPresent false next
      booleanValues := growTypedArray c.booleanValues false next
      booleanPresent := growTypedArray c.booleanPresent false next
      stringCodes := growTypedArray c.stringCodes 0 next
      nulls := growTypedArray c.nulls false next }

def resetIfEmpty (c : TypedRidColumn) : TypedRidColumn :=
  if c.scalarCount ≠ 0 ∨ c.nullCount ≠ 0 ∨ c.overflow.length ≠ 0 then c
  else
    { c with
      numberValues := []
      numberPresent := []
      booleanValues := []
      booleanPresent := []
      stringCodes := []
      nulls := []
      table := .empty
      numberSum := 0
      numberCount := 0
      scalarCount := 0
      nullCount := 0 }

def setScalar (fl : Doubles) (c : TypedRidColumn) (rid : Nat) (value : Json) : TypedRidColumn :=
  match value with
  | .num x =>
      { c with
        numberValues := c.numberValues.set rid x
        numberPresent := c.numberPresent.set rid true
        numberSum := fl.round (c.numberSum + fl.val x)
        numberCount := c.numberCount + 1
        scalarCount := c.scalarCount + 1 }
  | .bool b =>
      { c with
        booleanValues := c.booleanValues.set rid b
        booleanPresent := c.booleanPresent.set rid true
        scalarCount := c.scalarCount + 1 }
  | .str s =>
      { c with
        table := (c.table.stringCode s).1
        stringCodes := c.stringCodes.set rid (c.table.stringCode s).2
        scalarCount := c.scalarCount + 1 }
  | _ => c

/-- The branches of `_applyState` that store something. -/
def storeState (fl : Doubles) (c : TypedRidColumn) (rid : Nat) (state : ColumnState) :
    TypedRidColumn :=
  match state with
  | .absent => c
  | .null => { c with nulls := c.nulls.set rid true, nullCount := c.nullCount + 1 }
  | .scalar value => c.setScalar fl rid value
  | .nonScalar value => { c with overflow := Assoc.set c.overflow rid (clone value) }

def applyState (fl : Doubles) (c : TypedRidColumn) (rid : Nat) (state : ColumnState) :
    TypedRidColumn :=
  if state = .absent then (c.clearRid fl rid).resetIfEmpty
  else ((c.clearRid fl rid).ensure rid).storeState fl rid state

/-! ## The public methods -/

def startBuild (c : TypedRidColumn) : TypedRidColumn :=
  { c with status := .building, pending := [], buildId := c.buildId + 1 }

def updateScalarState (fl : Doubles) (c : TypedRidColumn) (rid : Nat) (state : ColumnState) :
    TypedRidColumn :=
  if c.status = .building then { c with pending := Assoc.set c.pending rid state }
  else c.applyState fl rid state

/-- The arrays, maps and counts of `source` in place of the own ones. -/
def takeOver (c source : TypedRidColumn) : TypedRidColumn :=
  { source with pending := c.pending, status := c.status, buildId := c.buildId }

def applyStates (fl : Doubles) (c : TypedRidColumn) (states : List (Nat × ColumnState)) :
    TypedRidColumn :=
  states.foldl (fun c entry => c.applyState fl entry.1 entry.2) c

/-- `install(source, buildId)`; `none` when the build is not the current one. -/
def install (fl : Doubles) (c source : TypedRidColumn) (buildId : Nat) : Option TypedRidColumn :=
  if buildId ≠ c.buildId then none
  else
    some { (c.takeOver source).applyStates fl c.pending with pending := [], status := .ready }

def fail (c : TypedRidColumn) (buildId : Nat) : TypedRidColumn :=
  if buildId ≠ c.buildId then c else { c with status := .error, pending := [] }

def valueFor (c : TypedRidColumn) (rid : Nat) : Option Json :=
  if item c.numberPresent rid false then some (.num (item c.numberValues rid .zero))
  else if item c.booleanPresent rid false then some (.bool (item c.booleanValues rid false))
  else if item c.stringCodes rid 0 ≠ 0 then
    (c.table.stringAt (item c.stringCodes rid 0)).map .str
  else if item c.nulls rid false then some .null
  else (Assoc.get? c.overflow rid).map clone

end TypedRidColumn

end Arrays
end ObjyDb
