import ObjyDb.Store.TypedArrays

/-!
# ColumnCells — what the arrays of a typed column say of a row

* `cell` — everything the arrays say of one row, and `valueFor_eq`, which reads it;
* `Changes` — one cell becomes another, and the counts follow;
* `changes_clearRid`, `changes_storeState` — the steps of `_applyState` as such changes.
-/

namespace ObjyDb
namespace Arrays

open Js

/-! ## Cells -/

structure Cell where
  number : Option JsNumber
  boolean : Option Bool
  code : Nat
  null : Bool
  overflow : Option Json
  deriving DecidableEq

namespace Cell

def empty : Cell := ⟨none, none, 0, false, none⟩

def numberShare (cell : Cell) : Int := if cell.number.isSome then 1 else 0

def booleanShare (cell : Cell) : Int := if cell.boolean.isSome then 1 else 0

def stringShare (cell : Cell) : Int := if cell.code ≠ 0 then 1 else 0

def nullShare (cell : Cell) : Int := if cell.null then 1 else 0

def overflowShare (cell : Cell) : Int := if cell.overflow.isSome then 1 else 0

def scalarShare (cell : Cell) : Int :=
  cell.numberShare + cell.booleanShare + cell.stringShare

/-- What the row adds to the rows that use a code. -/
def codeShare (cell : Cell) (k : Nat) : Nat := if k ≠ 0 ∧ cell.code = k then 1 else 0

/-- What the row adds to the sum. -/
def sumShare (fl : Doubles) (cell : Cell) : ℚ :=
  match cell.number with
  | some x => fl.val x
  | none => 0

/-- The row is in at most one place. -/
def Exclusive (cell : Cell) : Prop :=
  cell.scalarShare + cell.nullShare + cell.overflowShare ≤ 1

/-- The value that is read of the row. -/
def value (table : StringTable) (cell : Cell) : Option Json :=
  match cell.number with
  | some x => some (.num x)
  | none =>
      match cell.boolean with
      | some b => some (.bool b)
      | none =>
          if cell.code ≠ 0 then (table.stringAt cell.code).map .str
          else if cell.null then some .null
          else cell.overflow.map clone

@[simp] theorem numberShare_empty : empty.numberShare = 0 := rfl

@[simp] theorem scalarShare_empty : empty.scalarShare = 0 := rfl

@[simp] theorem nullShare_empty : empty.nullShare = 0 := rfl

@[simp] theorem overflowShare_empty : empty.overflowShare = 0 := rfl

@[simp] theorem codeShare_empty (k : Nat) : empty.codeShare k = 0 := by
  unfold codeShare empty
  split_ifs with h
  · exact absurd h.2.symm h.1
  · rfl

theorem exclusive_empty : empty.Exclusive := by
  simp [Exclusive]

theorem shares_nonneg (cell : Cell) :
    0 ≤ cell.numberShare ∧ 0 ≤ cell.booleanShare ∧ 0 ≤ cell.stringShare ∧ 0 ≤ cell.nullShare ∧
      0 ≤ cell.overflowShare := by
  unfold numberShare booleanShare stringShare nullShare overflowShare
  refine ⟨?_, ?_, ?_, ?_, ?_⟩ <;> split_ifs <;> decide

/-- What a cell reads as depends on the string of its own code only. -/
theorem value_congr {cell : Cell} {t t' : StringTable}
    (h : cell.code ≠ 0 → t.stringAt cell.code = t'.stringAt cell.code) :
    cell.value t = cell.value t' := by
  unfold value
  cases cell.number with
  | some x => rfl
  | none =>
      cases cell.boolean with
      | some b => rfl
      | none =>
          by_cases hcode : cell.code ≠ 0
          · simp only [if_pos hcode, h hcode]
          · simp only [if_neg hcode]

end Cell

namespace TypedRidColumn

def size (c : TypedRidColumn) : Nat := c.numberValues.length

def cell (c : TypedRidColumn) (rid : Nat) : Cell where
  number := if item c.numberPresent rid false then some (item c.numberValues rid .zero) else none
  boolean := if item c.booleanPresent rid false then some (item c.booleanValues rid false) else none
  code := item c.stringCodes rid 0
  null := item c.nulls rid false
  overflow := Assoc.get? c.overflow rid

/-- Reading a row is reading its cell. -/
theorem valueFor_eq (c : TypedRidColumn) (rid : Nat) :
    c.valueFor rid = (c.cell rid).value c.table := by
  unfold valueFor Cell.value cell
  by_cases hnumber : item c.numberPresent rid false = true
  · simp only [hnumber, if_true]
  · by_cases hboolean : item c.booleanPresent rid false = true
    · simp [hnumber, hboolean]
    · simp [hnumber, hboolean]

/-- The arrays have one length. -/
structure Aligned (c : TypedRidColumn) : Prop where
  numberPresent : c.numberPresent.length = c.size
  booleanValues : c.booleanValues.length = c.size
  booleanPresent : c.booleanPresent.length = c.size
  stringCodes : c.stringCodes.length = c.size
  nulls : c.nulls.length = c.size

/-- The rows that use a code. -/
def uses (c : TypedRidColumn) (k : Nat) : Nat :=
  total (fun rid => (c.cell rid).codeShare k) c.size

/-! ## Changing one cell -/

theorem item_set {α : Type} (array : List α) (i : Nat) (value d : α) (j : Nat) :
    item (array.set i value) j d = if j = i ∧ i < array.length then value else item array j d := by
  unfold item
  by_cases hj : j = i
  · rw [hj]
    by_cases hi : i < array.length
    · rw [if_pos ⟨rfl, hi⟩, StringTable.getD_set_self array hi]
    · rw [if_neg (fun h => hi h.2), List.set_eq_of_length_le (by omega)]
  · rw [if_neg (fun h => hj h.1), StringTable.getD_set_ne array (fun h => hj h.symm)]

/-- Clearing a place needs no bound. -/
theorem item_set_zero {α : Type} (array : List α) (i : Nat) (d : α) (j : Nat) :
    item (array.set i d) j d = if j = i then d else item array j d := by
  rw [item_set]
  by_cases hj : j = i
  · rw [if_pos hj]
    by_cases hi : i < array.length
    · rw [if_pos ⟨hj, hi⟩]
    · rw [if_neg (fun h => hi h.2), item, List.getD_eq_getElem?_getD,
        List.getElem?_eq_none (by omega)]
      rfl
  · rw [if_neg (fun h => hj h.1), if_neg hj]

theorem item_growTypedArray {α : Type} (array : List α) (zero : α) (length j : Nat) :
    item (growTypedArray array zero length) j zero = item array j zero := by
  unfold item growTypedArray
  rw [List.getD_eq_getElem?_getD, List.getD_eq_getElem?_getD]
  by_cases hj : j < array.length
  · rw [List.getElem?_append_left hj]
  · rw [List.getElem?_append_right (by omega), List.getElem?_eq_none (l := array) (by omega),
      List.getElem?_replicate]
    split_ifs <;> rfl

/-- The cell of `rid` becomes `new`, and the counts follow. -/
structure Changes (c c' : TypedRidColumn) (rid : Nat) (new : Cell) : Prop where
  size : c'.size = c.size
  aligned : c.Aligned → c'.Aligned
  nodup : (Assoc.keys c.overflow).Nodup → (Assoc.keys c'.overflow).Nodup
  cell : ∀ r, c'.cell r = if r = rid then new else c.cell r
  numberCount : c'.numberCount = c.numberCount - (c.cell rid).numberShare + new.numberShare
  scalarCount : c'.scalarCount = c.scalarCount - (c.cell rid).scalarShare + new.scalarShare
  nullCount : c'.nullCount = c.nullCount - (c.cell rid).nullShare + new.nullShare
  pending : c'.pending = c.pending
  status : c'.status = c.status
  buildId : c'.buildId = c.buildId

namespace Changes

variable {c c' c'' : TypedRidColumn} {rid : Nat} {new new' : Cell}

theorem cell_self (h : Changes c c' rid new) : c'.cell rid = new := by
  rw [h.cell, if_pos rfl]

theorem cell_ne (h : Changes c c' rid new) {r : Nat} (hr : r ≠ rid) : c'.cell r = c.cell r := by
  rw [h.cell, if_neg hr]

theorem trans (h : Changes c c' rid new) (h' : Changes c' c'' rid new') :
    Changes c c'' rid new' where
  size := h'.size.trans h.size
  aligned := fun ha => h'.aligned (h.aligned ha)
  nodup := fun hn => h'.nodup (h.nodup hn)
  cell := by
    intro r
    by_cases hr : r = rid
    · rw [h'.cell, if_pos hr, if_pos hr]
    · rw [h'.cell, if_neg hr, h.cell, if_neg hr, if_neg hr]
  numberCount := by
    rw [h'.numberCount, h.numberCount, h.cell_self]
    omega
  scalarCount := by
    rw [h'.scalarCount, h.scalarCount, h.cell_self]
    omega
  nullCount := by
    rw [h'.nullCount, h.nullCount, h.cell_self]
    omega
  pending := h'.pending.trans h.pending
  status := h'.status.trans h.status
  buildId := h'.buildId.trans h.buildId

/-- The same column, its cell spelled out. -/
theorem refl (hcell : c.cell rid = new) : Changes c c rid new where
  size := rfl
  aligned := id
  nodup := id
  cell := by
    intro r
    by_cases hr : r = rid
    · rw [if_pos hr, hr, hcell]
    · rw [if_neg hr]
  numberCount := by
    rw [hcell]
    omega
  scalarCount := by
    rw [hcell]
    omega
  nullCount := by
    rw [hcell]
    omega
  pending := rfl
  status := rfl
  buildId := rfl

end Changes

/-! ## Clearing a row -/

theorem changes_clearNumber (fl : Doubles) (c : TypedRidColumn) (rid : Nat) :
    Changes c (c.clearNumber fl rid) rid { c.cell rid with number := none } := by
  unfold clearNumber
  by_cases hpresent : item c.numberPresent rid false = true
  · have hshare : (c.cell rid).numberShare = 1 := by simp [Cell.numberShare, cell, hpresent]
    rw [if_pos hpresent]
    refine ⟨by simp [size], fun h => ⟨?_, ?_, ?_, ?_, ?_⟩, id, ?_, ?_, ?_, ?_, rfl, rfl, rfl⟩
    · simpa [size] using h.numberPresent
    · simpa [size] using h.booleanValues
    · simpa [size] using h.booleanPresent
    · simpa [size] using h.stringCodes
    · simpa [size] using h.nulls
    · intro r
      by_cases hr : r = rid
      · simp [cell, item_set_zero, hr]
      · simp [cell, item_set_zero, hr]
    · change c.numberCount - 1 = c.numberCount - (c.cell rid).numberShare + 0
      omega
    · change c.scalarCount - 1 = c.scalarCount -
        ((c.cell rid).numberShare + (c.cell rid).booleanShare + (c.cell rid).stringShare) +
        (0 + (c.cell rid).booleanShare + (c.cell rid).stringShare)
      omega
    · change c.nullCount = c.nullCount - (c.cell rid).nullShare + (c.cell rid).nullShare
      omega
  · rw [if_neg hpresent]
    refine Changes.refl ?_
    simp [cell, hpresent]

theorem changes_clearBoolean (c : TypedRidColumn) (rid : Nat) :
    Changes c (c.clearBoolean rid) rid { c.cell rid with boolean := none } := by
  unfold clearBoolean
  by_cases hpresent : item c.booleanPresent rid false = true
  · have hshare : (c.cell rid).booleanShare = 1 := by simp [Cell.booleanShare, cell, hpresent]
    rw [if_pos hpresent]
    refine ⟨rfl, fun h => ⟨h.numberPresent, ?_, ?_, h.stringCodes, h.nulls⟩, id, ?_, ?_, ?_, ?_,
      rfl, rfl, rfl⟩
    · simpa [size] using h.booleanValues
    · simpa [size] using h.booleanPresent
    · intro r
      by_cases hr : r = rid
      · simp [cell, item_set_zero, hr]
      · simp [cell, item_set_zero, hr]
    · change c.numberCount = c.numberCount - (c.cell rid).numberShare + (c.cell rid).numberShare
      omega
    · change c.scalarCount - 1 = c.scalarCount -
        ((c.cell rid).numberShare + (c.cell rid).booleanShare + (c.cell rid).stringShare) +
        ((c.cell rid).numberShare + 0 + (c.cell rid).stringShare)
      omega
    · change c.nullCount = c.nullCount - (c.cell rid).nullShare + (c.cell rid).nullShare
      omega
  · rw [if_neg hpresent]
    refine Changes.refl ?_
    simp [cell, hpresent]

theorem changes_clearString (c : TypedRidColumn) (rid : Nat) :
    Changes c (c.clearString rid) rid { c.cell rid with code := 0 } := by
  unfold clearString
  by_cases hcode : item c.stringCodes rid 0 ≠ 0
  · have hshare : (c.cell rid).stringShare = 1 := by simp [Cell.stringShare, cell, hcode]
    rw [if_pos hcode]
    refine ⟨rfl, fun h => ⟨h.numberPresent, h.booleanValues, h.booleanPresent, ?_, h.nulls⟩, id,
      ?_, ?_, ?_, ?_, rfl, rfl, rfl⟩
    · simpa [size] using h.stringCodes
    · intro r
      by_cases hr : r = rid
      · simp [cell, item_set_zero, hr]
      · simp [cell, item_set_zero, hr]
    · change c.numberCount = c.numberCount - (c.cell rid).numberShare + (c.cell rid).numberShare
      omega
    · change c.scalarCount - 1 = c.scalarCount -
        ((c.cell rid).numberShare + (c.cell rid).booleanShare + (c.cell rid).stringShare) +
        ((c.cell rid).numberShare + (c.cell rid).booleanShare + 0)
      omega
    · change c.nullCount = c.nullCount - (c.cell rid).nullShare + (c.cell rid).nullShare
      omega
  · rw [if_neg hcode]
    refine Changes.refl ?_
    have hzero : item c.stringCodes rid 0 = 0 := not_not.mp hcode
    simp [cell, hzero]

theorem changes_clearNull (c : TypedRidColumn) (rid : Nat) :
    Changes c (c.clearNull rid) rid { c.cell rid with null := false } := by
  unfold clearNull
  by_cases hnull : item c.nulls rid false = true
  · have hshare : (c.cell rid).nullShare = 1 := by simp [Cell.nullShare, cell, hnull]
    rw [if_pos hnull]
    refine ⟨rfl, fun h => ⟨h.numberPresent, h.booleanValues, h.booleanPresent, h.stringCodes, ?_⟩,
      id, ?_, ?_, ?_, ?_, rfl, rfl, rfl⟩
    · simpa [size] using h.nulls
    · intro r
      by_cases hr : r = rid
      · simp [cell, item_set_zero, hr]
      · simp [cell, item_set_zero, hr]
    · change c.numberCount = c.numberCount - (c.cell rid).numberShare + (c.cell rid).numberShare
      omega
    · change c.scalarCount = c.scalarCount - (c.cell rid).scalarShare + (c.cell rid).scalarShare
      omega
    · change c.nullCount - 1 = c.nullCount - (c.cell rid).nullShare + 0
      omega
  · rw [if_neg hnull]
    refine Changes.refl ?_
    simp [cell, hnull]

theorem changes_clearOverflow (c : TypedRidColumn) (rid : Nat) :
    Changes c (c.clearOverflow rid) rid { c.cell rid with overflow := none } := by
  refine ⟨rfl, fun h => ⟨h.numberPresent, h.booleanValues, h.booleanPresent, h.stringCodes, h.nulls⟩,
    fun h => ?_, ?_, ?_, ?_, ?_, rfl, rfl, rfl⟩
  · rw [clearOverflow, Assoc.keys_erase]
    exact h.filter _
  · intro r
    by_cases hr : r = rid
    · simp [cell, clearOverflow, hr]
    · have hget : Assoc.get? (Assoc.erase c.overflow rid) r = Assoc.get? c.overflow r := by
        rw [Assoc.get?_erase, if_neg (fun h => hr h.symm)]
      rw [if_neg hr, cell, cell, ← hget]
      rfl
  · change c.numberCount = c.numberCount - (c.cell rid).numberShare + (c.cell rid).numberShare
    omega
  · change c.scalarCount = c.scalarCount - (c.cell rid).scalarShare + (c.cell rid).scalarShare
    omega
  · change c.nullCount = c.nullCount - (c.cell rid).nullShare + (c.cell rid).nullShare
    omega

/-- `_clearRid` empties the cell of its row. -/
theorem changes_clearRid (fl : Doubles) (c : TypedRidColumn) (rid : Nat) :
    Changes c (c.clearRid fl rid) rid .empty := by
  have hnumber := changes_clearNumber fl c rid
  have hboolean := changes_clearBoolean (c.clearNumber fl rid) rid
  have hstring := changes_clearString ((c.clearNumber fl rid).clearBoolean rid) rid
  have hnull := changes_clearNull (((c.clearNumber fl rid).clearBoolean rid).clearString rid) rid
  have hoverflow := changes_clearOverflow
    ((((c.clearNumber fl rid).clearBoolean rid).clearString rid).clearNull rid) rid
  rw [hnumber.cell_self] at hboolean
  rw [hboolean.cell_self] at hstring
  rw [hstring.cell_self] at hnull
  rw [hnull.cell_self] at hoverflow
  exact (((hnumber.trans hboolean).trans hstring).trans hnull).trans hoverflow

/-! ## Growing and storing -/

theorem lt_grownLength (rid next : Nat) (hpos : 0 < next) :
    rid < grownLength rid next ∧ next ≤ grownLength rid next := by
  induction next using grownLength.induct rid with
  | case1 next hloop ih =>
      rw [grownLength, if_pos hloop]
      rcases ih (by omega) with ⟨hlt, hle⟩
      exact ⟨hlt, by omega⟩
  | case2 next hdone =>
      rw [grownLength, if_neg hdone]
      exact ⟨by omega, Nat.le_refl _⟩

theorem length_growTypedArray {α : Type} (array : List α) (zero : α) {length : Nat}
    (h : array.length ≤ length) : (growTypedArray array zero length).length = length := by
  rw [growTypedArray, List.length_append, List.length_replicate]
  omega

/-- `_ensure` changes no cell and makes room for the row. -/
theorem ensure_spec {c : TypedRidColumn} (h : c.Aligned) (rid : Nat) :
    rid < (c.ensure rid).size ∧ c.size ≤ (c.ensure rid).size ∧ (c.ensure rid).Aligned ∧
      ∀ r, (c.ensure rid).cell r = c.cell r := by
  unfold ensure
  by_cases hlt : rid < c.numberValues.length
  · rw [if_pos hlt]
    exact ⟨hlt, Nat.le_refl _, h, fun _ => rfl⟩
  · rw [if_neg hlt]
    have hgrown := lt_grownLength rid
      (if c.numberValues.length = 0 then 1024 else c.numberValues.length) (by split_ifs <;> omega)
    have hle : c.size ≤ grownLength rid
        (if c.numberValues.length = 0 then 1024 else c.numberValues.length) := by
      refine Nat.le_trans ?_ hgrown.2
      rw [size]
      split_ifs <;> omega
    refine ⟨?_, ?_, ⟨?_, ?_, ?_, ?_, ?_⟩, ?_⟩
    · rw [size, length_growTypedArray _ _ hle]
      exact hgrown.1
    · rw [size, size, length_growTypedArray _ _ hle]
      exact hle
    · rw [size, length_growTypedArray _ _ hle, length_growTypedArray _ _ (h.numberPresent ▸ hle)]
    · rw [size, length_growTypedArray _ _ hle, length_growTypedArray _ _ (h.booleanValues ▸ hle)]
    · rw [size, length_growTypedArray _ _ hle, length_growTypedArray _ _ (h.booleanPresent ▸ hle)]
    · rw [size, length_growTypedArray _ _ hle, length_growTypedArray _ _ (h.stringCodes ▸ hle)]
    · rw [size, length_growTypedArray _ _ hle, length_growTypedArray _ _ (h.nulls ▸ hle)]
    · intro r
      simp only [cell, item_growTypedArray]

/-- The cell that a state asks for, with the code that a string gets. -/
def cellOf (table : StringTable) (state : ColumnState) : Cell :=
  match state with
  | .absent => .empty
  | .null => { Cell.empty with null := true }
  | .scalar (.num x) => { Cell.empty with number := some x }
  | .scalar (.bool b) => { Cell.empty with boolean := some b }
  | .scalar (.str s) => { Cell.empty with code := (table.stringCode s).2 }
  | .scalar _ => .empty
  | .nonScalar value => { Cell.empty with overflow := some (clone value) }

theorem changes_setNumber (fl : Doubles) {c : TypedRidColumn} (h : c.Aligned) {rid : Nat}
    (hempty : c.cell rid = .empty) (hlt : rid < c.size) (x : JsNumber) :
    Changes c (c.setScalar fl rid (.num x)) rid { Cell.empty with number := some x } := by
  have hpresent : rid < c.numberPresent.length := h.numberPresent ▸ hlt
  have hvalues : rid < c.numberValues.length := hlt
  refine ⟨by simp [setScalar, size], fun h => ⟨?_, ?_, ?_, ?_, ?_⟩, id, ?_, ?_, ?_, ?_, rfl, rfl, rfl⟩
  · simpa [setScalar, size] using h.numberPresent
  · simpa [setScalar, size] using h.booleanValues
  · simpa [setScalar, size] using h.booleanPresent
  · simpa [setScalar, size] using h.stringCodes
  · simpa [setScalar, size] using h.nulls
  · intro r
    by_cases hr : r = rid
    · rw [if_pos hr, ← hempty]
      simp [cell, setScalar, item_set, hr, hpresent, hvalues]
    · simp [cell, setScalar, item_set, hr]
      rfl
  · change c.numberCount + 1 = c.numberCount - (c.cell rid).numberShare + 1
    rw [hempty, Cell.numberShare_empty]
    omega
  · change c.scalarCount + 1 = c.scalarCount - (c.cell rid).scalarShare + (1 + 0 + 0)
    rw [hempty, Cell.scalarShare_empty]
    omega
  · change c.nullCount = c.nullCount - (c.cell rid).nullShare + 0
    rw [hempty, Cell.nullShare_empty]
    omega

theorem changes_setBoolean (fl : Doubles) {c : TypedRidColumn} (h : c.Aligned) {rid : Nat}
    (hempty : c.cell rid = .empty) (hlt : rid < c.size) (b : Bool) :
    Changes c (c.setScalar fl rid (.bool b)) rid { Cell.empty with boolean := some b } := by
  have hpresent : rid < c.booleanPresent.length := h.booleanPresent ▸ hlt
  have hvalues : rid < c.booleanValues.length := h.booleanValues ▸ hlt
  refine ⟨rfl, fun h => ⟨h.numberPresent, ?_, ?_, h.stringCodes, h.nulls⟩, id, ?_, ?_, ?_, ?_,
    rfl, rfl, rfl⟩
  · simpa [setScalar, size] using h.booleanValues
  · simpa [setScalar, size] using h.booleanPresent
  · intro r
    by_cases hr : r = rid
    · rw [if_pos hr, ← hempty]
      simp [cell, setScalar, item_set, hr, hpresent, hvalues]
    · simp [cell, setScalar, item_set, hr]
      rfl
  · change c.numberCount = c.numberCount - (c.cell rid).numberShare + 0
    rw [hempty, Cell.numberShare_empty]
    omega
  · change c.scalarCount + 1 = c.scalarCount - (c.cell rid).scalarShare + (0 + 1 + 0)
    rw [hempty, Cell.scalarShare_empty]
    omega
  · change c.nullCount = c.nullCount - (c.cell rid).nullShare + 0
    rw [hempty, Cell.nullShare_empty]
    omega

theorem changes_setString (fl : Doubles) {c : TypedRidColumn} (h : c.Aligned) {rid : Nat}
    (hempty : c.cell rid = .empty) (hlt : rid < c.size) {s : JsString}
    (hpos : 1 ≤ (c.table.stringCode s).2) :
    Changes c (c.setScalar fl rid (.str s)) rid
      { Cell.empty with code := (c.table.stringCode s).2 } := by
  have hcodes : rid < c.stringCodes.length := h.stringCodes ▸ hlt
  have hshare : ({ Cell.empty with code := (c.table.stringCode s).2 } : Cell).scalarShare = 1 := by
    have hne : (c.table.stringCode s).2 ≠ 0 := by omega
    simp [Cell.scalarShare, Cell.numberShare, Cell.booleanShare, Cell.stringShare, Cell.empty, hne]
  refine ⟨rfl, fun h => ⟨h.numberPresent, h.booleanValues, h.booleanPresent, ?_, h.nulls⟩, id,
    ?_, ?_, ?_, ?_, rfl, rfl, rfl⟩
  · simpa [setScalar, size] using h.stringCodes
  · intro r
    by_cases hr : r = rid
    · rw [if_pos hr, ← hempty]
      simp [cell, setScalar, item_set, hr, hcodes]
    · simp [cell, setScalar, item_set, hr]
      exact ⟨rfl, rfl⟩
  · change c.numberCount = c.numberCount - (c.cell rid).numberShare + 0
    rw [hempty, Cell.numberShare_empty]
    omega
  · rw [hshare, hempty, Cell.scalarShare_empty]
    change c.scalarCount + 1 = c.scalarCount - 0 + 1
    omega
  · change c.nullCount = c.nullCount - (c.cell rid).nullShare + 0
    rw [hempty, Cell.nullShare_empty]
    omega

theorem changes_setNull {c : TypedRidColumn} (h : c.Aligned) {rid : Nat}
    (hempty : c.cell rid = .empty) (hlt : rid < c.size) :
    Changes c { c with nulls := c.nulls.set rid true, nullCount := c.nullCount + 1 } rid
      { Cell.empty with null := true } := by
  have hnulls : rid < c.nulls.length := h.nulls ▸ hlt
  refine ⟨rfl, fun h => ⟨h.numberPresent, h.booleanValues, h.booleanPresent, h.stringCodes, ?_⟩, id,
    ?_, ?_, ?_, ?_, rfl, rfl, rfl⟩
  · simpa [size] using h.nulls
  · intro r
    by_cases hr : r = rid
    · rw [if_pos hr, ← hempty]
      simp [cell, item_set, hr, hnulls]
    · simp [cell, item_set, hr]
  · change c.numberCount = c.numberCount - (c.cell rid).numberShare + 0
    rw [hempty, Cell.numberShare_empty]
    omega
  · change c.scalarCount = c.scalarCount - (c.cell rid).scalarShare + 0
    rw [hempty, Cell.scalarShare_empty]
    omega
  · change c.nullCount + 1 = c.nullCount - (c.cell rid).nullShare + 1
    rw [hempty, Cell.nullShare_empty]
    omega

theorem changes_setOverflow {c : TypedRidColumn} {rid : Nat} (hempty : c.cell rid = .empty)
    (value : Json) :
    Changes c { c with overflow := Assoc.set c.overflow rid value } rid
      { Cell.empty with overflow := some value } := by
  refine ⟨rfl, fun h => ⟨h.numberPresent, h.booleanValues, h.booleanPresent, h.stringCodes, h.nulls⟩,
    fun h => Assoc.nodup_keys_set _ _ h, ?_, ?_, ?_, ?_, rfl, rfl, rfl⟩
  · intro r
    by_cases hr : r = rid
    · rw [if_pos hr, ← hempty]
      simp [cell, hr]
    · have hget : Assoc.get? (Assoc.set c.overflow rid value) r = Assoc.get? c.overflow r := by
        rw [Assoc.get?_set, if_neg (fun h => hr h.symm)]
      rw [if_neg hr, cell, cell, ← hget]
  · change c.numberCount = c.numberCount - (c.cell rid).numberShare + 0
    rw [hempty, Cell.numberShare_empty]
    omega
  · change c.scalarCount = c.scalarCount - (c.cell rid).scalarShare + 0
    rw [hempty, Cell.scalarShare_empty]
    omega
  · change c.nullCount = c.nullCount - (c.cell rid).nullShare + 0
    rw [hempty, Cell.nullShare_empty]
    omega

/-- Storing into an empty cell inside the arrays. -/
theorem changes_storeState (fl : Doubles) {c : TypedRidColumn} (h : c.Aligned) {rid : Nat}
    (hempty : c.cell rid = .empty) (hlt : rid < c.size)
    (hpos : ∀ s, 1 ≤ (c.table.stringCode s).2) (state : ColumnState) :
    Changes c (c.storeState fl rid state) rid (cellOf c.table state) := by
  cases state with
  | absent => exact Changes.refl hempty
  | null => exact changes_setNull h hempty hlt
  | scalar value =>
      cases value with
      | num x => exact changes_setNumber fl h hempty hlt x
      | bool b => exact changes_setBoolean fl h hempty hlt b
      | str s => exact changes_setString fl h hempty hlt (hpos s)
      | null => exact Changes.refl hempty
      | arr items => exact Changes.refl hempty
      | obj fields => exact Changes.refl hempty
  | nonScalar value => exact changes_setOverflow hempty (clone value)

end TypedRidColumn

end Arrays
end ObjyDb
