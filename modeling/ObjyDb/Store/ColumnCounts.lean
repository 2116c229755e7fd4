import ObjyDb.Store.ColumnBalance

/-!
# ColumnCounts — the counts of a typed column as numbers of rows

* `Counted` — every count is the number of rows in a state of its kind;
* `Coded` — every coded row shows its string, every code is held by the rows that use it;
* `Balanced.counted`, `Balanced.coded`, `Summed.rows` — what a balanced column says of its rows.
-/

namespace ObjyDb
namespace Arrays

open Js

def isNumber : ColumnState → Bool
  | .scalar (.num _) => true
  | _ => false

def isScalar : ColumnState → Bool
  | .scalar _ => true
  | _ => false

def isNull : ColumnState → Bool
  | .null => true
  | _ => false

def isNonScalar : ColumnState → Bool
  | .nonScalar _ => true
  | _ => false

/-- The number that a row adds to the sum. -/
def numberOf (fl : Doubles) : Option Json → ℚ
  | some (.num x) => fl.val x
  | _ => 0

namespace TypedRidColumn

/-- How many rows are in a state of the kind. -/
def rowsIn (c : TypedRidColumn) (kind : ColumnState → Bool) : Nat :=
  ((Finset.range c.size).filter
    (fun rid => kind (columnScalarState (c.valueFor rid)) = true)).card

/-- How many rows use the code. -/
def rowsWith (c : TypedRidColumn) (code : Nat) : Nat :=
  ((Finset.range c.size).filter (fun rid => item c.stringCodes rid 0 = code)).card

/-- The counts are numbers of rows; no row outside the arrays has a value. -/
structure Counted (c : TypedRidColumn) : Prop where
  outside : ∀ rid, c.size ≤ rid → c.valueFor rid = none
  numberCount : c.numberCount = c.rowsIn isNumber
  scalarCount : c.scalarCount = c.rowsIn isScalar
  nullCount : c.nullCount = c.rowsIn isNull
  overflow : c.overflow.length = c.rowsIn isNonScalar

/-- The string table agrees with the rows. -/
structure Coded (c : TypedRidColumn) : Prop where
  shown : ∀ rid, item c.stringCodes rid 0 ≠ 0 → ∃ s,
    c.table.stringAt (item c.stringCodes rid 0) = some s ∧ c.valueFor rid = some (.str s) ∧
      Assoc.get? c.table.stringIds s = some (item c.stringCodes rid 0)
  coded : ∀ rid s, c.valueFor rid = some (.str s) → item c.stringCodes rid 0 ≠ 0
  refs : ∀ code, 1 ≤ code → c.table.stringRefs.getD (code - 1) 0 = c.rowsWith code
  free : ∀ code ∈ c.table.freeStringCodes, 1 ≤ code ∧ ∀ rid, item c.stringCodes rid 0 ≠ code

/-- The overflow map holds arrays and objects. -/
def Proper (c : TypedRidColumn) : Prop :=
  ∀ rid value, Assoc.get? c.overflow rid = some value →
    columnScalarState (some value) = .nonScalar value

/-! ## The shares of a row -/

/-- In a row with one thing in it, each share says whether the row is in the state. -/
theorem shares_eq {cell : Cell} {table : StringTable} (hexclusive : cell.Exclusive)
    (hcode : cell.code ≠ 0 → ∃ s, table.stringAt cell.code = some s)
    (hproper : ∀ value, cell.overflow = some value →
      columnScalarState (some value) = .nonScalar value) :
    cell.numberShare = (if isNumber (columnScalarState (cell.value table)) = true then 1 else 0) ∧
      cell.scalarShare = (if isScalar (columnScalarState (cell.value table)) = true then 1 else 0) ∧
      cell.nullShare = (if isNull (columnScalarState (cell.value table)) = true then 1 else 0) ∧
      cell.overflowShare =
        (if isNonScalar (columnScalarState (cell.value table)) = true then 1 else 0) := by
  rcases cell with ⟨number, boolean, code, null, overflow⟩
  have hshares := Cell.shares_nonneg ⟨number, boolean, code, null, overflow⟩
  unfold Cell.Exclusive Cell.scalarShare at *
  -- the value is read from the first array that has the row, and the others have nothing then
  cases number with
  | some x =>
      have hone : Cell.numberShare ⟨some x, boolean, code, null, overflow⟩ = 1 := rfl
      have hstate : columnScalarState (Cell.value table ⟨some x, boolean, code, null, overflow⟩) =
          .scalar (.num x) := rfl
      simp only [hstate, isNumber, isScalar, isNull, isNonScalar, if_true, Bool.false_eq_true,
        if_false]
      omega
  | none =>
      have hnumber : Cell.numberShare ⟨none, boolean, code, null, overflow⟩ = 0 := rfl
      cases boolean with
      | some b =>
          have hone : Cell.booleanShare ⟨none, some b, code, null, overflow⟩ = 1 := rfl
          have hstate : columnScalarState (Cell.value table ⟨none, some b, code, null, overflow⟩) =
              .scalar (.bool b) := rfl
          simp only [hstate, isNumber, isScalar, isNull, isNonScalar, if_true, Bool.false_eq_true,
            if_false]
          omega
      | none =>
          have hboolean : Cell.booleanShare ⟨none, none, code, null, overflow⟩ = 0 := rfl
          by_cases hzero : code = 0
          · subst hzero
            have hstring : Cell.stringShare ⟨none, none, 0, null, overflow⟩ = 0 := rfl
            cases null with
            | true =>
                have hone : Cell.nullShare ⟨none, none, 0, true, overflow⟩ = 1 := rfl
                have hstate : columnScalarState (Cell.value table ⟨none, none, 0, true, overflow⟩) =
                    .null := rfl
                simp only [hstate, isNumber, isScalar, isNull, isNonScalar, if_true,
                  Bool.false_eq_true, if_false]
                omega
            | false =>
                have hnull : Cell.nullShare ⟨none, none, 0, false, overflow⟩ = 0 := rfl
                cases overflow with
                | some value =>
                    have hstate : columnScalarState
                        (Cell.value table ⟨none, none, 0, false, some value⟩) = .nonScalar value :=
                      hproper value rfl
                    simp only [hstate, isNumber, isScalar, isNull, isNonScalar, if_true,
                      Bool.false_eq_true, if_false]
                    exact ⟨rfl, rfl, rfl, rfl⟩
                | none => exact ⟨rfl, rfl, rfl, rfl⟩
          · rcases hcode hzero with ⟨s, hs⟩
            have hone : Cell.stringShare ⟨none, none, code, null, overflow⟩ = 1 := if_pos hzero
            have hstate : columnScalarState (Cell.value table ⟨none, none, code, null, overflow⟩) =
                .scalar (.str s) := by
              have hvalue : Cell.value table ⟨none, none, code, null, overflow⟩ = some (.str s) := by
                simp only [Cell.value]
                rw [if_pos hzero]
                exact congrArg (Option.map Json.str) hs
              rw [hvalue]
              rfl
            simp only [hstate, isNumber, isScalar, isNull, isNonScalar, if_true, Bool.false_eq_true,
              if_false]
            omega

/-- A row with a code shows the string of the code. -/
theorem value_of_code {cell : Cell} {table : StringTable} (hexclusive : cell.Exclusive)
    (hcode : cell.code ≠ 0) {s : JsString} (hs : table.stringAt cell.code = some s) :
    cell.value table = some (.str s) := by
  rcases cell with ⟨number, boolean, code, null, overflow⟩
  have hshares := Cell.shares_nonneg ⟨number, boolean, code, null, overflow⟩
  have hone : Cell.stringShare ⟨number, boolean, code, null, overflow⟩ = 1 := if_pos hcode
  unfold Cell.Exclusive Cell.scalarShare at hexclusive
  have hnumber : number = none := by
    cases number with
    | none => rfl
    | some x =>
        have hother : Cell.numberShare ⟨some x, boolean, code, null, overflow⟩ = 1 := rfl
        omega
  have hboolean : boolean = none := by
    cases boolean with
    | none => rfl
    | some b =>
        have hother : Cell.booleanShare ⟨number, some b, code, null, overflow⟩ = 1 := rfl
        omega
  simp only [Cell.value, hnumber, hboolean]
  rw [if_pos hcode]
  exact congrArg (Option.map Json.str) hs

/-- A row that shows a string has a code. -/
theorem code_of_value {cell : Cell} {table : StringTable}
    (hproper : ∀ value, cell.overflow = some value →
      columnScalarState (some value) = .nonScalar value)
    {s : JsString} (hvalue : cell.value table = some (.str s)) : cell.code ≠ 0 := by
  rcases cell with ⟨number, boolean, code, null, overflow⟩
  intro hcode
  have hzero : code = 0 := hcode
  subst hzero
  cases number with
  | some x => cases hvalue
  | none =>
      cases boolean with
      | some b => cases hvalue
      | none =>
          cases null with
          | true => cases hvalue
          | false =>
              cases overflow with
              | none => cases hvalue
              | some value =>
                  have hstate := hproper value rfl
                  have hstr : value = .str s := Option.some.inj hvalue
                  rw [hstr] at hstate
                  cases hstate

/-! ## Counting rows -/

/-- The entries of a map are the numbers below a bound that have one. -/
theorem length_eq_total {α : Type} (entries : List (Nat × α)) (hnodup : (Assoc.keys entries).Nodup)
    {n : Nat} (hlt : ∀ k, (Assoc.get? entries k).isSome → k < n) :
    entries.length = total (fun k => if (Assoc.get? entries k).isSome then 1 else 0) n := by
  induction entries with
  | nil => exact (total_zero n).symm
  | cons entry rest ih =>
      rcases entry with ⟨k, value⟩
      rw [Assoc.keys, List.map_cons, List.nodup_cons] at hnodup
      have hnone : Assoc.get? rest k = none := Assoc.get?_eq_none_iff.mpr hnodup.1
      have hget : ∀ j, Assoc.get? ((k, value) :: rest) j =
          if k = j then some value else Assoc.get? rest j := fun j => Assoc.get?_cons ..
      have hk : k < n := hlt k (by rw [hget, if_pos rfl]; rfl)
      have hrest := ih hnodup.2 (fun j hj => hlt j (by
        rw [hget]
        split_ifs
        · rfl
        · exact hj))
      have hchange := total_change
        (f := fun j => if (Assoc.get? rest j).isSome then 1 else 0)
        (g := fun j => if (Assoc.get? ((k, value) :: rest) j).isSome then 1 else 0) hk
        (fun j hj => by simp only [hget, if_neg (fun h : k = j => hj h.symm)])
      have hself : (Assoc.get? ((k, value) :: rest) k).isSome = true := by
        rw [hget, if_pos rfl]
        rfl
      simp only [hnone, hself, Option.isSome_none, Bool.false_eq_true, if_false, if_true] at hchange
      rw [List.length_cons, hrest]
      omega

variable {fl : Doubles} {c : TypedRidColumn}

/-- The code of a row stands for a string. -/
theorem Balanced.string_of_code (h : Balanced c) {rid : Nat} (hcode : (c.cell rid).code ≠ 0) :
    ∃ s, c.table.stringAt (c.cell rid).code = some s ∧
      Assoc.get? c.table.stringIds s = some (c.cell rid).code := by
  have hused := h.uses_ne_zero hcode
  rcases Option.isSome_iff_exists.mp ((h.table.table.live _).mpr hused) with ⟨s, hs⟩
  have hstring : c.table.table.value (c.cell rid).code = c.table.stringAt (c.cell rid).code :=
    if_neg hcode
  exact ⟨s, hstring ▸ hs, (h.table.table.code s _).mpr ⟨s, hs, rfl⟩⟩

theorem Balanced.shares (h : Balanced c) (hproper : c.Proper) (rid : Nat) :
    let state := columnScalarState (c.valueFor rid)
    (c.cell rid).numberShare = (if isNumber state = true then 1 else 0) ∧
      (c.cell rid).scalarShare = (if isScalar state = true then 1 else 0) ∧
      (c.cell rid).nullShare = (if isNull state = true then 1 else 0) ∧
      (c.cell rid).overflowShare = (if isNonScalar state = true then 1 else 0) := by
  rw [valueFor_eq]
  refine shares_eq (h.exclusive rid) (fun hcode => ?_) (fun value hvalue => hproper rid value hvalue)
  rcases h.string_of_code hcode with ⟨s, hs, -⟩
  exact ⟨s, hs⟩

/-- A total of shares that say whether a row is in a state is a number of rows. -/
theorem total_eq_rowsIn (kind : ColumnState → Bool) {share : Nat → Int}
    (h : ∀ rid, share rid = if kind (columnScalarState (c.valueFor rid)) = true then 1 else 0) :
    total share c.size = c.rowsIn kind := by
  rw [total, Finset.sum_congr rfl (fun rid _ => h rid), Finset.sum_boole]
  rfl

theorem Balanced.counted (h : Balanced c) (hproper : c.Proper) : c.Counted where
  outside := by
    intro rid hrid
    rw [valueFor_eq, h.outside rid hrid]
    rfl
  numberCount := h.numberCount.trans
    (total_eq_rowsIn isNumber (fun rid => (h.shares hproper rid).1))
  scalarCount := h.scalarCount.trans
    (total_eq_rowsIn isScalar (fun rid => (h.shares hproper rid).2.1))
  nullCount := h.nullCount.trans
    (total_eq_rowsIn isNull (fun rid => (h.shares hproper rid).2.2.1))
  overflow := by
    have hlength := length_eq_total c.overflow h.nodup (n := c.size) (fun k hk => h.rid_lt (by
      intro hempty
      have hnone : Assoc.get? c.overflow k = none := congrArg Cell.overflow hempty
      rw [hnone] at hk
      cases hk))
    have htotal := total_eq_rowsIn (c := c) isNonScalar
      (fun rid => (h.shares hproper rid).2.2.2)
    have hcast : ((c.overflow.length : Nat) : Int) =
        total (fun rid => (c.cell rid).overflowShare) c.size := by
      rw [hlength]
      simp only [total, Nat.cast_sum, Nat.cast_ite, Nat.cast_one, Nat.cast_zero]
      rfl
    exact_mod_cast hcast.trans htotal

theorem uses_eq_rowsWith (c : TypedRidColumn) {code : Nat} (hcode : 1 ≤ code) :
    c.uses code = c.rowsWith code := by
  have hshare : ∀ rid, (c.cell rid).codeShare code =
      if item c.stringCodes rid 0 = code then 1 else 0 := by
    intro rid
    unfold Cell.codeShare
    have hne : code ≠ 0 := by omega
    simp only [hne, ne_eq, not_false_eq_true, true_and]
    rfl
  rw [uses, total, Finset.sum_congr rfl (fun rid _ => hshare rid), Finset.sum_boole]
  rfl

theorem Balanced.coded (h : Balanced c) (hproper : c.Proper) : c.Coded where
  shown := by
    intro rid hcode
    rcases h.string_of_code hcode with ⟨s, hs, hid⟩
    refine ⟨s, hs, ?_, hid⟩
    rw [valueFor_eq]
    exact value_of_code (h.exclusive rid) hcode hs
  coded := by
    intro rid s hvalue
    rw [valueFor_eq] at hvalue
    exact code_of_value (fun value hoverflow => hproper rid value hoverflow) hvalue
  refs := by
    intro code hcode
    rw [← uses_eq_rowsWith c hcode, ← h.table.table.refs]
    exact (if_neg (by omega)).symm
  free := by
    intro code hfree
    rcases (h.table.table.free code).mp hfree with ⟨⟨hpos, -⟩, hunused⟩
    refine ⟨hpos, fun rid hrid => ?_⟩
    have hcode : (c.cell rid).code = code := hrid
    have hne : (c.cell rid).code ≠ 0 := by omega
    have hused := h.uses_ne_zero hne
    rw [hcode] at hused
    exact hused hunused

/-- The sum is that of the values that are numbers. -/
theorem Summed.rows (h : Balanced c) (hproper : c.Proper) (hsum : Summed fl c) :
    c.numberSum = total (fun rid => numberOf fl (c.valueFor rid)) c.size := by
  rw [show c.numberSum = _ from hsum]
  refine total_congr (fun rid _ => ?_)
  have hshare := (h.shares hproper rid).1
  cases hnumber : (c.cell rid).number with
  | some x =>
      have hvalue : c.valueFor rid = some (.num x) := by
        rw [valueFor_eq, Cell.value, hnumber]
      rw [Cell.sumShare, hnumber, hvalue]
      rfl
  | none =>
      rw [Cell.numberShare, hnumber] at hshare
      rw [Cell.sumShare, hnumber]
      cases hvalue : c.valueFor rid with
      | none => rfl
      | some value =>
          cases value with
          | num x =>
              rw [hvalue] at hshare
              cases hshare
          | _ => rfl

/-! ## What the overflow map holds -/

theorem overflow_applyState (fl : Doubles) (c : TypedRidColumn) (rid : Nat) (state : ColumnState) :
    (c.applyState fl rid state).overflow =
      match state with
      | .nonScalar value => Assoc.set (Assoc.erase c.overflow rid) rid (clone value)
      | _ => Assoc.erase c.overflow rid := by
  have hclear : (c.clearRid fl rid).overflow = Assoc.erase c.overflow rid := by
    have hnumber : (c.clearNumber fl rid).overflow = c.overflow := by
      unfold clearNumber
      split_ifs <;> rfl
    have hboolean : ∀ d : TypedRidColumn, (d.clearBoolean rid).overflow = d.overflow := by
      intro d
      unfold clearBoolean
      split_ifs <;> rfl
    have hstring : ∀ d : TypedRidColumn, (d.clearString rid).overflow = d.overflow := by
      intro d
      unfold clearString
      split_ifs <;> rfl
    have hnull : ∀ d : TypedRidColumn, (d.clearNull rid).overflow = d.overflow := by
      intro d
      unfold clearNull
      split_ifs <;> rfl
    change Assoc.erase
      ((((c.clearNumber fl rid).clearBoolean rid).clearString rid).clearNull rid).overflow rid = _
    rw [hnull, hstring, hboolean, hnumber]
  have hensure : ((c.clearRid fl rid).ensure rid).overflow = Assoc.erase c.overflow rid := by
    rw [← hclear]
    unfold ensure
    split_ifs <;> rfl
  have hreset : (c.clearRid fl rid).resetIfEmpty.overflow = Assoc.erase c.overflow rid := by
    rw [← hclear]
    unfold resetIfEmpty
    split_ifs <;> rfl
  have hstore : ∀ d : TypedRidColumn, (d.storeState fl rid state).overflow =
      match state with
      | .nonScalar value => Assoc.set d.overflow rid (clone value)
      | _ => d.overflow := by
    intro d
    cases state with
    | absent => rfl
    | null => rfl
    | scalar value => cases value <;> rfl
    | nonScalar value => rfl
  unfold applyState
  split_ifs with habsent
  · rw [hreset, habsent]
  · rw [hstore, hensure]

theorem proper_new : Proper TypedRidColumn.new := by
  intro rid value h
  cases h

/-- States of values keep it to arrays and objects. -/
theorem proper_applyState (fl : Doubles) (h : c.Proper) (rid : Nat) (value : Option Json) :
    (c.applyState fl rid (columnScalarState value)).Proper := by
  have herase : ∀ r v, Assoc.get? (Assoc.erase c.overflow rid) r = some v →
      columnScalarState (some v) = .nonScalar v := by
    intro r v hget
    rw [Assoc.get?_erase] at hget
    split_ifs at hget
    exact h r v hget
  intro r v hget
  rw [overflow_applyState] at hget
  cases value with
  | none => exact herase r v hget
  | some value =>
      cases value with
      | num x => exact herase r v hget
      | bool b => exact herase r v hget
      | str s => exact herase r v hget
      | null => exact herase r v hget
      | arr items =>
          change Assoc.get? (Assoc.set (Assoc.erase c.overflow rid) rid _) r = some v at hget
          rw [Assoc.get?_set] at hget
          split_ifs at hget
          · cases hget
            rfl
          · exact herase r v hget
      | obj fields =>
          change Assoc.get? (Assoc.set (Assoc.erase c.overflow rid) rid _) r = some v at hget
          rw [Assoc.get?_set] at hget
          split_ifs at hget
          · cases hget
            rfl
          · exact herase r v hget

end TypedRidColumn

end Arrays
end ObjyDb
