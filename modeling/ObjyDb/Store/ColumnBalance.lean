import ObjyDb.Store.ColumnCells

/-!
# ColumnBalance — counts, sum and string table of a typed column

* `Balanced` — the counts are the numbers of rows of each kind and the string table agrees with the
  rows that use its codes;
* `balanced_applyState`, `valueFor_applyState` — what applying a state does;
* `Summed` — the sum is that of the numeric rows, kept while no sum is rounded (`SumExact`).
-/

namespace ObjyDb
namespace Arrays

open Js

namespace TypedRidColumn

/-- Counts and string table agree with the cells, and no row is in two places. -/
structure Balanced (c : TypedRidColumn) : Prop where
  aligned : c.Aligned
  outside : ∀ rid, c.size ≤ rid → c.cell rid = .empty
  exclusive : ∀ rid, (c.cell rid).Exclusive
  nodup : (Assoc.keys c.overflow).Nodup
  numberCount : c.numberCount = total (fun rid => (c.cell rid).numberShare) c.size
  scalarCount : c.scalarCount = total (fun rid => (c.cell rid).scalarShare) c.size
  nullCount : c.nullCount = total (fun rid => (c.cell rid).nullShare) c.size
  table : c.table.Consistent c.uses

/-- The sum is that of the numeric rows. -/
def Summed (fl : Doubles) (c : TypedRidColumn) : Prop :=
  c.numberSum = total (fun rid => (c.cell rid).sumShare fl) c.size

variable {fl : Doubles} {c c' : TypedRidColumn} {rid : Nat} {new : Cell}

/-! ## Totals under a change -/

section

variable {M : Type} [AddCommMonoid M]

/-- A total over the cells, one of which changes. -/
theorem Changes.total_cell (hc : Changes c c' rid new)
    (hin : rid < c.size ∨ c.cell rid = new) (f : Cell → M) :
    total (fun r => f (c'.cell r)) c'.size + f (c.cell rid) =
      total (fun r => f (c.cell r)) c.size + f new := by
  rw [hc.size]
  rcases hin with hlt | hsame
  · have hother : ∀ r, r ≠ rid → f (c'.cell r) = f (c.cell r) := fun r hr => by rw [hc.cell_ne hr]
    have hchange := total_change (f := fun r => f (c.cell r)) (g := fun r => f (c'.cell r)) hlt hother
    rw [hc.cell_self] at hchange
    exact hchange
  · have hall : ∀ r, c'.cell r = c.cell r := by
      intro r
      rw [hc.cell]
      split_ifs with hr
      · rw [hr, hsame]
      · rfl
    rw [hsame]
    simp only [hall]

end

theorem Balanced.rid_lt (h : Balanced c) (hne : c.cell rid ≠ .empty) : rid < c.size := by
  by_contra hlt
  exact hne (h.outside rid (Nat.le_of_not_lt hlt))

theorem Balanced.inside (h : Balanced c) : rid < c.size ∨ c.cell rid = .empty := by
  by_cases hlt : rid < c.size
  · exact Or.inl hlt
  · exact Or.inr (h.outside rid (Nat.le_of_not_lt hlt))

theorem Balanced.inside_or (h : Balanced c) (hin : rid < c.size ∨ new = .empty) :
    rid < c.size ∨ c.cell rid = new := by
  rcases hin with hlt | hnew
  · exact Or.inl hlt
  · rw [hnew]
    exact h.inside

/-- A code of a row is in use. -/
theorem Balanced.uses_ne_zero (h : Balanced c) (hcode : (c.cell rid).code ≠ 0) :
    c.uses (c.cell rid).code ≠ 0 := by
  have hlt : rid < c.size := h.rid_lt (fun hempty => hcode (by rw [hempty]; rfl))
  have hle : (c.cell rid).codeShare (c.cell rid).code ≤ c.uses (c.cell rid).code :=
    Finset.single_le_sum (f := fun r => (c.cell r).codeShare (c.cell rid).code)
      (fun _ _ => Nat.zero_le _) (Finset.mem_range.mpr hlt)
  have hone : (c.cell rid).codeShare (c.cell rid).code = 1 := if_pos ⟨hcode, rfl⟩
  omega

theorem Changes.uses_eq (hc : Changes c c' rid new) (hin : rid < c.size ∨ c.cell rid = new)
    (hcode : new.code = (c.cell rid).code) : c'.uses = c.uses := by
  funext k
  have hchange := hc.total_cell hin (fun cell => cell.codeShare k)
  have hshare : (c.cell rid).codeShare k = new.codeShare k := by
    rw [Cell.codeShare, Cell.codeShare, hcode]
  rw [hshare] at hchange
  exact Nat.add_right_cancel hchange

/-- Counts follow a change of one cell. -/
theorem Balanced.changes (h : Balanced c) (hc : Changes c c' rid new) (hnew : new.Exclusive)
    (hin : rid < c.size ∨ new = .empty) (htable : c'.table.Consistent c'.uses) : Balanced c' where
  aligned := hc.aligned h.aligned
  outside := by
    intro r hr
    rw [hc.size] at hr
    rw [hc.cell]
    split_ifs with hrid
    · rcases hin with hlt | hempty
      · omega
      · exact hempty
    · exact h.outside r hr
  exclusive := by
    intro r
    rw [hc.cell]
    split_ifs
    · exact hnew
    · exact h.exclusive r
  nodup := hc.nodup h.nodup
  numberCount := by
    have hchange := hc.total_cell (h.inside_or hin) Cell.numberShare
    rw [hc.numberCount, h.numberCount]
    omega
  scalarCount := by
    have hchange := hc.total_cell (h.inside_or hin) Cell.scalarShare
    rw [hc.scalarCount, h.scalarCount]
    omega
  nullCount := by
    have hchange := hc.total_cell (h.inside_or hin) Cell.nullShare
    rw [hc.nullCount, h.nullCount]
    omega
  table := htable

/-! ## Clearing a row -/

theorem table_clearRid (fl : Doubles) (c : TypedRidColumn) (rid : Nat) :
    (c.clearRid fl rid).table =
      if (c.cell rid).code = 0 then c.table else c.table.releaseCode (c.cell rid).code := by
  have hnumber : (c.clearNumber fl rid).table = c.table ∧
      (c.clearNumber fl rid).stringCodes = c.stringCodes := by
    unfold clearNumber
    split_ifs <;> exact ⟨rfl, rfl⟩
  have hboolean : ((c.clearNumber fl rid).clearBoolean rid).table = c.table ∧
      ((c.clearNumber fl rid).clearBoolean rid).stringCodes = c.stringCodes := by
    unfold clearBoolean
    split_ifs <;> exact hnumber
  have hnull : ∀ d : TypedRidColumn, (d.clearNull rid).table = d.table := by
    intro d
    unfold clearNull
    split_ifs <;> rfl
  change (((c.clearNumber fl rid).clearBoolean rid).clearString rid |>.clearNull rid).table = _
  rw [hnull, clearString, hboolean.2, hboolean.1]
  by_cases hcode : item c.stringCodes rid 0 = 0
  · rw [if_neg (not_not.mpr hcode), hboolean.1]
    exact (if_pos hcode).symm
  · rw [if_pos hcode]
    exact (if_neg hcode).symm

/-- The rows that use each code after a row is cleared. -/
theorem uses_clearRid (fl : Doubles) (h : Balanced c) (hcode : (c.cell rid).code ≠ 0) :
    (c.clearRid fl rid).uses =
      Function.update c.uses (c.cell rid).code (c.uses (c.cell rid).code - 1) := by
  have hc := changes_clearRid fl c rid
  funext k
  have hchange := hc.total_cell h.inside (fun cell => cell.codeShare k)
  simp only [Cell.codeShare_empty] at hchange
  by_cases hk : k = (c.cell rid).code
  · have hone : (c.cell rid).codeShare k = 1 := if_pos ⟨hk ▸ hcode, hk.symm⟩
    rw [hk, Function.update_self, ← hk]
    unfold uses
    omega
  · have hzero : (c.cell rid).codeShare k = 0 := if_neg (fun hand => hk hand.2.symm)
    rw [Function.update_of_ne hk]
    unfold uses
    omega

theorem balanced_clearRid (fl : Doubles) (h : Balanced c) (rid : Nat) :
    Balanced (c.clearRid fl rid) := by
  have hc := changes_clearRid fl c rid
  refine h.changes hc Cell.exclusive_empty (Or.inr rfl) ?_
  rw [table_clearRid]
  by_cases hcode : (c.cell rid).code = 0
  · rw [if_pos hcode, hc.uses_eq h.inside hcode.symm]
    exact h.table
  · rw [if_neg hcode, uses_clearRid fl h hcode]
    exact (StringTable.releaseCode_spec h.table (h.uses_ne_zero hcode)).1

/-- Clearing a row keeps what the others read as. -/
theorem valueFor_clearRid (fl : Doubles) (h : Balanced c) (rid r : Nat) :
    (c.clearRid fl rid).valueFor r = if r = rid then none else c.valueFor r := by
  have hc := changes_clearRid fl c rid
  rw [valueFor_eq]
  by_cases hr : r = rid
  · rw [if_pos hr, hr, hc.cell_self]
    rfl
  · rw [if_neg hr, hc.cell_ne hr, valueFor_eq]
    refine Cell.value_congr (fun hused => ?_)
    rw [table_clearRid]
    by_cases hcode : (c.cell rid).code = 0
    · rw [if_pos hcode]
    · rw [if_neg hcode]
      -- the code of `r` is still used after the row was cleared
      have hother : ((c.clearRid fl rid).cell r).code ≠ 0 →
          (c.clearRid fl rid).uses ((c.clearRid fl rid).cell r).code ≠ 0 :=
        (balanced_clearRid fl h rid).uses_ne_zero
      rw [hc.cell_ne hr, uses_clearRid fl h hcode] at hother
      exact (StringTable.releaseCode_spec h.table (h.uses_ne_zero hcode)).2 _ (hother hused)

/-! ## Growing and resetting -/

theorem balanced_ensure (h : Balanced c) (rid : Nat) : Balanced (c.ensure rid) := by
  rcases ensure_spec h.aligned rid with ⟨-, hsize, haligned, hcell⟩
  have hframe : (c.ensure rid).numberCount = c.numberCount ∧
      (c.ensure rid).scalarCount = c.scalarCount ∧ (c.ensure rid).nullCount = c.nullCount ∧
      (c.ensure rid).overflow = c.overflow ∧ (c.ensure rid).table = c.table := by
    unfold ensure
    split_ifs <;> exact ⟨rfl, rfl, rfl, rfl, rfl⟩
  have hgrow : ∀ {M : Type} [AddCommMonoid M] (f : Cell → M), f .empty = 0 →
      total (fun r => f ((c.ensure rid).cell r)) (c.ensure rid).size =
        total (fun r => f (c.cell r)) c.size := by
    intro M _ f hf
    simp only [hcell]
    exact total_grow hsize (fun r hr => by rw [h.outside r hr, hf])
  refine ⟨haligned, fun r hr => ?_, fun r => ?_, ?_, ?_, ?_, ?_, ?_⟩
  · rw [hcell]
    exact h.outside r (Nat.le_trans hsize hr)
  · rw [hcell]
    exact h.exclusive r
  · rw [hframe.2.2.2.1]
    exact h.nodup
  · rw [hframe.1, h.numberCount, hgrow _ rfl]
  · rw [hframe.2.1, h.scalarCount, hgrow _ rfl]
  · rw [hframe.2.2.1, h.nullCount, hgrow _ rfl]
  · have huses : (c.ensure rid).uses = c.uses := by
      funext k
      exact hgrow (fun cell => cell.codeShare k) (Cell.codeShare_empty k)
    rw [hframe.2.2.2.2, huses]
    exact h.table

/-- Without scalars, nulls and overflow values there is nothing in any row. -/
theorem Balanced.cell_eq_empty (h : Balanced c) (hscalar : c.scalarCount = 0)
    (hnull : c.nullCount = 0) (hoverflow : c.overflow.length = 0) (r : Nat) :
    c.cell r = .empty := by
  by_cases hlt : r < c.size
  · have hmem : r ∈ Finset.range c.size := Finset.mem_range.mpr hlt
    rw [h.scalarCount] at hscalar
    rw [h.nullCount] at hnull
    have hscalar' := (Finset.sum_eq_zero_iff_of_nonneg (fun i _ => by
      have hshares := Cell.shares_nonneg (c.cell i)
      unfold Cell.scalarShare
      omega)).mp hscalar r hmem
    have hnull' := (Finset.sum_eq_zero_iff_of_nonneg (fun i _ =>
      (Cell.shares_nonneg (c.cell i)).2.2.2.1)).mp hnull r hmem
    have hnone : (c.cell r).overflow = none := by
      rw [List.length_eq_zero_iff] at hoverflow
      change Assoc.get? c.overflow r = none
      rw [hoverflow]
      rfl
    generalize c.cell r = cell at hscalar' hnull' hnone
    rcases cell with ⟨number, boolean, code, null, overflow⟩
    have hshares := Cell.shares_nonneg ⟨number, boolean, code, null, overflow⟩
    simp only [Cell.scalarShare] at hscalar'
    have hnumber : number = none := by
      cases number with
      | none => rfl
      | some x => simp [Cell.numberShare] at *; omega
    have hboolean : boolean = none := by
      cases boolean with
      | none => rfl
      | some b => simp [Cell.booleanShare] at *; omega
    have hcode : code = 0 := by
      by_contra hne
      simp [Cell.stringShare, hne] at *
      omega
    have hnullFalse : null = false := by
      cases null with
      | false => rfl
      | true => simp [Cell.nullShare] at hnull'
    simp only at hnone
    rw [hnumber, hboolean, hcode, hnullFalse, hnone]
    rfl
  · exact h.outside r (Nat.le_of_not_lt hlt)

theorem cell_empty_of_arrays (h : c.numberPresent = [] ∧ c.booleanPresent = [] ∧
    c.stringCodes = [] ∧ c.nulls = [] ∧ c.overflow = []) (r : Nat) : c.cell r = .empty := by
  rcases h with ⟨hnumber, hboolean, hcodes, hnulls, hoverflow⟩
  simp [cell, item, hnumber, hboolean, hcodes, hnulls, hoverflow, Cell.empty]

theorem balanced_new : Balanced TypedRidColumn.new := by
  have hcell : ∀ r, TypedRidColumn.new.cell r = .empty := cell_empty_of_arrays ⟨rfl, rfl, rfl, rfl, rfl⟩
  refine ⟨⟨rfl, rfl, rfl, rfl, rfl⟩, fun r _ => hcell r, fun r => ?_, List.nodup_nil, rfl, rfl, rfl,
    ?_⟩
  · rw [hcell]
    exact Cell.exclusive_empty
  · have huses : TypedRidColumn.new.uses = fun _ => 0 := by
      funext k
      rfl
    rw [huses]
    exact StringTable.consistent_empty

/-- `_resetIfEmpty` changes no cell. -/
theorem resetIfEmpty_spec (fl : Doubles) (h : Balanced c) :
    Balanced c.resetIfEmpty ∧ (∀ r, c.resetIfEmpty.valueFor r = c.valueFor r) ∧
      (Summed fl c → Summed fl c.resetIfEmpty) := by
  unfold resetIfEmpty
  by_cases hcounts : c.scalarCount ≠ 0 ∨ c.nullCount ≠ 0 ∨ c.overflow.length ≠ 0
  · rw [if_pos hcounts]
    exact ⟨h, fun _ => rfl, id⟩
  · rw [if_neg hcounts]
    push Not at hcounts
    have hempty := h.cell_eq_empty hcounts.1 hcounts.2.1 hcounts.2.2
    have hnone : c.overflow = [] := List.length_eq_zero_iff.mp hcounts.2.2
    have hcell : ∀ d : TypedRidColumn, d.numberPresent = [] → d.booleanPresent = [] →
        d.stringCodes = [] → d.nulls = [] → d.overflow = c.overflow → ∀ r, d.cell r = .empty :=
      fun d h₁ h₂ h₃ h₄ h₅ => cell_empty_of_arrays ⟨h₁, h₂, h₃, h₄, h₅.trans hnone⟩
    have hreset := hcell { c with
      numberValues := [], numberPresent := [], booleanValues := [], booleanPresent := [],
      stringCodes := [], nulls := [], table := .empty, numberSum := 0, numberCount := 0,
      scalarCount := 0, nullCount := 0 } rfl rfl rfl rfl rfl
    refine ⟨⟨⟨rfl, rfl, rfl, rfl, rfl⟩, fun r _ => hreset r, fun r => ?_, h.nodup, rfl, rfl, rfl, ?_⟩,
      fun r => ?_, fun _ => rfl⟩
    · rw [hreset]
      exact Cell.exclusive_empty
    · exact StringTable.consistent_empty
    · rw [valueFor_eq, hreset, valueFor_eq, hempty]
      rfl

/-! ## Applying a state -/

theorem exclusive_cellOf (t : StringTable) (state : ColumnState) : (cellOf t state).Exclusive := by
  have hone : ∀ cell : Cell, cell.overflow = none → cell.null = false → cell.number = none →
      cell.boolean = none → cell.Exclusive := by
    intro cell hoverflow hnull hnumber hboolean
    have hstring : cell.stringShare ≤ 1 := by
      unfold Cell.stringShare
      split_ifs <;> omega
    simp only [Cell.Exclusive, Cell.scalarShare, Cell.numberShare, Cell.booleanShare,
      Cell.nullShare, Cell.overflowShare, hoverflow, hnull, hnumber, hboolean]
    simpa using hstring
  cases state with
  | absent => exact Cell.exclusive_empty
  | null => exact Int.le_refl 1
  | scalar value =>
      cases value with
      | num x => exact Int.le_refl 1
      | bool b => exact Int.le_refl 1
      | str s => exact hone _ rfl rfl rfl rfl
      | null => exact Cell.exclusive_empty
      | arr items => exact Cell.exclusive_empty
      | obj fields => exact Cell.exclusive_empty
  | nonScalar value => exact Int.le_refl 1

/-- Only a string changes the string table. -/
theorem table_storeState (fl : Doubles) (c : TypedRidColumn) (rid : Nat) (state : ColumnState) :
    (∃ s, state = .scalar (.str s)) ∨
      (c.storeState fl rid state).table = c.table ∧ (cellOf c.table state).code = 0 := by
  cases state with
  | absent => exact Or.inr ⟨rfl, rfl⟩
  | null => exact Or.inr ⟨rfl, rfl⟩
  | scalar value =>
      cases value with
      | str s => exact Or.inl ⟨s, rfl⟩
      | num x => exact Or.inr ⟨rfl, rfl⟩
      | bool b => exact Or.inr ⟨rfl, rfl⟩
      | null => exact Or.inr ⟨rfl, rfl⟩
      | arr items => exact Or.inr ⟨rfl, rfl⟩
      | obj fields => exact Or.inr ⟨rfl, rfl⟩
  | nonScalar value => exact Or.inr ⟨rfl, rfl⟩

section

variable (h : Balanced c) (hempty : c.cell rid = .empty) (hlt : rid < c.size)

include h hempty hlt

theorem changes_storeState_of_balanced (fl : Doubles) (state : ColumnState) :
    Changes c (c.storeState fl rid state) rid (cellOf c.table state) :=
  changes_storeState fl h.aligned hempty hlt
    (fun s => (StringTable.stringCode_spec h.table s).2.1) state

/-- One more row uses the code of the stored string. -/
theorem uses_storeState (fl : Doubles) (s : JsString) :
    (c.storeState fl rid (.scalar (.str s))).uses =
      Function.update c.uses (c.table.stringCode s).2 (c.uses (c.table.stringCode s).2 + 1) := by
  have hc := changes_storeState_of_balanced h hempty hlt fl (.scalar (.str s))
  have hpos := (StringTable.stringCode_spec h.table s).2.1
  funext k
  have hchange := hc.total_cell (Or.inl hlt) (fun cell => cell.codeShare k)
  simp only [hempty, Cell.codeShare_empty] at hchange
  by_cases hk : k = (c.table.stringCode s).2
  · have hone : (cellOf c.table (.scalar (.str s))).codeShare k = 1 :=
      if_pos ⟨by omega, hk.symm⟩
    rw [hk, Function.update_self, ← hk]
    unfold uses
    omega
  · have hzero : (cellOf c.table (.scalar (.str s))).codeShare k = 0 :=
      if_neg (fun hand => hk hand.2.symm)
    rw [Function.update_of_ne hk]
    unfold uses
    omega

theorem balanced_storeState (fl : Doubles) (state : ColumnState) :
    Balanced (c.storeState fl rid state) := by
  have hc := changes_storeState_of_balanced h hempty hlt fl state
  refine h.changes hc (exclusive_cellOf _ _) (Or.inl hlt) ?_
  rcases table_storeState fl c rid state with ⟨s, rfl⟩ | ⟨htable, hcode⟩
  · rw [uses_storeState h hempty hlt fl s]
    exact (StringTable.stringCode_spec h.table s).1
  · rw [htable, hc.uses_eq (Or.inl hlt) (by rw [hcode, hempty]; rfl)]
    exact h.table

theorem valueFor_storeState (fl : Doubles) (value : Option Json) (r : Nat) :
    (c.storeState fl rid (columnScalarState value)).valueFor r =
      if r = rid then value else c.valueFor r := by
  have hc := changes_storeState_of_balanced h hempty hlt fl (columnScalarState value)
  rw [valueFor_eq]
  by_cases hr : r = rid
  · rw [if_pos hr, hr, hc.cell_self]
    cases value with
    | none => rfl
    | some v =>
        cases v with
        | str s =>
            rcases StringTable.stringCode_spec h.table s with ⟨-, hpos, hat, -⟩
            have hne : (c.table.stringCode s).2 ≠ 0 := by omega
            change Cell.value (c.table.stringCode s).1
              { Cell.empty with code := (c.table.stringCode s).2 } = _
            simp [Cell.value, Cell.empty, hne, hat]
        | _ => rfl
  · rw [if_neg hr, hc.cell_ne hr, valueFor_eq]
    refine Cell.value_congr (fun hused => ?_)
    rcases table_storeState fl c rid (columnScalarState value) with ⟨s, hs⟩ | ⟨htable, -⟩
    · rw [hs]
      exact (StringTable.stringCode_spec h.table s).2.2.2 _ (h.uses_ne_zero hused)
    · rw [htable]

end

/-- Applying a state keeps the balance and changes the value of its row only. -/
theorem balanced_applyState (fl : Doubles) (h : Balanced c) (rid : Nat) (state : ColumnState) :
    Balanced (c.applyState fl rid state) := by
  unfold applyState
  have hclear := balanced_clearRid fl h rid
  split_ifs
  · exact (resetIfEmpty_spec fl hclear).1
  · rcases ensure_spec hclear.aligned rid with ⟨hlt, -, -, hcell⟩
    have hempty : ((c.clearRid fl rid).ensure rid).cell rid = .empty := by
      rw [hcell, (changes_clearRid fl c rid).cell_self]
    exact balanced_storeState (balanced_ensure hclear rid) hempty hlt fl state

theorem valueFor_ensure (h : c.Aligned) (rid r : Nat) :
    (c.ensure rid).valueFor r = c.valueFor r := by
  have htable : (c.ensure rid).table = c.table := by
    unfold ensure
    split_ifs <;> rfl
  rw [valueFor_eq, valueFor_eq, htable, (ensure_spec h rid).2.2.2]

theorem columnScalarState_eq_absent {value : Option Json}
    (h : columnScalarState value = .absent) : value = none := by
  have hvalue := ObjyDb.TypedRidColumn.value?_columnScalarState value
  rw [h] at hvalue
  exact hvalue.symm

/-- The applied state is the value of its row; the other rows keep theirs. -/
theorem valueFor_applyState (fl : Doubles) (h : Balanced c) (rid : Nat) (value : Option Json)
    (r : Nat) :
    (c.applyState fl rid (columnScalarState value)).valueFor r =
      if r = rid then value else c.valueFor r := by
  unfold applyState
  have hclear := balanced_clearRid fl h rid
  by_cases habsent : columnScalarState value = .absent
  · rw [if_pos habsent, (resetIfEmpty_spec fl hclear).2.1, valueFor_clearRid fl h,
      columnScalarState_eq_absent habsent]
  · rcases ensure_spec hclear.aligned rid with ⟨hlt, -, -, hcell⟩
    have hempty : ((c.clearRid fl rid).ensure rid).cell rid = .empty := by
      rw [hcell, (changes_clearRid fl c rid).cell_self]
    rw [if_neg habsent, valueFor_storeState (balanced_ensure hclear rid) hempty hlt,
      valueFor_ensure hclear.aligned, valueFor_clearRid fl h]
    by_cases hr : r = rid
    · rw [if_pos hr, if_pos hr]
    · rw [if_neg hr, if_neg hr, if_neg hr]

theorem applyState_frame (fl : Doubles) (c : TypedRidColumn) (rid : Nat) (state : ColumnState) :
    (c.applyState fl rid state).status = c.status ∧
      (c.applyState fl rid state).buildId = c.buildId ∧
      (c.applyState fl rid state).pending = c.pending := by
  have hclear := changes_clearRid fl c rid
  have hensure : ∀ d : TypedRidColumn, (d.ensure rid).status = d.status ∧
      (d.ensure rid).buildId = d.buildId ∧ (d.ensure rid).pending = d.pending := by
    intro d
    unfold ensure
    split_ifs <;> exact ⟨rfl, rfl, rfl⟩
  have hreset : ∀ d : TypedRidColumn, d.resetIfEmpty.status = d.status ∧
      d.resetIfEmpty.buildId = d.buildId ∧ d.resetIfEmpty.pending = d.pending := by
    intro d
    unfold resetIfEmpty
    split_ifs <;> exact ⟨rfl, rfl, rfl⟩
  have hstore : ∀ d : TypedRidColumn, (d.storeState fl rid state).status = d.status ∧
      (d.storeState fl rid state).buildId = d.buildId ∧
      (d.storeState fl rid state).pending = d.pending := by
    intro d
    unfold storeState
    split
    · exact ⟨rfl, rfl, rfl⟩
    · exact ⟨rfl, rfl, rfl⟩
    · unfold setScalar
      split <;> exact ⟨rfl, rfl, rfl⟩
    · exact ⟨rfl, rfl, rfl⟩
  unfold applyState
  split_ifs
  · have h := hreset (c.clearRid fl rid)
    exact ⟨h.1.trans hclear.status, h.2.1.trans hclear.buildId, h.2.2.trans hclear.pending⟩
  · have h := hstore ((c.clearRid fl rid).ensure rid)
    have h' := hensure (c.clearRid fl rid)
    exact ⟨h.1.trans (h'.1.trans hclear.status), h.2.1.trans (h'.2.1.trans hclear.buildId),
      h.2.2.trans (h'.2.2.trans hclear.pending)⟩

/-! ## The sum of the numbers -/

/-- No sum is rounded when the state is applied. -/
def sumExact (fl : Doubles) (c : TypedRidColumn) (rid : Nat) (state : ColumnState) : Bool :=
  let old := c.numberSum - fl.val (item c.numberValues rid .zero)
  (!item c.numberPresent rid false || decide (fl.round old = old)) &&
    match state with
    | .scalar (.num x) =>
        let sum := (c.clearRid fl rid).numberSum + fl.val x
        decide (fl.round sum = sum)
    | _ => true

theorem summed_new (fl : Doubles) : Summed fl TypedRidColumn.new := rfl

theorem numberSum_clearRid (fl : Doubles) (c : TypedRidColumn) (rid : Nat) :
    (c.clearRid fl rid).numberSum =
      if item c.numberPresent rid false then
        fl.round (c.numberSum - fl.val (item c.numberValues rid .zero))
      else c.numberSum := by
  have hboolean : ∀ d : TypedRidColumn, (d.clearBoolean rid).numberSum = d.numberSum := by
    intro d
    unfold clearBoolean
    split_ifs <;> rfl
  have hstring : ∀ d : TypedRidColumn, (d.clearString rid).numberSum = d.numberSum := by
    intro d
    unfold clearString
    split_ifs <;> rfl
  have hnull : ∀ d : TypedRidColumn, (d.clearNull rid).numberSum = d.numberSum := by
    intro d
    unfold clearNull
    split_ifs <;> rfl
  change ((((c.clearNumber fl rid).clearBoolean rid).clearString rid).clearNull rid).numberSum = _
  rw [hnull, hstring, hboolean, clearNumber]
  split_ifs <;> rfl

theorem summed_clearRid (h : Balanced c) (hsum : Summed fl c)
    (hexact : item c.numberPresent rid false = true →
      fl.round (c.numberSum - fl.val (item c.numberValues rid .zero)) =
        c.numberSum - fl.val (item c.numberValues rid .zero)) :
    Summed fl (c.clearRid fl rid) := by
  have hchange := (changes_clearRid fl c rid).total_cell h.inside (Cell.sumShare fl)
  have hempty : Cell.sumShare fl .empty = 0 := rfl
  unfold Summed at hsum ⊢
  rw [hempty, add_zero, ← hsum] at hchange
  rw [numberSum_clearRid]
  split_ifs with hpresent
  · have hshare : (c.cell rid).sumShare fl = fl.val (item c.numberValues rid .zero) := by
      simp [Cell.sumShare, cell, hpresent]
    rw [hexact hpresent, ← hshare]
    exact (eq_sub_of_add_eq hchange).symm
  · have hshare : (c.cell rid).sumShare fl = 0 := by simp [Cell.sumShare, cell, hpresent]
    rw [hshare, add_zero] at hchange
    exact hchange.symm

theorem summed_storeState (h : Balanced c) (hempty : c.cell rid = .empty) (hlt : rid < c.size)
    (hsum : Summed fl c) {state : ColumnState}
    (hexact : ∀ x, state = .scalar (.num x) →
      fl.round (c.numberSum + fl.val x) = c.numberSum + fl.val x) :
    Summed fl (c.storeState fl rid state) := by
  have hchange := (changes_storeState_of_balanced h hempty hlt fl state).total_cell (Or.inl hlt)
    (Cell.sumShare fl)
  have hzero : Cell.sumShare fl .empty = 0 := rfl
  unfold Summed at hsum ⊢
  rw [hempty, hzero, add_zero, ← hsum] at hchange
  rw [hchange]
  cases state with
  | absent => exact (add_zero _).symm
  | null => exact (add_zero _).symm
  | scalar value =>
      cases value with
      | num x => exact hexact x rfl
      | bool b => exact (add_zero _).symm
      | str s => exact (add_zero _).symm
      | null => exact (add_zero _).symm
      | arr items => exact (add_zero _).symm
      | obj fields => exact (add_zero _).symm
  | nonScalar value => exact (add_zero _).symm

/-- The sum stays that of the numeric rows while nothing is rounded. -/
theorem summed_applyState (h : Balanced c) (hsum : Summed fl c) {state : ColumnState}
    (hexact : sumExact fl c rid state = true) : Summed fl (c.applyState fl rid state) := by
  unfold sumExact at hexact
  rw [Bool.and_eq_true] at hexact
  have hold : item c.numberPresent rid false = true →
      fl.round (c.numberSum - fl.val (item c.numberValues rid .zero)) =
        c.numberSum - fl.val (item c.numberValues rid .zero) := by
    intro hpresent
    simpa [hpresent] using hexact.1
  have hclear := balanced_clearRid fl h rid
  have hcleared := summed_clearRid h hsum hold
  unfold applyState
  split_ifs
  · exact (resetIfEmpty_spec fl hclear).2.2 hcleared
  · rcases ensure_spec hclear.aligned rid with ⟨hlt, hsize, -, hcell⟩
    have hempty : ((c.clearRid fl rid).ensure rid).cell rid = .empty := by
      rw [hcell, (changes_clearRid fl c rid).cell_self]
    have hsumEq : ((c.clearRid fl rid).ensure rid).numberSum = (c.clearRid fl rid).numberSum := by
      unfold ensure
      split_ifs <;> rfl
    have hensured : Summed fl ((c.clearRid fl rid).ensure rid) := by
      unfold Summed at hcleared ⊢
      simp only [hcell]
      rw [hsumEq, hcleared, total_grow hsize (fun r hr => by rw [hclear.outside r hr]; rfl)]
    refine summed_storeState (balanced_ensure hclear rid) hempty hlt hensured (fun x hx => ?_)
    rw [hsumEq]
    have hnew := hexact.2
    rw [hx] at hnew
    exact of_decide_eq_true hnew

end TypedRidColumn

end Arrays
end ObjyDb
