import ObjyDb.Js.Text
import ObjyDb.Lib.Assoc
import ObjyDb.Lib.Interning

/-!
# StringTable — the strings of a typed column

A column keeps strings as codes.  Code `c` stands for the string at index `c - 1`; a string whose
last row lets go is removed and its code is handed out again.

* `stringCode_spec` — handing out a code is acquiring in the table that the arrays represent;
* `releaseCode_spec` — letting go of a code is releasing it there.
-/

namespace ObjyDb

open Js

/-- The arrays and maps of the string table. -/
structure StringTable where
  strings : List (Option JsString)
  stringIds : List (JsString × Nat)
  stringRefs : List Nat
  freeStringCodes : List Nat

namespace StringTable

/-- `array[i] = value`, which fills the gap to a new index with holes. -/
def assign {α : Type} (array : List α) (hole : α) (i : Nat) (value : α) : List α :=
  if i < array.length then array.set i value
  else array ++ List.replicate (i - array.length) hole ++ [value]

def empty : StringTable := ⟨[], [], [], []⟩

/-- `this.freeStringCodes.pop() || this.strings.length + 1`, and what is left of the stack. -/
def takeCode (t : StringTable) : Nat × List Nat :=
  match t.freeStringCodes with
  | code :: free => (code, free)
  | [] => (t.strings.length + 1, [])

/-- `_stringCode(value)` -/
def stringCode (t : StringTable) (value : JsString) : StringTable × Nat :=
  match Assoc.get? t.stringIds value with
  | some code =>
      ({ t with stringRefs :=
          t.stringRefs.set (code - 1) (t.stringRefs.getD (code - 1) 0 + 1) }, code)
  | none =>
      ({ strings := assign t.strings none (t.takeCode.1 - 1) (some value)
         stringIds := Assoc.set t.stringIds value t.takeCode.1
         stringRefs := assign t.stringRefs 0 (t.takeCode.1 - 1) 1
         freeStringCodes := t.takeCode.2 }, t.takeCode.1)

/-- `if (this.stringIds.get(value) === code) this.stringIds.delete(value)` -/
def forget (t : StringTable) (value : Option JsString) (code : Nat) : List (JsString × Nat) :=
  match value with
  | some value =>
      if Assoc.get? t.stringIds value = some code then Assoc.erase t.stringIds value
      else t.stringIds
  | none => t.stringIds

/-- What `_clearRid` does with the code of a row. -/
def releaseCode (t : StringTable) (code : Nat) : StringTable :=
  let index := code - 1
  let held := t.stringRefs.getD index 0
  let refs := (if held = 0 then 1 else held) - 1
  if refs = 0 then
    { strings := t.strings.set index none
      stringIds := t.forget (t.strings.getD index none) code
      stringRefs := t.stringRefs.set index refs
      freeStringCodes := code :: t.freeStringCodes }
  else
    { t with stringRefs := t.stringRefs.set index refs }

/-- `this.strings[code - 1]` -/
def stringAt (t : StringTable) (code : Nat) : Option JsString :=
  t.strings.getD (code - 1) none

/-! ## The table that the arrays represent -/

def table (t : StringTable) : Interning JsString JsString where
  size := t.strings.length
  value c := if c = 0 then none else t.stringAt c
  refs c := if c = 0 then 0 else t.stringRefs.getD (c - 1) 0
  code := Assoc.get? t.stringIds
  free := t.freeStringCodes

/-- The table agrees with the rows that use the codes. -/
structure Consistent (t : StringTable) (uses : Nat → Nat) : Prop where
  length : t.stringRefs.length = t.strings.length
  table : t.table.Consistent id uses

theorem consistent_empty : empty.Consistent (fun _ => 0) := by
  have htable : empty.table = Interning.empty := by
    refine Interning.ext rfl ?_ ?_ rfl rfl
    · funext c
      simp [table, empty, Interning.empty, stringAt]
    · funext c
      simp [table, empty, Interning.empty]
  exact ⟨rfl, htable ▸ Interning.consistent_empty id⟩

theorem getD_set_ne {α : Type} (array : List α) {i j : Nat} (h : i ≠ j) (value d : α) :
    (array.set i value).getD j d = array.getD j d := by
  rw [List.getD_eq_getElem?_getD, List.getD_eq_getElem?_getD, List.getElem?_set_ne h]

theorem getD_set_self {α : Type} (array : List α) {i : Nat} (h : i < array.length) (value d : α) :
    (array.set i value).getD i d = value := by
  rw [List.getD_eq_getElem?_getD, List.getElem?_set_self h]
  rfl

/-- Assigning inside the array or right behind it. -/
theorem getD_assign {α : Type} (array : List α) (hole : α) {i : Nat} (hi : i ≤ array.length)
    (value : α) (j : Nat) :
    (assign array hole i value).getD j hole = if j = i then value else array.getD j hole := by
  unfold assign
  by_cases hlt : i < array.length
  · rw [if_pos hlt]
    by_cases hj : j = i
    · rw [if_pos hj, hj, getD_set_self array hlt]
    · rw [if_neg hj, getD_set_ne array (fun h => hj h.symm)]
  · have hlen : i = array.length := by omega
    rw [if_neg hlt, hlen, Nat.sub_self, List.replicate_zero, List.append_nil]
    by_cases hj : j = array.length
    · simp [hj]
    · rw [if_neg hj]
      by_cases hjlt : j < array.length
      · simp [List.getElem?_append_left hjlt]
      · have hout : array.length + 1 ≤ j := by omega
        rw [List.getD_eq_getElem?_getD, List.getD_eq_getElem?_getD,
          List.getElem?_eq_none (by simpa using hout), List.getElem?_eq_none (by omega)]

theorem length_assign {α : Type} (array : List α) (hole : α) {i : Nat} (hi : i ≤ array.length)
    (value : α) :
    (assign array hole i value).length = max array.length (i + 1) := by
  unfold assign
  by_cases hlt : i < array.length
  · rw [if_pos hlt, List.length_set]
    omega
  · rw [if_neg hlt]
    simp only [List.length_append, List.length_replicate, List.length_singleton]
    omega

variable {t : StringTable} {uses : Nat → Nat}

theorem refs_set (h : t.Consistent uses) {code : Nat} (hused : uses code ≠ 0) (refs : Nat) :
    (fun c => if c = 0 then 0 else (t.stringRefs.set (code - 1) refs).getD (c - 1) 0) =
      Function.update t.table.refs code refs := by
  have hrange := h.table.range code hused
  have hindex : code - 1 < t.stringRefs.length := by
    have hsize : code ≤ t.strings.length := hrange.2
    rw [h.length]
    omega
  funext c
  by_cases hc : c = code
  · rw [hc, Function.update_self, if_neg (by omega), getD_set_self _ hindex]
  · rw [Function.update_of_ne hc]
    simp only [table]
    by_cases hzero : c = 0
    · rw [if_pos hzero, if_pos hzero]
    · rw [if_neg hzero, if_neg hzero, getD_set_ne _ (by omega)]

/-- A string put under a code without rows. -/
theorem table_place (hlength : t.stringRefs.length = t.strings.length) {code : Nat}
    (hpos : 1 ≤ code) (hle : code ≤ t.strings.length + 1) (value : JsString) (free : List Nat) :
    (StringTable.mk (assign t.strings none (code - 1) (some value))
        (Assoc.set t.stringIds value code) (assign t.stringRefs 0 (code - 1) 1) free).table =
      { t.table.place id code value with size := max t.strings.length code, free := free } := by
  have hshift : ∀ c, c ≠ 0 → (c - 1 = code - 1 ↔ c = code) := by
    intro c hc
    omega
  refine Interning.ext ?_ ?_ ?_ ?_ rfl
  · simp only [table]
    rw [length_assign _ _ (by omega), Nat.sub_add_cancel hpos]
  · funext c
    simp only [table, stringAt, Interning.place, Function.update_apply]
    rw [getD_assign _ _ (by omega)]
    by_cases hc : c = 0
    · rw [if_pos hc, if_neg (by omega), if_pos hc]
    · simp only [if_neg hc, hshift c hc]
  · funext c
    simp only [table, Interning.place, Function.update_apply]
    rw [getD_assign _ _ (by omega)]
    by_cases hc : c = 0
    · rw [if_pos hc, if_neg (by omega), if_pos hc]
    · simp only [if_neg hc, hshift c hc]
  · funext s
    simp only [table, Interning.place, Function.update_apply, Assoc.get?_set, id_eq]
    by_cases hs : s = value
    · rw [if_pos hs, if_pos hs.symm]
    · rw [if_neg hs, if_neg (fun h => hs h.symm)]

/-- Handing out a code is acquiring in the represented table. -/
theorem stringCode_eq (h : t.Consistent uses) (value : JsString) :
    (t.stringCode value).1.table = (t.table.acquire id value).1 ∧
      (t.stringCode value).2 = (t.table.acquire id value).2 ∧
      (t.stringCode value).1.stringRefs.length = (t.stringCode value).1.strings.length := by
  unfold stringCode Interning.acquire
  cases hcode : Assoc.get? t.stringIds value with
  | some code =>
      have hcode' : t.table.code (id value) = some code := hcode
      rcases (h.table.code _ _).mp hcode' with ⟨w, hw, -⟩
      have hused : uses code ≠ 0 := (h.table.live code).mp (by rw [hw]; rfl)
      have hrange := h.table.range code hused
      have hheld : t.table.refs code = t.stringRefs.getD (code - 1) 0 := if_neg (by omega)
      rw [hcode']
      refine ⟨Interning.ext rfl rfl ?_ rfl rfl, rfl, by simpa using h.length⟩
      simp only [hheld]
      exact refs_set h hused _
  | none =>
      have hcode' : t.table.code (id value) = none := hcode
      have hlengths : ∀ code, code ≤ t.strings.length + 1 →
          (assign t.stringRefs 0 (code - 1) 1).length =
            (assign t.strings none (code - 1) (some value)).length := by
        intro code hle
        rw [length_assign _ _ (by rw [h.length]; omega), length_assign _ _ (by omega), h.length]
      rw [hcode', takeCode]
      cases hfree : t.freeStringCodes with
      | cons code free =>
          have hmem : code ∈ t.table.free := by
            change code ∈ t.freeStringCodes
            rw [hfree]
            exact List.mem_cons_self
          have hrange := ((h.table.free code).mp hmem).1
          have hsize : code ≤ t.strings.length := hrange.2
          have htable : t.table.free = code :: free := hfree
          rw [htable]
          refine ⟨?_, rfl, hlengths code (by omega)⟩
          rw [table_place h.length hrange.1 (by omega), Nat.max_eq_left hsize]
          rfl
      | nil =>
          have htable : t.table.free = [] := hfree
          rw [htable]
          refine ⟨?_, rfl, hlengths _ (Nat.le_refl _)⟩
          rw [table_place h.length (by omega) (Nat.le_refl _), Nat.max_eq_right (Nat.le_succ _)]
          refine Interning.ext rfl rfl rfl rfl ?_
          exact htable.symm

/-- Letting go of a code is releasing it in the represented table. -/
theorem releaseCode_eq (h : t.Consistent uses) {code : Nat} (hused : uses code ≠ 0) :
    (t.releaseCode code).table = t.table.release id code ∧
      (t.releaseCode code).stringRefs.length = (t.releaseCode code).strings.length := by
  have hrange := h.table.range code hused
  have hsize : code ≤ t.strings.length := hrange.2
  have hheld : t.table.refs code = t.stringRefs.getD (code - 1) 0 := if_neg (by omega)
  have hne : t.stringRefs.getD (code - 1) 0 ≠ 0 := by
    rw [← hheld, h.table.refs]
    exact hused
  unfold releaseCode Interning.release
  simp only [if_neg hne, hheld]
  by_cases hlast : t.stringRefs.getD (code - 1) 0 - 1 = 0
  · rw [if_pos hlast, if_pos hlast]
    rcases Option.isSome_iff_exists.mp ((h.table.live code).mpr hused) with ⟨value, hvalue⟩
    have hstring : t.strings.getD (code - 1) none = some value := by
      simp only [table, stringAt] at hvalue
      rwa [if_neg (by omega)] at hvalue
    have hcode : Assoc.get? t.stringIds value = some code :=
      (h.table.code value code).mpr ⟨value, hvalue, rfl⟩
    refine ⟨Interning.ext ?_ ?_ ?_ ?_ rfl, by simpa using h.length⟩
    · simp [table, Interning.drop]
    · funext c
      simp only [table, stringAt, Interning.drop, Function.update_apply]
      by_cases hc : c = code
      · rw [if_neg (by omega), if_pos hc, hc, getD_set_self _ (by omega)]
      · by_cases hzero : c = 0
        · rw [if_pos hzero, if_neg hc, if_pos hzero]
        · rw [if_neg hzero, if_neg hc, if_neg hzero, getD_set_ne _ (by omega)]
    · rw [hlast]
      exact refs_set h hused 0
    · funext s
      simp only [Interning.drop, hvalue, forget, hstring, hcode, if_pos, id_eq,
        Function.update_apply]
      simp only [table, Assoc.get?_erase]
      by_cases hs : s = value
      · rw [if_pos hs, if_pos hs.symm]
      · rw [if_neg hs, if_neg (fun h => hs h.symm)]
  · rw [if_neg hlast, if_neg hlast]
    refine ⟨Interning.ext rfl rfl ?_ rfl rfl, by simpa using h.length⟩
    exact refs_set h hused _

/-- A row more that uses a string, and what its code stands for. -/
theorem stringCode_spec (h : t.Consistent uses) (value : JsString) :
    (t.stringCode value).1.Consistent
        (Function.update uses (t.stringCode value).2 (uses (t.stringCode value).2 + 1)) ∧
      1 ≤ (t.stringCode value).2 ∧
      (t.stringCode value).1.stringAt (t.stringCode value).2 = some value ∧
      ∀ code, uses code ≠ 0 → (t.stringCode value).1.stringAt code = t.stringAt code := by
  rcases stringCode_eq h value with ⟨htable, hcode, hlength⟩
  have hpos : 1 ≤ (t.stringCode value).2 := hcode ▸ h.table.acquire_pos value
  have hat : ∀ (t : StringTable) {code : Nat}, 1 ≤ code → t.table.value code = t.stringAt code :=
    fun t code hc => if_neg (by omega)
  refine ⟨⟨hlength, ?_⟩, hpos, ?_, ?_⟩
  · rw [htable, hcode]
    exact h.table.acquire value
  · rcases h.table.value_acquire value with ⟨w, hw, hkey⟩
    rw [← hat _ hpos, htable, hcode, hw]
    exact congrArg some hkey
  · intro code hused
    have hcodePos := (h.table.range code hused).1
    rw [← hat _ hcodePos, ← hat _ hcodePos, htable]
    exact h.table.value_acquire_of_used value hused

/-- A row less that uses a code. -/
theorem releaseCode_spec (h : t.Consistent uses) {code : Nat} (hused : uses code ≠ 0) :
    (t.releaseCode code).Consistent (Function.update uses code (uses code - 1)) ∧
      ∀ other, Function.update uses code (uses code - 1) other ≠ 0 →
        (t.releaseCode code).stringAt other = t.stringAt other := by
  rcases releaseCode_eq h hused with ⟨htable, hlength⟩
  have hrelease := h.table.release hused
  have hat : ∀ (t : StringTable) {code : Nat}, 1 ≤ code → t.table.value code = t.stringAt code :=
    fun t code hc => if_neg (by omega)
  refine ⟨⟨hlength, htable ▸ hrelease⟩, ?_⟩
  intro other hother
  have hpos := (hrelease.range other hother).1
  rw [← hat _ hpos, ← hat _ hpos, htable]
  by_cases hc : other = code
  · rw [hc, Function.update_self] at hother
    rw [hc]
    exact h.table.value_release_of_held hother
  · exact Interning.Consistent.value_release hc

end StringTable

end ObjyDb
