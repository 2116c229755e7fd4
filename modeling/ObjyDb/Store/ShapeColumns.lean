import ObjyDb.Store.ShapeStore

/-!
# ShapeColumns — the codes of a value column

A `ValueColumn` keeps every distinct value once and counts the rows that use its code.  It is the
interning table over the keys of values.

* `Consistent` — keys, values and counts agree with the rows that use the codes;
* `set_spec`, `clear_spec` — a row gets a value or loses it, and the other rows keep theirs.
-/

namespace ObjyDb

open Js

/-! ## Keys of values -/

theorem valueKind_colon (value : Option Json) : unit ':' ∉ valueKind value := by
  rcases value with _ | _ | _ | _ | _ | _ | _ <;> dsimp only [valueKind] <;> decide

/-- A text is cut at its first separator in one way. -/
theorem kinds_apart {sep : CodeUnit} {left left' right right' : JsString} (hleft : sep ∉ left)
    (hleft' : sep ∉ left') (h : left ++ sep :: right = left' ++ sep :: right') :
    left = left' ∧ right = right' := by
  have htake : ∀ {text rest : JsString}, sep ∉ text →
      (text ++ sep :: rest).takeWhile (fun u => decide (u ≠ sep)) = text := by
    intro text rest hnot
    rw [List.takeWhile_append_of_pos, List.takeWhile_cons_of_neg, List.append_nil]
    · simp
    · intro u hu
      simpa using fun heq : u = sep => hnot (heq ▸ hu)
  have heq : left = left' := by
    calc left = (left ++ sep :: right).takeWhile (fun u => decide (u ≠ sep)) := (htake hleft).symm
      _ = (left' ++ sep :: right').takeWhile (fun u => decide (u ≠ sep)) := by rw [h]
      _ = left' := htake hleft'
  rw [heq] at h
  exact ⟨heq, (List.cons.inj (List.append_cancel_left h)).2⟩

/-- Equal keys stand for values that differ in the order of fields only. -/
theorem alike_of_columnKey {collation : Collation} {v : Json} {value : Option Json}
    (hv : v.WellFormed) (hvalue : ∀ w, value = some w → w.WellFormed)
    (h : columnKey collation value = columnKey collation (some v)) :
    ∃ w, value = some w ∧ sortForKey collation w = sortForKey collation v := by
  rcases kinds_apart (valueKind_colon value) (valueKind_colon (some v)) h with ⟨hkind, htext⟩
  cases value with
  | none => cases v <;> exact absurd hkind (by dsimp only [valueKind]; decide)
  | some w => exact ⟨w, rfl, stableKey_inj collation (hvalue w rfl) hv htext⟩

namespace ValueColumn

/-! ## The table that the arrays represent -/

/-- How many rows use a code. -/
def usesOf (codes : List Nat) (code : Nat) : Nat :=
  if code = 0 then 0 else codes.count code

def table (c : ValueColumn) : Interning JsString (Option Json) where
  size := c.values.length - 1
  value code := if c.refs.getD code 0 = 0 then none else some (c.values.getD code none)
  refs code := c.refs.getD code 0
  code := Assoc.get? c.keyToCode
  free := c.freeCodes

/-- Keys, values and counts agree with the rows that use the codes. -/
structure Consistent (collation : Collation) (c : ValueColumn) (uses : Nat → Nat) : Prop where
  length : c.refs.length = c.values.length
  reserved : 0 < c.values.length
  zero : c.values.getD 0 none = none
  table : c.table.Consistent (columnKey collation) uses
  wellFormed : ∀ code v, uses code ≠ 0 → c.values.getD code none = some v → v.WellFormed

section

variable {collation : Collation} {c : ValueColumn} {uses : Nat → Nat}

theorem consistent_new : new.Consistent collation (usesOf new.codes) where
  length := rfl
  reserved := Nat.one_pos
  zero := rfl
  table := by
    have huses : usesOf new.codes = fun _ => 0 := by
      funext code
      unfold usesOf
      split_ifs with hzero
      · rfl
      · exact List.count_eq_zero.mpr fun hmem => hzero (List.eq_of_mem_replicate hmem)
    have htable : new.table = Interning.empty := by
      refine Interning.ext rfl ?_ ?_ rfl rfl
      · funext code
        cases code <;> rfl
      · funext code
        cases code <;> rfl
    rw [huses, htable]
    exact Interning.consistent_empty _
  wellFormed := by
    intro code v _ hvalue
    cases code <;> cases hvalue

theorem Consistent.lt (h : Consistent collation c uses) {code : Nat} (hused : uses code ≠ 0) :
    0 < code ∧ code < c.values.length := by
  have hrange := h.table.range code hused
  have hsize : code ≤ c.values.length - 1 := hrange.2
  have hpos := h.reserved
  omega

/-! ## Taking and releasing a code -/

variable (collation) in
/-- A value put under a code that no row uses. -/
theorem table_place (hlength : c.refs.length = c.values.length) {code : Nat}
    (hpos : 0 < code) (hle : code ≤ c.values.length) (value : Option Json) (free : List Nat) :
    (({ c with
        keyToCode := Assoc.set c.keyToCode (columnKey collation value) code
        values := StringTable.assign c.values none code value
        refs := StringTable.assign c.refs 0 code 0
        freeCodes := free } : ValueColumn).hold code).table =
      { c.table.place (columnKey collation) code value with
        size := max (c.values.length - 1) code, free := free } := by
  have hrefs : ∀ k, ((StringTable.assign c.refs 0 code 0).set code
      ((StringTable.assign c.refs 0 code 0).getD code 0 + 1)).getD k 0 =
        if k = code then 1 else c.refs.getD k 0 := by
    intro k
    have hlt : code < (StringTable.assign c.refs 0 code 0).length := by
      rw [StringTable.length_assign _ _ (by omega)]
      omega
    by_cases hk : k = code
    · rw [if_pos hk, hk, StringTable.getD_set_self _ hlt, StringTable.getD_assign _ _ (by omega),
        if_pos rfl]
    · rw [if_neg hk, StringTable.getD_set_ne _ (Ne.symm hk),
        StringTable.getD_assign _ _ (by omega), if_neg hk]
  refine Interning.ext ?_ ?_ ?_ ?_ rfl
  · simp only [table, hold]
    rw [StringTable.length_assign _ _ hle]
    omega
  · funext k
    simp only [table, hold, Interning.place, Function.update_apply, hrefs]
    rw [StringTable.getD_assign _ _ hle]
    by_cases hk : k = code
    · rw [if_pos hk, if_neg (by omega), if_pos hk, if_pos hk]
    · rw [if_neg hk, if_neg hk, if_neg hk]
  · funext k
    simp only [table, hold, Interning.place, Function.update_apply, hrefs]
  · funext key
    simp only [table, hold, Interning.place, Function.update_apply, Assoc.get?_set]
    by_cases hkey : key = columnKey collation value
    · rw [if_pos hkey, if_pos hkey.symm]
    · rw [if_neg hkey, if_neg (Ne.symm hkey)]

/-- The counts after a code in use got `n` rows. -/
theorem table_setRefs (c : ValueColumn) {code n : Nat} (hlt : code < c.refs.length)
    (hheld : c.refs.getD code 0 ≠ 0) (hn : n ≠ 0) :
    ({ c with refs := c.refs.set code n } : ValueColumn).table =
      { c.table with refs := Function.update c.table.refs code n } := by
  have hrefs : ∀ k, (c.refs.set code n).getD k 0 = if k = code then n else c.refs.getD k 0 := by
    intro k
    by_cases hk : k = code
    · rw [if_pos hk, hk, StringTable.getD_set_self _ hlt]
    · rw [if_neg hk, StringTable.getD_set_ne _ (Ne.symm hk)]
  refine Interning.ext rfl ?_ ?_ rfl rfl
  · funext k
    simp only [table, hrefs]
    by_cases hk : k = code
    · rw [if_pos hk, if_neg hn, hk, if_neg hheld]
    · rw [if_neg hk]
  · funext k
    simp only [table, hrefs, Function.update_apply]

/-- `_codeFor` and the count are one step of the interning table. -/
theorem codeFor_eq (h : c.Consistent collation uses) (value : Option Json) :
    ((c.codeFor collation value).1.hold (c.codeFor collation value).2).table =
        (c.table.acquire (columnKey collation) value).1 ∧
      (c.codeFor collation value).2 = (c.table.acquire (columnKey collation) value).2 := by
  unfold codeFor Interning.acquire
  cases hcode : Assoc.get? c.keyToCode (columnKey collation value) with
  | some code =>
      have hcode' : c.table.code (columnKey collation value) = some code := hcode
      rcases (h.table.code _ _).mp hcode' with ⟨w, hw, -⟩
      have hused : uses code ≠ 0 := (h.table.live code).mp (by rw [hw]; rfl)
      have hheld : c.refs.getD code 0 ≠ 0 := by
        have hrefs : c.refs.getD code 0 = uses code := h.table.refs code
        rw [hrefs]
        exact hused
      rw [hcode']
      refine ⟨?_, rfl⟩
      exact table_setRefs c (by rw [h.length]; exact (h.lt hused).2) hheld (Nat.succ_ne_zero _)
  | none =>
      have hcode' : c.table.code (columnKey collation value) = none := hcode
      have hreserved := h.reserved
      rw [hcode']
      cases hfree : c.freeCodes with
      | cons code free =>
          have hmem : code ∈ c.table.free := by
            change code ∈ c.freeCodes
            rw [hfree]
            exact List.mem_cons_self
          have hrange := ((h.table.free code).mp hmem).1
          have hsize : code ≤ c.values.length - 1 := hrange.2
          have htable : c.table.free = code :: free := hfree
          rw [htable]
          refine ⟨?_, rfl⟩
          have hplace := table_place collation h.length hrange.1 (by omega) value free
          rw [Nat.max_eq_left hsize] at hplace
          exact hplace
      | nil =>
          have htable : c.table.free = [] := hfree
          have hsize : c.table.size + 1 = c.values.length := by
            change c.values.length - 1 + 1 = c.values.length
            omega
          rw [htable]
          dsimp only
          rw [hsize]
          refine ⟨?_, rfl⟩
          have hplace := table_place collation h.length hreserved le_rfl value []
          rw [Nat.max_eq_right (Nat.sub_le _ _)] at hplace
          refine hplace.trans (Interning.ext rfl rfl rfl rfl ?_)
          exact htable.symm

/-- `_release` is the release of the interning table. -/
theorem release_eq (h : c.Consistent collation uses) {code : Nat} (hused : uses code ≠ 0) :
    (c.release collation code).table = c.table.release (columnKey collation) code := by
  have hlt := (h.lt hused).2
  have hrefs : c.refs.getD code 0 = uses code := h.table.refs code
  have hheld : c.refs.getD code 0 ≠ 0 := by
    rw [hrefs]
    exact hused
  have hvalue : c.table.value code = some (c.values.getD code none) := if_neg hheld
  unfold release Interning.release
  dsimp only
  have htableRefs : c.table.refs code = c.refs.getD code 0 := rfl
  rw [htableRefs]
  by_cases hlast : c.refs.getD code 0 - 1 = 0
  · rw [if_pos hlast, if_pos hlast]
    refine Interning.ext ?_ ?_ ?_ ?_ rfl
    · simp [table, Interning.drop]
    · funext k
      simp only [table, Interning.drop, Function.update_apply]
      by_cases hk : k = code
      · rw [if_pos hk, hk, StringTable.getD_set_self _ (by rw [h.length]; exact hlt), if_pos rfl]
      · rw [if_neg hk, StringTable.getD_set_ne _ (Ne.symm hk), StringTable.getD_set_ne _ (Ne.symm hk)]
    · funext k
      simp only [table, Interning.drop, Function.update_apply]
      by_cases hk : k = code
      · rw [if_pos hk, hk, StringTable.getD_set_self _ (by rw [h.length]; exact hlt)]
      · rw [if_neg hk, StringTable.getD_set_ne _ (Ne.symm hk)]
    · funext key
      simp only [Interning.drop, hvalue, Function.update_apply]
      simp only [table, Assoc.get?_erase]
      by_cases hkey : key = columnKey collation (c.values.getD code none)
      · rw [if_pos hkey, if_pos hkey.symm]
      · rw [if_neg hkey, if_neg (Ne.symm hkey)]
  · rw [if_neg hlast, if_neg hlast]
    exact table_setRefs c (by rw [h.length]; exact hlt) hheld hlast

namespace Consistent

/-- The value of a code in use. -/
theorem value_of_used (h : c.Consistent collation uses) {code : Nat} (hused : uses code ≠ 0) :
    c.table.value code = some (c.values.getD code none) := by
  have hrefs : c.refs.getD code 0 = uses code := h.table.refs code
  exact if_neg (by rw [hrefs]; exact hused)

/-- One row less uses a code. -/
theorem release (h : c.Consistent collation uses) {code : Nat} (hused : uses code ≠ 0) :
    (c.release collation code).Consistent collation (Function.update uses code (uses code - 1)) ∧
      ∀ k, Function.update uses code (uses code - 1) k ≠ 0 →
        (c.release collation code).values.getD k none = c.values.getD k none := by
  have htable : (c.release collation code).table.Consistent (columnKey collation)
      (Function.update uses code (uses code - 1)) := by
    rw [release_eq h hused]
    exact h.table.release hused
  have hcode := h.lt hused
  have hkept : ∀ k, k ≠ code →
      (c.release collation code).values.getD k none = c.values.getD k none := by
    intro k hk
    unfold ValueColumn.release
    dsimp only
    split_ifs
    · exact StringTable.getD_set_ne _ (Ne.symm hk) _ _
    · rfl
  -- a code that is still used keeps its value
  have hvalues : ∀ k, Function.update uses code (uses code - 1) k ≠ 0 →
      (c.release collation code).values.getD k none = c.values.getD k none := by
    intro k hk
    by_cases hkcode : k = code
    · rw [hkcode, Function.update_self] at hk
      have hrefs : c.refs.getD code 0 = uses code := h.table.refs code
      unfold ValueColumn.release
      dsimp only
      rw [hrefs, if_neg hk]
    · exact hkept k hkcode
  refine ⟨⟨?_, ?_, ?_, htable, ?_⟩, hvalues⟩
  · unfold ValueColumn.release
    dsimp only
    split_ifs
    · simpa using h.length
    · simpa using h.length
  · unfold ValueColumn.release
    dsimp only
    split_ifs
    · simpa using h.reserved
    · exact h.reserved
  · rw [hkept 0 (by omega)]
    exact h.zero
  · intro k v hk hv
    rw [hvalues k hk] at hv
    refine h.wellFormed k v ?_ hv
    by_cases hkcode : k = code
    · exact hkcode ▸ hused
    · rwa [Function.update_of_ne hkcode] at hk

/-- One row more gets a value. -/
theorem take (h : c.Consistent collation uses) {v : Json} (hv : v.WellFormed) :
    ((c.codeFor collation (some v)).1.hold (c.codeFor collation (some v)).2).Consistent collation
        (Function.update uses (c.codeFor collation (some v)).2
          (uses (c.codeFor collation (some v)).2 + 1)) ∧
      0 < (c.codeFor collation (some v)).2 ∧
      (∃ w, (c.codeFor collation (some v)).1.values.getD (c.codeFor collation (some v)).2 none =
        some w ∧ sortForKey collation w = sortForKey collation v) ∧
      ∀ k, uses k ≠ 0 →
        (c.codeFor collation (some v)).1.values.getD k none = c.values.getD k none := by
  rcases codeFor_eq h (some v) with ⟨htable, hcode⟩
  have htaken := h.table.acquire (some v)
  have hpos := h.table.acquire_pos (some v)
  rw [← htable, ← hcode] at htaken
  rw [← hcode] at hpos
  cases hget : Assoc.get? c.keyToCode (columnKey collation (some v)) with
  | some code =>
      have hsame : c.codeFor collation (some v) = (c, code) := by rw [codeFor, hget]
      have htableCode : c.table.code (columnKey collation (some v)) = some code := hget
      rw [hsame] at htaken hpos ⊢
      dsimp only at htaken hpos ⊢
      rcases (h.table.code _ _).mp htableCode with ⟨value, hvalue, hkey⟩
      have hused : uses code ≠ 0 := (h.table.live code).mp (by rw [hvalue]; rfl)
      have hheld : c.values.getD code none = value :=
        Option.some.inj ((h.value_of_used hused).symm.trans hvalue)
      refine ⟨⟨by simpa [hold] using h.length, h.reserved, h.zero, htaken, ?_⟩, hpos, ?_,
        fun _ _ => rfl⟩
      · intro k w hk hw
        refine h.wellFormed k w ?_ hw
        by_cases hkcode : k = code
        · exact hkcode ▸ hused
        · rwa [Function.update_of_ne hkcode] at hk
      · rw [hheld]
        exact alike_of_columnKey hv (fun w hw => h.wellFormed code w hused (hheld.trans hw)) hkey
  | none =>
      have hreserved := h.reserved
      have hnew : c.codeFor collation (some v) =
          ({ c with
            keyToCode := Assoc.set c.keyToCode (columnKey collation (some v))
              (c.freeCodes.headD c.values.length)
            values := StringTable.assign c.values none (c.freeCodes.headD c.values.length) (some v)
            refs := StringTable.assign c.refs 0 (c.freeCodes.headD c.values.length) 0
            freeCodes := c.freeCodes.tail }, c.freeCodes.headD c.values.length) := by
        rw [codeFor, hget]
      rw [hnew] at htaken hpos ⊢
      dsimp only at htaken hpos ⊢
      -- the code is free, or right behind the values
      have hcodes : uses (c.freeCodes.headD c.values.length) = 0 ∧
          c.freeCodes.headD c.values.length ≤ c.values.length := by
        cases hfree : c.freeCodes with
        | nil =>
            refine ⟨?_, le_rfl⟩
            by_contra hused
            exact absurd (h.lt hused).2 (lt_irrefl _)
        | cons code free =>
            have hmem : code ∈ c.table.free := by
              change code ∈ c.freeCodes
              rw [hfree]
              exact List.mem_cons_self
            rcases (h.table.free code).mp hmem with ⟨hrange, hzero⟩
            have hsize : code ≤ c.values.length - 1 := hrange.2
            exact ⟨hzero, by rw [List.headD_cons]; omega⟩
      generalize c.freeCodes.headD c.values.length = code at htaken hpos hcodes ⊢
      rcases hcodes with ⟨hunused, hle⟩
      have hvalues : ∀ k, (StringTable.assign c.values none code (some v)).getD k none =
          if k = code then some v else c.values.getD k none :=
        StringTable.getD_assign c.values none hle (some v)
      refine ⟨⟨?_, ?_, ?_, htaken, ?_⟩, hpos, ⟨v, ?_, rfl⟩, ?_⟩
      · simp only [hold, List.length_set]
        rw [StringTable.length_assign _ _ (by rw [h.length]; exact hle),
          StringTable.length_assign _ _ hle, h.length]
      · simp only [hold]
        rw [StringTable.length_assign _ _ hle]
        omega
      · simp only [hold]
        rw [hvalues, if_neg (by omega)]
        exact h.zero
      · intro k w hk hw
        simp only [hold] at hw
        rw [hvalues] at hw
        split_ifs at hw with hkcode
        · cases hw
          exact hv
        · rw [Function.update_of_ne hkcode] at hk
          exact h.wellFormed k w hk hw
      · rw [hvalues, if_pos rfl]
      · intro k hk
        rw [hvalues, if_neg]
        rintro rfl
        exact hk hunused

end Consistent

/-! ## Rows -/

/-- The column agrees with its own rows. -/
def Ok (collation : Collation) (c : ValueColumn) : Prop :=
  c.Consistent collation (usesOf c.codes)

theorem usesOf_set (codes : List Nat) {row : Nat} (hrow : row < codes.length) (code k : Nat) :
    usesOf (codes.set row code) k =
      usesOf codes k - (if k ≠ 0 ∧ codes.getD row 0 = k then 1 else 0) +
        (if k ≠ 0 ∧ code = k then 1 else 0) := by
  unfold usesOf
  by_cases hk : k = 0
  · simp [hk]
  · have hget : codes.getD row 0 = codes[row] := by
      rw [List.getD_eq_getElem?_getD, List.getElem?_eq_getElem hrow, Option.getD_some]
    rw [if_neg hk, if_neg hk, List.count_set hrow, hget]
    simp [hk]

theorem ensure_spec (c : ValueColumn) (row : Nat) :
    row < (c.ensure row).codes.length ∧ (∀ r, (c.ensure row).codeAt r = c.codeAt r) ∧
      (∀ k, usesOf (c.ensure row).codes k = usesOf c.codes k) ∧
      (c.ensure row).keyToCode = c.keyToCode ∧ (c.ensure row).values = c.values ∧
      (c.ensure row).refs = c.refs ∧ (c.ensure row).freeCodes = c.freeCodes := by
  unfold ensure
  by_cases hlt : row < c.codes.length
  · rw [if_pos hlt]
    exact ⟨hlt, fun _ => rfl, fun _ => rfl, rfl, rfl, rfl, rfl⟩
  · rw [if_neg hlt]
    have hpos : 0 < if c.codes.length = 0 then 8 else c.codes.length := by
      split_ifs
      · omega
      · omega
    rcases Arrays.TypedRidColumn.lt_grownLength row _ hpos with ⟨hgrown, hle⟩
    refine ⟨?_, fun r => ?_, fun k => ?_, rfl, rfl, rfl, rfl⟩
    · dsimp only
      rw [Arrays.TypedRidColumn.length_growTypedArray]
      · exact hgrown
      · omega
    · exact Arrays.TypedRidColumn.item_growTypedArray c.codes 0 _ r
    · unfold usesOf Arrays.TypedRidColumn.growTypedArray
      by_cases hk : k = 0
      · rw [if_pos hk, if_pos hk]
      · rw [if_neg hk, if_neg hk, List.count_append, List.count_replicate,
          if_neg (by simpa using Ne.symm hk), Nat.add_zero]

theorem Consistent.congr (h : c.Consistent collation uses) {uses' : Nat → Nat}
    (huses : ∀ k, uses' k = uses k) : c.Consistent collation uses' := by
  have heq : uses' = uses := funext huses
  rw [heq]
  exact h

/-- The codes of the rows do not matter to the values. -/
theorem Consistent.withCodes (h : c.Consistent collation uses) {c' : ValueColumn}
    (hkeys : c'.keyToCode = c.keyToCode) (hvalues : c'.values = c.values) (hrefs : c'.refs = c.refs)
    (hfree : c'.freeCodes = c.freeCodes) : c'.Consistent collation uses := by
  rcases c' with ⟨codes, keyToCode, values, refs, freeCodes⟩
  cases hkeys
  cases hvalues
  cases hrefs
  cases hfree
  exact ⟨h.length, h.reserved, h.zero, h.table, h.wellFormed⟩

theorem ok_ensure (h : c.Ok collation) (row : Nat) : (c.ensure row).Ok collation := by
  rcases ensure_spec c row with ⟨-, -, huses, hkeys, hvalues, hrefs, hfree⟩
  exact (h.congr huses).withCodes hkeys hvalues hrefs hfree

theorem getForQuery_ensure (c : ValueColumn) (row r : Nat) :
    (c.ensure row).getForQuery r = c.getForQuery r := by
  rcases ensure_spec c row with ⟨-, hcodes, -, -, hvalues, -⟩
  rw [getForQuery, getForQuery, hcodes, hvalues]

theorem usesOf_ne_zero {codes : List Nat} {row : Nat} (h : codes.getD row 0 ≠ 0) :
    usesOf codes (codes.getD row 0) ≠ 0 := by
  have hlt : row < codes.length := by
    by_contra hout
    exact h (by rw [List.getD_eq_getElem?_getD, List.getElem?_eq_none (by omega)]; rfl)
  have hmem : codes.getD row 0 ∈ codes := by
    rw [List.getD_eq_getElem?_getD, List.getElem?_eq_getElem hlt]
    exact List.getElem_mem hlt
  rw [usesOf, if_neg h]
  exact (List.count_pos_iff.mpr hmem).ne'

/-- The row lets go of its code; the values of the other rows stay. -/
theorem released_spec (h : c.Ok collation) {row : Nat} (hrow : row < c.codes.length) :
    let released := if c.codeAt row ≠ 0 then c.release collation (c.codeAt row) else c
    released.Consistent collation (usesOf (c.codes.set row 0)) ∧ released.codes = c.codes ∧
      ∀ k, usesOf (c.codes.set row 0) k ≠ 0 →
        released.values.getD k none = c.values.getD k none := by
  dsimp only
  by_cases hcode : c.codeAt row = 0
  · rw [if_neg (by simpa using hcode)]
    have huses : ∀ k, usesOf (c.codes.set row 0) k = usesOf c.codes k := by
      intro k
      have hheld : c.codes.getD row 0 = 0 := hcode
      rw [usesOf_set _ hrow, hheld, if_neg (by omega)]
      rfl
    exact ⟨h.congr huses, rfl, fun _ _ => rfl⟩
  · rw [if_pos hcode]
    have hused : usesOf c.codes (c.codeAt row) ≠ 0 := usesOf_ne_zero hcode
    rcases h.release hused with ⟨hreleased, hvalues⟩
    have huses : ∀ k, usesOf (c.codes.set row 0) k =
        Function.update (usesOf c.codes) (c.codeAt row) (usesOf c.codes (c.codeAt row) - 1) k := by
      intro k
      rw [usesOf_set _ hrow]
      by_cases hk : k = c.codeAt row
      · have hheld : k ≠ 0 ∧ c.codes.getD row 0 = k := ⟨hk ▸ hcode, hk.symm⟩
        rw [if_pos hheld, if_neg (by omega), hk, Function.update_self]
        rfl
      · have hother : ¬(k ≠ 0 ∧ c.codes.getD row 0 = k) := fun hboth => hk hboth.2.symm
        rw [if_neg hother, if_neg (by omega), Function.update_of_ne hk]
        rfl
    refine ⟨hreleased.congr huses, ?_, fun k hk => hvalues k (by rw [← huses]; exact hk)⟩
    unfold release
    dsimp only
    split_ifs <;> rfl

variable (collation) in
theorem codes_codeFor (c : ValueColumn) (value : Option Json) :
    (c.codeFor collation value).1.codes = c.codes := by
  unfold codeFor
  split <;> rfl

/-- A value in use by another row is found there after the codes of one row changed. -/
theorem getForQuery_of_kept {c' : ValueColumn} (h : c.Ok collation) {row code r : Nat}
    (hcodes : c'.codes = c.codes.set row code)
    (hzero : c'.values.getD 0 none = none)
    (hvalues : ∀ k, usesOf (c.codes.set row 0) k ≠ 0 →
      c'.values.getD k none = c.values.getD k none) (hr : r ≠ row) :
    c'.getForQuery r = c.getForQuery r := by
  have hcode : c'.codeAt r = c.codeAt r := by
    rw [codeAt, hcodes, StringTable.getD_set_ne _ (Ne.symm hr), codeAt]
  rw [getForQuery, getForQuery, hcode]
  by_cases hused : c.codeAt r = 0
  · rw [hused, hzero, h.zero]
  · have hheld : (c.codes.set row 0).getD r 0 = c.codeAt r :=
      StringTable.getD_set_ne _ (Ne.symm hr) _ _
    refine hvalues _ ?_
    rw [← hheld]
    exact usesOf_ne_zero (by rw [hheld]; exact hused)

/-- A row gets a value, and the other rows keep theirs. -/
theorem set_spec (h : c.Ok collation) (row : Nat) {v : Json} (hv : v.WellFormed) :
    (c.set collation row (some v)).Ok collation ∧
      (∀ r, r ≠ row → (c.set collation row (some v)).getForQuery r = c.getForQuery r) ∧
      ∃ w, (c.set collation row (some v)).getForQuery row = some w ∧
        sortForKey collation w = sortForKey collation v := by
  have hgrown := ok_ensure h row
  rcases ensure_spec c row with ⟨hrow, -⟩
  have hsame := getForQuery_ensure c row
  unfold set
  dsimp only
  generalize c.ensure row = d at hgrown hrow hsame ⊢
  rcases released_spec hgrown hrow with ⟨hreleased, hcodes, hkept⟩
  generalize (if d.codeAt row ≠ 0 then d.release collation (d.codeAt row) else d) = e
    at hreleased hcodes hkept ⊢
  rcases hreleased.take hv with ⟨htaken, hpos, hvalue, hvalues⟩
  have hcodesTaken := codes_codeFor collation e (some v)
  generalize e.codeFor collation (some v) = next at htaken hpos hvalue hvalues hcodesTaken ⊢
  rcases next with ⟨e', code⟩
  dsimp only at htaken hpos hvalue hvalues hcodesTaken ⊢
  rw [hcodesTaken, hcodes]
  have huses : ∀ k, usesOf (d.codes.set row code) k =
      Function.update (usesOf (d.codes.set row 0)) code (usesOf (d.codes.set row 0) code + 1) k := by
    intro k
    have hset : d.codes.set row code = (d.codes.set row 0).set row code := by rw [List.set_set]
    have hlength : row < (d.codes.set row 0).length := by rwa [List.length_set]
    rw [hset, usesOf_set _ hlength, StringTable.getD_set_self _ hrow, if_neg (by omega)]
    by_cases hk : k = code
    · rw [hk, if_pos ⟨by omega, rfl⟩, Function.update_self]
      rfl
    · rw [if_neg (fun hboth => hk hboth.2.symm), Function.update_of_ne hk]
      rfl
  have hcodeAt : (d.codes.set row code).getD row 0 = code := StringTable.getD_set_self _ hrow _ _
  refine ⟨(htaken.congr huses).withCodes rfl rfl rfl rfl, fun r hr => ?_, ?_⟩
  · rw [← hsame r]
    refine getForQuery_of_kept hgrown rfl htaken.zero (fun k hk => ?_) hr
    calc e'.values.getD k none
        = e.values.getD k none := hvalues k hk
      _ = d.values.getD k none := hkept k hk
  · rcases hvalue with ⟨w, hw, halike⟩
    refine ⟨w, ?_, halike⟩
    rw [getForQuery, codeAt, hcodeAt]
    exact hw

/-- A row loses its value, and the other rows keep theirs. -/
theorem clear_spec (h : c.Ok collation) (row : Nat) :
    (c.clear collation row).Ok collation ∧
      ∀ r, r ≠ row → (c.clear collation row).getForQuery r = c.getForQuery r := by
  unfold clear
  by_cases hcode : c.codeAt row = 0
  · rw [if_pos hcode]
    exact ⟨h, fun _ _ => rfl⟩
  · rw [if_neg hcode]
    have hrow : row < c.codes.length := by
      by_contra hout
      refine hcode ?_
      rw [codeAt, List.getD_eq_getElem?_getD, List.getElem?_eq_none (by omega)]
      rfl
    rcases released_spec h hrow with ⟨hreleased, hcodes, hkept⟩
    rw [if_pos hcode] at hreleased hkept
    exact ⟨hreleased.withCodes rfl rfl rfl rfl, fun r hr =>
      getForQuery_of_kept h rfl hreleased.zero hkept hr⟩

end

end ValueColumn

end ObjyDb
