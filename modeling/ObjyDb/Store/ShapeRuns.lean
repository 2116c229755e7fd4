import ObjyDb.Store.PooledRows
import ObjyDb.Store.Registers
import ObjyDb.Store.ShapeColumns

/-!
# ShapeRuns — every run of the shape engine

A layout is found by a 32-bit hash.  As long as no two layouts that are in use share a hash, the
engine reads back what was stored.

* `Shape.Ok` — rows and columns of one shape;
* `ShapeStore.Sound` — shapes and locations;
* `ShapeStore.shapes_spec` — the runs;
* `engines_refine_rowMap` — both engines show the rows that the collection keeps.
-/

namespace ObjyDb

open Js

section

variable {collation : Collation}

/-! ## Columns of a shape -/

namespace Shape

theorem column_onColumn (s : Shape) (f : ValueColumn → ValueColumn) (name other : JsString) :
    (s.onColumn f name).column other = if name = other then f (s.column name) else s.column other := by
  rw [onColumn, column, Assoc.get?_set]
  split_ifs <;> rfl

/-- What a step on all columns leaves as it was. -/
theorem foldl_onColumn_frame (f : JsString → ValueColumn → ValueColumn) (names : List JsString)
    (s : Shape) :
    let s' := names.foldl (fun s name => s.onColumn (f name) name) s
    s'.id = s.id ∧ s'.fields = s.fields ∧ s'.rows = s.rows ∧ s'.free = s.free ∧
      s'.length = s.length := by
  induction names generalizing s with
  | nil => exact ⟨rfl, rfl, rfl, rfl, rfl⟩
  | cons name names ih =>
      rcases ih (s.onColumn (f name) name) with ⟨hid, hfields, hrows, hfree, hlength⟩
      exact ⟨hid, hfields, hrows, hfree, hlength⟩

theorem foldl_onColumn_column (f : JsString → ValueColumn → ValueColumn) {names : List JsString}
    (hnodup : names.Nodup) (s : Shape) (name : JsString) :
    (names.foldl (fun s name => s.onColumn (f name) name) s).column name =
      if name ∈ names then f name (s.column name) else s.column name := by
  induction names generalizing s with
  | nil => rfl
  | cons first names ih =>
      rcases List.nodup_cons.mp hnodup with ⟨hfirst, hnames⟩
      rw [List.foldl_cons, ih hnames, column_onColumn]
      by_cases hname : first = name
      · rw [if_neg (hname ▸ hfirst), if_pos hname, if_pos (hname ▸ List.mem_cons_self), hname]
      · rw [if_neg hname]
        simp only [List.mem_cons, Ne.symm hname, false_or]

theorem onColumns_frame (s : Shape) (f : JsString → ValueColumn → ValueColumn) :
    (s.onColumns f).id = s.id ∧ (s.onColumns f).fields = s.fields ∧
      (s.onColumns f).rows = s.rows ∧ (s.onColumns f).free = s.free ∧
      (s.onColumns f).length = s.length :=
  foldl_onColumn_frame f s.fields s

theorem column_onColumns {s : Shape} (hnodup : s.fields.Nodup)
    (f : JsString → ValueColumn → ValueColumn) (name : JsString) :
    (s.onColumns f).column name =
      if name ∈ s.fields then f name (s.column name) else s.column name :=
  foldl_onColumn_column f hnodup s name

/-! ## Rows of a shape -/

/-- The columns are consistent, and every row has a place of its own. -/
structure Ok (collation : Collation) (s : Shape) : Prop where
  fields : s.fields.Nodup
  columns : ∀ name, (s.column name).Ok collation
  rows : (Assoc.keys s.rows).Nodup
  apart : ∀ id id' row, Assoc.get? s.rows id = some row → Assoc.get? s.rows id' = some row → id = id'
  placed : ∀ id row, Assoc.get? s.rows id = some row → row < s.length ∧ row ∉ s.free
  free : s.free.Nodup
  below : ∀ row ∈ s.free, row < s.length

/-- The columns hold the values of a row. -/
def Holds (collation : Collation) (s : Shape) (id : JsString) (live : Fields) : Prop :=
  ∃ row, Assoc.get? s.rows id = some row ∧ ∀ name ∈ s.fields, ∃ v w,
    Assoc.get? live name = some v ∧ (s.column name).getForQuery row = some w ∧
      sortForKey collation w = sortForKey collation v

theorem ok_new {layout : Layout} (hnodup : layout.Nodup) : (new layout).Ok collation where
  fields := hnodup
  columns := by
    intro name
    have hnew : (new layout).column name = .new := by
      rw [new, column]
      cases hget : Assoc.get? (layout.map fun name => (name, ValueColumn.new)) name with
      | none => rfl
      | some column =>
          rcases List.mem_map.mp (Assoc.mem_of_get?_eq_some hget) with ⟨other, -, heq⟩
          cases heq
          rfl
    rw [hnew]
    exact ValueColumn.consistent_new
  rows := List.nodup_nil
  apart := by
    intro id id' row h
    cases h
  placed := by
    intro id row h
    cases h
  free := List.nodup_nil
  below := by
    intro row h
    cases h

/-- A value in another place is read as before. -/
theorem Holds.congr {s s' : Shape} {id : JsString} {live : Fields} (h : s.Holds collation id live)
    (hfields : s'.fields = s.fields) (hrow : Assoc.get? s'.rows id = Assoc.get? s.rows id)
    (hsame : ∀ row, Assoc.get? s.rows id = some row → ∀ name,
      (s'.column name).getForQuery row = (s.column name).getForQuery row) :
    s'.Holds collation id live := by
  rcases h with ⟨row, hget, hall⟩
  refine ⟨row, hrow.trans hget, fun name hname => ?_⟩
  rw [hsame row hget name]
  exact hall name (hfields ▸ hname)

/-- The place of a new row is no other row's. -/
theorem newRow_spec {s : Shape} (h : s.Ok collation) :
    (∀ id row, Assoc.get? s.rows id = some row → row ≠ s.free.headD s.length) ∧
      s.free.headD s.length < (if s.free = [] then s.length + 1 else s.length) ∧
      s.free.headD s.length ∉ s.free.tail ∧ s.free.tail.Nodup ∧ ∀ row ∈ s.free.tail, row ∈ s.free := by
  cases hfree : s.free with
  | nil =>
      refine ⟨fun id row hget => ?_, Nat.lt_succ_self _, List.not_mem_nil, List.nodup_nil,
        fun _ hrow => hrow⟩
      exact (h.placed id row hget).1.ne
  | cons first free =>
      have hnodup := h.free
      rw [hfree] at hnodup
      rcases List.nodup_cons.mp hnodup with ⟨hfirst, hrest⟩
      have hbelow := h.below first (by rw [hfree]; exact List.mem_cons_self)
      refine ⟨fun id row hget => ?_, hbelow, hfirst, hrest, fun _ hrow => List.mem_cons_of_mem _ hrow⟩
      rintro rfl
      exact (h.placed id _ hget).2 (by rw [hfree]; exact List.mem_cons_self)

theorem get?_of_mem_keys {live : Fields} (hlive : (Json.obj live).WellFormed) {name : JsString}
    (hname : name ∈ Assoc.keys live) :
    ∃ v, Assoc.get? live name = some v ∧ v.WellFormed := by
  rcases Option.isSome_iff_exists.mp (Assoc.get?_isSome_iff.mpr hname) with ⟨v, hv⟩
  exact ⟨v, hv, (Json.wellFormed_obj_iff.mp hlive).2 _ (Assoc.mem_of_get?_eq_some hv)⟩

/-- The column of a name after a row was pushed. -/
theorem column_push {s : Shape} (h : s.Ok collation) (id : JsString) (live : Fields)
    (name : JsString) :
    (s.push collation id live).column name =
      if name ∈ s.fields then
        ((s.column name).ensure (s.free.headD s.length)).set collation (s.free.headD s.length)
          (Assoc.get? live name)
      else s.column name := by
  unfold push
  dsimp only
  set s₁ : Shape := { s with
    free := s.free.tail
    length := if s.free = [] then s.length + 1 else s.length } with hs₁
  rcases onColumns_frame s₁ fun _ column => column.ensure (s.free.headD s.length) with
    ⟨-, hfields, -⟩
  have hensured := column_onColumns (s := s₁) h.fields
    (fun _ column => column.ensure (s.free.headD s.length)) name
  rw [column_onColumns]
  · change (if name ∈ Shape.fields (s₁.onColumns fun _ column => column.ensure _) then
      ValueColumn.set collation (Shape.column (s₁.onColumns fun _ column => column.ensure _) name) _ _
      else Shape.column (s₁.onColumns fun _ column => column.ensure _) name) = _
    rw [hfields, hensured]
    by_cases hname : name ∈ s.fields
    · have hname' : name ∈ s₁.fields := hname
      rw [if_pos hname', if_pos hname', if_pos hname]
      rfl
    · have hname' : name ∉ s₁.fields := hname
      rw [if_neg hname', if_neg hname', if_neg hname]
      rfl
  · change (Shape.fields (s₁.onColumns fun _ column => column.ensure _)).Nodup
    rw [hfields]
    exact h.fields

variable (collation) in
theorem push_frame (s : Shape) (id : JsString) (live : Fields) :
    (s.push collation id live).id = s.id ∧ (s.push collation id live).fields = s.fields ∧
      (s.push collation id live).rows = Assoc.set s.rows id (s.free.headD s.length) ∧
      (s.push collation id live).free = s.free.tail ∧
      (s.push collation id live).length = if s.free = [] then s.length + 1 else s.length := by
  unfold push
  dsimp only
  rcases onColumns_frame { s with
    free := s.free.tail
    length := if s.free = [] then s.length + 1 else s.length }
    fun _ column => column.ensure (s.free.headD s.length) with ⟨hid, hfields, hrows, hfree, hlength⟩
  generalize Shape.onColumns _ _ = ensured at hid hfields hrows hfree hlength ⊢
  rcases onColumns_frame { ensured with
    rows := Assoc.set ensured.rows id (s.free.headD s.length) } fun name column =>
      column.set collation (s.free.headD s.length) (Assoc.get? live name) with
    ⟨hid', hfields', hrows', hfree', hlength'⟩
  refine ⟨hid'.trans hid, hfields'.trans hfields, hrows'.trans ?_, hfree'.trans hfree,
    hlength'.trans hlength⟩
  rw [hrows]

/-- A new row: it holds its values, and the other rows keep theirs. -/
theorem push_spec {s : Shape} (h : s.Ok collation) {id : JsString} (hnew : id ∉ Assoc.keys s.rows)
    {live : Fields} (hlive : (Json.obj live).WellFormed)
    (hfields : ∀ name ∈ s.fields, name ∈ Assoc.keys live) :
    (s.push collation id live).Ok collation ∧ (s.push collation id live).Holds collation id live ∧
      ∀ other fields, s.Holds collation other fields →
        (s.push collation id live).Holds collation other fields := by
  rcases push_frame collation s id live with ⟨-, hsame, hrows, hfree, hlength⟩
  rcases newRow_spec h with ⟨hapart, hbelow, htail, hnodup, hsub⟩
  have hcolumn := column_push h id live
  generalize s.push collation id live = s' at *
  generalize s.free.headD s.length = row at *
  -- what the column of a name became
  have hset : ∀ name, (s'.column name).Ok collation ∧
      (∀ r, r ≠ row → (s'.column name).getForQuery r = (s.column name).getForQuery r) ∧
      (name ∈ s.fields → ∃ v w, Assoc.get? live name = some v ∧
        (s'.column name).getForQuery row = some w ∧
          sortForKey collation w = sortForKey collation v) := by
    intro name
    rw [hcolumn name]
    by_cases hname : name ∈ s.fields
    · rcases get?_of_mem_keys hlive (hfields name hname) with ⟨v, hv, hwf⟩
      rw [if_pos hname, hv]
      rcases ValueColumn.set_spec (ValueColumn.ok_ensure (h.columns name) row) row hwf with
        ⟨hok, hothers, w, hw, halike⟩
      refine ⟨hok, fun r hr => ?_, fun _ => ⟨v, w, rfl, hw, halike⟩⟩
      rw [hothers r hr, ValueColumn.getForQuery_ensure]
    · rw [if_neg hname]
      exact ⟨h.columns name, fun _ _ => rfl, fun hmem => absurd hmem hname⟩
  have hget : ∀ other, Assoc.get? s'.rows other =
      if id = other then some row else Assoc.get? s.rows other := by
    intro other
    rw [hrows, Assoc.get?_set]
  refine ⟨⟨hsame ▸ h.fields, fun name => (hset name).1, ?_, ?_, ?_, hfree ▸ hnodup, ?_⟩, ?_, ?_⟩
  · rw [hrows]
    exact Assoc.nodup_keys_set id row h.rows
  · intro a b r ha hb
    rw [hget] at ha hb
    split_ifs at ha hb with hida hidb hidb
    · exact hida.symm.trans hidb
    · cases ha
      exact absurd rfl (hapart b _ hb)
    · cases hb
      exact absurd rfl (hapart a _ ha)
    · exact h.apart a b r ha hb
  · intro a r ha
    rw [hget] at ha
    rw [hlength, hfree]
    split_ifs at ha
    · cases ha
      exact ⟨hbelow, htail⟩
    · rcases h.placed a r ha with ⟨hlt, hnot⟩
      refine ⟨?_, fun hmem => hnot (hsub r hmem)⟩
      split_ifs
      · omega
      · exact hlt
  · intro r hr
    rw [hfree] at hr
    have hlt := h.below r (hsub r hr)
    rw [hlength]
    split_ifs
    · omega
    · exact hlt
  · refine ⟨row, by rw [hget, if_pos rfl], fun name hname => ?_⟩
    exact (hset name).2.2 (hsame ▸ hname)
  · intro other fields hholds
    have hother : id ≠ other := by
      rintro rfl
      rcases hholds with ⟨r, hr, -⟩
      exact hnew (Assoc.get?_isSome_iff.mp (by rw [hr]; rfl))
    refine hholds.congr hsame (by rw [hget, if_neg hother]) fun r hr name => ?_
    exact (hset name).2.1 r (hapart other r hr)

/-- A row is removed: the other rows keep their values. -/
theorem remove_spec {s : Shape} (h : s.Ok collation) (id : JsString) :
    (s.remove collation id).Ok collation ∧ (s.remove collation id).id = s.id ∧
      (s.remove collation id).fields = s.fields ∧
      (s.remove collation id).rows = Assoc.erase s.rows id ∧
      ∀ other fields, other ≠ id → s.Holds collation other fields →
        (s.remove collation id).Holds collation other fields := by
  have herase : ∀ other, Assoc.get? (Assoc.erase s.rows id) other =
      if id = other then none else Assoc.get? s.rows other := Assoc.get?_erase s.rows id
  unfold remove
  cases hget : Assoc.get? s.rows id with
  | none =>
      have hsame : Assoc.erase s.rows id = s.rows := by
        refine List.filter_eq_self.mpr fun entry hentry => ?_
        have hnotMem := Assoc.get?_eq_none_iff.mp hget
        simpa using fun heq : entry.1 = id => hnotMem (heq ▸ List.mem_map_of_mem hentry)
      exact ⟨h, rfl, rfl, hsame.symm, fun _ _ _ hholds => hholds⟩
  | some row =>
      dsimp only
      rcases onColumns_frame s fun _ column => column.clear collation row with
        ⟨hid, hfields, hrows, hfree, hlength⟩
      have hcolumn := column_onColumns h.fields fun _ column => column.clear collation row
      generalize s.onColumns (fun _ column => column.clear collation row) = cleared at *
      have hclear : ∀ name, (cleared.column name).Ok collation ∧ ∀ r, r ≠ row →
          (cleared.column name).getForQuery r = (s.column name).getForQuery r := by
        intro name
        rw [hcolumn name]
        by_cases hname : name ∈ s.fields
        · rw [if_pos hname]
          exact ValueColumn.clear_spec (h.columns name) row
        · rw [if_neg hname]
          exact ⟨h.columns name, fun _ _ => rfl⟩
      -- the row of the object becomes the next free one
      rcases h.placed id row hget with ⟨hlt, hnot⟩
      refine ⟨⟨hfields ▸ h.fields, fun name => (hclear name).1, ?_, ?_, ?_, ?_, ?_⟩, hid, hfields,
        by rw [hrows], ?_⟩
      · dsimp only
        rw [hrows, Assoc.keys_erase]
        exact h.rows.filter _
      · intro a b r ha hb
        dsimp only at ha hb
        rw [hrows, herase] at ha hb
        split_ifs at ha hb
        exact h.apart a b r ha hb
      · intro a r ha
        dsimp only at ha ⊢
        rw [hrows, herase] at ha
        split_ifs at ha with hida
        rcases h.placed a r ha with ⟨hltR, hnotR⟩
        rw [hlength, hfree]
        refine ⟨hltR, fun hmem => ?_⟩
        rcases List.mem_cons.mp hmem with heq | hmem
        · exact hida (h.apart id a row hget (heq ▸ ha))
        · exact hnotR hmem
      · dsimp only
        rw [hfree]
        exact List.nodup_cons.mpr ⟨hnot, h.free⟩
      · intro r hr
        dsimp only at hr ⊢
        rw [hlength]
        rw [hfree] at hr
        rcases List.mem_cons.mp hr with heq | hmem
        · exact heq ▸ hlt
        · exact h.below r hmem
      · intro other fields hne hholds
        refine hholds.congr hfields ?_ fun r hr name => ?_
        · dsimp only
          rw [hrows, herase, if_neg (Ne.symm hne)]
        · refine (hclear name).2 r ?_
          rintro rfl
          exact hne (h.apart other id _ hr hget)

/-- One field of a row is set: the row holds the new value, the other rows keep theirs. -/
theorem set_spec {s : Shape} (h : s.Ok collation) (id : JsString) {name : JsString}
    (hname : name ∈ s.fields) {value : Json} (hvalue : value.WellFormed) :
    (s.set collation id name value).Ok collation ∧ (s.set collation id name value).id = s.id ∧
      (s.set collation id name value).fields = s.fields ∧
      (s.set collation id name value).rows = s.rows ∧
      (∀ live, s.Holds collation id live →
        (s.set collation id name value).Holds collation id (Assoc.set live name value)) ∧
      ∀ other fields, other ≠ id → s.Holds collation other fields →
        (s.set collation id name value).Holds collation other fields := by
  unfold set
  cases hget : Assoc.get? s.rows id with
  | none =>
      refine ⟨h, rfl, rfl, rfl, fun live hholds => ?_, fun _ _ _ hholds => hholds⟩
      rcases hholds with ⟨row, hrow, -⟩
      rw [hget] at hrow
      cases hrow
  | some row =>
      dsimp only
      rw [if_pos hname]
      have hcolumn := column_onColumn s (fun column => column.set collation row (some value)) name
      rcases ValueColumn.set_spec (h.columns name) row hvalue with ⟨hok, hothers, w, hw, halike⟩
      -- only the column of the name changed, and only at the row
      have hset : ∀ other, ((s.onColumn (fun column => column.set collation row (some value))
          name).column other).Ok collation ∧ ∀ r, (r ≠ row ∨ other ≠ name) →
          ((s.onColumn (fun column => column.set collation row (some value))
            name).column other).getForQuery r = (s.column other).getForQuery r := by
        intro other
        rw [hcolumn other]
        by_cases heq : name = other
        · rw [if_pos heq, ← heq]
          refine ⟨hok, fun r hr => hothers r (hr.resolve_right fun hne => hne rfl)⟩
        · rw [if_neg heq]
          exact ⟨h.columns other, fun _ _ => rfl⟩
      refine ⟨⟨h.fields, fun other => (hset other).1, h.rows, h.apart, h.placed, h.free, h.below⟩,
        rfl, rfl, rfl, fun live hholds => ?_, fun other fields hne hholds => ?_⟩
      · rcases hholds with ⟨row', hrow', hall⟩
        rw [hget] at hrow'
        cases hrow'
        refine ⟨row, hget, fun other hother => ?_⟩
        rw [Assoc.get?_set]
        by_cases heq : name = other
        · refine ⟨value, w, by rw [if_pos heq], ?_, halike⟩
          rw [hcolumn other, if_pos heq]
          exact hw
        · rcases hall other hother with ⟨v, w', hv, hw', halike'⟩
          refine ⟨v, w', by rw [if_neg heq]; exact hv, ?_, halike'⟩
          rw [(hset other).2 row (Or.inr (Ne.symm heq))]
          exact hw'
      · refine hholds.congr rfl rfl fun r hr column => ?_
        refine (hset column).2 r (Or.inl ?_)
        rintro rfl
        exact hne (h.apart other id _ hr hget)

/-! ## Reading a row -/

/-- A row shows fields: the same names, and values that differ in the order of fields only. -/
def SameFields (collation : Collation) (shown live : Fields) : Prop :=
  (Assoc.keys shown).Nodup ∧ ∀ name,
    (Assoc.get? shown name).map (sortForKey collation) =
      (Assoc.get? live name).map (sortForKey collation)

theorem foldl_assignRead (value : JsString → Option Json) (names : List JsString) (out : Fields) :
    ((Assoc.keys out).Nodup →
      (Assoc.keys (names.foldl (fun out name => assignRead out name (value name)) out)).Nodup) ∧
      ∀ name, Assoc.get? (names.foldl (fun out name => assignRead out name (value name)) out) name =
        if name ∈ names ∧ name ≠ js "__proto__" ∧ (value name).isSome then value name
        else Assoc.get? out name := by
  induction names generalizing out with
  | nil =>
      refine ⟨fun h => h, fun name => ?_⟩
      rw [if_neg (fun h => List.not_mem_nil h.1)]
      rfl
  | cons first names ih =>
      rcases ih (assignRead out first (value first)) with ⟨hnodup, hget⟩
      have hfirst : ((Assoc.keys out).Nodup →
          (Assoc.keys (assignRead out first (value first))).Nodup) ∧
          ∀ name, Assoc.get? (assignRead out first (value first)) name =
            if name = first ∧ name ≠ js "__proto__" ∧ (value name).isSome then value name
            else Assoc.get? out name := by
        unfold assignRead
        cases hvalue : value first with
        | none =>
            refine ⟨fun h => h, fun name => (if_neg ?_).symm⟩
            rintro ⟨rfl, -, hsome⟩
            rw [hvalue] at hsome
            cases hsome
        | some v =>
            dsimp only
            split_ifs with hproto
            · refine ⟨fun h => h, fun name => (if_neg ?_).symm⟩
              rintro ⟨rfl, hne, -⟩
              exact hne hproto
            · refine ⟨Assoc.nodup_keys_set first v, fun name => ?_⟩
              rw [Assoc.get?_set]
              by_cases hname : first = name
              · rw [if_pos hname, if_pos ⟨hname.symm, hname ▸ hproto, by rw [← hname, hvalue]; rfl⟩,
                  ← hname, hvalue]
              · rw [if_neg hname, if_neg (fun h => hname h.1.symm)]
      refine ⟨fun h => hnodup (hfirst.1 h), fun name => ?_⟩
      rw [List.foldl_cons, hget name, hfirst.2 name]
      by_cases hmem : name ∈ names
      · by_cases hown : name ≠ js "__proto__" ∧ (value name).isSome
        · rw [if_pos ⟨hmem, hown⟩, if_pos ⟨List.mem_cons_of_mem _ hmem, hown⟩]
        · rw [if_neg (fun h => hown h.2), if_neg (fun h => hown h.2), if_neg (fun h => hown h.2)]
      · rw [if_neg (fun h => hmem h.1)]
        simp only [List.mem_cons, hmem, or_false]

/-- A row of the right layout shows its fields. -/
theorem read_spec {s : Shape} {id : JsString} {live : Fields} (h : s.Holds collation id live)
    (hfields : ∀ name, name ∈ s.fields ↔ name ∈ Assoc.keys live) :
    ∃ shown, s.read id = some shown ∧
      SameFields collation shown (ObjectRowStore.ownFields live) := by
  rcases h with ⟨row, hrow, hall⟩
  refine ⟨_, by rw [read, hrow, Option.map_some], ?_⟩
  rcases foldl_assignRead (fun name => (s.column name).getForQuery row) s.fields [] with
    ⟨hnodup, hget⟩
  refine ⟨hnodup List.nodup_nil, fun name => ?_⟩
  have hown : Assoc.get? (ObjectRowStore.ownFields live) name =
      if name = js "__proto__" then none else Assoc.get? live name := by
    have hfilter := Assoc.get?_filter live (fun key => decide (key ≠ js "__proto__")) name
    rw [ObjectRowStore.ownFields, hfilter]
    by_cases hproto : name = js "__proto__"
    · simp [hproto]
    · simp [hproto]
  rw [hget name, hown]
  by_cases hproto : name = js "__proto__"
  · rw [if_pos hproto, if_neg (fun hboth => hboth.2.1 hproto)]
    rfl
  · rw [if_neg hproto]
    by_cases hname : name ∈ s.fields
    · rcases hall name hname with ⟨v, w, hv, hw, halike⟩
      rw [if_pos ⟨hname, hproto, by rw [hw]; rfl⟩, hw, hv, Option.map_some, Option.map_some, halike]
    · rw [if_neg (fun hboth => hname hboth.1),
        Assoc.get?_eq_none_iff.mpr (fun hmem => hname ((hfields name).mpr hmem))]
      rfl

end Shape

/-! ## Layouts -/

theorem mem_layoutOf (live : Fields) (name : JsString) :
    name ∈ layoutOf live ↔ name ∈ Assoc.keys live := by
  rw [layoutOf, List.mem_mergeSort, List.mem_dedup]

theorem nodup_layoutOf (live : Fields) : (layoutOf live).Nodup := by
  rw [layoutOf, (List.mergeSort_perm _ _).nodup_iff]
  exact List.nodup_dedup _

namespace ShapeStore

/-! ## Shapes and locations -/

/-- Every shape is in order, and the location of an object is the shape that has its row. -/
structure Sound (collation : Collation) (s : ShapeStore) : Prop where
  loc : (Assoc.keys s.loc).Nodup
  shapes : (Assoc.keys s.shapes).Nodup
  ok : ∀ sid shape, Assoc.get? s.shapes sid = some shape → shape.Ok collation ∧ shape.id = sid
  located : ∀ id sid, Assoc.get? s.loc id = some sid ↔
    ∃ shape, Assoc.get? s.shapes sid = some shape ∧ id ∈ Assoc.keys shape.rows

/-- What the store keeps of the fields that every object was last given. -/
def Keeps (collation : Collation) (s : ShapeStore) (records : JsString → Option Fields) : Prop :=
  ∀ id,
    match records id with
    | none => Assoc.get? s.loc id = none
    | some live => (Json.obj live).WellFormed ∧ ∃ sid shape, Assoc.get? s.loc id = some sid ∧
        Assoc.get? s.shapes sid = some shape ∧ (∀ name, name ∈ shape.fields ↔
          name ∈ Assoc.keys live) ∧ shape.Holds collation id live

theorem sound_new : new.Sound collation where
  loc := List.nodup_nil
  shapes := List.nodup_nil
  ok := by
    intro sid shape h
    cases h
  located := by
    intro id sid
    constructor
    · intro h
      cases h
    · rintro ⟨shape, h, -⟩
      cases h

/-- The records of the other objects stay when only the shape of one object changed. -/
theorem Keeps.update {s s' : ShapeStore} {records : JsString → Option Fields}
    (h : s.Keeps collation records) {id : JsString} {record : Option Fields}
    (hloc : ∀ other, other ≠ id → Assoc.get? s'.loc other = Assoc.get? s.loc other)
    (hshapes : ∀ other sid shape live, other ≠ id → Assoc.get? s.loc other = some sid →
      Assoc.get? s.shapes sid = some shape → shape.Holds collation other live →
      ∃ shape', Assoc.get? s'.shapes sid = some shape' ∧ shape'.fields = shape.fields ∧
        shape'.Holds collation other live)
    (hself : match record with
      | none => Assoc.get? s'.loc id = none
      | some live => (Json.obj live).WellFormed ∧ ∃ sid shape, Assoc.get? s'.loc id = some sid ∧
          Assoc.get? s'.shapes sid = some shape ∧ (∀ name, name ∈ shape.fields ↔
            name ∈ Assoc.keys live) ∧ shape.Holds collation id live) :
    s'.Keeps collation (Function.update records id record) := by
  intro other
  by_cases hid : other = id
  · rw [hid, Function.update_self]
    exact hself
  · rw [Function.update_of_ne hid]
    have hold := h other
    cases hrecord : records other with
    | none =>
        rw [hrecord] at hold
        dsimp only at hold ⊢
        rw [hloc other hid]
        exact hold
    | some live =>
        rw [hrecord] at hold
        rcases hold with ⟨hwf, sid, shape, hsid, hshape, hfields, hholds⟩
        rcases hshapes other sid shape live hid hsid hshape hholds with
          ⟨shape', hshape', hsame, hholds'⟩
        exact ⟨hwf, sid, shape', (hloc other hid).trans hsid, hshape',
          fun name => hsame ▸ hfields name, hholds'⟩

/-- An object without a location has no row. -/
theorem Sound.notMem (h : Sound collation s) {id : JsString} (hnone : Assoc.get? s.loc id = none)
    {sid : JsString} {shape : Shape} (hshape : Assoc.get? s.shapes sid = some shape) :
    id ∉ Assoc.keys shape.rows := by
  intro hmem
  have hloc := (h.located id sid).mpr ⟨shape, hshape, hmem⟩
  rw [hnone] at hloc
  cases hloc

theorem removeObject_spec {s : ShapeStore} (h : s.Sound collation) (id : JsString) :
    (s.removeObject collation id).Sound collation ∧
      Assoc.get? (s.removeObject collation id).loc id = none ∧
      ∀ records, s.Keeps collation records →
        (s.removeObject collation id).Keeps collation (Function.update records id none) := by
  unfold removeObject
  cases hold : Assoc.get? s.loc id with
  | none =>
      refine ⟨h, hold, fun records hkeeps => ?_⟩
      refine hkeeps.update (fun _ _ => rfl) (fun other sid shape live _ _ hshape hholds =>
        ⟨shape, hshape, rfl, hholds⟩) hold
  | some sid =>
      rcases (h.located id sid).mp hold with ⟨shape, hshape, -⟩
      dsimp only
      rw [hshape]
      dsimp only
      rcases h.ok sid shape hshape with ⟨hok, hsid⟩
      rcases Shape.remove_spec hok id with ⟨hok', hid', hfields', hrows', hothers⟩
      generalize shape.remove collation id = left at hok' hid' hfields' hrows' hothers ⊢
      have hloc : ∀ other, Assoc.get? (Assoc.erase s.loc id) other =
          if id = other then none else Assoc.get? s.loc other := Assoc.get?_erase s.loc id
      have hmem : ∀ other, other ∈ Assoc.keys left.rows ↔
          other ∈ Assoc.keys shape.rows ∧ other ≠ id := by
        intro other
        rw [hrows', Assoc.keys_erase]
        simp
      -- the shape is dropped with its last row
      have hget : ∀ other, Assoc.get? (if left.rows = [] then Assoc.erase s.shapes sid
          else Assoc.set s.shapes sid left) other =
            if sid = other then (if left.rows = [] then none else some left)
            else Assoc.get? s.shapes other := by
        intro other
        by_cases hempty : left.rows = []
        · rw [if_pos hempty, if_pos hempty, Assoc.get?_erase]
        · rw [if_neg hempty, if_neg hempty, Assoc.get?_set]
      refine ⟨⟨?_, ?_, ?_, ?_⟩, ?_, fun records hkeeps => hkeeps.update ?_ ?_ ?_⟩
      · rw [Assoc.keys_erase]
        exact h.loc.filter _
      · dsimp only
        split_ifs
        · rw [Assoc.keys_erase]
          exact h.shapes.filter _
        · exact Assoc.nodup_keys_set sid left h.shapes
      · intro other found hfound
        rw [hget] at hfound
        split_ifs at hfound with hsame hempty
        · cases hfound
          exact ⟨hok', hsame ▸ hid'.trans hsid⟩
        · exact h.ok other found hfound
      · intro other osid
        dsimp only
        rw [hloc, hget]
        by_cases hsame : sid = osid
        · rw [if_pos hsame, ← hsame]
          by_cases hother : id = other
          · rw [if_pos hother]
            constructor
            · intro hnone
              cases hnone
            · rintro ⟨found, hfound, hin⟩
              split_ifs at hfound
              cases hfound
              exact absurd hother.symm ((hmem other).mp hin).2
          · rw [if_neg hother, h.located other sid]
            constructor
            · rintro ⟨found, hfound, hin⟩
              have heq : found = shape := Option.some.inj (hfound.symm.trans hshape)
              have hleft := (hmem other).mpr ⟨heq ▸ hin, Ne.symm hother⟩
              have hnonempty : left.rows ≠ [] := by
                intro hempty
                rw [hempty] at hleft
                cases hleft
              exact ⟨left, if_neg hnonempty, hleft⟩
            · rintro ⟨found, hfound, hin⟩
              split_ifs at hfound
              cases hfound
              exact ⟨shape, hshape, ((hmem other).mp hin).1⟩
        · rw [if_neg hsame]
          by_cases hother : id = other
          · rw [if_pos hother, ← hother]
            constructor
            · intro hnone
              cases hnone
            · rintro ⟨found, hfound, hin⟩
              have hloc' := (h.located id osid).mpr ⟨found, hfound, hin⟩
              rw [hold] at hloc'
              exact absurd (Option.some.inj hloc') hsame
          · rw [if_neg hother]
            exact h.located other osid
      · rw [hloc, if_pos rfl]
      · intro other hne
        dsimp only
        rw [hloc, if_neg (Ne.symm hne)]
      · intro other osid found live hne hosid hfound hholds
        dsimp only
        rw [hget]
        by_cases hsame : sid = osid
        · have heq : found = shape := by
            rw [← hsame, hshape] at hfound
            exact (Option.some.inj hfound).symm
          rw [heq] at hholds ⊢
          have hleft := hothers other live hne hholds
          have hnonempty : left.rows ≠ [] := by
            intro hempty
            rcases hleft with ⟨row, hrow, -⟩
            rw [hempty] at hrow
            cases hrow
          rw [if_pos hsame, if_neg hnonempty]
          exact ⟨left, rfl, hfields', hleft⟩
        · rw [if_neg hsame]
          exact ⟨found, hfound, rfl, hholds⟩
      · dsimp only
        rw [hloc, if_pos rfl]

/-- The layout of the fields is not found under the hash of another one. -/
def FitsLayout (collation : Collation) (s : ShapeStore) (id : JsString) (live : Fields) : Prop :=
  live ≠ [] → ∀ shape,
    Assoc.get? (s.removeObject collation id).shapes (shapeId (layoutOf live)) = some shape →
      shape.fields = layoutOf live

/-- The shape that a rebuild pushes to. -/
theorem ensureShape_spec {s : ShapeStore} (h : s.Sound collation) {live : Fields}
    (hfits : ∀ shape, Assoc.get? s.shapes (shapeId (layoutOf live)) = some shape →
      shape.fields = layoutOf live) :
    (s.ensureShape (layoutOf live)).Ok collation ∧
      (s.ensureShape (layoutOf live)).id = shapeId (layoutOf live) ∧
      (s.ensureShape (layoutOf live)).fields = layoutOf live := by
  unfold ensureShape
  cases hget : Assoc.get? s.shapes (shapeId (layoutOf live)) with
  | none => exact ⟨Shape.ok_new (nodup_layoutOf live), rfl, rfl⟩
  | some shape =>
      rcases h.ok _ shape hget with ⟨hok, hid⟩
      exact ⟨hok, hid, hfits shape hget⟩

/-- A rebuild under a layout that fits keeps the fields. -/
theorem rebuild_spec {s : ShapeStore} (h : s.Sound collation) {id : JsString} {live : Fields}
    (hlive : (Json.obj live).WellFormed) (hfits : s.FitsLayout collation id live) :
    (s.rebuild collation id live).Sound collation ∧
      ∀ records, s.Keeps collation records → (s.rebuild collation id live).Keeps collation
        (Function.update records id (if live = [] then none else some live)) := by
  rcases removeObject_spec h id with ⟨hremoved, hnone, hkeeps⟩
  unfold rebuild
  unfold FitsLayout at hfits
  dsimp only
  generalize s.removeObject collation id = r at hremoved hnone hkeeps hfits ⊢
  by_cases hempty : live = []
  · rw [if_pos hempty, if_pos hempty]
    exact ⟨hremoved, hkeeps⟩
  · rw [if_neg hempty, if_neg hempty]
    rcases ensureShape_spec hremoved (hfits hempty) with ⟨hok, hid, hfields⟩
    -- the object has just been removed, so that no shape has it
    have hfresh : id ∉ Assoc.keys (r.ensureShape (layoutOf live)).rows := by
      unfold ensureShape
      cases hget : Assoc.get? r.shapes (shapeId (layoutOf live)) with
      | none => exact List.not_mem_nil
      | some shape => exact hremoved.notMem hnone hget
    have hfound : ∀ shape, Assoc.get? r.shapes (shapeId (layoutOf live)) = some shape →
        r.ensureShape (layoutOf live) = shape := by
      intro shape hget
      rw [ensureShape, hget, Option.getD_some]
    have hnew : Assoc.get? r.shapes (shapeId (layoutOf live)) = none →
        (r.ensureShape (layoutOf live)).rows = [] := by
      intro hget
      rw [ensureShape, hget]
      rfl
    have hcovers : ∀ name ∈ (r.ensureShape (layoutOf live)).fields, name ∈ Assoc.keys live :=
      fun name hname => (mem_layoutOf live name).mp (hfields ▸ hname)
    rcases Shape.push_spec hok hfresh hlive hcovers with ⟨hpushed, hself, hothers⟩
    rcases Shape.push_frame collation (r.ensureShape (layoutOf live)) id live with
      ⟨hid', hfields', hrows', -, -⟩
    generalize (r.ensureShape (layoutOf live)).push collation id live = pushed at *
    generalize r.ensureShape (layoutOf live) = shape at *
    have hpushedId : pushed.id = shapeId (layoutOf live) := hid'.trans hid
    generalize shapeId (layoutOf live) = sid at *
    have hget : ∀ other, Assoc.get? (Assoc.set r.shapes sid pushed) other =
        if sid = other then some pushed else Assoc.get? r.shapes other := Assoc.get?_set _ _ _
    have hloc : ∀ other, Assoc.get? (Assoc.set r.loc id pushed.id) other =
        if id = other then some sid else Assoc.get? r.loc other := by
      intro other
      rw [Assoc.get?_set, hpushedId]
    have hmem : ∀ other, other ∈ Assoc.keys pushed.rows ↔
        other ∈ Assoc.keys shape.rows ∨ other = id := by
      intro other
      rw [hrows', Assoc.keys_set, if_neg hfresh]
      simp
    refine ⟨⟨?_, ?_, ?_, ?_⟩, fun records hrecords => ?_⟩
    · exact Assoc.nodup_keys_set id _ hremoved.loc
    · exact Assoc.nodup_keys_set sid pushed hremoved.shapes
    · intro other found hother
      rw [hget] at hother
      split_ifs at hother with hsame
      · cases hother
        exact ⟨hpushed, hpushedId.trans hsame⟩
      · exact hremoved.ok other found hother
    · -- the object is located in the shape of its layout, the others where they were
      intro other osid
      dsimp only
      rw [hloc, hget]
      by_cases hother : id = other
      · rw [if_pos hother]
        constructor
        · intro heq
          rw [if_pos (Option.some.inj heq)]
          exact ⟨pushed, rfl, (hmem other).mpr (Or.inr hother.symm)⟩
        · rintro ⟨found, hfoundAt, hin⟩
          by_cases hsame : sid = osid
          · rw [hsame]
          · rw [if_neg hsame] at hfoundAt
            exact absurd hin (hother ▸ hremoved.notMem hnone hfoundAt)
      · rw [if_neg hother, hremoved.located other osid]
        by_cases hsame : sid = osid
        · rw [if_pos hsame, ← hsame]
          constructor
          · rintro ⟨found, hfoundAt, hin⟩
            have hheld := hfound found hfoundAt
            exact ⟨pushed, rfl, (hmem other).mpr (Or.inl (hheld ▸ hin))⟩
          · rintro ⟨found, hfoundAt, hin⟩
            cases hfoundAt
            have hold := ((hmem other).mp hin).resolve_right (Ne.symm hother)
            cases hheld : Assoc.get? r.shapes sid with
            | none =>
                rw [hnew hheld] at hold
                cases hold
            | some held => exact ⟨held, rfl, hfound held hheld ▸ hold⟩
        · rw [if_neg hsame]
    · -- what is recorded after the removal, with the new fields at the object
      have hbefore := hkeeps records hrecords
      have hafter : Keeps collation ⟨Assoc.set r.shapes sid pushed, Assoc.set r.loc id pushed.id⟩
          (Function.update (Function.update records id none) id (some live)) := by
        refine hbefore.update (fun other hne => ?_) (fun other osid found fields hne hosid
          hfoundAt hholds => ?_) ⟨hlive, sid, pushed, ?_, ?_, fun name => ?_, hself⟩
        · dsimp only
          rw [hloc, if_neg (Ne.symm hne)]
        · dsimp only
          rw [hget]
          by_cases hsame : sid = osid
          · rw [if_pos hsame]
            have hheld := hfound found (hsame ▸ hfoundAt)
            exact ⟨pushed, rfl, hheld ▸ hfields', hothers other fields (hheld ▸ hholds)⟩
          · rw [if_neg hsame]
            exact ⟨found, hfoundAt, rfl, hholds⟩
        · dsimp only
          rw [hloc, if_pos rfl]
        · dsimp only
          rw [hget, if_pos rfl]
        · rw [hfields', hfields]
          exact mem_layoutOf live name
      rw [Function.update_idem] at hafter
      exact hafter

/-- Whether `writeField` finds the field in the shape of the object. -/
def hasField (s : ShapeStore) (id field : JsString) : Bool :=
  ((Assoc.get? s.loc id).bind (Assoc.get? s.shapes)).any fun shape => decide (field ∈ shape.fields)

end ShapeStore

/-- A step of the shape engine. -/
inductive ShapeEvent where
  | row (e : RowEvent)
  | writeField (id field : JsString) (value : Json) (live : Fields)

namespace ShapeEvent

def WellFormed : ShapeEvent → Prop
  | row e => e.WellFormed
  | writeField _ _ value live => value.WellFormed ∧ (Json.obj live).WellFormed

instance : DecidablePred WellFormed
  | row e => inferInstanceAs (Decidable e.WellFormed)
  | writeField _ _ value live =>
      inferInstanceAs (Decidable (value.WellFormed ∧ (Json.obj live).WellFormed))

/-- The fields that every object was last given. -/
def record (records : JsString → Option Fields) : ShapeEvent → JsString → Option Fields
  | row e => e.record records
  | writeField id field value live =>
      match records id with
      | some held =>
          if field ∈ Assoc.keys held then
            Function.update records id (some (Assoc.set held field value))
          else RowEvent.record records (.rebuild id live false)
      | none => RowEvent.record records (.rebuild id live false)

end ShapeEvent

namespace ShapeStore

def clear : ShapeStore := new

/-- One step; the engine does not look at whether values are trusted. -/
def step (collation : Collation) (s : ShapeStore) : ShapeEvent → ShapeStore
  | .row (.rebuild id live _) => s.rebuild collation id live
  | .row (.removeObject id) => s.removeObject collation id
  | .row .clear => clear
  | .writeField id field value live => s.writeField collation id field value live

def run (collation : Collation) (s : ShapeStore) (events : List ShapeEvent) : ShapeStore :=
  events.foldl (step collation) s

/-- A rebuild finds no shape of another layout. -/
def Fits (collation : Collation) (s : ShapeStore) : ShapeEvent → Prop
  | .row (.rebuild id live _) => s.FitsLayout collation id live
  | .writeField id field _ live => s.hasField id field = false → s.FitsLayout collation id live
  | _ => True

/-- No two layouts that are in use at one time share a hash. -/
def FittingRun (collation : Collation) (s : ShapeStore) : List ShapeEvent → Prop
  | [] => True
  | e :: events => s.Fits collation e ∧ (s.step collation e).FittingRun collation events

theorem hasField_of_get? {s : ShapeStore} {id sid : JsString} {shape : Shape}
    (hsid : Assoc.get? s.loc id = some sid) (hshape : Assoc.get? s.shapes sid = some shape)
    (field : JsString) : s.hasField id field = decide (field ∈ shape.fields) := by
  rw [hasField, hsid, Option.bind_some, hshape, Option.any_some]

/-- A field is set in place, or the object is rebuilt. -/
theorem writeField_spec {s : ShapeStore} (h : s.Sound collation) {id field : JsString}
    {value : Json} (hvalue : value.WellFormed) {live : Fields} (hlive : (Json.obj live).WellFormed)
    (hfits : s.hasField id field = false → s.FitsLayout collation id live)
    {records : JsString → Option Fields} (hkeeps : s.Keeps collation records) :
    (s.writeField collation id field value live).Sound collation ∧
      (s.writeField collation id field value live).Keeps collation
        (ShapeEvent.record records (.writeField id field value live)) := by
  have hrecord := hkeeps id
  rw [writeField, ShapeEvent.record]
  cases hsid : Assoc.get? s.loc id with
  | none =>
      -- an object that no shape has is rebuilt
      have hunknown : s.hasField id field = false := by rw [hasField, hsid]; rfl
      rcases rebuild_spec h hlive (hfits hunknown) with ⟨hsound, hafter⟩
      cases hheld : records id with
      | none => exact ⟨hsound, hafter records hkeeps⟩
      | some held =>
          rw [hheld] at hrecord
          rcases hrecord with ⟨-, sid, -, hloc, -⟩
          rw [hsid] at hloc
          cases hloc
  | some sid =>
      rcases (h.located id sid).mp hsid with ⟨shape, hshape, hrow⟩
      dsimp only
      rw [hshape]
      dsimp only
      cases hheld : records id with
      | none =>
          rw [hheld] at hrecord
          dsimp only at hrecord
          rw [hsid] at hrecord
          cases hrecord
      | some held =>
          rw [hheld] at hrecord
          rcases hrecord with ⟨hwf, sid', shape', hloc, hshape', hfields, hholds⟩
          rw [hsid] at hloc
          cases hloc
          rw [hshape] at hshape'
          cases hshape'
          dsimp only
          by_cases hfield : field ∈ shape.fields
          · -- the layout has the field: one cell of its column changes
            rw [if_pos hfield, if_pos ((hfields field).mp hfield)]
            rcases h.ok sid shape hshape with ⟨hok, hid⟩
            rcases Shape.set_spec hok id hfield hvalue with
              ⟨hok', hid', hfields', hrows', hself, hothers⟩
            generalize shape.set collation id field value = written at *
            have hget : ∀ other, Assoc.get? (Assoc.set s.shapes sid written) other =
                if sid = other then some written else Assoc.get? s.shapes other :=
              Assoc.get?_set _ _ _
            refine ⟨⟨h.loc, Assoc.nodup_keys_set sid written h.shapes, ?_, ?_⟩,
              hkeeps.update (fun _ _ => rfl) ?_ ⟨?_, sid, written, hsid, ?_, ?_, hself held hholds⟩⟩
            · intro other found hfound
              dsimp only at hfound
              rw [hget] at hfound
              split_ifs at hfound with hsame
              · cases hfound
                exact ⟨hok', hid'.trans (hid.trans hsame)⟩
              · exact h.ok other found hfound
            · intro other osid
              dsimp only
              rw [h.located, hget]
              by_cases hsame : sid = osid
              · rw [if_pos hsame, ← hsame, hshape]
                constructor
                · rintro ⟨found, hfound, hin⟩
                  cases hfound
                  exact ⟨written, rfl, by rw [hrows']; exact hin⟩
                · rintro ⟨found, hfound, hin⟩
                  cases hfound
                  exact ⟨shape, rfl, by rw [← hrows']; exact hin⟩
              · rw [if_neg hsame]
            · intro other osid found fields hne hosid hfound hfieldsHeld
              dsimp only
              rw [hget]
              by_cases hsame : sid = osid
              · have heq : found = shape := by
                  rw [← hsame, hshape] at hfound
                  exact (Option.some.inj hfound).symm
                rw [heq] at hfieldsHeld ⊢
                rw [if_pos hsame]
                exact ⟨written, rfl, hfields', hothers other fields hne hfieldsHeld⟩
              · rw [if_neg hsame]
                exact ⟨found, hfound, rfl, hfieldsHeld⟩
            · exact wellFormed_set hwf field hvalue
            · dsimp only
              rw [hget, if_pos rfl]
            · intro name
              rw [hfields', hfields, Assoc.keys_set, if_pos ((hfields field).mp hfield)]
          · -- a new field needs another layout
            rw [if_neg hfield, if_neg (fun hmem => hfield ((hfields field).mpr hmem))]
            have hother : s.hasField id field = false := by
              rw [hasField_of_get? hsid hshape]
              simpa using hfield
            rcases rebuild_spec h hlive (hfits hother) with ⟨hsound, hafter⟩
            exact ⟨hsound, hafter records hkeeps⟩

/-! ## Runs -/

theorem step_spec {s : ShapeStore} (h : s.Sound collation) {e : ShapeEvent} (he : e.WellFormed)
    (hfits : s.Fits collation e) {records : JsString → Option Fields}
    (hkeeps : s.Keeps collation records) :
    (s.step collation e).Sound collation ∧ (s.step collation e).Keeps collation (e.record records) := by
  cases e with
  | writeField id field value live => exact writeField_spec h he.1 he.2 hfits hkeeps
  | row e =>
      cases e with
      | rebuild id live trusted =>
          rcases rebuild_spec h he hfits with ⟨hsound, hafter⟩
          exact ⟨hsound, hafter records hkeeps⟩
      | removeObject id =>
          rcases removeObject_spec h id with ⟨hsound, -, hafter⟩
          exact ⟨hsound, hafter records hkeeps⟩
      | clear => exact ⟨sound_new, fun _ => rfl⟩

/-- The fields that every object was last given in a run. -/
def lastFields (events : List ShapeEvent) : JsString → Option Fields :=
  events.foldl ShapeEvent.record fun _ => none

theorem run_rows {s : ShapeStore} (h : s.Sound collation) {events : List ShapeEvent}
    (hevents : ∀ e ∈ events, e.WellFormed) (hfits : s.FittingRun collation events)
    {records : JsString → Option Fields} (hkeeps : s.Keeps collation records) :
    (s.run collation events).Sound collation ∧
      (s.run collation events).Keeps collation (events.foldl ShapeEvent.record records) := by
  induction events generalizing s records with
  | nil => exact ⟨h, hkeeps⟩
  | cons e events ih =>
      rcases step_spec h (hevents e List.mem_cons_self) hfits.1 hkeeps with ⟨hsound, hafter⟩
      exact ih hsound (fun e' he' => hevents e' (List.mem_cons_of_mem _ he')) hfits.2 hafter

/-- In every run in which no two layouts in use share a hash, every object reads back the fields
that it was last given; only a field `__proto__` does not show. -/
theorem shapes_spec (collation : Collation) (events : List ShapeEvent)
    (hevents : ∀ e ∈ events, e.WellFormed) (hfits : new.FittingRun collation events) :
    ∀ id,
      match lastFields events id with
      | none => (run collation new events).read id = none
      | some live => ∃ shown, (run collation new events).read id = some shown ∧
          Shape.SameFields collation shown (ObjectRowStore.ownFields live) := by
  intro id
  have hstart : new.Keeps collation fun _ => none := fun _ => rfl
  have hlast := (run_rows sound_new hevents hfits hstart).2 id
  unfold lastFields
  cases hrecord : events.foldl ShapeEvent.record (fun _ => none) id with
  | none =>
      rw [hrecord] at hlast
      dsimp only at hlast ⊢
      rw [read, hlast]
      rfl
  | some live =>
      rw [hrecord] at hlast
      rcases hlast with ⟨-, sid, shape, hsid, hshape, hfields, hholds⟩
      rcases Shape.read_spec hholds hfields with ⟨shown, hshown, hsame⟩
      refine ⟨shown, ?_, hsame⟩
      rw [read, hsid, Option.bind_some, hshape, Option.bind_some]
      exact hshown

/-! ## Runs with few layouts -/

/-- The layouts that a step can build. -/
def layoutsOf : ShapeEvent → List Layout
  | .row (.rebuild _ live _) => [layoutOf live]
  | .writeField _ _ _ live => [layoutOf live]
  | _ => []

/-- The shapes have known layouts, each under its own hash. -/
def Known (known : Layout → Prop) (s : ShapeStore) : Prop :=
  ∀ sid shape, Assoc.get? s.shapes sid = some shape → known shape.fields ∧ sid = shapeId shape.fields

variable (collation) in
theorem known_removeObject {known : Layout → Prop} {s : ShapeStore} (h : s.Known known)
    (id : JsString) : (s.removeObject collation id).Known known := by
  unfold removeObject
  cases hsid : Assoc.get? s.loc id with
  | none => exact h
  | some sid =>
      dsimp only
      cases hshape : Assoc.get? s.shapes sid with
      | none => exact h
      | some shape =>
          have hfields : (shape.remove collation id).fields = shape.fields := by
            unfold Shape.remove
            cases Assoc.get? shape.rows id with
            | none => rfl
            | some row => exact (Shape.onColumns_frame shape _).2.1
          intro other found hfound
          dsimp only at hfound
          split_ifs at hfound
          · rw [Assoc.get?_erase] at hfound
            split_ifs at hfound
            exact h other found hfound
          · rw [Assoc.get?_set] at hfound
            split_ifs at hfound with hsame
            · cases hfound
              rw [hfields, ← hsame]
              exact h sid shape hshape
            · exact h other found hfound

theorem known_rebuild {known : Layout → Prop} {s : ShapeStore} (h : s.Known known) (id : JsString)
    {live : Fields} (hlive : known (layoutOf live)) :
    (s.rebuild collation id live).Known known := by
  have hremoved := known_removeObject collation h id
  unfold rebuild
  dsimp only
  split_ifs
  · exact hremoved
  · intro other found hfound
    dsimp only at hfound
    rw [Assoc.get?_set] at hfound
    split_ifs at hfound with hsame
    · cases hfound
      rw [(Shape.push_frame _ _ _ _).2.1, ← hsame]
      unfold ensureShape
      cases hget : Assoc.get? (s.removeObject collation id).shapes (shapeId (layoutOf live)) with
      | none => exact ⟨hlive, rfl⟩
      | some shape => exact hremoved _ shape hget
    · exact hremoved other found hfound

theorem known_step {known : Layout → Prop} {s : ShapeStore} (h : s.Known known) {e : ShapeEvent}
    (he : ∀ layout ∈ layoutsOf e, known layout) : (s.step collation e).Known known := by
  cases e with
  | row e =>
      cases e with
      | rebuild id live trusted => exact known_rebuild h id (he _ (List.mem_singleton_self _))
      | removeObject id => exact known_removeObject collation h id
      | clear =>
          intro sid shape hshape
          cases hshape
  | writeField id field value live =>
      have hlive := he _ (List.mem_singleton_self _)
      change (s.writeField collation id field value live).Known known
      unfold writeField
      cases hsid : Assoc.get? s.loc id with
      | none => exact known_rebuild h id hlive
      | some sid =>
          dsimp only
          cases hshape : Assoc.get? s.shapes sid with
          | none => exact h
          | some shape =>
              dsimp only
              split_ifs with hfield
              · have hfields : (shape.set collation id field value).fields = shape.fields := by
                  unfold Shape.set
                  cases Assoc.get? shape.rows id with
                  | none => rfl
                  | some row => dsimp only; rw [if_pos hfield]; rfl
                intro other found hfound
                dsimp only at hfound
                rw [Assoc.get?_set] at hfound
                split_ifs at hfound with hsame
                · cases hfound
                  rw [hfields, ← hsame]
                  exact h sid shape hshape
                · exact h other found hfound
              · exact known_rebuild h id hlive

/-- Layouts that differ have different hashes. -/
theorem fittingRun_of_known {known : Layout → Prop} {s : ShapeStore} (h : s.Known known)
    (hapart : ∀ a b, known a → known b → shapeId a = shapeId b → a = b) {events : List ShapeEvent}
    (hevents : ∀ e ∈ events, ∀ layout ∈ layoutsOf e, known layout) :
    s.FittingRun collation events := by
  induction events generalizing s with
  | nil => trivial
  | cons e events ih =>
      have he := hevents e List.mem_cons_self
      have hfits : ∀ id live, known (layoutOf live) → s.FitsLayout collation id live := by
        intro id live hlive _ shape hshape
        rcases known_removeObject collation h id _ shape hshape with ⟨hknown, hid⟩
        exact (hapart _ _ hlive hknown hid).symm
      refine ⟨?_, ih (known_step h he) fun e' he' => hevents e' (List.mem_cons_of_mem _ he')⟩
      cases e with
      | row e =>
          cases e with
          | rebuild id live trusted => exact hfits id live (he _ (List.mem_singleton_self _))
          | _ => trivial
      | writeField id field value live =>
          exact fun _ => hfits id live (he _ (List.mem_singleton_self _))

theorem layoutOf_single (name : JsString) (value : Json) : layoutOf [(name, value)] = [name] := by
  simp [layoutOf, Assoc.keys]

/-- Two layouts that are found under different hashes. -/
def mixedRun : List RowEvent :=
  [.rebuild (js "a") [(js "x", .bool true)] false,
    .rebuild (js "b") [(js "y", .str (js "t"))] false,
    .rebuild (js "c") [(js "x", .bool true)] false, .removeObject (js "a")]

theorem fittingRun_mixed : new.FittingRun collation (mixedRun.map .row) := by
  have hknown : new.Known fun layout => layout = [js "x"] ∨ layout = [js "y"] := by
    intro sid shape h
    cases h
  refine fittingRun_of_known hknown ?_ ?_
  · rintro a b (rfl | rfl) (rfl | rfl) h
    · rfl
    · exact absurd h (by decide +kernel)
    · exact absurd h (by decide +kernel)
    · rfl
  · simp [mixedRun, layoutsOf, layoutOf_single]

theorem shapes_spec_mixed :
    ∃ shown, (run .byUnits new (mixedRun.map .row)).read (js "c") = some shown ∧
      Shape.SameFields .byUnits shown [(js "x", .bool true)] :=
  shapes_spec .byUnits (mixedRun.map .row) (by decide +kernel)
    fittingRun_mixed (js "c")

/-- Two names whose layouts share a hash: the second object loses its field. -/
theorem collision_loses_field :
    (run .byUnits new [.row (.rebuild (js "a") [(js "ofdt", .bool true)] false),
      .row (.rebuild (js "b") [(js "htrda", .bool true)] false)]).read (js "b") = some [] := by
  have hcollision : shapeId [js "htrda"] = shapeId [js "ofdt"] := by decide +kernel
  simp only [run, List.foldl_cons, List.foldl_nil, step, rebuild, layoutOf_single, hcollision]
  decide +kernel

end ShapeStore

/-! ## Both engines -/

/-- The rows as the collection keeps them. -/
def rowMap (rows : List (JsString × Fields)) : RowEvent → List (JsString × Fields)
  | .rebuild id live _ => Collection.rebuildRow rows id live
  | .removeObject id => Assoc.erase rows id
  | .clear => []

/-- The fields that are recorded in a run come from its rebuilds. -/
theorem lastFields_plain {events : List RowEvent} (hevents : ∀ e ∈ events, e.WellFormed)
    (hplain : ∀ e ∈ events, e.Plain) {id : JsString} {live : Fields}
    (h : ObjectRowStore.lastFields events id = some live) :
    (Json.obj live).WellFormed ∧ js "__proto__" ∉ Assoc.keys live := by
  induction events using List.reverseRecOn generalizing id live with
  | nil => cases h
  | append_singleton events e ih =>
      have hbefore : ∀ other held, ObjectRowStore.lastFields events other = some held →
          (Json.obj held).WellFormed ∧ js "__proto__" ∉ Assoc.keys held := fun other held =>
        ih (fun e' he' => hevents e' (List.mem_append_left _ he'))
          (fun e' he' => hplain e' (List.mem_append_left _ he'))
      have he := hevents e (List.mem_append_right _ (List.mem_singleton_self _))
      have hp := hplain e (List.mem_append_right _ (List.mem_singleton_self _))
      rw [ObjectRowStore.lastFields, List.foldl_append, List.foldl_cons, List.foldl_nil] at h
      cases e with
      | rebuild other fields trusted =>
          rw [RowEvent.record, Function.update_apply] at h
          split_ifs at h
          · cases h
            exact ⟨he, hp⟩
          · exact hbefore id live h
      | removeObject other =>
          rw [RowEvent.record, Function.update_apply] at h
          split_ifs at h
          exact hbefore id live h
      | clear => cases h

theorem lastFields_row (events : List RowEvent) (records : JsString → Option Fields) :
    (events.map ShapeEvent.row).foldl ShapeEvent.record records =
      events.foldl RowEvent.record records := by
  rw [List.foldl_map]
  rfl

theorem get?_rowMap {events : List RowEvent} (hevents : ∀ e ∈ events, e.WellFormed)
    (hplain : ∀ e ∈ events, e.Plain) (id : JsString) :
    Assoc.get? (events.foldl rowMap []) id = ObjectRowStore.lastFields events id := by
  induction events using List.reverseRecOn generalizing id with
  | nil => rfl
  | append_singleton events e ih =>
      have hbefore := ih (fun e' he' => hevents e' (List.mem_append_left _ he'))
        (fun e' he' => hplain e' (List.mem_append_left _ he'))
      have he := hevents e (List.mem_append_right _ (List.mem_singleton_self _))
      have hp := hplain e (List.mem_append_right _ (List.mem_singleton_self _))
      have hlast : ObjectRowStore.lastFields (events ++ [e]) =
          e.record (ObjectRowStore.lastFields events) := by
        rw [ObjectRowStore.lastFields, List.foldl_append]
        rfl
      rw [hlast, List.foldl_append, List.foldl_cons, List.foldl_nil]
      cases e with
      | rebuild other live trusted =>
          rw [rowMap, RowEvent.record, Function.update_apply, Collection.rebuildRow]
          by_cases hempty : live = []
          · rw [if_pos hempty, if_pos hempty, Assoc.get?_erase, hbefore]
            simp only [eq_comm]
          · have hfields := ObjectRowStore.ownFields_of_plain hp
            rw [ObjectRowStore.ownFields] at hfields
            rw [if_neg hempty, if_neg hempty, Assoc.get?_set, Assoc.get?_erase, hbefore,
              foldl_assign (Json.wellFormed_obj_iff.mp he).1, hfields]
            by_cases hother : other = id
            · rw [if_pos hother, if_pos hother.symm]
            · rw [if_neg hother, if_neg (Ne.symm hother), if_neg hother]
      | removeObject other =>
          rw [rowMap, RowEvent.record, Function.update_apply, Assoc.get?_erase, hbefore]
          simp only [eq_comm]
      | clear => rfl

end

/-- The two engines are interchangeable: after every run without a field `__proto__` in which no two
layouts in use share a hash, both show the rows that the collection keeps. -/
theorem engines_refine_rowMap (collation : Collation) (config : ValueDirectoryConfig)
    (events : List RowEvent) (hevents : ∀ e ∈ events, e.WellFormed)
    (hplain : ∀ e ∈ events, e.Plain)
    (hfits : ShapeStore.new.FittingRun collation (events.map .row)) (id : JsString) :
    match Assoc.get? (events.foldl rowMap []) id with
    | none => (ObjectRowStore.run collation (.new config) events).read id = none ∧
        (ShapeStore.run collation .new (events.map .row)).read id = none
    | some live =>
        (∃ shown, (ObjectRowStore.run collation (.new config) events).read id = some shown ∧
          ValueDirectory.AlikeFields collation config shown live) ∧
        ∃ shown, (ShapeStore.run collation .new (events.map .row)).read id = some shown ∧
          Shape.SameFields collation shown live := by
  have hshape := ShapeStore.shapes_spec collation (events.map .row) (by
    simpa [ShapeEvent.WellFormed] using hevents) hfits id
  have hobject := (ObjectRowStore.rows_spec collation config events hevents).2.2.1 id
  have hrecords : ShapeStore.lastFields (events.map .row) = ObjectRowStore.lastFields events :=
    lastFields_row events fun _ => none
  rw [hrecords] at hshape
  rw [get?_rowMap hevents hplain]
  cases hrecord : ObjectRowStore.lastFields events id with
  | none =>
      rw [hrecord] at hshape hobject
      exact ⟨hobject, hshape⟩
  | some live =>
      have hproto := (lastFields_plain hevents hplain hrecord).2
      rw [hrecord] at hshape hobject
      rcases hshape with ⟨right, hright, hsame⟩
      rcases Option.isSome_iff_exists.mp (hobject.2 hproto) with ⟨left, hleft⟩
      have halike := hobject.1 left hleft
      rw [ObjectRowStore.ownFields_of_plain hproto] at halike hsame
      exact ⟨⟨left, hleft, halike⟩, right, hright, hsame⟩

theorem engines_refine_rowMap_mixed :
    (∃ shown, (ObjectRowStore.run .byUnits (.new defaultValueDirectory)
        ShapeStore.mixedRun).read (js "c") = some shown ∧
        ValueDirectory.AlikeFields .byUnits defaultValueDirectory shown [(js "x", .bool true)]) ∧
      ∃ shown, (ShapeStore.run .byUnits .new (ShapeStore.mixedRun.map .row)).read (js "c") =
        some shown ∧ Shape.SameFields .byUnits shown [(js "x", .bool true)] :=
  engines_refine_rowMap .byUnits defaultValueDirectory ShapeStore.mixedRun (by decide +kernel)
    (by decide +kernel) ShapeStore.fittingRun_mixed (js "c")

end ObjyDb
