import ObjyDb.Js.Document

/-!
# Decomposition — a document kept in parts

The values at some paths of a document may be taken out of it and kept in cells; writing the cells
back gives the document again (`Complete.overlay_eq`).  A document may also be split into two parts
that are merged again (`Split.merge_eq`).  All statements are about the view on a set `S` of paths,
so that a part of the document may be left open.
-/

namespace ObjyDb
namespace Js

/-! ## Well-formedness of edited documents -/

theorem wellFormed_fieldsOf {fields : Fields} (h : (Json.obj fields).WellFormed)
    (key : JsString) : (Json.obj (fieldsOf (Assoc.get? fields key))).WellFormed := by
  cases hget : Assoc.get? fields key with
  | none => exact Json.wellFormed_obj_iff.mpr ⟨List.nodup_nil, by simp [fieldsOf]⟩
  | some child =>
      have hchild := (Json.wellFormed_obj_iff.mp h).2 _ (Assoc.mem_of_get?_eq_some hget)
      cases child with
      | obj inner => exact hchild
      | _ => exact Json.wellFormed_obj_iff.mpr ⟨List.nodup_nil, by simp [fieldsOf]⟩

theorem wellFormed_set {fields : Fields} (h : (Json.obj fields).WellFormed) (key : JsString)
    {value : Json} (hv : value.WellFormed) :
    (Json.obj (Assoc.set fields key value)).WellFormed := by
  obtain ⟨hnodup, hfields⟩ := Json.wellFormed_obj_iff.mp h
  refine Json.wellFormed_obj_iff.mpr ⟨Assoc.nodup_keys_set key value hnodup, ?_⟩
  intro field hfield
  have hget := Assoc.get?_eq_some_of_mem (Assoc.nodup_keys_set key value hnodup) hfield
  rw [Assoc.get?_set] at hget
  split_ifs at hget with hkey
  · exact Option.some.inj hget ▸ hv
  · exact hfields (field.1, field.2) (Assoc.mem_of_get?_eq_some hget)

theorem wellFormed_assign {fields : Fields} (h : (Json.obj fields).WellFormed) (key : JsString)
    {value : Json} (hv : value.WellFormed) : (Json.obj (assign fields key value)).WellFormed := by
  unfold assign
  split_ifs
  · exact h
  · exact wellFormed_set h key hv

theorem wellFormed_filter {fields : Fields} (h : (Json.obj fields).WellFormed)
    (keep : JsString × Json → Bool) : (Json.obj (fields.filter keep)).WellFormed := by
  obtain ⟨hnodup, hfields⟩ := Json.wellFormed_obj_iff.mp h
  refine Json.wellFormed_obj_iff.mpr ⟨hnodup.sublist (List.filter_sublist.map Prod.fst), ?_⟩
  exact fun field hfield => hfields field (List.mem_of_mem_filter hfield)

theorem wellFormed_setParts (parts : Parts) {fields : Fields} (h : (Json.obj fields).WellFormed)
    {value : Json} (hv : value.WellFormed) :
    (Json.obj (setParts parts fields value)).WellFormed := by
  induction parts generalizing fields with
  | nil => exact h
  | cons key rest ih =>
      cases rest with
      | nil => exact wellFormed_assign h key hv
      | cons next rest =>
          rw [setParts_cons_cons]
          exact wellFormed_assign h key (ih (wellFormed_fieldsOf h key))

theorem wellFormed_unsetParts (parts : Parts) {value : Json} (h : value.WellFormed) :
    (unsetParts parts value).WellFormed := by
  rw [unsetParts]
  induction parts generalizing value with
  | nil => cases value <;> exact h
  | cons key rest ih =>
      cases value with
      | obj fields =>
          cases rest with
          | nil =>
              rw [unsetPathParts]
              split_ifs
              · exact wellFormed_filter h _
              · exact h
          | cons next rest =>
              rw [unsetPathParts_cons_cons]
              cases hget : Assoc.get? fields key with
              | none => exact h
              | some child =>
                  have hchild := (Json.wellFormed_obj_iff.mp h).2 _
                    (Assoc.mem_of_get?_eq_some hget)
                  dsimp only
                  split_ifs
                  · exact h
                  · exact wellFormed_filter h _
                  · exact wellFormed_set h key (ih hchild)
      | _ => cases rest <;> exact h

theorem wellFormed_mergeInto {value : Json} (h : value.WellFormed) (current : Option Json)
    (hc : ∀ c ∈ current, c.WellFormed) : (mergeInto value current).WellFormed := by
  induction value using Json.induct generalizing current with
  | obj upper ih =>
      cases current with
      | none => rw [mergeInto] <;> simp [h]
      | some c =>
          cases c with
          | obj base =>
              rw [mergeInto]
              have hfields := (Json.wellFormed_obj_iff.mp h).2
              have hbase := hc _ rfl
              clear hc h
              induction upper generalizing base with
              | nil => exact hbase
              | cons entry rest ihrest =>
                  obtain ⟨key, value⟩ := entry
                  rw [mergeInto.mergeFields]
                  refine ihrest (fun field hmem => ih field (List.mem_cons_of_mem _ hmem)) _
                    (fun field hmem => hfields field (List.mem_cons_of_mem _ hmem)) ?_
                  refine wellFormed_assign hbase key ?_
                  refine ih (key, value) List.mem_cons_self
                    (hfields (key, value) List.mem_cons_self) _ ?_
                  intro c hget
                  exact (Json.wellFormed_obj_iff.mp hbase).2 _ (Assoc.mem_of_get?_eq_some hget)
          | _ => rw [mergeInto] <;> simp [h]
  | _ => rw [mergeInto] <;> simp [h]

/-! ## Cells -/

/-- Values kept under their paths. -/
abbrev Cells := List (Parts × Json)

/-- Write the cells back into a document. -/
def overlay (cells : Cells) (fields : Fields) : Fields :=
  cells.foldl (fun out cell => setParts cell.1 out cell.2) fields

/-- The cell holds what `v` shows at its path. -/
structure CellOf (v : Json) (cell : Parts × Json) : Prop where
  ne_nil : cell.1 ≠ []
  noProto : js "__proto__" ∉ cell.1
  value : ∃ w, lookup v cell.1 = some w ∧ ∀ q, cell.2.at q = w.at q

/-- `base` shows what `v` shows, except near the paths of the cells, and these hold the rest. -/
structure Complete (S : Parts → Prop) (base : Json) (cells : Cells) (v : Json) : Prop where
  base : ∀ q, S q → base.at q = v.at q ∨
    base.at q = .absent ∧ ∃ cell ∈ cells, Related cell.1 q
  cells : ∀ cell ∈ cells, CellOf v cell

theorem overlay_cons (cell : Parts × Json) (cells : Cells) (fields : Fields) :
    overlay (cell :: cells) fields = overlay cells (setParts cell.1 fields cell.2) := rfl

theorem CellOf.at_append {v : Json} {cell : Parts × Json} (h : CellOf v cell) (q : Parts) :
    v.at (cell.1 ++ q) = cell.2.at q := by
  obtain ⟨w, hw, hat⟩ := h.value
  rw [Js.at_append hw, hat]

theorem CellOf.at_prefix {v : Json} {cell : Parts × Json} (h : CellOf v cell) {q : Parts}
    (hq : q <+: cell.1) (hne : q ≠ cell.1) : v.at q = .object := by
  obtain ⟨w, hw, -⟩ := h.value
  obtain ⟨r, hr⟩ := hq
  cases r with
  | nil => exact absurd (by simpa using hr) hne
  | cons key r =>
      rw [← hr] at hw
      exact at_of_prefix hw

/-- Near the path of a cell, the document it is written into shows what `v` shows. -/
theorem CellOf.at_write {v : Json} {cell : Parts × Json} (h : CellOf v cell) (fields : Fields)
    {q : Parts} (hrel : Related cell.1 q) :
    (Json.obj (setParts cell.1 fields cell.2)).at q = v.at q := by
  rcases hrel with ⟨r, rfl⟩ | hpre
  · rw [at_setParts_append h.ne_nil h.noProto, h.at_append]
  · by_cases heq : q = cell.1
    · have hat := at_setParts_append h.ne_nil h.noProto fields cell.2 []
      have hv := h.at_append []
      rw [List.append_nil] at hat hv
      rw [heq, hat, hv]
    · rw [at_setParts_above h.noProto _ _ hpre heq, h.at_prefix hpre heq]

/-- Other cells under the same paths, and more, complete the document as well. -/
theorem Complete.mono {S : Parts → Prop} {base v : Json} {cells cells' : Cells}
    (h : Complete S base cells v) (hcells : ∀ cell ∈ cells', CellOf v cell)
    (hcover : ∀ cell ∈ cells, ∃ cell' ∈ cells', cell'.1 = cell.1) : Complete S base cells' v where
  cells := hcells
  base := by
    intro q hq
    rcases h.base q hq with hat | ⟨habsent, cell, hcell, hrel⟩
    · exact .inl hat
    · obtain ⟨cell', hcell', heq⟩ := hcover cell hcell
      exact .inr ⟨habsent, cell', hcell', heq ▸ hrel⟩

/-- Writing one cell back leaves a document that the other cells complete. -/
theorem Complete.write {S : Parts → Prop} {fields : Fields} {cell : Parts × Json} {cells : Cells}
    {v : Json} (h : Complete S (.obj fields) (cell :: cells) v) :
    Complete S (.obj (setParts cell.1 fields cell.2)) cells v where
  cells := fun c hc => h.cells c (List.mem_cons_of_mem _ hc)
  base := by
    intro q hq
    have hcell := h.cells cell List.mem_cons_self
    by_cases hrel : Related cell.1 q
    · exact Or.inl (hcell.at_write fields hrel)
    · rw [at_setParts_of_not_related hcell.noProto _ _ hrel]
      rcases h.base q hq with hat | ⟨habs, c, hc, hcq⟩
      · exact Or.inl hat
      · rcases List.mem_cons.mp hc with rfl | hc
        · exact absurd hcq hrel
        · exact Or.inr ⟨habs, c, hc, hcq⟩

/-- With all cells written back, the document shows what `v` shows. -/
theorem Complete.overlay_eq {S : Parts → Prop} {fields : Fields} {cells : Cells} {v : Json}
    (h : Complete S (.obj fields) cells v) :
    ∀ q, S q → (Json.obj (overlay cells fields)).at q = v.at q := by
  induction cells generalizing fields with
  | nil =>
      intro q hq
      rcases h.base q hq with hat | ⟨-, c, hc, -⟩
      · exact hat
      · cases hc
  | cons cell cells ih =>
      rw [overlay_cons]
      exact ih h.write

/-- Remove several paths. -/
def unsetAll (paths : List Parts) (v : Json) : Json :=
  paths.foldl (fun out parts => unsetParts parts out) v

theorem unsetAll_cons (parts : Parts) (paths : List Parts) (v : Json) :
    unsetAll (parts :: paths) v = unsetAll paths (unsetParts parts v) := rfl

theorem within_unsetParts {parts : Parts} (hne : parts ≠ []) (v : Json) :
    Within (unsetParts parts v) v := by
  intro q
  rcases at_unsetParts_cases hne v q with hat | ⟨habs, -⟩
  · exact Or.inl hat
  · exact Or.inr habs

theorem Within.isSome_lookup {a v : Json} (h : Within a v) {p : Parts}
    (hp : (lookup a p).isSome) : (lookup v p).isSome := by
  rw [Option.isSome_iff_ne_none] at hp ⊢
  intro hnone
  have habs := lookup_eq_none_iff.mp hnone
  rcases h p with hat | hat
  · exact hp (lookup_eq_none_iff.mpr (hat.trans habs))
  · exact hp (lookup_eq_none_iff.mpr hat)

/-- Removing paths shows in the view only near paths that led somewhere. -/
theorem at_unsetAll_cases {paths : List Parts} (hne : ∀ p ∈ paths, p ≠ []) (v : Json)
    (q : Parts) :
    (unsetAll paths v).at q = v.at q ∨
      (unsetAll paths v).at q = .absent ∧ ∃ p ∈ paths, (lookup v p).isSome ∧ Related p q := by
  induction paths generalizing v with
  | nil => exact Or.inl rfl
  | cons parts paths ih =>
      have hparts := hne parts List.mem_cons_self
      rw [unsetAll_cons]
      rcases ih (fun p hp => hne p (List.mem_cons_of_mem _ hp)) (unsetParts parts v) with
        hat | ⟨habs, p, hp, hsome, hrel⟩
      · rw [hat]
        rcases at_unsetParts_cases hparts v q with hat' | ⟨habs, hsome, hrel⟩
        · exact Or.inl hat'
        · exact Or.inr ⟨habs, parts, List.mem_cons_self, hsome, hrel⟩
      · exact Or.inr ⟨habs, p, List.mem_cons_of_mem _ hp,
          (within_unsetParts hparts v).isSome_lookup hsome, hrel⟩

theorem within_unsetAll {paths : List Parts} (hne : ∀ p ∈ paths, p ≠ []) (v : Json) :
    Within (unsetAll paths v) v := by
  intro q
  rcases at_unsetAll_cases hne v q with hat | ⟨habs, -⟩
  · exact Or.inl hat
  · exact Or.inr habs

theorem unsetAll_obj {paths : List Parts} (hne : ∀ p ∈ paths, p ≠ []) (fields : Fields) :
    ∃ result, unsetAll paths (.obj fields) = .obj result := by
  induction paths generalizing fields with
  | nil => exact ⟨fields, rfl⟩
  | cons parts paths ih =>
      obtain ⟨inner, hinner⟩ := unsetParts_obj (hne parts List.mem_cons_self) fields
      rw [unsetAll_cons, hinner]
      exact ih (fun p hp => hne p (List.mem_cons_of_mem _ hp)) inner

theorem wellFormed_unsetAll (paths : List Parts) {v : Json} (h : v.WellFormed) :
    (unsetAll paths v).WellFormed := by
  induction paths generalizing v with
  | nil => exact h
  | cons parts paths ih => exact ih (wellFormed_unsetParts parts h)

/-- A document may drop the paths that are kept in cells. -/
theorem complete_unsetAll {S : Parts → Prop} {o v : Json} (ho : ∀ q, S q → o.at q = v.at q)
    {paths : List Parts} (hne : ∀ p ∈ paths, p ≠ []) {cells : Cells}
    (hkept : ∀ p ∈ paths, (lookup o p).isSome → ∃ cell ∈ cells, cell.1 = p)
    (hcells : ∀ cell ∈ cells, CellOf v cell) : Complete S (unsetAll paths o) cells v where
  cells := hcells
  base := by
    intro q hq
    rcases at_unsetAll_cases hne o q with hat | ⟨habs, p, hp, hsome, hrel⟩
    · exact Or.inl (hat.trans (ho q hq))
    · obtain ⟨cell, hcell, rfl⟩ := hkept p hp hsome
      exact Or.inr ⟨habs, cell, hcell, hrel⟩

/-! ## Splitting a document -/

/-- Two parts of `v` that together show all of it. -/
structure Split (hot cold v : Json) : Prop where
  hotWithin : Within hot v
  coldWithin : Within cold v
  covers : ∀ q, hot.at q = v.at q ∨ cold.at q = v.at q

theorem Split.symm {hot cold v : Json} (h : Split hot cold v) : Split cold hot v :=
  ⟨h.coldWithin, h.hotWithin, fun q => (h.covers q).symm⟩

/-- Merging the two parts gives the document back. -/
theorem Split.merge_eq {hot cold v : Json} (h : Split hot cold v) (hwf : hot.WellFormed)
    (hproto : NoProto v) (q : Parts) : (mergeInto hot (some cold)).at q = v.at q := by
  rw [at_mergeInto hot hwf (h.hotWithin.noProto hproto) h.hotWithin (some cold)
    (fun c hc => Option.some.inj hc ▸ h.coldWithin)]
  split_ifs with habs
  · rcases h.covers q with hat | hat
    · rw [habs] at hat
      rcases h.coldWithin q with hc | hc
      · simpa using hc
      · simp [hc, ← hat]
    · simpa using hat
  · rcases h.hotWithin q with hat | hat
    · exact hat
    · exact absurd hat habs

end Js
end ObjyDb
