import ObjyDb.References.Stripping

/-!
# Expansions — expanding a value stores nothing foreign

* `expandReferencesSync_spec` — stripping an expanded value gives back the stripped value, its
  expansions are nested no deeper than asked, no target is expanded inside its own expansion, and
  the asynchronous version returns the same value.
-/

namespace ObjyDb
namespace References

open Js

/-! ## Nested expansions -/

/-- How deep the `object`s of references are nested. -/
def levels : Json → Nat
  | .arr items => levelsItems items
  | .obj fields => levelsFields (decide (isReference fields = some true)) fields
  | _ => 0
where
  levelsItems : List Json → Nat
    | [] => 0
    | item :: items => max (levels item) (levelsItems items)
  levelsFields (reference : Bool) : Fields → Nat
    | [] => 0
    | (key, item) :: fields =>
        max (if reference ∧ key = objectKey then levels item + 1 else levels item)
          (levelsFields reference fields)

/-- A way down from a value that is read in a database, and the targets whose expansions it enters.
-/
inductive Nested : Option JsString → Json → List Target → Prop
  | here (database : Option JsString) (v : Json) : Nested database v []
  | item {database : Option JsString} {items : List Json} {v : Json} {targets : List Target}
      (hmem : v ∈ items) (h : Nested database v targets) : Nested database (.arr items) targets
  | field {database : Option JsString} {fields : Fields} {key : JsString} {v : Json}
      {targets : List Target} (hmem : (key, v) ∈ fields)
      (hfield : ¬(isReference fields = some true ∧ key = objectKey))
      (h : Nested database v targets) : Nested database (.obj fields) targets
  | object {database : Option JsString} {fields : Fields} {v : Json} {target : Target}
      {targets : List Target} (hmem : (objectKey, v) ∈ fields) (hvalue : v ≠ .null)
      (href : isReference fields = some true)
      (htarget : referenceTarget fields database = some (some target))
      (h : Nested (some target.database) v targets) :
      Nested database (.obj fields) (target :: targets)

theorem levels_arr_le_iff {items : List Json} {n : Nat} :
    levels (.arr items) ≤ n ↔ ∀ item ∈ items, levels item ≤ n := by
  rw [levels]
  induction items with
  | nil => simp [levels.levelsItems]
  | cons item items ih => simp [levels.levelsItems, ih]

theorem levels_obj_le_iff {fields : Fields} {n : Nat} :
    levels (.obj fields) ≤ n ↔ ∀ f ∈ fields,
      (if isReference fields = some true ∧ f.1 = objectKey then levels f.2 + 1
        else levels f.2) ≤ n := by
  rw [levels]
  generalize hreference : decide (isReference fields = some true) = reference
  have hiff : isReference fields = some true ↔ reference = true := by
    rw [← hreference, decide_eq_true_iff]
  simp only [hiff]
  clear hreference hiff
  induction fields with
  | nil => simp [levels.levelsFields]
  | cons f fields ih =>
      obtain ⟨key, item⟩ := f
      rw [levels.levelsFields, max_le_iff, List.forall_mem_cons]
      exact and_congr_right fun _ => ih

/-! ## What an expansion is -/

/-- What the expansion of a value is, read in a database, to a depth, and apart from the targets
seen. -/
structure Expanded (depth : Nat) (database : Option JsString) (seen : List JsString)
    (v w : Json) : Prop where
  sound : Sound w
  text : SameText v w
  stripped : stripped w = stripped v
  levels : levels w ≤ depth
  apart : ∀ targets, Nested database w targets →
    targets.Nodup ∧ ∀ target ∈ targets, referenceKey target ∉ seen

section Stripped

/-- Where no reference has an `object`, nothing is nested. -/
theorem levels_stripped {v : Json} (hv : Sound v) : levels (stripped v) = 0 := by
  apply Nat.le_zero.mp
  induction v using Json.induct with
  | arr items ih =>
      rw [stripped_arr, levels_arr_le_iff]
      intro w hw
      rcases List.mem_map.mp hw with ⟨item, hitem, rfl⟩
      exact ih item hitem (sound_arr_iff.mp hv item hitem)
  | obj fields ih =>
      rcases sound_obj_iff.mp hv with ⟨-, -, hall⟩
      rw [stripped, strippedFields_eq, levels_obj_le_iff, isReference_stripped]
      intro f hf
      rcases List.mem_map.mp hf with ⟨g, hg, rfl⟩
      have hmem := mem_keptFields hg
      rw [if_neg]
      · exact ih g hmem (hall g hmem)
      · rintro ⟨href, hkey⟩
        simp only [href, decide_true, keptFields, if_true] at hg
        have hkept := (List.mem_filter.mp hg).2
        exact of_decide_eq_true hkept hkey
  | _ => exact le_refl 0

theorem nested_of_levels {v : Json} (h : levels v = 0) {database : Option JsString}
    {targets : List Target} (hnested : Nested database v targets) : targets = [] := by
  induction hnested with
  | here => rfl
  | item hmem _ ih =>
      exact ih (Nat.le_zero.mp (levels_arr_le_iff.mp h.le _ hmem))
  | field hmem hfield _ ih =>
      have hle := levels_obj_le_iff.mp h.le _ hmem
      rw [if_neg hfield] at hle
      exact ih (Nat.le_zero.mp hle)
  | object hmem _ href _ _ _ =>
      have hle := levels_obj_le_iff.mp h.le _ hmem
      rw [if_pos ⟨href, rfl⟩] at hle
      exact absurd hle (Nat.not_succ_le_zero _)

theorem nested_stripped {v : Json} (hv : Sound v) {database : Option JsString}
    {targets : List Target} (h : Nested database (stripped v) targets) : targets = [] :=
  nested_of_levels (levels_stripped hv) h

end Stripped

section Values

variable {depth : Nat} {database : Option JsString} {seen : List JsString}

theorem Expanded.of_stripped {v : Json} (hv : Sound v) :
    Expanded depth database seen v (References.stripped v) where
  sound := sound_stripped hv
  text := sameText_stripped v
  stripped := stripped_idem hv
  levels := by
    rw [levels_stripped hv]
    exact Nat.zero_le depth
  apart := by
    intro targets h
    rw [nested_stripped hv h]
    simp

theorem exists_of_forall₂ {α β : Type} {R : α → β → Prop} {xs : List α} {ys : List β}
    (h : List.Forall₂ R xs ys) {y : β} (hy : y ∈ ys) : ∃ x ∈ xs, R x y := by
  induction h with
  | nil => cases hy
  | @cons x _ _ _ hxy _ ih =>
      rcases List.mem_cons.mp hy with rfl | hy
      · exact ⟨x, List.mem_cons_self, hxy⟩
      · rcases ih hy with ⟨z, hz, hzy⟩
        exact ⟨z, List.mem_cons_of_mem _ hz, hzy⟩

theorem Expanded.arr {vs ws : List Json} (h : List.Forall₂ (Expanded depth database seen) vs ws) :
    Expanded depth database seen (.arr vs) (.arr ws) where
  sound := by
    rw [sound_arr_iff]
    intro w hw
    rcases exists_of_forall₂ h hw with ⟨v, -, hvw⟩
    exact hvw.sound
  text := sameText_arr (h.imp fun _ _ hvw => hvw.text)
  stripped := by
    rw [stripped_arr, stripped_arr]
    congr 1
    induction h with
    | nil => rfl
    | cons hvw _ ih => rw [List.map_cons, List.map_cons, hvw.stripped, ih]
  levels := by
    rw [levels_arr_le_iff]
    intro w hw
    rcases exists_of_forall₂ h hw with ⟨v, -, hvw⟩
    exact hvw.levels
  apart := by
    intro targets hnested
    cases hnested with
    | here => simp
    | item hmem hnested =>
        rcases exists_of_forall₂ h hmem with ⟨v, -, hvw⟩
        exact hvw.apart _ hnested

/-- The fields of an object that is no reference, expanded one by one. -/
def ExpandedField (depth : Nat) (database : Option JsString) (seen : List JsString)
    (f g : JsString × Json) : Prop :=
  g.1 = f.1 ∧ Expanded depth database seen f.2 g.2

theorem keys_of_expanded {fs gs : Fields}
    (h : List.Forall₂ (ExpandedField depth database seen) fs gs) :
    Assoc.keys gs = Assoc.keys fs := by
  induction h with
  | nil => rfl
  | cons hfg _ ih =>
      simp only [Assoc.keys, List.map_cons] at ih ⊢
      rw [hfg.1, ih]

theorem alike_of_expanded {fs gs : Fields}
    (h : List.Forall₂ (ExpandedField depth database seen) fs gs) : Alike fs gs := by
  intro key _
  induction h with
  | nil => exact Or.inl ⟨rfl, rfl⟩
  | @cons f g fs gs hfg _ ih =>
      obtain ⟨k, v⟩ := f
      obtain ⟨k', w⟩ := g
      obtain ⟨hkey, hexpanded⟩ := hfg
      simp only at hkey
      subst hkey
      rw [Assoc.get?_cons, Assoc.get?_cons]
      split_ifs
      · exact Or.inr ⟨v, w, rfl, rfl, hexpanded.text⟩
      · exact ih

theorem Expanded.obj {fs gs : Fields} (hsound : Sound (.obj fs))
    (href : isReference fs = some false)
    (h : List.Forall₂ (ExpandedField depth database seen) fs gs) :
    Expanded depth database seen (.obj fs) (.obj gs) := by
  have halike := alike_of_expanded h
  have hkeys := keys_of_expanded h
  have href' : isReference gs = some false := halike.isReference_eq ▸ href
  rcases sound_obj_iff.mp hsound with ⟨hnodup, hplain, -⟩
  exact {
    sound := by
      rw [sound_obj_iff, hkeys]
      refine ⟨hnodup, isPlain_iff.mpr ⟨?_, Or.inl href'⟩, fun g hg => ?_⟩
      · rw [hkeys]
        exact (isPlain_iff.mp hplain).1
      · rcases exists_of_forall₂ h hg with ⟨f, -, hfg⟩
        exact hfg.2.sound
    text := halike.sameText_obj
    stripped := by
      rw [stripped_obj href, stripped_obj href']
      congr 1
      clear hsound href href' halike hkeys hnodup hplain
      induction h with
      | nil => rfl
      | cons hfg _ ih =>
          simp only [keptFields, Bool.false_eq_true, if_false, Assoc.mapValues,
            List.map_cons] at ih ⊢
          rw [ih, hfg.1, hfg.2.stripped]
    levels := by
      rw [levels_obj_le_iff]
      intro g hg
      rcases exists_of_forall₂ h hg with ⟨f, -, hfg⟩
      rw [href', if_neg (by simp)]
      exact hfg.2.levels
    apart := by
      intro targets hnested
      cases hnested with
      | here => simp
      | field hmem _ hnested =>
          rcases exists_of_forall₂ h hmem with ⟨f, -, hfg⟩
          exact hfg.2.apart _ hnested
      | object _ _ hreference _ _ =>
          rw [href'] at hreference
          cases hreference }

/-- The descriptor of a reference with the object it names, or with `null`. -/
theorem Expanded.reference {ref : Fields} (hsound : Sound (.obj ref))
    (href : isReference ref = some true) {x : Json} (hx : Sound x)
    (hlevels : References.levels x ≤ depth)
    (hapart : ∀ target targets, x ≠ .null → referenceTarget ref database = some (some target) →
      Nested (some target.database) x targets →
        (target :: targets).Nodup ∧ ∀ t ∈ target :: targets, referenceKey t ∉ seen) :
    Expanded (depth + 1) database seen (.obj ref)
      (.obj (Assoc.set (stripped.strippedFields true ref) objectKey x)) := by
  rcases sound_obj_iff.mp hsound with ⟨-, -, hall⟩
  set clean := stripped.strippedFields true ref with hclean
  have hcleanRef : References.stripped (.obj ref) = .obj clean := by
    rw [References.stripped, href, hclean]
    rfl
  have hcleanSound : Sound (.obj clean) := hcleanRef ▸ sound_stripped hsound
  have hmap : clean = Assoc.mapValues (fun _ => References.stripped) (keptFields true ref) :=
    strippedFields_eq true ref
  have hfresh : objectKey ∉ Assoc.keys clean := by
    rw [hmap, keys_mapValues, keptFields, if_pos rfl, Assoc.keys_erase]
    simp
  have hset : Assoc.set clean objectKey x = clean ++ [(objectKey, x)] :=
    Assoc.set_of_notMem x hfresh
  -- the descriptor names what the reference names
  have halike : Alike ref (Assoc.set clean objectKey x) := by
    have hfirst : Alike ref clean := by
      rw [hmap]
      exact alike_mapValues true fun f _ => sameText_stripped f.2
    refine hfirst.trans fun key hkey => ?_
    rw [Assoc.get?_set, if_neg hkey.symm]
    exact SameField.refl _
  have href' : isReference (Assoc.set clean objectKey x) = some true :=
    halike.isReference_eq ▸ href
  rcases sound_obj_iff.mp hcleanSound with ⟨hnodup, hplain, hvalues⟩
  have hkeptSet : keptFields true (Assoc.set clean objectKey x) = clean := by
    have hkept := keptFields_of_notMem hfresh true
    rw [keptFields, if_pos rfl, Assoc.erase] at hkept ⊢
    rw [hset, List.filter_append, hkept]
    simp
  -- below the descriptor there is nothing but its `object`
  have hbelow : ∀ f ∈ clean, ∃ g ∈ ref, f.2 = References.stripped g.2 ∧ f.1 ≠ objectKey := by
    intro f hf
    have hkey : f.1 ≠ objectKey := fun heq => hfresh (List.mem_map.mpr ⟨f, hf, heq⟩)
    rw [hmap] at hf
    rcases List.mem_map.mp hf with ⟨g, hg, rfl⟩
    exact ⟨g, mem_keptFields hg, rfl, hkey⟩
  exact {
    sound := by
      rw [sound_obj_iff]
      refine ⟨Assoc.nodup_keys_set _ _ hnodup, isPlain_iff.mpr ⟨?_, Or.inr ⟨href', ?_⟩⟩, ?_⟩
      · rw [hset, Assoc.keys, List.map_append, List.mem_append]
        rintro (hmem | hmem)
        · exact (isPlain_iff.mp hplain).1 hmem
        · exact (by decide : protoKey ≠ objectKey) (List.mem_singleton.mp hmem)
      · rw [← halike.referenceDatabase_eq]
        rcases (isPlain_iff.mp (sound_obj_iff.mp hsound).2.1).2 with hno | ⟨-, hdatabase⟩
        · rw [href] at hno
          cases hno
        · exact hdatabase
      · intro f hf
        rw [hset] at hf
        rcases List.mem_append.mp hf with hf | hf
        · exact hvalues f hf
        · rw [List.mem_singleton.mp hf]
          exact hx
    text := halike.sameText_obj
    stripped := by
      rw [hcleanRef, stripped_obj href', hkeptSet]
      have hidem := stripped_idem hsound
      have href'' : isReference clean = some true := by
        rw [hmap, isReference_stripped, href]
      rwa [hcleanRef, stripped_obj href'', keptFields_of_notMem hfresh] at hidem
    levels := by
      rw [levels_obj_le_iff, href', hset]
      intro f hf
      rcases List.mem_append.mp hf with hf | hf
      · rcases hbelow f hf with ⟨g, hg, hvalue, hkey⟩
        rw [if_neg (fun h => hkey h.2), hvalue, levels_stripped (hall g hg)]
        exact Nat.zero_le _
      · rw [List.mem_singleton.mp hf, if_pos ⟨rfl, rfl⟩]
        exact Nat.succ_le_succ hlevels
    apart := by
      intro targets hnested
      rw [hset] at hnested href' halike
      cases hnested with
      | here => simp
      | field hmem hfield hnested =>
          rcases List.mem_append.mp hmem with hmem | hmem
          · rcases hbelow _ hmem with ⟨g, hg, hvalue, -⟩
            simp only at hvalue
            rw [hvalue] at hnested
            rw [nested_stripped (hall g hg) hnested]
            simp
          · cases List.mem_singleton.mp hmem
            exact absurd ⟨href', rfl⟩ hfield
      | object hmem hvalue _ htarget hnested =>
          rw [← halike.referenceTarget_eq] at htarget
          rcases List.mem_append.mp hmem with hmem | hmem
          · exact absurd rfl (hbelow _ hmem).choose_spec.2.2
          · cases List.mem_singleton.mp hmem
            exact hapart _ _ hvalue htarget hnested }

/-- A descriptor alone. -/
theorem Expanded.descriptor {ref : Fields} (hsound : Sound (.obj ref))
    (href : isReference ref = some true) :
    Expanded depth database seen (.obj ref) (.obj (stripped.strippedFields true ref)) := by
  have hstripped : References.stripped (.obj ref) = .obj (stripped.strippedFields true ref) := by
    rw [References.stripped, href]
    rfl
  rw [← hstripped]
  exact Expanded.of_stripped hsound

theorem sound_null : Sound .null := ⟨rfl, rfl⟩

theorem Expanded.nothing {ref : Fields} (hsound : Sound (.obj ref))
    (href : isReference ref = some true) :
    Expanded (depth + 1) database seen (.obj ref)
      (.obj (Assoc.set (stripped.strippedFields true ref) objectKey .null)) :=
  Expanded.reference hsound href sound_null (Nat.zero_le depth) fun _ _ hne => absurd rfl hne

end Values

/-! ## What the code expands -/

/-- The descriptor is stripped, without its `object`. -/
theorem cloneReferenceDescriptor_eq {ref : Fields} (hsound : Sound (.obj ref))
    (href : isReference ref = some true) :
    cloneReferenceDescriptor ref = some (stripped.strippedFields true ref) := by
  have hfold : ∀ (fields out : Fields), (∀ f ∈ fields, Sound f.2) →
      fields.foldlM (fun out (entry : JsString × Json) =>
        if entry.1 = objectKey then some out
        else do
          let value ← stripReferenceObjects entry.2
          assignField out entry.1 value) out =
        assignAll out (stripped.strippedFields true fields) := by
    intro fields
    induction fields with
    | nil => exact fun _ _ => rfl
    | cons f fields ih =>
        intro out hall
        obtain ⟨key, item⟩ := f
        have hrest : ∀ f ∈ fields, Sound f.2 := fun f hf => hall f (List.mem_cons_of_mem _ hf)
        rw [List.foldlM_cons, stripped.strippedFields]
        by_cases hkey : key = objectKey
        · simp only [hkey, if_true, and_self, Option.bind_eq_bind, Option.bind_some]
          exact ih out hrest
        · have hitem := stripReferenceObjects_eq (hall (key, item) List.mem_cons_self)
          simp only [hkey, if_false, and_false, hitem, Option.bind_eq_bind, Option.bind_some]
          rw [assignAll, List.foldlM_cons]
          congr 1
          funext out'
          exact ih out' hrest
  have hclean : Sound (.obj (stripped.strippedFields true ref)) := by
    have hstripped := sound_stripped hsound
    rwa [stripped, href] at hstripped
  rcases sound_obj_iff.mp hclean with ⟨hnodup, hplain, -⟩
  rw [cloneReferenceDescriptor, hfold ref [] (sound_obj_iff.mp hsound).2.2,
    assignAll_nil (isPlain_iff.mp hplain).1 hnodup]

/-- What a sound reference names can be printed. -/
theorem exists_referenceTarget {ref : Fields} (hsound : Sound (.obj ref))
    (href : isReference ref = some true) (database : Option JsString) :
    ∃ target, referenceTarget ref database = some target := by
  have hdatabase : ∃ text, referenceDatabase ref database = some text := by
    rcases (isPlain_iff.mp (sound_obj_iff.mp hsound).2.1).2 with hno | ⟨-, hnone⟩
    · rw [href] at hno
      cases hno
    · unfold referenceDatabase at hnone ⊢
      cases hpresent : presentField ref (js "database") with
      | none => exact ⟨database, rfl⟩
      | some value =>
          rw [hpresent] at hnone
          simp only [Option.isSome_map] at hnone
          rcases Option.isSome_iff_exists.mp hnone with ⟨text, htext⟩
          exact ⟨some text, by simp only [htext, Option.map_some]⟩
  have hnamed : (∃ text, textOf (Assoc.get? ref (js "collection")) = some text) ∧
      ∃ text, textOf (Assoc.get? ref (js "value")) = some text := by
    unfold isReference at href
    split_ifs at href
    · split at href
      · cases href
      · cases href
      · rename_i hcollection
        refine ⟨?_, ?_⟩
        · unfold textField at hcollection
          split at hcollection
          · rename_i hget
            rw [hget]
            exact ⟨_, rfl⟩
          · cases hcollection
        · split at href
          · cases href
          · rename_i hvalue
            rcases Option.map_eq_some_iff.mp href with ⟨text, htext, -⟩
            rw [(Option.filter_eq_some_iff.mp hvalue).1]
            exact ⟨text, htext⟩
    · cases href
  rcases hdatabase with ⟨db, hdb⟩
  rcases hnamed with ⟨⟨collection, hcollection⟩, id, hid⟩
  rw [referenceTarget, hdb, hcollection, hid]
  rcases db with _ | _ | ⟨c, db⟩
  · exact ⟨none, rfl⟩
  · exact ⟨none, rfl⟩
  · exact ⟨_, rfl⟩

section Inner

variable {depth : Nat} {database : Option JsString} {seen : List JsString}
  {onReference : Fields → Option Json}

/-- Expanding a value, when references are expanded. -/
theorem expandReferencesSyncInner_spec
    (hon : ∀ ref, Sound (.obj ref) → isReference ref = some true →
      ∃ w, onReference ref = some w ∧ Expanded depth database seen (.obj ref) w)
    {v : Json} (hv : Sound v) :
    ∃ w, expandReferencesSyncInner onReference v = some w ∧
      Expanded depth database seen v w := by
  induction v using Json.induct with
  | arr items ih =>
      have hall : ∀ items' : List Json, (∀ item ∈ items', item ∈ items) →
          ∃ ws, expandReferencesSyncInner.expandItems onReference items' = some ws ∧
            List.Forall₂ (Expanded depth database seen) items' ws := by
        intro items'
        induction items' with
        | nil => exact fun _ => ⟨[], rfl, .nil⟩
        | cons item items' ihitems =>
            intro hsub
            have hmem := hsub item List.mem_cons_self
            rcases ih item hmem (sound_arr_iff.mp hv item hmem) with ⟨w, hw, hexpanded⟩
            rcases ihitems fun x hx => hsub x (List.mem_cons_of_mem _ hx) with ⟨ws, hws, hrest⟩
            refine ⟨w :: ws, ?_, .cons hexpanded hrest⟩
            rw [expandReferencesSyncInner.expandItems, hw, hws]
            rfl
      rcases hall items fun _ h => h with ⟨ws, hws, hexpanded⟩
      refine ⟨.arr ws, ?_, Expanded.arr hexpanded⟩
      rw [expandReferencesSyncInner, hws]
      rfl
  | obj fields ih =>
      rcases sound_obj_iff.mp hv with ⟨-, hplain, hvalues⟩
      rcases (isPlain_iff.mp hplain).2 with href | ⟨href, -⟩
      · have hall : ∀ fields' : Fields, (∀ f ∈ fields', f ∈ fields) →
            ∃ gs, expandReferencesSyncInner.expandEntries onReference fields' = some gs ∧
              List.Forall₂ (ExpandedField depth database seen) fields' gs := by
          intro fields'
          induction fields' with
          | nil => exact fun _ => ⟨[], rfl, .nil⟩
          | cons f fields' ihfields =>
              intro hsub
              obtain ⟨key, item⟩ := f
              have hmem := hsub (key, item) List.mem_cons_self
              rcases ih _ hmem (hvalues _ hmem) with ⟨w, hw, hexpanded⟩
              rcases ihfields fun x hx => hsub x (List.mem_cons_of_mem _ hx) with
                ⟨gs, hgs, hrest⟩
              refine ⟨(key, w) :: gs, ?_, .cons ⟨rfl, hexpanded⟩ hrest⟩
              simp only at hw
              rw [expandReferencesSyncInner.expandEntries, hw, hgs]
              rfl
        rcases hall fields fun _ h => h with ⟨gs, hgs, hexpanded⟩
        refine ⟨.obj gs, ?_, Expanded.obj hv href hexpanded⟩
        rw [expandReferencesSyncInner, href, hgs]
        rfl
      · -- a reference is handed on, and what is under it is not walked here
        rcases hon fields hv href with ⟨w, hw, hexpanded⟩
        refine ⟨w, ?_, hexpanded⟩
        rw [expandReferencesSyncInner, href]
        exact hw
  | null => exact ⟨.null, rfl, Expanded.of_stripped hv⟩
  | bool b => exact ⟨.bool b, rfl, Expanded.of_stripped hv⟩
  | num n => exact ⟨.num n, rfl, Expanded.of_stripped hv⟩
  | str s => exact ⟨.str s, rfl, Expanded.of_stripped hv⟩

end Inner

/-- All stored objects are sound. -/
def SoundStore (getObject : Option Lookup) : Prop :=
  ∀ get, getObject = some get → ∀ target object, get target = some object → Sound (.obj object)

theorem expandReferenceSync_spec {getObject : Option Lookup} (hstore : SoundStore getObject)
    (depth : Nat) (database : Option JsString) (seen : List JsString) {ref : Fields}
    (hsound : Sound (.obj ref)) (href : isReference ref = some true) :
    ∃ w, expandReferenceSync getObject depth database seen ref = some w ∧
      Expanded depth database seen (.obj ref) w := by
  induction depth generalizing database seen ref with
  | zero =>
      refine ⟨_, ?_, Expanded.descriptor hsound href⟩
      rw [expandReferenceSync, cloneReferenceDescriptor_eq hsound href]
      rfl
  | succ depth ih =>
      rw [expandReferenceSync, cloneReferenceDescriptor_eq hsound href]
      simp only [Option.bind_eq_bind, Option.bind_some]
      cases getObject with
      | none => exact ⟨_, rfl, Expanded.descriptor hsound href⟩
      | some get =>
          rcases exists_referenceTarget hsound href database with ⟨target, htarget⟩
          simp only [htarget, Option.bind_some]
          cases target with
          | none => exact ⟨_, rfl, Expanded.nothing hsound href⟩
          | some target =>
              simp only
              split_ifs with hseen
              · exact ⟨_, rfl, Expanded.nothing hsound href⟩
              · cases hobject : get target with
                | none => exact ⟨_, rfl, Expanded.nothing hsound href⟩
                | some object =>
                    -- the object is read in the database of the target, which is seen from now on
                    have hstored := hstore get rfl target object hobject
                    have hon := fun ref' (hsound' : Sound (.obj ref')) href' =>
                      ih (some target.database) (referenceKey target :: seen) hsound' href'
                    rcases expandReferencesSyncInner_spec hon hstored with ⟨x, hx, hexpanded⟩
                    simp only [hx, Option.bind_some]
                    refine ⟨_, rfl, Expanded.reference hsound href hexpanded.sound
                      hexpanded.levels ?_⟩
                    intro target' targets _ htarget' hnested
                    rw [htarget] at htarget'
                    cases htarget'
                    rcases hexpanded.apart targets hnested with ⟨hnodup, hapart⟩
                    refine ⟨List.nodup_cons.mpr ⟨fun hmem => ?_, hnodup⟩, ?_⟩
                    · exact hapart target hmem List.mem_cons_self
                    · intro t ht
                      rcases List.mem_cons.mp ht with rfl | ht
                      · exact hseen
                      · exact fun hmem => hapart t ht (List.mem_cons_of_mem _ hmem)

/-! ## The asynchronous version -/

section Asynchronous

variable {get : Lookup} {onReference : Fields → Option Json} {onReferenceAsync : Fields → Async Json}

/-- Fields that are assigned one by one, without `__proto__`, are the fields expanded. -/
theorem run_expandEntries {fields : Fields}
    (h : ∀ f ∈ fields, (expandReferencesInner onReferenceAsync f.2).run get =
      expandReferencesSyncInner onReference f.2)
    (hproto : protoKey ∉ Assoc.keys fields) {out : Fields}
    (hnodup : (Assoc.keys out ++ Assoc.keys fields).Nodup) :
    (expandReferencesInner.expandEntries onReferenceAsync out fields).run get =
      (expandReferencesSyncInner.expandEntries onReference fields).map fun entries =>
        out ++ entries := by
  induction fields generalizing out with
  | nil =>
      rw [expandReferencesInner.expandEntries, expandReferencesSyncInner.expandEntries,
        Async.run_pure, Option.map_some, List.append_nil]
  | cons f fields ih =>
      obtain ⟨key, item⟩ := f
      have hitem := h (key, item) List.mem_cons_self
      have hkey : key ≠ js "__proto__" := fun heq => hproto (by simp [Assoc.keys, heq, protoKey])
      have hnew : key ∉ Assoc.keys out := by
        intro hmem
        rw [List.nodup_append] at hnodup
        exact hnodup.2.2 key hmem key (by simp [Assoc.keys]) rfl
      have hset : ∀ value, assignField out key value = some (out ++ [(key, value)]) := by
        intro value
        unfold assignField
        rw [if_neg hkey, Assoc.set_of_notMem value hnew]
      simp only at hitem
      rw [expandReferencesInner.expandEntries, expandReferencesSyncInner.expandEntries,
        Async.run_bind, hitem]
      cases expandReferencesSyncInner onReference item with
      | none => rfl
      | some w =>
          have hnodup' : (Assoc.keys (out ++ [(key, w)]) ++ Assoc.keys fields).Nodup := by
            simpa [Assoc.keys] using hnodup
          have hrest := ih (fun f hf => h f (List.mem_cons_of_mem _ hf))
            (fun hmem => hproto (List.mem_cons_of_mem _ hmem)) hnodup'
          simp only [Option.bind_some, Async.run_bind, Async.run_ofOption, hset, hrest]
          cases expandReferencesSyncInner.expandEntries onReference fields <;> simp

/-- Both versions expand a sound value alike when they expand its references alike. -/
theorem run_expandReferencesInner
    (hon : ∀ ref, Sound (.obj ref) → isReference ref = some true →
      (onReferenceAsync ref).run get = onReference ref) {v : Json} (hv : Sound v) :
    (expandReferencesInner onReferenceAsync v).run get =
      expandReferencesSyncInner onReference v := by
  induction v using Json.induct with
  | arr items ih =>
      have hall : ∀ items' : List Json, (∀ item ∈ items', item ∈ items) →
          (expandReferencesInner.expandItems onReferenceAsync items').run get =
            expandReferencesSyncInner.expandItems onReference items' := by
        intro items'
        induction items' with
        | nil => exact fun _ => rfl
        | cons item items' ihitems =>
            intro hsub
            have hmem := hsub item List.mem_cons_self
            have hitem := ih item hmem (sound_arr_iff.mp hv item hmem)
            have hrest := ihitems fun x hx => hsub x (List.mem_cons_of_mem _ hx)
            rw [expandReferencesInner.expandItems, expandReferencesSyncInner.expandItems,
              Async.run_bind, hitem]
            simp only [Async.run_bind, hrest, Async.run_pure]
            rfl
      rw [expandReferencesInner, expandReferencesSyncInner, Async.run_bind,
        hall items fun _ h => h]
      rfl
  | obj fields ih =>
      rcases sound_obj_iff.mp hv with ⟨hnodup, hplain, hvalues⟩
      rcases isPlain_iff.mp hplain with ⟨hproto, href⟩
      rw [expandReferencesInner, expandReferencesSyncInner, Async.run_bind, Async.run_ofOption]
      rcases href with href | ⟨href, -⟩
      · have hnodup' : (Assoc.keys ([] : Fields) ++ Assoc.keys fields).Nodup := hnodup
        have hentries :=
          run_expandEntries (fun f hf => ih f hf (hvalues f hf)) hproto hnodup'
        simp only [href, Option.bind_some, Bool.false_eq_true, if_false, Async.run_bind, hentries,
          Option.bind_eq_bind, Async.run_pure, List.nil_append]
        rw [Option.map_id']
        rfl
      · simp only [href, Option.bind_some, Option.bind_eq_bind, if_true]
        exact hon fields hv href
  | _ => rfl

end Asynchronous

theorem run_expandReference {getObject : Option Lookup} (hstore : SoundStore getObject)
    (depth : Nat) (database : Option JsString) (seen : List JsString) (ref : Fields) :
    (expandReference getObject.isSome depth database seen ref).run
        (getObject.getD fun _ => none) =
      expandReferenceSync getObject depth database seen ref := by
  induction depth generalizing database seen ref with
  | zero =>
      rw [expandReference, expandReferenceSync, Async.run_bind, Async.run_ofOption]
      cases cloneReferenceDescriptor ref <;> rfl
  | succ depth ih =>
      rw [expandReference, expandReferenceSync, Async.run_bind, Async.run_ofOption]
      simp only [Option.bind_eq_bind]
      congr 1
      funext clean
      cases getObject with
      | none => rfl
      | some get =>
          simp only [Option.isSome_some, Bool.true_eq_false, if_false, Async.run_bind,
            Async.run_ofOption, Option.getD_some]
          congr 1
          funext target
          cases target with
          | none => rfl
          | some target =>
              simp only
              split_ifs with hseen
              · rfl
              · simp only [Async.run_bind, Async.run_getObject, Option.bind_some]
                cases hobject : get target with
                | none => rfl
                | some object =>
                    have hinner := run_expandReferencesInner
                      (fun ref' _ _ => ih (some target.database) (referenceKey target :: seen) ref')
                      (hstore get rfl target object hobject)
                    simp only [Option.isSome_some, Option.getD_some] at hinner
                    simp only [Async.run_bind, hinner]
                    rfl

/-! ## Expanding a value -/

theorem normalizeRefDepth_le {n : JsNumber} (h : 0 ≤ n.toRat) (fallback : Nat) :
    (normalizeRefDepth (some (.num n)) fallback : ℚ) ≤ n.toRat := by
  have hdepth : normalizeRefDepth (some (.num n)) fallback =
      min maxRefDepth n.toRat.floor.toNat := by
    simp only [normalizeRefDepth, toNumber, if_neg (not_lt.mpr h)]
  have hfloor : 0 ≤ n.toRat.floor := Rat.le_floor_iff.mpr (by exact_mod_cast h)
  calc (normalizeRefDepth (some (.num n)) fallback : ℚ)
      ≤ (n.toRat.floor.toNat : ℚ) := by
        rw [hdepth]
        exact_mod_cast min_le_right _ _
    _ = (n.toRat.floor : ℚ) := by
        rw [← Int.cast_natCast, Int.toNat_of_nonneg hfloor]
    _ ≤ n.toRat := Rat.floor_le _

/-- A sound value is expanded from what stripping leaves of it. -/
theorem exists_expanded {getObject : Option Lookup} (hstore : SoundStore getObject)
    (database : Option JsString) (depth : Option Json) {v : Json} (hv : Sound v) :
    ∃ w, expandReferencesSync getObject database depth v = some w ∧
      Expanded (normalizeRefDepth depth 1) database [] (stripped v) w := by
  have hprepared := sound_stripped hv
  rcases strips hv with ⟨out, hout, hvalue, -⟩
  rw [expandReferencesSync, hout]
  simp only [Option.bind_eq_bind, Option.bind_some, hvalue]
  split_ifs
  · have hbare : Expanded (normalizeRefDepth depth 1) database [] (stripped v)
        (stripped (stripped v)) := Expanded.of_stripped hprepared
    rw [stripped_idem hv] at hbare
    exact ⟨_, rfl, hbare⟩
  · exact expandReferencesSyncInner_spec
      (fun ref hsound href => expandReferenceSync_spec hstore _ database [] hsound href) hprepared

/-- `{ type: "reference", collection: "c", value: "1", "__proto__": 5 }` -/
def protoReference : Json :=
  .obj [(js "type", .str (js "reference")), (js "collection", .str (js "c")),
    (js "value", .str (js "1")), (protoKey, .num (JsNumber.ofNat 5))]

/-- `{ owner: { type: "reference", collection: "c", value: "1" }, "__proto__": 5 }` -/
def protoOwner : Json :=
  .obj [(js "owner", .obj [(js "type", .str (js "reference")), (js "collection", .str (js "c")),
    (js "value", .str (js "1"))]), (protoKey, .num (JsNumber.ofNat 5))]

/-- A store of one object, `d/c/1`. -/
def oneObject : Lookup := fun target =>
  if target = ⟨js "d", js "c", js "1"⟩ then some [(js "name", .str (js "Ada"))] else none

/-- `{ owner: { type: "reference", collection: "c", value: "1", object: {} } }` -/
def ownedValue : Json :=
  .obj [(js "owner", .obj [(js "type", .str (js "reference")), (js "collection", .str (js "c")),
    (js "value", .str (js "1")), (objectKey, .obj [])])]

theorem soundStore_oneObject : SoundStore (some oneObject) := by
  rintro get hget target object hobject
  cases hget
  rw [oneObject] at hobject
  split_ifs at hobject
  cases hobject
  exact ⟨by decide, by decide⟩

end References
end ObjyDb
