import ObjyDb.Store.Metadata

/-!
# NormalMeta — normalising twice

Hook metadata that was normalised normalises to itself, so that it can be read back out of the
metadata of a collection.

- `normalizeObjectHooksMeta_toJson`: normal hooks are a fixed point
- `get?_hooks_toJson`: where they stand in the metadata of a collection
-/

namespace ObjyDb

open Js

/-! ## Names -/

theorem trim_trim (s : JsString) : trim (trim s) = trim s := by
  have hfront : (trim s).dropWhile isTrimSpace = trim s := by
    have hfront : trim s <+: s.dropWhile isTrimSpace := List.rdropWhile_prefix ..
    cases htrim : trim s with
    | nil => rfl
    | cons c rest =>
        rw [htrim] at hfront
        rcases hfront with ⟨back, hback⟩
        -- the first unit is the one where the front was cut
        have hne : s.dropWhile isTrimSpace ≠ [] := by
          rw [← hback]
          simp
        have hhead := List.head_dropWhile_not isTrimSpace hne
        simp only [← hback, List.cons_append, List.head_cons] at hhead
        exact List.dropWhile_cons_of_neg (by simp [hhead])
  calc
    trim (trim s) = ((trim s).dropWhile isTrimSpace).rdropWhile isTrimSpace := rfl
    _ = (trim s).rdropWhile isTrimSpace := by rw [hfront]
    _ = trim s := List.rdropWhile_idempotent ..

theorem unique_of_nodup {values : List JsString} (h : values.Nodup) : unique values = values := by
  induction values with
  | nil => rfl
  | cons value values ih =>
      rcases List.nodup_cons.mp h with ⟨hnew, hrest⟩
      have hkeep : values.filter (fun v => !v == value) = values := by
        rw [List.filter_eq_self]
        intro v hv
        have hne : v ≠ value := fun heq => hnew (heq ▸ hv)
        simp [hne]
      rw [unique, List.eraseDups_cons, hkeep]
      exact congrArg (value :: ·) (ih hrest)

theorem nodup_unique (values : List JsString) : (unique values).Nodup := by
  induction hn : values.length using Nat.strong_induction_on generalizing values with
  | _ n ih =>
      cases values with
      | nil => exact List.nodup_nil
      | cons value values =>
          rw [unique, List.eraseDups_cons, List.nodup_cons]
          constructor
          · intro hmem
            have hkept := (List.mem_filter.mp (List.mem_eraseDups.mp hmem)).2
            simp at hkept
          · have hshorter : (values.filter fun v => !v == value).length < n := by
              rw [← hn]
              exact Nat.lt_succ_of_le (List.length_filter_le ..)
            exact ih _ hshorter _ rfl

/-- A name as normalisation leaves it. -/
def NormalName (name : JsString) : Prop :=
  name ≠ [] ∧ trim name = name

theorem normalName_of_normalizeName {value : Json} {label name : JsString}
    (h : normalizeName value label = .ok name) : NormalName name := by
  cases value with
  | str text =>
      rw [normalizeName] at h
      split_ifs at h with hempty
      cases h
      exact ⟨hempty, trim_trim text⟩
  | _ => cases h

theorem normalizeName_of_normal {name : JsString} (h : NormalName name) (label : JsString) :
    normalizeName (.str name) label = .ok name := by
  rw [normalizeName, h.2, if_neg h.1]

/-- A list of names as normalisation leaves it. -/
structure NormalNames (names : List JsString) : Prop where
  normal : ∀ name ∈ names, NormalName name
  nodup : names.Nodup

theorem normalNames_of_normalizeNames {value : Option Json} {label : JsString}
    {names : List JsString} (h : normalizeNames value label = .ok names) : NormalNames names := by
  rw [normalizeNames] at h
  split at h
  · cases h
    exact ⟨fun _ hname => absurd hname List.not_mem_nil, List.nodup_nil⟩
  · rcases Fallible.bind_eq_ok.mp h with ⟨found, hfound, hunique⟩
    cases hunique
    constructor
    · intro name hname
      have hall := Fallible.forall₂_mapM hfound
      rcases List.forall₂_iff_get.mp hall with ⟨hlength, hget⟩
      rcases List.getElem_of_mem (mem_unique.mp hname) with ⟨i, hi, rfl⟩
      exact normalName_of_normalizeName (hget i (hlength ▸ hi) hi)
    · exact nodup_unique found
  · cases h

theorem normalizeNames_pathsJson {names : List JsString} (h : NormalNames names)
    (label : JsString) : normalizeNames (some (pathsJson names)) label = .ok names := by
  have hmap : (names.map Json.str).mapM (fun name => normalizeName name label) = .ok names := by
    have hnormal := h.normal
    clear h
    induction names with
    | nil => rfl
    | cons name names ih =>
        rw [List.map_cons, List.mapM_cons,
          normalizeName_of_normal (hnormal name List.mem_cons_self) label,
          ih fun n hn => hnormal n (List.mem_cons_of_mem _ hn)]
        rfl
  rw [pathsJson, normalizeNames]
  change (names.map Json.str).mapM _ >>= _ = _
  rw [hmap]
  exact congrArg Except.ok (unique_of_nodup h.nodup)

/-! ## Lists of names -/

/-- The value of the property that a list of names has in normal metadata. -/
def listJson (names : List JsString) : Option Json :=
  if names = [] then none else some (pathsJson names)

theorem normalizeNames_listJson {names : List JsString} (h : NormalNames names)
    (label : JsString) : normalizeNames (listJson names) label = .ok names := by
  rw [listJson]
  split_ifs with hempty
  · rw [hempty]
    rfl
  · exact normalizeNames_pathsJson h label

/-- What normalisation finds for each list, the empty ones included. -/
theorem normalizeHookLists_spec {value : Fields} {lists : List JsString}
    {kept : List (JsString × List JsString)} (hnodup : lists.Nodup)
    (h : normalizeHookLists value lists = .ok kept) :
    ∃ found : JsString → List JsString,
      (∀ list, NormalNames (found list)) ∧
        kept = (lists.map fun list => (list, found list)).filter (·.2 ≠ []) := by
  rcases Fallible.bind_eq_ok.mp h with ⟨pairs, hpairs, hkept⟩
  cases hkept
  refine ⟨fun list => (Assoc.get? pairs list).getD [], ?_⟩
  have hall := Fallible.forall₂_mapM hpairs
  clear hpairs h
  induction hall with
  | nil => exact ⟨fun _ => ⟨fun _ hname => absurd hname List.not_mem_nil, List.nodup_nil⟩, rfl⟩
  | @cons list pair lists pairs hpair hrest ih =>
      rcases List.nodup_cons.mp hnodup with ⟨hnew, hnodup⟩
      rcases ih hnodup with ⟨hnormal, hkept⟩
      rcases Fallible.bind_eq_ok.mp hpair with ⟨names, hnames, hpair⟩
      cases hpair
      constructor
      · intro other
        dsimp only
        rw [Assoc.get?_cons]
        split_ifs
        · exact normalNames_of_normalizeNames hnames
        · exact hnormal other
      · have hothers : (lists.map fun l => (l, (Assoc.get? ((list, names) :: pairs) l).getD [])) =
            lists.map fun l => (l, (Assoc.get? pairs l).getD []) := by
          apply List.map_congr_left
          intro other hother
          have hne : list ≠ other := fun heq => hnew (heq ▸ hother)
          rw [Assoc.get?_cons, if_neg hne]
        have hhead : (Assoc.get? ((list, names) :: pairs) list).getD [] = names := by
          rw [Assoc.get?_cons, if_pos rfl, Option.getD_some]
        rw [List.map_cons, hothers]
        dsimp only
        rw [hhead, List.filter_cons, List.filter_cons, hkept]

/-- A list of normal metadata, looked up in its JSON. -/
theorem get?_kept {found : JsString → List JsString} {lists : List JsString} (list : JsString) :
    Assoc.get? (((lists.map fun l => (l, found l)).filter (·.2 ≠ [])).map
      fun entry => (entry.1, pathsJson entry.2)) list =
        if list ∈ lists then listJson (found list) else none := by
  induction lists with
  | nil => rfl
  | cons l lists ih =>
      rw [List.map_cons, List.filter_cons]
      by_cases hempty : found l = []
      · rw [if_neg (by simp [hempty]), ih]
        by_cases hl : list = l
        · subst hl
          simp [listJson, hempty]
        · simp [hl]
      · rw [if_pos (by simp [hempty]), List.map_cons, Assoc.get?_cons, ih]
        by_cases hl : l = list
        · subst hl
          simp [listJson, hempty]
        · simp [hl, Ne.symm hl]

theorem normalizeHookLists_of_found (value : Fields) (lists : List JsString)
    {found : JsString → List JsString} (hnormal : ∀ list, NormalNames (found list))
    (hvalue : ∀ list ∈ lists, Assoc.get? value list = listJson (found list)) :
    normalizeHookLists value lists =
      .ok ((lists.map fun list => (list, found list)).filter (·.2 ≠ [])) := by
  have hmap : lists.mapM (fun list => do
      return (list, ← normalizeNames (Assoc.get? value list) (js "hooks." ++ list)) :
        JsString → Except MetaError (JsString × List JsString)) =
      .ok (lists.map fun list => (list, found list)) := by
    induction lists with
    | nil => rfl
    | cons list lists ih =>
        rw [List.mapM_cons, hvalue list List.mem_cons_self,
          normalizeNames_listJson (hnormal list),
          ih fun l hl => hvalue l (List.mem_cons_of_mem _ hl)]
        rfl
  rw [normalizeHookLists, hmap]
  rfl

/-! ## Hook metadata -/

theorem nodup_hookLists : hookLists.Nodup := by decide

theorem enabled_notMem_hookLists : js "enabled" ∉ hookLists := by decide

theorem normalizeObjectHooksMeta_obj {fields : Fields} {enabled : Bool}
    {kept : List (JsString × List JsString)}
    (hkeys : (Assoc.keys fields).find? (fun key => key ∉ js "enabled" :: hookLists) = none)
    (henabled : normalizeEnabled (Assoc.get? fields (js "enabled")) = .ok enabled)
    (hlists : normalizeHookLists fields hookLists = .ok kept) :
    normalizeObjectHooksMeta (some (.obj fields)) = .ok (some ⟨enabled, kept⟩) := by
  have hgiven : given (some (.obj fields)) = some (.obj fields) := by simp [given]
  rw [normalizeObjectHooksMeta, hgiven]
  dsimp only
  rw [hkeys]
  dsimp only
  rw [henabled, hlists]
  rfl

/-- Normal hook metadata, and none, are what they normalise to. -/
theorem normalizeObjectHooksMeta_toJson {value : Option Json} {hooks : Option HooksMeta}
    (h : normalizeObjectHooksMeta value = .ok hooks) :
    normalizeObjectHooksMeta (hooks.map HooksMeta.toJson) = .ok hooks := by
  rw [normalizeObjectHooksMeta] at h
  split at h
  · cases h
    rfl
  · rename_i fields hgiven
    split at h
    · cases h
    · rcases Fallible.bind_eq_ok.mp h with ⟨enabled, -, h⟩
      rcases Fallible.bind_eq_ok.mp h with ⟨kept, hkept, h⟩
      cases h
      rcases normalizeHookLists_spec nodup_hookLists hkept with ⟨found, hnormal, rfl⟩
      generalize hout : (js "enabled", Json.bool enabled) ::
        ((hookLists.map fun l => (l, found l)).filter (·.2 ≠ [])).map
          (fun entry => (entry.1, pathsJson entry.2)) = out
      -- only names of the known lists are among the keys
      have hkeys : (Assoc.keys out).find? (fun key => key ∉ js "enabled" :: hookLists) = none := by
        rw [List.find?_eq_none, ← hout]
        intro key hkey
        simp only [Assoc.keys, List.map_cons, List.map_map, List.mem_cons, List.mem_map,
          List.mem_filter, Function.comp_apply] at hkey
        rcases hkey with rfl | ⟨entry, ⟨⟨l, hl, rfl⟩, -⟩, rfl⟩
        · simp
        · simp [hl]
      have henabled : normalizeEnabled (Assoc.get? out (js "enabled")) = .ok enabled := by
        rw [← hout, Assoc.get?_cons, if_pos rfl]
        rfl
      have hlists := normalizeHookLists_of_found out hookLists hnormal (by
        intro list hlist
        have hne : js "enabled" ≠ list := fun heq => enabled_notMem_hookLists (heq ▸ hlist)
        rw [← hout, Assoc.get?_cons, if_neg hne, get?_kept, if_pos hlist])
      rw [Option.map_some, HooksMeta.toJson, hout]
      exact normalizeObjectHooksMeta_obj hkeys henabled hlists
  · cases h

/-! ## Hooks in the metadata of a collection -/

/-- The parts of normal metadata that hooks depend on. -/
theorem normalizeCollectionMeta_hooks {fields : Fields} {next : NormalMeta}
    (h : normalizeCollectionMeta (some (.obj fields)) = .ok next) :
    normalizeObjectHooksMeta (Assoc.get? fields (js "hooks")) = .ok next.hooks ∧
      Assoc.get? next.rest (js "hooks") = none := by
  rcases Fallible.bind_eq_ok.mp h with ⟨indexes, -, h⟩
  rcases Fallible.bind_eq_ok.mp h with ⟨columns, -, h⟩
  rcases Fallible.bind_eq_ok.mp h with ⟨tiering, -, h⟩
  rcases Fallible.bind_eq_ok.mp h with ⟨hooks, hhooks, h⟩
  cases h
  exact ⟨hhooks, by rw [Assoc.get?_erase, if_pos rfl]⟩

theorem get?_hooks_toJson {next : NormalMeta} (hrest : Assoc.get? next.rest (js "hooks") = none) :
    ∃ fields, next.toJson = .obj fields ∧
      Assoc.get? fields (js "hooks") = next.hooks.map HooksMeta.toJson := by
  have hindexes : js "indexes" ≠ js "hooks" := by decide
  have hcolumns : js "columns" ≠ js "hooks" := by decide
  have htiering : js "tiering" ≠ js "hooks" := by decide
  rw [NormalMeta.toJson]
  cases next.tiering with
  | none =>
      cases next.hooks with
      | none => exact ⟨_, rfl, by simp [hindexes, hcolumns, hrest]⟩
      | some hooks => exact ⟨_, rfl, by simp⟩
  | some tiering =>
      cases next.hooks with
      | none => exact ⟨_, rfl, by simp [hindexes, hcolumns, htiering, hrest]⟩
      | some hooks => exact ⟨_, rfl, by simp⟩

end ObjyDb
