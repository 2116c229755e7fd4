import ObjyDb.Js.JsonText
import ObjyDb.Lib.Fallible

/-!
# Tree — setting and removing paths of a JSON tree

`setTree` and `unsetTree` are what a patch does to the fields of an object, seen as a tree.  A path
leads through objects (`objectAt`); `valueAt` also follows the elements of arrays.

* `objectAt_setTree`, `objectAt_unsetTree` — the value at the path, and at every path that
  neither begins nor continues it;
* `valueAt_setTree`, `valueAt_unsetTree` — elements of arrays, as long as no path is set through
  their array.
-/

namespace ObjyDb
namespace Patch

open Js

/-- The parts of a dot-notation path. -/
abbrev Path := List JsString

/-! ## Writing -/

/-- The fields that a path part leads to: none when there is no object. -/
def subFields (fields : Fields) (part : JsString) : Fields :=
  match Assoc.get? fields part with
  | some (.obj sub) => sub
  | _ => []

def setTree (fields : Fields) (path : Path) (value : Json) : Fields :=
  match path with
  | [] => fields
  | [last] => Assoc.set fields last value
  | part :: next :: rest =>
      Assoc.set fields part (.obj (setTree (subFields fields part) (next :: rest) value))

def unsetTree (fields : Fields) : Path → Fields
  | [] => fields
  | [last] => Assoc.erase fields last
  | part :: next :: rest =>
      match Assoc.get? fields part with
      | some (.obj sub) => Assoc.set fields part (.obj (unsetTree sub (next :: rest)))
      | _ => fields

/-! ## Reading -/

/-- The value at a path of nested objects. -/
def objectAt : Json → Path → Option Json
  | v, [] => some v
  | .obj fields, part :: rest => (Assoc.get? fields part).bind fun v => objectAt v rest
  | _, _ :: _ => none

/-- The key of an element of an array. -/
def indexText (i : Nat) : JsString :=
  (JsNumber.ofNat i).toText

/-- The parts of a value by their keys. -/
def children : Json → Fields
  | .obj fields => fields
  | .arr items => items.mapIdx fun i v => (indexText i, v)
  | _ => []

/-- The value at a path through objects and arrays. -/
def valueAt (v : Json) : Path → Option Json
  | [] => some v
  | part :: rest => (Assoc.get? (children v) part).bind fun v => valueAt v rest

/-- One path begins the other. -/
def Overlap (p q : Path) : Prop :=
  p <+: q ∨ q <+: p

instance (p q : Path) : Decidable (Overlap p q) :=
  inferInstanceAs (Decidable (_ ∨ _))

def IsArray : Option Json → Prop
  | some (.arr _) => True
  | _ => False

theorem objectAt_append (v : Json) (p q : Path) :
    objectAt v (p ++ q) = (objectAt v p).bind fun w => objectAt w q := by
  induction p generalizing v with
  | nil => cases v <;> rfl
  | cons part p ih =>
      cases v with
      | obj fields =>
          simp only [List.cons_append, objectAt]
          cases Assoc.get? fields part with
          | none => rfl
          | some w => exact ih w
      | _ => rfl

theorem objectAt_obj_cons (fields : Fields) (part : JsString) (rest : Path) :
    objectAt (.obj fields) (part :: rest) =
      (Assoc.get? fields part).bind fun v => objectAt v rest := rfl

/-- Below the empty object there is nothing. -/
theorem objectAt_subFields {fields : Fields} {part : JsString} {q : Path} (hq : q ≠ []) :
    objectAt (.obj (subFields fields part)) q =
      (Assoc.get? fields part).bind fun v => objectAt v q := by
  cases q with
  | nil => exact absurd rfl hq
  | cons k q =>
      unfold subFields
      cases Assoc.get? fields part with
      | none => rfl
      | some w => cases w <;> rfl

/-! ## A path that is set -/

theorem overlap_cons_iff {part : JsString} {p q : Path} :
    Overlap (part :: p) (part :: q) ↔ Overlap p q := by
  simp [Overlap, List.cons_prefix_cons]

theorem not_overlap_ne_nil {p q : Path} (h : ¬Overlap p q) : p ≠ [] ∧ q ≠ [] := by
  constructor
  · rintro rfl
    exact h (Or.inl List.nil_prefix)
  · rintro rfl
    exact h (Or.inr List.nil_prefix)

theorem objectAt_setTree {p : Path} (hp : p ≠ []) (fields : Fields) (value : Json) :
    objectAt (.obj (setTree fields p value)) p = some value := by
  induction p generalizing fields with
  | nil => exact absurd rfl hp
  | cons part p ih =>
      cases p with
      | nil =>
          rw [setTree, objectAt_obj_cons, Assoc.get?_set, if_pos rfl]
          cases value <;> rfl
      | cons next rest =>
          rw [setTree, objectAt_obj_cons, Assoc.get?_set, if_pos rfl, Option.bind_some]
          exact ih (by simp) _

/-- Every path that neither begins nor continues the path that is set. -/
theorem objectAt_setTree_of_not_overlap {p q : Path} (h : ¬Overlap p q) (fields : Fields)
    (value : Json) : objectAt (.obj (setTree fields p value)) q = objectAt (.obj fields) q := by
  induction p generalizing q fields with
  | nil => exact absurd rfl (not_overlap_ne_nil h).1
  | cons part p ih =>
      cases q with
      | nil => exact absurd rfl (not_overlap_ne_nil h).2
      | cons k q =>
          by_cases hk : part = k
          · subst hk
            rw [overlap_cons_iff] at h
            have hne := not_overlap_ne_nil h
            cases p with
            | nil => exact absurd rfl hne.1
            | cons next rest =>
                rw [setTree, objectAt_obj_cons, Assoc.get?_set, if_pos rfl, Option.bind_some, ih h,
                  objectAt_subFields hne.2, objectAt_obj_cons]
          · cases p with
            | nil => rw [setTree, objectAt_obj_cons, Assoc.get?_set, if_neg hk, objectAt_obj_cons]
            | cons next rest =>
                rw [setTree, objectAt_obj_cons, Assoc.get?_set, if_neg hk, objectAt_obj_cons]

/-- On the way to the path that is set stand objects. -/
theorem objectAt_setTree_prefix {p r : Path} (hr : r <+: p) (hne : r ≠ p) (fields : Fields)
    (value : Json) : ∃ sub, objectAt (.obj (setTree fields p value)) r = some (.obj sub) := by
  induction p generalizing r fields with
  | nil => exact absurd (List.prefix_nil.mp hr) hne
  | cons part p ih =>
      cases r with
      | nil => exact ⟨_, rfl⟩
      | cons k r =>
          rcases List.cons_prefix_cons.mp hr with ⟨rfl, hrest⟩
          have hrest' : r ≠ p := fun heq => hne (by rw [heq])
          cases p with
          | nil => exact absurd (List.prefix_nil.mp hrest) hrest'
          | cons next rest =>
              rw [setTree, objectAt_obj_cons, Assoc.get?_set, if_pos rfl, Option.bind_some]
              exact ih hrest hrest' _

/-- Setting a path puts no array at a path that it does not begin. -/
theorem not_isArray_setTree {p r : Path} (h : ¬p <+: r) {fields : Fields} (value : Json)
    (harray : ¬IsArray (objectAt (.obj fields) r)) :
    ¬IsArray (objectAt (.obj (setTree fields p value)) r) := by
  by_cases hr : r <+: p
  · have hne : r ≠ p := fun heq => h (heq ▸ List.prefix_rfl)
    rcases objectAt_setTree_prefix hr hne fields value with ⟨sub, hsub⟩
    rw [hsub]
    exact id
  · rwa [objectAt_setTree_of_not_overlap (not_or.mpr ⟨h, hr⟩)]

theorem valueAt_obj_cons (fields : Fields) (part : JsString) (rest : Path) :
    valueAt (.obj fields) (part :: rest) =
      (Assoc.get? fields part).bind fun v => valueAt v rest := rfl

/-- Elements of arrays keep their values unless a path is set through their array. -/
theorem valueAt_setTree {p q : Path} (h : ¬Overlap p q) {fields : Fields} (value : Json)
    (harray : ∀ r, r <+: p → r <+: q → ¬IsArray (objectAt (.obj fields) r)) :
    valueAt (.obj (setTree fields p value)) q = valueAt (.obj fields) q := by
  induction p generalizing q fields with
  | nil => exact absurd rfl (not_overlap_ne_nil h).1
  | cons part p ih =>
      cases q with
      | nil => exact absurd rfl (not_overlap_ne_nil h).2
      | cons k q =>
          by_cases hk : part = k
          · subst hk
            rw [overlap_cons_iff] at h
            have hne := not_overlap_ne_nil h
            cases p with
            | nil => exact absurd rfl hne.1
            | cons next rest =>
                have hsub : ∀ r, r <+: next :: rest → r <+: q →
                    ¬IsArray (objectAt (.obj (subFields fields part)) r) := by
                  intro r hrp hrq
                  cases r with
                  | nil => exact id
                  | cons j r =>
                      rw [objectAt_subFields (by simp), ← objectAt_obj_cons]
                      exact harray _ (List.cons_prefix_cons.mpr ⟨rfl, hrp⟩)
                        (List.cons_prefix_cons.mpr ⟨rfl, hrq⟩)
                rw [setTree, valueAt_obj_cons, Assoc.get?_set, if_pos rfl, Option.bind_some,
                  ih h hsub, valueAt_obj_cons]
                have hhere := harray [part] (by simp [List.cons_prefix_cons])
                  (by simp [List.cons_prefix_cons])
                rw [objectAt_obj_cons] at hhere
                unfold subFields
                cases q with
                | nil => exact absurd rfl hne.2
                | cons j q =>
                    cases hget : Assoc.get? fields part with
                    | none => rfl
                    | some w =>
                        rw [hget] at hhere
                        cases w with
                        | arr items => exact absurd trivial hhere
                        | _ => rfl
          · cases p with
            | nil => rw [setTree, valueAt_obj_cons, Assoc.get?_set, if_neg hk, valueAt_obj_cons]
            | cons next rest =>
                rw [setTree, valueAt_obj_cons, Assoc.get?_set, if_neg hk, valueAt_obj_cons]

/-! ## A path that is removed -/

theorem objectAt_unsetTree {p : Path} (hp : p ≠ []) (fields : Fields) :
    objectAt (.obj (unsetTree fields p)) p = none := by
  induction p generalizing fields with
  | nil => exact absurd rfl hp
  | cons part p ih =>
      cases p with
      | nil => rw [unsetTree, objectAt_obj_cons, Assoc.get?_erase, if_pos rfl]; rfl
      | cons next rest =>
          rw [unsetTree]
          cases hget : Assoc.get? fields part with
          | none => rw [objectAt_obj_cons, hget]; rfl
          | some w =>
              cases w with
              | obj sub =>
                  simp only
                  rw [objectAt_obj_cons, Assoc.get?_set, if_pos rfl, Option.bind_some]
                  exact ih (by simp) sub
              | _ => rw [objectAt_obj_cons, hget]; rfl

/-- Elements of arrays included: every path that neither begins nor continues the removed one. -/
theorem valueAt_unsetTree {p q : Path} (h : ¬Overlap p q) (fields : Fields) :
    valueAt (.obj (unsetTree fields p)) q = valueAt (.obj fields) q ∧
      objectAt (.obj (unsetTree fields p)) q = objectAt (.obj fields) q := by
  induction p generalizing q fields with
  | nil => exact absurd rfl (not_overlap_ne_nil h).1
  | cons part p ih =>
      cases q with
      | nil => exact absurd rfl (not_overlap_ne_nil h).2
      | cons k q =>
          simp only [valueAt_obj_cons, objectAt_obj_cons]
          by_cases hk : part = k
          · subst hk
            rw [overlap_cons_iff] at h
            cases p with
            | nil => exact absurd rfl (not_overlap_ne_nil h).1
            | cons next rest =>
                rw [unsetTree]
                cases hget : Assoc.get? fields part with
                | none => simp only [hget, and_self]
                | some w =>
                    cases w with
                    | obj sub =>
                        simp only [Assoc.get?_set, if_true, Option.bind_some]
                        exact ih h sub
                    | _ => simp only [hget, and_self]
          · cases p with
            | nil => simp only [unsetTree, Assoc.get?_erase, if_neg hk, and_self]
            | cons next rest =>
                rw [unsetTree]
                cases hget : Assoc.get? fields part with
                | none => exact ⟨rfl, rfl⟩
                | some w =>
                    cases w with
                    | obj sub => simp only [Assoc.get?_set, if_neg hk, and_self]
                    | _ => exact ⟨rfl, rfl⟩

/-- What is absent stays absent. -/
theorem objectAt_unsetTree_none {q : Path} {fields : Fields} (p : Path)
    (h : objectAt (.obj fields) q = none) : objectAt (.obj (unsetTree fields p)) q = none := by
  induction p generalizing q fields with
  | nil => exact h
  | cons part p ih =>
      cases q with
      | nil => cases h
      | cons k q =>
          rw [objectAt_obj_cons] at h ⊢
          cases p with
          | nil =>
              rw [unsetTree, Assoc.get?_erase]
              split_ifs
              · rfl
              · exact h
          | cons next rest =>
              rw [unsetTree]
              cases hget : Assoc.get? fields part with
              | none => exact h
              | some w =>
                  cases w with
                  | obj sub =>
                      simp only [Assoc.get?_set]
                      split_ifs with hk
                      · subst hk
                        rw [hget, Option.bind_some] at h
                        exact ih h
                      · exact h
                  | _ => exact h

/-! ## The patch of a tree -/

inductive PatchError
  | bodyNotObject
  | unsupportedKey (key : JsString)
  | setNotObject
  | unsetShape
  | emptyPath (field : JsString)
  | invalidPath (field : JsString)
  | protectedRoot (root : JsString)
  /-- The engine's own error: `Object.prototype` keeps its prototype. -/
  | immutablePrototype
  deriving DecidableEq

def PatchError.message : PatchError → JsString
  | bodyNotObject => js "patch body must be a plain object"
  | unsupportedKey key => js "unsupported patch key \"" ++ key ++ js "\""
  | setNotObject => js "$set must be a plain object when provided"
  | unsetShape => js "$unset must be an array of dot-notation paths or an object when provided"
  | emptyPath field => field ++ js " must be a non-empty dot-notation path"
  | invalidPath field => field ++ js " must be a valid dot-notation path"
  | protectedRoot root => root ++ js " cannot be changed"
  | immutablePrototype => js "Immutable prototype object 'Object.prototype' cannot have their prototype set"

def idKey : JsString := js "_id"

/-- `assertPatchPath(path, field)`, where `none` is a path that is no string. -/
def assertPatchPath (path : Option JsString) (field : JsString) : Except PatchError Path :=
  match path with
  | none => .error (.emptyPath field)
  | some path =>
      if path = [] then .error (.emptyPath field)
      else
        let parts := split (unit '.') path
        if [] ∈ parts then .error (.invalidPath field)
        else if parts.head? = some idKey then .error (.protectedRoot idKey)
        else .ok parts

def setField (path : JsString) : JsString :=
  js "$set." ++ path

def unsetField : JsString := js "$unset"

theorem assertPatchPath_ne_nil {path : Option JsString} {field : JsString} {parts : Path}
    (h : assertPatchPath path field = .ok parts) :
    parts ≠ [] ∧ parts.head? ≠ some idKey ∧ ∃ text, path = some text ∧
      parts = split (unit '.') text := by
  unfold assertPatchPath at h
  cases path with
  | none => cases h
  | some text =>
      simp only at h
      split_ifs at h with _ _ hroot
      cases h
      exact ⟨split_ne_nil _ _, hroot, text, rfl, rfl⟩

/-- The steps of the first loop on a tree. -/
def setAll (fields : Fields) (entries : Fields) : Except PatchError Fields :=
  entries.foldlM (fun fields (entry : JsString × Json) => do
    let parts ← assertPatchPath (some entry.1) (setField entry.1)
    return setTree fields parts entry.2) fields

/-- The steps of the second loop on a tree. -/
def unsetAll (fields : Fields) (paths : List (Option JsString)) : Except PatchError Fields :=
  paths.foldlM (fun fields path => do
    let parts ← assertPatchPath path unsetField
    return unsetTree fields parts) fields

/-- The entries of `patch.$set ?? {}`. -/
def setEntries (patch : Fields) : Except PatchError Fields :=
  match Assoc.get? patch (js "$set") with
  | none | some .null => .ok []
  | some (.obj entries) => .ok entries
  | some _ => .error .setNotObject

def stringOf : Json → Option JsString
  | .str s => some s
  | _ => none

/-- `unsetPaths(patch.$unset)` -/
def unsetPaths (patch : Fields) : Except PatchError (List (Option JsString)) :=
  match Assoc.get? patch (js "$unset") with
  | none => .ok []
  | some (.arr items) => .ok (items.map stringOf)
  | some (.obj fields) => .ok ((Assoc.keys fields).map some)
  | some _ => .error .unsetShape

def isSupportedKey (key : JsString) : Bool :=
  decide (key = js "$set") || decide (key = js "$unset")

/-- What `applyPatchToObject` computes, on the tree of the object. -/
def patchTree (current : Fields) (patch : Json) : Except PatchError Fields :=
  match patch with
  | .obj fields =>
      match (Assoc.keys fields).find? (fun key => !isSupportedKey key) with
      | some key => .error (.unsupportedKey key)
      | none => do
          let entries ← setEntries fields
          let next ← setAll (Assoc.erase current idKey) entries
          let paths ← unsetPaths fields
          unsetAll next paths
  | _ => .error .bodyNotObject

/-- The paths of a patch that is accepted, in the order in which they are applied. -/
structure Accepted (patch : Json) (sets : List (Path × Json)) (unsets : List Path) : Prop where
  body : ∃ fields entries paths, patch = .obj fields ∧ setEntries fields = .ok entries ∧
    unsetPaths fields = .ok paths ∧
    List.Forall₂ (fun (entry : JsString × Json) set =>
      assertPatchPath (some entry.1) (setField entry.1) = .ok set.1 ∧ set.2 = entry.2)
      entries sets ∧
    List.Forall₂ (fun path parts => assertPatchPath path unsetField = .ok parts) paths unsets

/-- What a patch does: the values set, the paths removed, and everything else. -/
structure Patched (current : Fields) (sets : List (Path × Json)) (unsets : List Path)
    (next : Fields) : Prop where
  /-- A set path that no later path overlaps holds its value. -/
  holds : ∀ before path value after, sets = before ++ (path, value) :: after →
    (∀ set ∈ after, ¬Overlap set.1 path) → (∀ p ∈ unsets, ¬Overlap p path) →
      objectAt (.obj next) path = some value
  /-- A removed path is absent. -/
  absent : ∀ path ∈ unsets, objectAt (.obj next) path = none
  /-- Any other path keeps its value. -/
  keeps : ∀ q, (∀ set ∈ sets, ¬Overlap set.1 q) → (∀ p ∈ unsets, ¬Overlap p q) →
    ¬Overlap [idKey] q → objectAt (.obj next) q = objectAt (.obj current) q
  /-- So do the elements of arrays through which no path is set. -/
  keepsElements : ∀ q, (∀ set ∈ sets, ¬Overlap set.1 q) → (∀ p ∈ unsets, ¬Overlap p q) →
    ¬Overlap [idKey] q →
    (∀ set ∈ sets, ∀ r, r <+: set.1 → r <+: q → ¬IsArray (objectAt (.obj current) r)) →
      valueAt (.obj next) q = valueAt (.obj current) q
  /-- There is no `_id`. -/
  noId : Assoc.get? next idKey = none

/-! ## Applying the paths one after another -/

def applySets (fields : Fields) (sets : List (Path × Json)) : Fields :=
  sets.foldl (fun fields set => setTree fields set.1 set.2) fields

def applyUnsets (fields : Fields) (unsets : List Path) : Fields :=
  unsets.foldl unsetTree fields

theorem setAll_ok {fields next : Fields} {entries : Fields} (h : setAll fields entries = .ok next) :
    ∃ sets : List (Path × Json), next = applySets fields sets ∧
      List.Forall₂ (fun (entry : JsString × Json) set =>
        assertPatchPath (some entry.1) (setField entry.1) = .ok set.1 ∧ set.2 = entry.2)
        entries sets := by
  induction entries generalizing fields with
  | nil =>
      cases h
      exact ⟨[], rfl, .nil⟩
  | cons entry entries ih =>
      rw [setAll, List.foldlM_cons] at h
      rcases Fallible.bind_eq_ok.mp h with ⟨fields', hstep, hrest⟩
      rcases Fallible.bind_eq_ok.mp hstep with ⟨parts, hparts, hset⟩
      cases hset
      rcases ih hrest with ⟨sets, hnext, hall⟩
      exact ⟨(parts, entry.2) :: sets, hnext, .cons ⟨hparts, rfl⟩ hall⟩

theorem unsetAll_ok {fields next : Fields} {paths : List (Option JsString)}
    (h : unsetAll fields paths = .ok next) :
    ∃ unsets : List Path, next = applyUnsets fields unsets ∧
      List.Forall₂ (fun path parts => assertPatchPath path unsetField = .ok parts) paths unsets := by
  induction paths generalizing fields with
  | nil =>
      cases h
      exact ⟨[], rfl, .nil⟩
  | cons path paths ih =>
      rw [unsetAll, List.foldlM_cons] at h
      rcases Fallible.bind_eq_ok.mp h with ⟨fields', hstep, hrest⟩
      rcases Fallible.bind_eq_ok.mp hstep with ⟨parts, hparts, hunset⟩
      cases hunset
      rcases ih hrest with ⟨unsets, hnext, hall⟩
      exact ⟨parts :: unsets, hnext, .cons hparts hall⟩

theorem objectAt_applySets {q : Path} {sets : List (Path × Json)}
    (h : ∀ set ∈ sets, ¬Overlap set.1 q) (fields : Fields) :
    objectAt (.obj (applySets fields sets)) q = objectAt (.obj fields) q := by
  induction sets generalizing fields with
  | nil => rfl
  | cons set sets ih =>
      rw [applySets, List.foldl_cons]
      exact (ih (fun s hs => h s (List.mem_cons_of_mem _ hs)) _).trans
        (objectAt_setTree_of_not_overlap (h set List.mem_cons_self) fields set.2)

theorem valueAt_applySets {q : Path} {sets : List (Path × Json)}
    (h : ∀ set ∈ sets, ¬Overlap set.1 q) {fields : Fields}
    (harray : ∀ set ∈ sets, ∀ r, r <+: set.1 → r <+: q → ¬IsArray (objectAt (.obj fields) r)) :
    valueAt (.obj (applySets fields sets)) q = valueAt (.obj fields) q := by
  induction sets generalizing fields with
  | nil => rfl
  | cons set sets ih =>
      have hset := h set List.mem_cons_self
      rw [applySets, List.foldl_cons]
      have hrest : ∀ s ∈ sets, ∀ r, r <+: s.1 → r <+: q →
          ¬IsArray (objectAt (.obj (setTree fields set.1 set.2)) r) := by
        intro s hs r hrs hrq
        apply not_isArray_setTree (fun hle => hset (Or.inl (hle.trans hrq)))
        exact harray s (List.mem_cons_of_mem _ hs) r hrs hrq
      exact (ih (fun s hs => h s (List.mem_cons_of_mem _ hs)) hrest).trans
        (valueAt_setTree hset set.2 (harray set List.mem_cons_self))

theorem valueAt_applyUnsets {q : Path} {unsets : List Path} (h : ∀ p ∈ unsets, ¬Overlap p q)
    (fields : Fields) :
    valueAt (.obj (applyUnsets fields unsets)) q = valueAt (.obj fields) q ∧
      objectAt (.obj (applyUnsets fields unsets)) q = objectAt (.obj fields) q := by
  induction unsets generalizing fields with
  | nil => exact ⟨rfl, rfl⟩
  | cons p unsets ih =>
      have hrest := ih (fun r hr => h r (List.mem_cons_of_mem _ hr)) (unsetTree fields p)
      have hstep := valueAt_unsetTree (h p List.mem_cons_self) fields
      exact ⟨hrest.1.trans hstep.1, hrest.2.trans hstep.2⟩

theorem objectAt_applyUnsets_none {q : Path} (unsets : List Path) {fields : Fields}
    (h : objectAt (.obj fields) q = none) :
    objectAt (.obj (applyUnsets fields unsets)) q = none := by
  induction unsets generalizing fields with
  | nil => exact h
  | cons p unsets ih => exact ih (objectAt_unsetTree_none p h)

theorem objectAt_applyUnsets {p : Path} {unsets : List Path} (hmem : p ∈ unsets) (hp : p ≠ [])
    (fields : Fields) : objectAt (.obj (applyUnsets fields unsets)) p = none := by
  induction unsets generalizing fields with
  | nil => cases hmem
  | cons r unsets ih =>
      rcases List.mem_cons.mp hmem with rfl | hmem
      · exact objectAt_applyUnsets_none unsets (objectAt_unsetTree hp fields)
      · exact ih hmem _

theorem objectAt_applySets_last {p : Path} (hp : p ≠ []) {before after : List (Path × Json)}
    (h : ∀ set ∈ after, ¬Overlap set.1 p) (fields : Fields) (value : Json) :
    objectAt (.obj (applySets fields (before ++ (p, value) :: after))) p = some value := by
  rw [applySets, List.foldl_append, List.foldl_cons]
  exact (objectAt_applySets h _).trans (objectAt_setTree hp _ value)

/-! ## What an accepted patch does -/

/-- Erasing a key is removing its path. -/
theorem erase_eq_unsetTree (fields : Fields) (key : JsString) :
    Assoc.erase fields key = unsetTree fields [key] := rfl

theorem not_overlap_id {p : Path} (hne : p ≠ []) (hroot : p.head? ≠ some idKey) :
    ¬Overlap p [idKey] := by
  cases p with
  | nil => exact absurd rfl hne
  | cons part p =>
      rintro (h | h)
      · exact hroot (by rw [(List.cons_prefix_cons.mp h).1]; rfl)
      · exact hroot (by rw [← (List.cons_prefix_cons.mp h).1]; rfl)

theorem patched (current : Fields) {sets : List (Path × Json)} {unsets : List Path}
    (hsets : ∀ set ∈ sets, set.1 ≠ [] ∧ set.1.head? ≠ some idKey)
    (hunsets : ∀ p ∈ unsets, p ≠ []) :
    Patched current sets unsets
      (applyUnsets (applySets (Assoc.erase current idKey) sets) unsets) where
  holds := by
    rintro before path value after rfl hafter hun
    have hpath := hsets (path, value) (by simp)
    rw [(valueAt_applyUnsets hun _).2]
    exact objectAt_applySets_last hpath.1 hafter _ value
  absent := fun path hpath => objectAt_applyUnsets hpath (hunsets path hpath) _
  keeps := by
    intro q hset hun hid
    rw [(valueAt_applyUnsets hun _).2, objectAt_applySets hset, erase_eq_unsetTree]
    exact (valueAt_unsetTree hid current).2
  keepsElements := by
    intro q hset hun hid harray
    rw [(valueAt_applyUnsets hun _).1, valueAt_applySets hset, erase_eq_unsetTree]
    · exact (valueAt_unsetTree hid current).1
    · intro set hmem r hrs hrq
      by_cases hr : Overlap [idKey] r
      · -- a beginning of the path that overlaps `_id` is the object itself
        rcases hr with hr | hr
        · exact absurd (Or.inl (hr.trans hrq)) hid
        · cases r with
          | nil => exact id
          | cons k r =>
              rcases List.cons_prefix_cons.mp hr with ⟨rfl, -⟩
              have hid' : [idKey] <+: q := (List.cons_prefix_cons.mpr ⟨rfl, List.nil_prefix⟩ :
                [idKey] <+: idKey :: r).trans hrq
              exact absurd (Or.inl hid') hid
      · rw [erase_eq_unsetTree, (valueAt_unsetTree hr current).2]
        exact harray set hmem r hrs hrq
  noId := by
    have hget : ∀ fields : Fields, objectAt (.obj fields) [idKey] = Assoc.get? fields idKey := by
      intro fields
      rw [objectAt_obj_cons]
      cases Assoc.get? fields idKey with
      | none => rfl
      | some v => cases v <;> rfl
    rw [← hget]
    apply objectAt_applyUnsets_none
    rw [objectAt_applySets fun set hset => not_overlap_id (hsets set hset).1 (hsets set hset).2,
      hget, Assoc.get?_erase, if_pos rfl]

/-- An accepted patch sets and removes the paths it names, and leaves every other path alone. -/
theorem patchTree_spec {current next : Fields} {patch : Json}
    (h : patchTree current patch = .ok next) :
    ∃ sets unsets, Accepted patch sets unsets ∧ Patched current sets unsets next := by
  cases patch with
  | obj fields =>
      simp only [patchTree] at h
      split at h
      · cases h
      · rcases Fallible.bind_eq_ok.mp h with ⟨entries, hentries, h⟩
        rcases Fallible.bind_eq_ok.mp h with ⟨next', hset, h⟩
        rcases Fallible.bind_eq_ok.mp h with ⟨paths, hpaths, hunset⟩
        rcases setAll_ok hset with ⟨sets, rfl, hsets⟩
        rcases unsetAll_ok hunset with ⟨unsets, rfl, hunsets⟩
        refine ⟨sets, unsets, ⟨fields, entries, paths, rfl, hentries, hpaths, hsets, hunsets⟩, ?_⟩
        apply patched
        · intro set hmem
          rcases List.mem_iff_getElem.mp hmem with ⟨i, hi, rfl⟩
          have hlt : i < entries.length := hsets.length_eq ▸ hi
          have hparts := assertPatchPath_ne_nil (hsets.get hlt hi).1
          exact ⟨hparts.1, hparts.2.1⟩
        · intro p hmem
          rcases List.mem_iff_getElem.mp hmem with ⟨i, hi, rfl⟩
          have hlt : i < paths.length := hunsets.length_eq ▸ hi
          exact (assertPatchPath_ne_nil (hunsets.get hlt hi)).1
  | _ => cases h

end Patch
end ObjyDb
