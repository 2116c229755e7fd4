import ObjyDb.Js.Decomposition

/-!
# Path — dotted paths into objects

`getPathValue` reads a dotted path literally and through arrays; `setPath` and `unsetPath` trim the
parts of the path, skip empty ones, and go through plain objects only.  They speak about the same
place for a *plain* path of a value that has no array on the way (`getPathValue_eq_lookup`).

Reads see own properties only: a path through a member of `Object.prototype` is not plain.
-/

namespace ObjyDb

open Js

/-! ## `getPathValue` -/

/-- `items[part]`, by index or `length`. -/
def arrayMember (items : List Json) (part : JsString) : Option Json :=
  if part = js "length" then some (.num (JsNumber.ofNat items.length))
  else
    match (List.range items.length).find? (fun i => (JsNumber.ofNat i).toText = part) with
    | some i => items[i]?
    | none => none

/-- `cursor[part]`; `none` is `undefined`. -/
def member (cursor : Json) (part : JsString) : Option Json :=
  match cursor with
  | .obj fields => Assoc.get? fields part
  | .arr items => arrayMember items part
  | _ => none

def getPathValue (source : Json) (path : JsString) : Option Json :=
  if path = js "_id" then member source (js "_id")
  else if path = js "id" then member source (js "id")
  else (split (unit '.') path).foldl (fun cursor part => cursor.bind (member · part)) (some source)

/-! ## `setPath` and `unsetPath` -/

def pathParts (path : JsString) : Parts :=
  ((split (unit '.') path).map trim).filter (· ≠ [])

def setPath (object : Fields) (path : JsString) (value : Json) : Fields :=
  setParts (pathParts path) object value

def unsetPath (object : Fields) (path : JsString) : Fields :=
  if pathParts path = [] then object
  else fieldsOf (some (unsetParts (pathParts path) (.obj object)))

/-- `mergePlainObjects(base, overlay)` -/
def mergePlainObjects (base upper : Fields) : Fields :=
  mergeInto.mergeFields base upper

/-- `JSON.parse(JSON.stringify(value))`: a copy of a JSON value (`parse_stringify`). -/
def clone (value : Json) : Json :=
  value

def pickPaths (value : Fields) (paths : List JsString) : Fields :=
  paths.foldl (fun out path =>
    match getPathValue (.obj value) path with
    | some current => setPath out path (clone current)
    | none => out) []

def unsetPaths (value : Fields) (paths : List JsString) : Fields :=
  paths.foldl unsetPath value

/-! ## Plain paths -/

/-- The members every plain object inherits. -/
def objectPrototypeNames : List JsString :=
  [js "constructor", js "__proto__", js "hasOwnProperty", js "isPrototypeOf",
    js "propertyIsEnumerable", js "toLocaleString", js "toString", js "valueOf",
    js "__defineGetter__", js "__defineSetter__", js "__lookupGetter__", js "__lookupSetter__"]

/-- No part of the path is empty, padded, inherited by every object, and it is not below `_id`. -/
structure PlainPath (path : JsString) : Prop where
  parts : split (unit '.') path = pathParts path
  own : ∀ part ∈ pathParts path, part ∉ objectPrototypeNames
  notId : (pathParts path).head? ≠ some (js "_id")

/-- No array lies on the way to the end of the path. -/
def ThroughObjects (v : Json) (parts : Parts) : Prop :=
  ∀ q, q <+: parts → q ≠ parts → ∀ items, v.at q ≠ .leaf (.arr items)

/-- Reading and editing the value mean the same place by this path. -/
structure PlainFor (v : Json) (path : JsString) : Prop where
  plain : PlainPath path
  through : ThroughObjects v (pathParts path)

theorem PlainPath.ne_nil {path : JsString} (h : PlainPath path) : pathParts path ≠ [] :=
  h.parts ▸ split_ne_nil _ _

theorem PlainPath.noProto {path : JsString} (h : PlainPath path) :
    js "__proto__" ∉ pathParts path := fun hmem => h.own _ hmem (by decide)

theorem ThroughObjects.tail {fields : Fields} {key : JsString} {child : Json} {rest : Parts}
    (h : ThroughObjects (.obj fields) (key :: rest))
    (hget : Assoc.get? fields key = some child) : ThroughObjects child rest := by
  intro q hq hne items hat
  refine h (key :: q) (List.cons_prefix_cons.mpr ⟨rfl, hq⟩) (by simpa using hne) items ?_
  rw [at_cons_of_get? hget]
  exact hat

theorem foldl_member_none (parts : Parts) :
    parts.foldl (fun cursor part => cursor.bind (member · part)) none = none := by
  induction parts with
  | nil => rfl
  | cons part parts ih => exact ih

theorem foldl_member {v : Json} {parts : Parts} (h : ThroughObjects v parts) :
    parts.foldl (fun cursor part => cursor.bind (member · part)) (some v) = lookup v parts := by
  induction parts generalizing v with
  | nil => simp
  | cons key rest ih =>
      rw [List.foldl_cons, Option.bind_some]
      cases v with
      | obj fields =>
          rw [lookup_obj_cons, member]
          cases hget : Assoc.get? fields key with
          | none => exact foldl_member_none rest
          | some child => exact ih (h.tail hget)
      | arr items => exact absurd rfl (h [] List.nil_prefix (by simp) items)
      | _ => exact foldl_member_none rest

theorem member_eq_lookup {v : Json} {key : JsString} (h : ThroughObjects v [key]) :
    member v key = lookup v [key] := by
  have hfold := foldl_member h
  simpa using hfold

/-- For a plain path, reading is looking up own properties of plain objects. -/
theorem PlainFor.getPathValue_eq {v : Json} {path : JsString} (h : PlainFor v path) :
    getPathValue v path = lookup v (pathParts path) := by
  have hthrough := h.through
  unfold getPathValue
  split_ifs with h1 h2
  · have hparts : pathParts path = [js "_id"] := by rw [h1]; decide
    rw [hparts] at hthrough ⊢
    exact member_eq_lookup hthrough
  · have hparts : pathParts path = [js "id"] := by rw [h2]; decide
    rw [hparts] at hthrough ⊢
    exact member_eq_lookup hthrough
  · rw [h.plain.parts]
    exact foldl_member hthrough

/-- The conditions on a path depend on the view only. -/
theorem ThroughObjects.of_at {v w : Json} {parts : Parts} (h : ThroughObjects v parts)
    (hat : ∀ q, q <+: parts → w.at q = v.at q ∨ w.at q = .absent) : ThroughObjects w parts := by
  intro q hq hne items hleaf
  rcases hat q hq with heq | habs
  · exact h q hq hne items (heq ▸ hleaf)
  · rw [habs] at hleaf
    cases hleaf

theorem PlainFor.within {v w : Json} {path : JsString} (h : PlainFor v path) (hw : Within w v) :
    PlainFor w path :=
  ⟨h.plain, h.through.of_at fun q _ => hw q⟩

/-! ## The view of edited objects -/

theorem unsetPath_eq {path : JsString} (h : PlainPath path) (object : Fields) :
    Json.obj (unsetPath object path) = unsetParts (pathParts path) (.obj object) := by
  obtain ⟨result, hresult⟩ := unsetParts_obj h.ne_nil object
  rw [unsetPath, if_neg h.ne_nil, hresult]
  rfl

theorem unsetPaths_eq {paths : List JsString} (h : ∀ p ∈ paths, PlainPath p) (object : Fields) :
    Json.obj (unsetPaths object paths) = unsetAll (paths.map pathParts) (.obj object) := by
  induction paths generalizing object with
  | nil => rfl
  | cons path paths ih =>
      rw [List.map_cons, unsetAll_cons, ← unsetPath_eq (h path List.mem_cons_self)]
      exact ih (fun p hp => h p (List.mem_cons_of_mem _ hp)) _

theorem cellOf_lookup {v : Json} {path : JsString} (h : PlainPath path) {w : Json}
    (hw : lookup v (pathParts path) = some w) : CellOf v (pathParts path, w) :=
  ⟨h.ne_nil, h.noProto, w, hw, fun _ => rfl⟩

/-- Picking plain paths gives a part of the value that shows all of it near those paths. -/
theorem at_pickPaths {v : Fields} {paths : List JsString}
    (h : ∀ p ∈ paths, PlainFor (.obj v) p) :
    Within (.obj (pickPaths v paths)) (.obj v) ∧ ∀ q, (∃ p ∈ paths,
      (lookup (.obj v) (pathParts p)).isSome ∧ Related (pathParts p) q) →
        (Json.obj (pickPaths v paths)).at q = (Json.obj v).at q := by
  induction paths using List.reverseRecOn with
  | nil =>
      refine ⟨?_, by simp⟩
      intro q
      cases q with
      | nil => exact Or.inl rfl
      | cons key q => exact Or.inr rfl
  | append_singleton paths path ih =>
      obtain ⟨hwithin, hcovers⟩ := ih (fun p hp => h p (List.mem_append_left _ hp))
      have hpath := h path (by simp)
      have hstep : pickPaths v (paths ++ [path]) =
          match getPathValue (.obj v) path with
          | some current => setPath (pickPaths v paths) path (clone current)
          | none => pickPaths v paths := by
        simp [pickPaths, List.foldl_append]
      rw [hstep, hpath.getPathValue_eq]
      cases hlook : lookup (.obj v) (pathParts path) with
      | none =>
          refine ⟨hwithin, ?_⟩
          rintro q ⟨p, hp, hsome, hrel⟩
          rcases List.mem_append.mp hp with hp | hp
          · exact hcovers q ⟨p, hp, hsome, hrel⟩
          · rw [List.mem_singleton.mp hp, hlook] at hsome
            cases hsome
      | some w =>
          have hcell := cellOf_lookup hpath.plain hlook
          have hnear : ∀ q, Related (pathParts path) q →
              (Json.obj (setPath (pickPaths v paths) path w)).at q = (Json.obj v).at q :=
            fun q hrel => hcell.at_write _ hrel
          have hfar : ∀ q, ¬ Related (pathParts path) q →
              (Json.obj (setPath (pickPaths v paths) path w)).at q =
                (Json.obj (pickPaths v paths)).at q :=
            fun q hrel => at_setParts_of_not_related hpath.plain.noProto _ _ hrel
          refine ⟨fun q => ?_, ?_⟩
          · by_cases hrel : Related (pathParts path) q
            · exact Or.inl (hnear q hrel)
            · exact (hfar q hrel).symm ▸ hwithin q
          · rintro q ⟨p, hp, hsome, hpq⟩
            by_cases hrel : Related (pathParts path) q
            · exact hnear q hrel
            · refine (hfar q hrel).trans (hcovers q ⟨p, ?_, hsome, hpq⟩)
              rcases List.mem_append.mp hp with hp | hp
              · exact hp
              · exact absurd (List.mem_singleton.mp hp ▸ hpq) hrel

theorem wellFormed_unsetPath {object : Fields} (h : (Json.obj object).WellFormed)
    (path : JsString) : (Json.obj (unsetPath object path)).WellFormed := by
  unfold unsetPath
  split_ifs with hnil
  · exact h
  · obtain ⟨result, hresult⟩ := unsetParts_obj hnil object
    have hwf := wellFormed_unsetParts (pathParts path) h
    rw [hresult] at hwf ⊢
    exact hwf

theorem wellFormed_unsetPaths {object : Fields} (h : (Json.obj object).WellFormed)
    (paths : List JsString) : (Json.obj (unsetPaths object paths)).WellFormed := by
  induction paths generalizing object with
  | nil => exact h
  | cons path paths ih => exact ih (wellFormed_unsetPath h path)

theorem wellFormed_lookup {v w : Json} {parts : Parts} (hv : v.WellFormed)
    (h : lookup v parts = some w) : w.WellFormed := by
  induction parts generalizing v with
  | nil => simpa using (by simpa using h : v = w) ▸ hv
  | cons key rest ih =>
      cases v with
      | obj fields =>
          rw [lookup_obj_cons, Option.bind_eq_some_iff] at h
          obtain ⟨child, hget, hrest⟩ := h
          exact ih ((Json.wellFormed_obj_iff.mp hv).2 _ (Assoc.mem_of_get?_eq_some hget)) hrest
      | _ => cases h

theorem wellFormed_pickPaths {v : Fields} (hv : (Json.obj v).WellFormed) {paths : List JsString}
    (h : ∀ p ∈ paths, PlainFor (.obj v) p) : (Json.obj (pickPaths v paths)).WellFormed := by
  induction paths using List.reverseRecOn with
  | nil => exact Json.wellFormed_obj_iff.mpr ⟨List.nodup_nil, by simp [pickPaths]⟩
  | append_singleton paths path ih =>
      have hwf := ih (fun p hp => h p (List.mem_append_left _ hp))
      have hpath := h path (by simp)
      have hstep : pickPaths v (paths ++ [path]) =
          match getPathValue (.obj v) path with
          | some current => setPath (pickPaths v paths) path (clone current)
          | none => pickPaths v paths := by
        simp [pickPaths, List.foldl_append]
      rw [hstep, hpath.getPathValue_eq]
      cases hlook : lookup (.obj v) (pathParts path) with
      | none => exact hwf
      | some w => exact wellFormed_setParts _ hwf (wellFormed_lookup hv hlook)

end ObjyDb
