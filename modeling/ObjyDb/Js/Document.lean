import ObjyDb.Js.Json

/-!
# Document — plain objects up to the order of their fields

A JSON value is viewed through the paths of own properties that lead from one plain object to the
next: `at v path` is the scalar or array found there, `object` for a plain object, `absent`
otherwise.  Two values with the same view are equal up to the order of fields.

The three editing operations of a document are described by their views: `setParts` writes a value
at a path, `unsetParts` removes one together with the objects it leaves empty, `mergeFields` lays
one document over another.  Assigning to `__proto__` creates no property, so the paths and fields
of interest here do not hold that name.
-/

namespace ObjyDb
namespace Js

/-! ## Views -/

abbrev Parts := List JsString

inductive Shape
  | absent
  | object
  | leaf (v : Json)
  deriving DecidableEq

/-- The value at a path of own properties through plain objects. -/
def lookup : Json → Parts → Option Json
  | v, [] => some v
  | .obj fields, key :: rest =>
      match Assoc.get? fields key with
      | some child => lookup child rest
      | none => none
  | _, _ :: _ => none

def Json.shape : Json → Shape
  | .obj _ => .object
  | v => .leaf v

def Json.at (v : Json) (path : Parts) : Shape :=
  match lookup v path with
  | some found => found.shape
  | none => .absent

/-- One path leads to or through the other. -/
def Related (p q : Parts) : Prop :=
  p <+: q ∨ q <+: p

@[simp] theorem lookup_nil (v : Json) : lookup v [] = some v := by
  cases v <;> rfl

@[simp] theorem at_nil (v : Json) : v.at [] = v.shape := by
  simp [Json.at]

theorem lookup_obj_cons (fields : Fields) (key : JsString) (rest : Parts) :
    lookup (.obj fields) (key :: rest) =
      (Assoc.get? fields key).bind (fun child => lookup child rest) := by
  rw [lookup]
  cases Assoc.get? fields key <;> rfl

theorem at_obj_cons (fields : Fields) (key : JsString) (rest : Parts) :
    (Json.obj fields).at (key :: rest) =
      match Assoc.get? fields key with
      | some child => child.at rest
      | none => .absent := by
  rw [Json.at, lookup_obj_cons]
  cases Assoc.get? fields key <;> rfl

theorem at_cons_of_get? {fields : Fields} {key : JsString} {child : Json}
    (h : Assoc.get? fields key = some child) (rest : Parts) :
    (Json.obj fields).at (key :: rest) = child.at rest := by
  rw [at_obj_cons, h]

theorem Json.shape_ne_absent (v : Json) : v.shape ≠ .absent := by
  cases v <;> simp [Json.shape]

theorem at_cons_of_not_obj {v : Json} (h : v.shape ≠ .object) (key : JsString) (rest : Parts) :
    v.at (key :: rest) = .absent := by
  cases v <;> first | rfl | exact absurd rfl h

theorem lookup_append (v : Json) (p q : Parts) :
    lookup v (p ++ q) = (lookup v p).bind (fun w => lookup w q) := by
  induction p generalizing v with
  | nil => simp
  | cons key p ih =>
      cases v with
      | obj fields =>
          rw [List.cons_append, lookup_obj_cons, lookup_obj_cons, Option.bind_assoc]
          exact congrArg _ (funext fun child => ih child)
      | _ => rfl

theorem at_append {v w : Json} {p : Parts} (h : lookup v p = some w) (q : Parts) :
    v.at (p ++ q) = w.at q := by
  rw [Json.at, lookup_append, h, Option.bind_some, Json.at]

theorem lookup_eq_none_iff {v : Json} {p : Parts} : lookup v p = none ↔ v.at p = .absent := by
  rw [Json.at]
  cases lookup v p with
  | none => simp
  | some w => cases w <;> simp [Json.shape]

/-- Above a value there are only objects. -/
theorem at_of_prefix {v w : Json} {p : Parts} {key : JsString} {q : Parts}
    (h : lookup v (p ++ key :: q) = some w) : v.at p = .object := by
  rw [lookup_append, Option.bind_eq_some_iff] at h
  obtain ⟨u, hu, hrest⟩ := h
  rw [Json.at, hu]
  cases u with
  | obj fields => rfl
  | _ => cases hrest

theorem Json.at_absent_of_prefix {v : Json} {p q : Parts} (hpq : p <+: q)
    (h : v.at p = .absent) : v.at q = .absent := by
  obtain ⟨r, rfl⟩ := hpq
  rw [← lookup_eq_none_iff] at h ⊢
  rw [lookup_append, h, Option.bind_none]

/-! ## Writing at a path -/

/-- `target[key] = value` on a plain object: `__proto__` is a setter unless it is an own
property. -/
def assign (fields : Fields) (key : JsString) (value : Json) : Fields :=
  if key = js "__proto__" ∧ key ∉ Assoc.keys fields then fields else Assoc.set fields key value

theorem assign_eq_set {key : JsString} (h : key ≠ js "__proto__") (fields : Fields)
    (value : Json) : assign fields key value = Assoc.set fields key value :=
  if_neg (fun hproto => h hproto.1)

/-- The fields of a plain object, none otherwise. -/
def fieldsOf : Option Json → Fields
  | some (.obj fields) => fields
  | _ => []

/-- Write at a path; what is no plain object on the way is replaced by one. -/
def setParts : Parts → Fields → Json → Fields
  | [], fields, _ => fields
  | [key], fields, value => assign fields key value
  | key :: rest, fields, value =>
      assign fields key (.obj (setParts rest (fieldsOf (Assoc.get? fields key)) value))

theorem setParts_cons_cons (key next : JsString) (rest : Parts) (fields : Fields) (value : Json) :
    setParts (key :: next :: rest) fields value =
      assign fields key (.obj (setParts (next :: rest) (fieldsOf (Assoc.get? fields key)) value)) :=
  rfl

/-- At and below the path the document shows the value. -/
theorem at_setParts_append {parts : Parts} (hne : parts ≠ []) (hproto : js "__proto__" ∉ parts)
    (fields : Fields) (value : Json) (q : Parts) :
    (Json.obj (setParts parts fields value)).at (parts ++ q) = value.at q := by
  induction parts generalizing fields with
  | nil => exact absurd rfl hne
  | cons key rest ih =>
      have hkey : key ≠ js "__proto__" := fun h => hproto (h ▸ List.mem_cons_self)
      cases rest with
      | nil =>
          rw [setParts, assign_eq_set hkey, List.singleton_append, at_obj_cons, Assoc.get?_set,
            if_pos rfl]
      | cons next rest =>
          have hrest : js "__proto__" ∉ next :: rest :=
            fun h => hproto (List.mem_cons_of_mem _ h)
          rw [setParts_cons_cons, assign_eq_set hkey, List.cons_append, at_obj_cons,
            Assoc.get?_set, if_pos rfl]
          exact ih (by simp) hrest _

/-- Above the path it shows objects. -/
theorem at_setParts_above {parts q : Parts} (hproto : js "__proto__" ∉ parts) (fields : Fields)
    (value : Json) (hq : q <+: parts) (hneq : q ≠ parts) :
    (Json.obj (setParts parts fields value)).at q = .object := by
  induction parts generalizing fields q with
  | nil => exact absurd (List.prefix_nil.mp hq) hneq
  | cons key rest ih =>
      cases q with
      | nil => rfl
      | cons k q =>
          obtain ⟨rfl, hrest⟩ := List.cons_prefix_cons.mp hq
          have hkey : k ≠ js "__proto__" := fun h => hproto (h ▸ List.mem_cons_self)
          cases rest with
          | nil =>
              obtain rfl := List.prefix_nil.mp hrest
              exact absurd rfl hneq
          | cons next rest =>
              rw [setParts_cons_cons, assign_eq_set hkey, at_obj_cons, Assoc.get?_set, if_pos rfl]
              exact ih (fun h => hproto (List.mem_cons_of_mem _ h)) _ hrest
                (fun h => hneq (by rw [h]))

/-- Elsewhere it is unchanged. -/
theorem at_setParts_of_not_related {parts q : Parts} (hproto : js "__proto__" ∉ parts)
    (fields : Fields) (value : Json) (h : ¬ Related parts q) :
    (Json.obj (setParts parts fields value)).at q = (Json.obj fields).at q := by
  induction parts generalizing fields q with
  | nil => exact absurd (Or.inl List.nil_prefix) h
  | cons key rest ih =>
      have hkey : key ≠ js "__proto__" := fun hk => hproto (hk ▸ List.mem_cons_self)
      cases q with
      | nil => exact absurd (Or.inr List.nil_prefix) h
      | cons k q =>
          by_cases hk : key = k
          · subst hk
            have hrest : ¬ Related rest q := by
              rintro (hpre | hpre)
              · exact h (Or.inl (List.cons_prefix_cons.mpr ⟨rfl, hpre⟩))
              · exact h (Or.inr (List.cons_prefix_cons.mpr ⟨rfl, hpre⟩))
            cases rest with
            | nil => exact absurd (Or.inl List.nil_prefix) hrest
            | cons next rest =>
                rw [setParts_cons_cons, assign_eq_set hkey, at_obj_cons, Assoc.get?_set,
                  if_pos rfl, at_obj_cons]
                have hinner := ih (fun hm => hproto (List.mem_cons_of_mem _ hm))
                  (fieldsOf (Assoc.get? fields key)) hrest
                -- a part that was no object showed nothing below it
                cases q with
                | nil => exact absurd (Or.inr List.nil_prefix) hrest
                | cons k' q =>
                    refine hinner.trans ?_
                    cases hget : Assoc.get? fields key with
                    | none => rfl
                    | some child => cases child <;> rfl
          · have hset : ∀ v, Assoc.get? (assign fields key v) k = Assoc.get? fields k := by
              intro v
              rw [assign_eq_set hkey, Assoc.get?_set, if_neg hk]
            cases rest with
            | nil => rw [setParts, at_obj_cons, at_obj_cons, hset]
            | cons next rest => rw [setParts_cons_cons, at_obj_cons, at_obj_cons, hset]

/-! ## Removing a path -/

/-- An object without own properties. -/
def isRemovableEmptyObject : Json → Bool
  | .obj [] => true
  | _ => false

/-- Remove the own property at a path, and the objects on the way that this leaves empty; the flag
says whether anything was removed. -/
def unsetPathParts : Parts → Json → Json × Bool
  | [], value => (value, false)
  | [key], .obj fields =>
      if key ∈ Assoc.keys fields then (.obj (Assoc.erase fields key), true)
      else (.obj fields, false)
  | key :: rest, .obj fields =>
      match Assoc.get? fields key with
      | none => (.obj fields, false)
      | some child =>
          let next := unsetPathParts rest child
          if next.2 = false then (.obj fields, false)
          else if isRemovableEmptyObject next.1 then (.obj (Assoc.erase fields key), true)
          else (.obj (Assoc.set fields key next.1), true)
  | _, value => (value, false)

/-- The document after `unsetPathParts`. -/
def unsetParts (parts : Parts) (value : Json) : Json :=
  (unsetPathParts parts value).1

theorem isRemovableEmptyObject_iff {v : Json} : isRemovableEmptyObject v = true ↔ v = .obj [] := by
  cases v with
  | obj fields => cases fields <;> simp [isRemovableEmptyObject]
  | _ => simp [isRemovableEmptyObject]

theorem unsetPathParts_cons_cons (key next : JsString) (rest : Parts) (fields : Fields) :
    unsetPathParts (key :: next :: rest) (.obj fields) =
      match Assoc.get? fields key with
      | none => (.obj fields, false)
      | some child =>
          if (unsetPathParts (next :: rest) child).2 = false then (.obj fields, false)
          else if isRemovableEmptyObject (unsetPathParts (next :: rest) child).1 then
            (.obj (Assoc.erase fields key), true)
          else (.obj (Assoc.set fields key (unsetPathParts (next :: rest) child).1), true) :=
  rfl

/-- The property at the path is gone; every other difference is an object above it that was left
empty and is gone too. -/
structure Removed (parts : Parts) (value result : Json) : Prop where
  found : (lookup value parts).isSome
  object : ∃ fields, result = .obj fields
  gone : ∀ q, parts <+: q → result.at q = .absent
  other : ∀ q, ¬ parts <+: q → result.at q = value.at q ∨ q <+: parts ∧ result.at q = .absent

namespace Removed

theorem at_erase (fields : Fields) (key : JsString) {q : Parts} (hq : [key] <+: q) :
    (Json.obj (Assoc.erase fields key)).at q = .absent := by
  obtain ⟨rest, rfl⟩ := hq
  rw [List.singleton_append, at_obj_cons, Assoc.get?_erase, if_pos rfl]

theorem at_erase_ne (fields : Fields) {key k : JsString} (h : key ≠ k) (q : Parts) :
    (Json.obj (Assoc.erase fields key)).at (k :: q) = (Json.obj fields).at (k :: q) := by
  rw [at_obj_cons, at_obj_cons, Assoc.get?_erase, if_neg h]

theorem last {fields : Fields} {key : JsString} {child : Json}
    (hget : Assoc.get? fields key = some child) :
    Removed [key] (.obj fields) (.obj (Assoc.erase fields key)) where
  found := by rw [lookup_obj_cons, hget]; simp
  object := ⟨_, rfl⟩
  gone := fun q hq => at_erase fields key hq
  other := by
    intro q hq
    cases q with
    | nil => exact Or.inl rfl
    | cons k q =>
        have hk : key ≠ k := fun hk => hq (by simp [hk])
        exact Or.inl (at_erase_ne fields hk q)

variable {fields : Fields} {key : JsString} {child result : Json} {rest : Parts}

/-- The child is left empty and goes too. -/
theorem above_empty (hget : Assoc.get? fields key = some child) (h : Removed rest child result)
    (hempty : result = .obj []) :
    Removed (key :: rest) (.obj fields) (.obj (Assoc.erase fields key)) where
  found := by rw [lookup_obj_cons, hget]; exact h.found
  object := ⟨_, rfl⟩
  gone := fun q hq => at_erase fields key (List.IsPrefix.trans ⟨rest, rfl⟩ hq)
  other := by
    intro q hq
    cases q with
    | nil => exact Or.inl rfl
    | cons k q =>
        by_cases hk : key = k
        · subst hk
          have hgone : (Json.obj (Assoc.erase fields key)).at (key :: q) = .absent :=
            at_erase fields key ⟨q, rfl⟩
          have hq' : ¬ rest <+: q := fun hpre => hq (List.cons_prefix_cons.mpr ⟨rfl, hpre⟩)
          rcases h.other q hq' with hat | ⟨hpre, -⟩
          · cases q with
            | nil => exact Or.inr ⟨List.cons_prefix_cons.mpr ⟨rfl, List.nil_prefix⟩, hgone⟩
            | cons k' q =>
                -- below the child there was nothing but the path
                left
                rw [hgone, at_obj_cons, hget]
                rw [hempty] at hat
                exact hat
          · exact Or.inr ⟨List.cons_prefix_cons.mpr ⟨rfl, hpre⟩, hgone⟩
        · exact Or.inl (at_erase_ne fields hk q)

theorem above (hget : Assoc.get? fields key = some child) (h : Removed rest child result) :
    Removed (key :: rest) (.obj fields) (.obj (Assoc.set fields key result)) where
  found := by rw [lookup_obj_cons, hget]; exact h.found
  object := ⟨_, rfl⟩
  gone := by
    intro q hq
    cases q with
    | nil => exact absurd hq (by simp)
    | cons k q =>
        obtain ⟨rfl, hpre⟩ := List.cons_prefix_cons.mp hq
        rw [at_obj_cons, Assoc.get?_set, if_pos rfl]
        exact h.gone q hpre
  other := by
    intro q hq
    cases q with
    | nil => exact Or.inl rfl
    | cons k q =>
        by_cases hk : key = k
        · subst hk
          have hq' : ¬ rest <+: q := fun hpre => hq (List.cons_prefix_cons.mpr ⟨rfl, hpre⟩)
          rw [at_obj_cons, Assoc.get?_set, if_pos rfl, at_obj_cons, hget]
          rcases h.other q hq' with hat | ⟨hpre, hat⟩
          · exact Or.inl hat
          · exact Or.inr ⟨List.cons_prefix_cons.mpr ⟨rfl, hpre⟩, hat⟩
        · left
          rw [at_obj_cons, at_obj_cons, Assoc.get?_set, if_neg hk]

end Removed

/-- Removing a path changes nothing where the path leads nowhere, and removes it otherwise. -/
theorem unsetPathParts_cases {parts : Parts} (hne : parts ≠ []) (value : Json) :
    (lookup value parts = none ∧ unsetPathParts parts value = (value, false)) ∨
      ((unsetPathParts parts value).2 = true ∧
        Removed parts value (unsetPathParts parts value).1) := by
  induction parts generalizing value with
  | nil => exact absurd rfl hne
  | cons key rest ih =>
      cases value with
      | obj fields =>
          cases hget : Assoc.get? fields key with
          | none =>
              refine Or.inl ⟨by rw [lookup_obj_cons, hget]; rfl, ?_⟩
              cases rest with
              | nil => rw [unsetPathParts, if_neg (Assoc.get?_eq_none_iff.mp hget)]
              | cons next rest => rw [unsetPathParts_cons_cons, hget]
          | some child =>
              cases rest with
              | nil =>
                  have hkeys : key ∈ Assoc.keys fields :=
                    Assoc.get?_isSome_iff.mp (by rw [hget]; rfl)
                  rw [unsetPathParts, if_pos hkeys]
                  exact Or.inr ⟨rfl, Removed.last hget⟩
              | cons next rest =>
                  rw [unsetPathParts_cons_cons, hget, lookup_obj_cons, hget]
                  rcases ih (by simp) child with ⟨hnone, hsame⟩ | ⟨hchanged, hremoved⟩
                  · exact Or.inl ⟨hnone, by simp [hsame]⟩
                  · right
                    by_cases hempty : isRemovableEmptyObject (unsetPathParts (next :: rest) child).1
                    · simp only [hchanged, hempty]
                      exact ⟨rfl, hremoved.above_empty hget (isRemovableEmptyObject_iff.mp hempty)⟩
                    · simp only [hchanged, hempty]
                      exact ⟨rfl, hremoved.above hget⟩
      | _ =>
          refine Or.inl ⟨rfl, ?_⟩
          cases rest <;> rfl

/-- Away from the path and from what leads to it, removing it changes nothing. -/
theorem at_unsetParts_of_not_related {parts q : Parts} (hne : parts ≠ []) (value : Json)
    (h : ¬ Related parts q) : (unsetParts parts value).at q = value.at q := by
  rw [unsetParts]
  rcases unsetPathParts_cases hne value with ⟨-, heq⟩ | ⟨-, hremoved⟩
  · rw [heq]
  · rcases hremoved.other q (fun hpre => h (Or.inl hpre)) with hat | ⟨hpre, -⟩
    · exact hat
    · exact absurd (Or.inr hpre) h

/-- Where removing a path changes the view, the path led somewhere. -/
theorem at_unsetParts_cases {parts : Parts} (hne : parts ≠ []) (value : Json) (q : Parts) :
    (unsetParts parts value).at q = value.at q ∨
      (unsetParts parts value).at q = .absent ∧ (lookup value parts).isSome ∧ Related parts q := by
  rw [unsetParts]
  rcases unsetPathParts_cases hne value with ⟨-, heq⟩ | ⟨-, hremoved⟩
  · exact Or.inl (by rw [heq])
  · by_cases hpre : parts <+: q
    · exact Or.inr ⟨hremoved.gone q hpre, hremoved.found, Or.inl hpre⟩
    · rcases hremoved.other q hpre with hat | ⟨hqp, hat⟩
      · exact Or.inl hat
      · exact Or.inr ⟨hat, hremoved.found, Or.inr hqp⟩

theorem unsetParts_obj {parts : Parts} (hne : parts ≠ []) (fields : Fields) :
    ∃ result, unsetParts parts (.obj fields) = .obj result := by
  rw [unsetParts]
  rcases unsetPathParts_cases hne (.obj fields) with ⟨-, heq⟩ | ⟨-, hremoved⟩
  · exact ⟨fields, by rw [heq]⟩
  · exact hremoved.object

/-! ## Laying one document over another -/

/-- `value` where `current` was: two objects are merged, anything else is replaced. -/
def mergeInto : Json → Option Json → Json
  | .obj overlay, some (.obj base) => .obj (mergeFields base overlay)
  | value, _ => value
where
  mergeFields (out : Fields) : Fields → Fields
    | [] => out
    | (key, value) :: rest =>
        mergeFields (assign out key (mergeInto value (Assoc.get? out key))) rest

/-- No plain object of the value has an own `__proto__`. -/
def NoProto (v : Json) : Prop :=
  ∀ q, v.at q ≠ .absent → js "__proto__" ∉ q

/-- `a` shows nothing that `v` does not show. -/
def Within (a v : Json) : Prop :=
  ∀ q, a.at q = v.at q ∨ a.at q = .absent

theorem Within.refl (v : Json) : Within v v := fun _ => Or.inl rfl

theorem Within.trans {a b c : Json} (hab : Within a b) (hbc : Within b c) : Within a c := by
  intro q
  rcases hab q with hab | hab
  · rcases hbc q with hbc | hbc
    · exact Or.inl (hab.trans hbc)
    · exact Or.inr (hab.trans hbc)
  · exact Or.inr hab

theorem Within.noProto {a v : Json} (h : Within a v) (hv : NoProto v) : NoProto a := by
  intro q hq
  rcases h q with heq | habs
  · exact hv q (heq ▸ hq)
  · exact absurd habs hq

theorem NoProto.child {fields : Fields} (h : NoProto (.obj fields)) {key : JsString} {child : Json}
    (hget : Assoc.get? fields key = some child) : key ≠ js "__proto__" ∧ NoProto child := by
  have hat := at_cons_of_get? hget
  refine ⟨?_, ?_⟩
  · rintro rfl
    exact h [js "__proto__"] (by rw [hat, at_nil]; exact child.shape_ne_absent)
      List.mem_cons_self
  · intro q hq
    have hmem := h (key :: q) (by rw [hat]; exact hq)
    exact fun hin => hmem (List.mem_cons_of_mem _ hin)

theorem Within.child {fields : Fields} {v : Json} (h : Within (.obj fields) v) {key : JsString}
    {child w : Json} (hget : Assoc.get? fields key = some child) (hv : lookup v [key] = some w) :
    Within child w := by
  intro q
  have hq := h ([key] ++ q)
  rw [at_append hv, List.singleton_append, at_cons_of_get? hget] at hq
  exact hq

/-- A child of a document within `v` is within the child of `v`. -/
theorem Within.lookup_of_get? {fields : Fields} {v : Json} (h : Within (.obj fields) v)
    {key : JsString} {child : Json} (hget : Assoc.get? fields key = some child) :
    ∃ w, lookup v [key] = some w := by
  rcases h [key] with heq | habs
  · refine Option.ne_none_iff_exists'.mp fun hnone => ?_
    rw [lookup_eq_none_iff.mp hnone, at_cons_of_get? hget, at_nil] at heq
    exact child.shape_ne_absent heq
  · rw [at_cons_of_get? hget, at_nil] at habs
    exact absurd habs child.shape_ne_absent

theorem get?_mergeFields (overlay : Fields) (hnodup : (Assoc.keys overlay).Nodup)
    (hproto : js "__proto__" ∉ Assoc.keys overlay) (out : Fields) (key : JsString) :
    Assoc.get? (mergeInto.mergeFields out overlay) key =
      match Assoc.get? overlay key with
      | some value => some (mergeInto value (Assoc.get? out key))
      | none => Assoc.get? out key := by
  induction overlay generalizing out with
  | nil => rfl
  | cons entry rest ih =>
      obtain ⟨k, value⟩ := entry
      rw [Assoc.keys, List.map_cons, List.nodup_cons] at hnodup
      have hk : k ≠ js "__proto__" := fun h => hproto (h ▸ List.mem_cons_self)
      rw [mergeInto.mergeFields, ih hnodup.2 (fun h => hproto (List.mem_cons_of_mem _ h)),
        assign_eq_set hk, Assoc.get?_cons, Assoc.get?_set]
      by_cases hkey : k = key
      · subst hkey
        have hnone : Assoc.get? rest k = none := Assoc.get?_eq_none_iff.mpr hnodup.1
        simp [hnone]
      · simp [hkey]

/-- Two parts of one document: the view of the merge is the upper one where that shows something. -/
theorem at_mergeInto (value : Json) (hwf : value.WellFormed) (hproto : NoProto value) {v : Json}
    (hvalue : Within value v) (current : Option Json) (hcurrent : ∀ c ∈ current, Within c v)
    (q : Parts) :
    (mergeInto value current).at q =
      if value.at q = .absent then (current.map (fun c => c.at q)).getD .absent
      else value.at q := by
  induction value using Json.induct generalizing v current q with
  | obj overlay ih =>
      have hshape : v.shape = .object := by
        rcases hvalue [] with h | h
        · simpa [Json.shape] using h.symm
        · simp [Json.shape] at h
      cases current with
      | none =>
          rw [mergeInto]
          split_ifs with h
          · exact h
          · rfl
          · simp
      | some c =>
          have hc : c.shape = .object := by
            rcases hcurrent c rfl [] with h | h
            · rw [at_nil, at_nil] at h
              rw [h, hshape]
            · rw [at_nil] at h
              cases c <;> cases h
          cases c with
          | obj base =>
              rw [mergeInto]
              cases q with
              | nil => simp [Json.shape]
              | cons key q =>
                  obtain ⟨hnodup, hfields⟩ := Json.wellFormed_obj_iff.mp hwf
                  have hkeys : js "__proto__" ∉ Assoc.keys overlay := by
                    intro hmem
                    obtain ⟨child, hget⟩ :=
                      Option.isSome_iff_exists.mp (Assoc.get?_isSome_iff.mpr hmem)
                    exact (hproto.child hget).1 rfl
                  rw [at_obj_cons, get?_mergeFields overlay hnodup hkeys, at_obj_cons]
                  cases hget : Assoc.get? overlay key with
                  | none => simp [at_obj_cons]
                  | some child =>
                      obtain ⟨w, hw⟩ := hvalue.lookup_of_get? hget
                      have hmem := Assoc.mem_of_get?_eq_some hget
                      have hchild := ih (key, child) hmem (hfields _ hmem) (hproto.child hget).2
                        (hvalue.child hget hw) (Assoc.get? base key) (by
                          intro c' hc'
                          exact (hcurrent (.obj base) rfl).child hc' hw) q
                      simp only [hchild, Option.map_some, Option.getD_some, at_obj_cons]
                      cases Assoc.get? base key <;> rfl
          | _ => cases hc
  | _ =>
      -- a leaf of `v`: nothing lies below it in either part
      have hleaf : v.shape ≠ .object := by
        rcases hvalue [] with h | h <;> rw [at_nil] at h
        · rw [at_nil] at h
          rw [← h]
          simp [Json.shape]
        · cases h
      rw [mergeInto]
      · split_ifs with h
        · rw [h]
          cases q with
          | nil => cases h
          | cons key q =>
              cases current with
              | none => rfl
              | some c =>
                  have hv := at_cons_of_not_obj hleaf key q
                  rcases hcurrent c rfl (key :: q) with hc | hc <;> simp [hc, hv]
        · rfl
      · simp

end Js
end ObjyDb
