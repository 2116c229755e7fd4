import ObjyDb.Js.Conversions
import ObjyDb.Store.Path

/-!
# Keys — canonical keys and the order of values

`stableKey` prints a value with the fields of every object sorted, and `compareSortValues` orders
values: numbers by size, everything else by the locale's order of their texts.  The locale is a
parameter: a `Collation` is any consistent comparison of strings.

* `stableKey_inj` — values with one key differ in the order of their fields only.
-/

namespace ObjyDb

open Js

/-! ## `localeCompare` -/

/-- `String.prototype.localeCompare` of some locale: a total preorder of strings. -/
structure Collation where
  compare : JsString → JsString → Ordering
  swap : ∀ a b, compare b a = (compare a b).swap
  trans : ∀ a b c, compare a b ≠ .gt → compare b c ≠ .gt → compare a c ≠ .gt

namespace Collation

@[simp]
theorem compare_self (collation : Collation) (a : JsString) : collation.compare a a = .eq := by
  have h := collation.swap a a
  cases hcmp : collation.compare a a <;> simp_all

/-- The order of code units, as a locale without rules would have it. -/
def byUnits : Collation where
  compare a b := compareOfLessAndEq a b
  swap a b := by
    unfold compareOfLessAndEq
    rcases lt_trichotomy a b with h | rfl | h
    · simp [h, h.not_gt, h.ne']
    · simp
    · simp [h, h.not_gt, h.ne']
  trans a b c := by
    have hle : ∀ x y : JsString, compareOfLessAndEq x y ≠ .gt ↔ x ≤ y := by
      intro x y
      unfold compareOfLessAndEq
      rcases lt_trichotomy x y with h | rfl | h
      · simp [h, h.le]
      · simp
      · simp [h.not_gt, h.ne', h]
    rw [hle, hle, hle]
    exact le_trans

end Collation

/-! ## `stableKey` -/

section

variable (collation : Collation)

/-- `Object.entries(value).sort(([a], [b]) => a.localeCompare(b))` -/
def sortEntries (entries : Fields) : Fields :=
  entries.mergeSort fun a b => decide (collation.compare a.1 b.1 ≠ .gt)

/-- The fields of every object sorted by name.  Sorting looks at the names only, so it does not
matter that the entries are sorted after their values. -/
def sortForKey : Json → Json
  | .null => .null
  | .bool b => .bool b
  | .num n => .num n
  | .str s => .str s
  | .arr items => .arr (sortItems items)
  | .obj fields => .obj (sortEntries collation (sortFields fields))
where
  sortItems : List Json → List Json
    | [] => []
    | item :: items => sortForKey item :: sortItems items
  sortFields : Fields → Fields
    | [] => []
    | (key, value) :: fields => (key, sortForKey value) :: sortFields fields

def stableKey (value : Json) : JsString :=
  stringify (sortForKey collation value)

/-! ## `compareSortValues` -/

/-- `compareSortValues(left, right)`; `none` is `undefined`. -/
def compareSortValues (left right : Option Json) : Ordering :=
  match left, right with
  | none, none => .eq
  | some .null, some .null => .eq
  | none, _ => .gt
  | some .null, _ => .gt
  | _, none => .lt
  | _, some .null => .lt
  | some (.num l), some (.num r) => compare l.toRat r.toRat
  | some l, some r => collation.compare (toJsString l) (toJsString r)

end

/-! ## Keys determine values up to the order of fields -/

section

variable (collation : Collation)

theorem sortItems_eq_map (items : List Json) :
    sortForKey.sortItems collation items = items.map (sortForKey collation) := by
  induction items with
  | nil => rfl
  | cons item items ih => rw [sortForKey.sortItems, ih, List.map_cons]

theorem sortFields_eq_map (fields : Fields) :
    sortForKey.sortFields collation fields =
      fields.map (fun field => (field.1, sortForKey collation field.2)) := by
  induction fields with
  | nil => rfl
  | cons field fields ih => rw [sortForKey.sortFields, ih, List.map_cons]

theorem sortEntries_perm (entries : Fields) : (sortEntries collation entries).Perm entries :=
  List.mergeSort_perm _ _

theorem keys_sortFields (fields : Fields) :
    Assoc.keys (sortForKey.sortFields collation fields) = Assoc.keys fields := by
  simp [sortFields_eq_map, Assoc.keys]

theorem wellFormed_sortForKey {v : Json} (h : v.WellFormed) :
    (sortForKey collation v).WellFormed := by
  induction v using Json.induct with
  | null => exact h
  | bool b => exact h
  | num n => exact h
  | str s => exact h
  | arr items ih =>
      rw [sortForKey, sortItems_eq_map, Json.wellFormed_arr_iff]
      intro item hitem
      obtain ⟨source, hsource, rfl⟩ := List.mem_map.mp hitem
      exact ih source hsource (Json.wellFormed_arr_iff.mp h source hsource)
  | obj fields ih =>
      obtain ⟨hnodup, hfields⟩ := Json.wellFormed_obj_iff.mp h
      have hperm := sortEntries_perm collation (sortForKey.sortFields collation fields)
      rw [sortForKey, Json.wellFormed_obj_iff]
      constructor
      · refine (hperm.map Prod.fst).nodup_iff.mpr ?_
        have hkeys := keys_sortFields collation fields
        unfold Assoc.keys at hkeys
        rw [hkeys]
        exact hnodup
      · intro field hfield
        have hmem := hperm.mem_iff.mp hfield
        rw [sortFields_eq_map] at hmem
        obtain ⟨source, hsource, rfl⟩ := List.mem_map.mp hmem
        exact ih source hsource (hfields source hsource)

/-- Values with one key are equal once the fields of every object are sorted. -/
theorem stableKey_inj {v w : Json} (hv : v.WellFormed) (hw : w.WellFormed)
    (h : stableKey collation v = stableKey collation w) :
    sortForKey collation v = sortForKey collation w := by
  have hparse := congrArg parse h
  rw [stableKey, stableKey, parse_stringify (wellFormed_sortForKey collation hv),
    parse_stringify (wellFormed_sortForKey collation hw)] at hparse
  exact Option.some.inj hparse

end

end ObjyDb
