import Mathlib.Tactic
import Mathlib.Data.List.Nodup

/-!
# Assoc — insertion-ordered maps as association lists

A map that remembers the order in which its keys were first set, with at most one visible value
for each key: `get?` reads the first entry, `set` replaces it in place or appends a new one, and
`erase` removes every entry of the key.
-/

namespace ObjyDb
namespace Assoc

variable {α β γ : Type*} [DecidableEq α]

/-! ## Operations -/

def get? : List (α × β) → α → Option β
  | [], _ => none
  | (k, v) :: rest, key => if k = key then some v else get? rest key

def set : List (α × β) → α → β → List (α × β)
  | [], key, value => [(key, value)]
  | (k, v) :: rest, key, value =>
      if k = key then (k, value) :: rest else (k, v) :: set rest key value

def erase (entries : List (α × β)) (key : α) : List (α × β) :=
  entries.filter fun entry => decide (entry.1 ≠ key)

def keys (entries : List (α × β)) : List α :=
  entries.map Prod.fst

def mapValues (f : α → β → γ) (entries : List (α × β)) : List (α × γ) :=
  entries.map fun entry => (entry.1, f entry.1 entry.2)

/-! ## Reading back -/

@[simp]
theorem get?_nil (key : α) : get? ([] : List (α × β)) key = none := rfl

theorem get?_cons (k : α) (v : β) (rest : List (α × β)) (key : α) :
    get? ((k, v) :: rest) key = if k = key then some v else get? rest key := rfl

@[simp]
theorem get?_set (entries : List (α × β)) (key : α) (value : β) (k : α) :
    get? (set entries key value) k = if key = k then some value else get? entries k := by
  induction entries with
  | nil => simp [set, get?_cons]
  | cons entry rest ih =>
      obtain ⟨k', v'⟩ := entry
      by_cases hk : k' = key
      · subst hk
        by_cases hk2 : k' = k <;> simp [set, get?_cons, hk2]
      · by_cases hk2 : k' = k
        · subst hk2
          simp [set, get?_cons, hk, Ne.symm hk]
        · simp [set, get?_cons, hk, hk2, ih]

@[simp]
theorem get?_erase (entries : List (α × β)) (key k : α) :
    get? (erase entries key) k = if key = k then none else get? entries k := by
  induction entries with
  | nil => simp [erase]
  | cons entry rest ih =>
      obtain ⟨k', v'⟩ := entry
      by_cases hk : k' = key
      · subst hk
        have hcons : erase ((k', v') :: rest) k' = erase rest k' := by simp [erase]
        rw [hcons, ih]
        by_cases hk2 : k' = k <;> simp [get?_cons, hk2]
      · have hcons : erase ((k', v') :: rest) key = (k', v') :: erase rest key := by
          simp [erase, hk]
        rw [hcons, get?_cons, ih, get?_cons]
        by_cases hk2 : k' = k
        · subst hk2
          simp [Ne.symm hk]
        · simp [hk2]

theorem get?_filter (entries : List (α × β)) (keep : α → Bool) (k : α) :
    get? (entries.filter fun entry => keep entry.1) k =
      if keep k then get? entries k else none := by
  induction entries with
  | nil => simp
  | cons entry entries ih =>
      rcases entry with ⟨key, value⟩
      rw [List.filter_cons]
      by_cases hkey : key = k
      · subst hkey
        by_cases hkeep : keep key = true
        · simp [hkeep, get?_cons]
        · simp [hkeep, ih]
      · by_cases hkeep : keep key = true <;> simp [hkeep, get?_cons, hkey, ih]

@[simp]
theorem get?_mapValues (f : α → β → γ) (entries : List (α × β)) (key : α) :
    get? (mapValues f entries) key = (get? entries key).map (f key) := by
  induction entries with
  | nil => rfl
  | cons entry rest ih =>
      obtain ⟨k, v⟩ := entry
      have hcons : mapValues f ((k, v) :: rest) = (k, f k v) :: mapValues f rest := rfl
      rw [hcons, get?_cons, get?_cons, ih]
      by_cases hk : k = key
      · subst hk
        simp
      · simp [hk]

theorem get?_append (left right : List (α × β)) (key : α) :
    get? (left ++ right) key = (get? left key).or (get? right key) := by
  induction left with
  | nil => simp
  | cons entry rest ih =>
      obtain ⟨k, v⟩ := entry
      by_cases hk : k = key <;> simp [get?_cons, hk, ih]

/-! ## Keys -/

theorem mem_of_get?_eq_some {entries : List (α × β)} {key : α} {value : β}
    (h : get? entries key = some value) : (key, value) ∈ entries := by
  induction entries with
  | nil => simp at h
  | cons entry rest ih =>
      obtain ⟨k, v⟩ := entry
      rw [get?_cons] at h
      split_ifs at h with hk
      · obtain rfl := Option.some.inj h
        simp [hk]
      · exact List.mem_cons_of_mem _ (ih h)

theorem get?_eq_none_iff {entries : List (α × β)} {key : α} :
    get? entries key = none ↔ key ∉ keys entries := by
  induction entries with
  | nil => simp [keys]
  | cons entry rest ih =>
      obtain ⟨k, v⟩ := entry
      rw [get?_cons]
      by_cases hk : k = key
      · simp [keys, hk]
      · simpa [keys, hk, Ne.symm hk] using ih

theorem get?_isSome_iff {entries : List (α × β)} {key : α} :
    (get? entries key).isSome ↔ key ∈ keys entries := by
  rw [← not_iff_not, ← get?_eq_none_iff, Option.not_isSome_iff_eq_none]

theorem get?_eq_some_of_mem {entries : List (α × β)} (hnodup : (keys entries).Nodup)
    {key : α} {value : β} (h : (key, value) ∈ entries) : get? entries key = some value := by
  induction entries with
  | nil => simp at h
  | cons entry rest ih =>
      obtain ⟨k, v⟩ := entry
      obtain ⟨hk, hrest⟩ := List.nodup_cons.mp hnodup
      rcases List.mem_cons.mp h with heq | hmem
      · obtain ⟨rfl, rfl⟩ := Prod.mk.inj heq
        simp [get?_cons]
      · have hne : k ≠ key := by
          rintro rfl
          exact hk (List.mem_map.mpr ⟨_, hmem, rfl⟩)
        rw [get?_cons, if_neg hne]
        exact ih hrest hmem

theorem keys_set (entries : List (α × β)) (key : α) (value : β) :
    keys (set entries key value) = if key ∈ keys entries then keys entries else keys entries ++ [key] := by
  induction entries with
  | nil => simp [set, keys]
  | cons entry rest ih =>
      obtain ⟨k, v⟩ := entry
      by_cases hk : k = key
      · simp [set, keys, hk]
      · have hcons : keys (set ((k, v) :: rest) key value) = k :: keys (set rest key value) := by
          simp [set, keys, hk]
        have hmem : key ∈ keys ((k, v) :: rest) ↔ key ∈ keys rest := by
          simp [keys, Ne.symm hk]
        rw [hcons, ih, if_congr hmem rfl rfl]
        split_ifs <;> simp [keys]

theorem set_of_notMem {entries : List (α × β)} {key : α} (value : β) (h : key ∉ keys entries) :
    set entries key value = entries ++ [(key, value)] := by
  induction entries with
  | nil => rfl
  | cons entry rest ih =>
      obtain ⟨k, v⟩ := entry
      simp only [keys, List.map_cons, List.mem_cons, not_or] at h
      simp [set, Ne.symm h.1, ih h.2]

theorem nodup_keys_set {entries : List (α × β)} (key : α) (value : β)
    (h : (keys entries).Nodup) : (keys (set entries key value)).Nodup := by
  rw [keys_set]
  split_ifs with hmem
  · exact h
  · refine List.nodup_append.mpr ⟨h, List.nodup_singleton _, ?_⟩
    intro a ha b hb heq
    exact hmem (List.mem_singleton.mp hb ▸ heq ▸ ha)

/-- Setting a key to the value it has changes nothing. -/
theorem set_of_get? {entries : List (α × β)} {key : α} {value : β}
    (h : get? entries key = some value) : set entries key value = entries := by
  induction entries with
  | nil => cases h
  | cons entry rest ih =>
      obtain ⟨k, v⟩ := entry
      rw [get?_cons] at h
      by_cases hk : k = key
      · subst hk
        rw [if_pos rfl] at h
        rw [set, if_pos rfl, Option.some.inj h]
      · rw [if_neg hk] at h
        rw [set, if_neg hk, ih h]

theorem mem_set_iff {entries : List (α × β)} (hnodup : (keys entries).Nodup) {key k : α}
    {value v : β} : (k, v) ∈ set entries key value ↔
      k = key ∧ v = value ∨ k ≠ key ∧ (k, v) ∈ entries := by
  have hset := nodup_keys_set key value hnodup
  have hmem : ∀ {entries : List (α × β)}, (keys entries).Nodup →
      ((k, v) ∈ entries ↔ get? entries k = some v) := fun h =>
    ⟨get?_eq_some_of_mem h, mem_of_get?_eq_some⟩
  rw [hmem hset, hmem hnodup, get?_set]
  by_cases hk : key = k
  · subst hk
    simp [eq_comm]
  · simp [hk, Ne.symm hk]

theorem keys_erase (entries : List (α × β)) (key : α) :
    keys (erase entries key) = (keys entries).filter fun k => decide (k ≠ key) := by
  simp [keys, erase, List.filter_map, Function.comp_def]

/-! ## Matching two maps -/

/-- An entry can be moved to the front. -/
theorem perm_cons_erase {entries : List (α × β)} (hnodup : (keys entries).Nodup) {key : α}
    {value : β} (h : (key, value) ∈ entries) :
    entries.Perm ((key, value) :: erase entries key) := by
  induction entries with
  | nil => cases h
  | cons entry rest ih =>
      obtain ⟨k, v⟩ := entry
      obtain ⟨hnotMem, hrest⟩ := List.nodup_cons.mp hnodup
      rcases List.mem_cons.mp h with heq | hmem
      · cases heq
        have hsame : erase rest key = rest := by
          refine List.filter_eq_self.mpr fun entry hentry => ?_
          simpa using fun hkey : entry.1 = key => hnotMem (List.mem_map.mpr ⟨entry, hentry, hkey⟩)
        have hcons : erase ((key, value) :: rest) key = rest := by
          rw [← hsame]
          simp [erase]
        rw [hcons]
      · have hne : k ≠ key := fun hkey =>
          hnotMem (List.mem_map.mpr ⟨(key, value), hmem, hkey.symm⟩)
        have hcons : erase ((k, v) :: rest) key = (k, v) :: erase rest key := by
          simp [erase, hne]
        rw [hcons]
        exact ((ih hrest hmem).cons _).trans (List.Perm.swap ..)

/-- Two maps with the same keys can be listed in the same order. -/
theorem exists_perm_forall₂ {left : List (α × β)} {right : List (α × γ)} {P : β → γ → Prop}
    (hleft : (keys left).Nodup) (hright : (keys right).Nodup)
    (hkeys : ∀ k, k ∈ keys left ↔ k ∈ keys right)
    (hvalues : ∀ k v w, get? left k = some v → get? right k = some w → P v w) :
    ∃ arranged, left.Perm arranged ∧
      List.Forall₂ (fun a b => a.1 = b.1 ∧ P a.2 b.2) arranged right := by
  induction right generalizing left with
  | nil =>
      have hnil : left = [] := by
        refine List.eq_nil_iff_forall_not_mem.mpr fun entry hentry => ?_
        exact List.not_mem_nil ((hkeys entry.1).mp (List.mem_map_of_mem hentry))
      exact ⟨[], hnil ▸ List.Perm.nil, .nil⟩
  | cons entry right ih =>
      obtain ⟨key, w⟩ := entry
      obtain ⟨hnotMem, hrest⟩ := List.nodup_cons.mp hright
      obtain ⟨v, hv⟩ := Option.isSome_iff_exists.mp
        (get?_isSome_iff.mpr ((hkeys key).mpr List.mem_cons_self))
      have hmem := mem_of_get?_eq_some hv
      have herased : (keys (erase left key)).Nodup := by
        rw [keys_erase]
        exact hleft.filter _
      obtain ⟨arranged, hperm, hall⟩ := ih herased hrest
        (fun k => by
          have hk := hkeys k
          rw [keys_erase, List.mem_filter, hk]
          by_cases hkey : k = key
          · subst hkey
            exact ⟨fun hin => absurd rfl (of_decide_eq_true hin.2), fun hin => absurd hin hnotMem⟩
          · simp [keys, hkey])
        (fun k v' w' hv' hw' => by
          have hne : key ≠ k := fun hkey => hnotMem (hkey ▸ get?_isSome_iff.mp (hw' ▸ rfl))
          rw [get?_erase, if_neg hne] at hv'
          exact hvalues k v' w' hv' (by rw [get?_cons, if_neg hne, hw']))
      refine ⟨(key, v) :: arranged, (perm_cons_erase hleft hmem).trans (hperm.cons _),
        .cons ⟨rfl, hvalues key v w hv ?_⟩ hall⟩
      rw [get?_cons, if_pos rfl]

end Assoc
end ObjyDb
