import Mathlib.Logic.Function.Basic
import ObjyDb.Lib.Assoc

/-!
# RefCounts — tables of entries that are held by reference

Every entry of a table counts its holders.  `uses` says how many holders a key really has; an
entry that nobody holds is not in the table.

* `Held.set` — an entry with a new number of holders;
* `Held.erase` — the last holder let go;
* `Held.drained` — without holders the table is empty.
-/

namespace ObjyDb
namespace RefCounts

variable {κ ε : Type*} [DecidableEq κ] (refs : ε → Int)

/-- The number of holders that the table counts. -/
def refsOf (entries : List (κ × ε)) (key : κ) : Int :=
  (Assoc.get? entries key).elim 0 refs

/-- The table counts its holders right. -/
structure Held (entries : List (κ × ε)) (uses : κ → Nat) : Prop where
  nodup : (Assoc.keys entries).Nodup
  counted : ∀ key, refsOf refs entries key = uses key
  positive : ∀ key entry, Assoc.get? entries key = some entry → 0 < refs entry

variable {refs} {entries : List (κ × ε)} {uses : κ → Nat}

namespace Held

theorem empty : Held refs ([] : List (κ × ε)) fun _ => 0 where
  nodup := List.nodup_nil
  counted := fun _ => rfl
  positive := by
    intro key entry h
    cases h

theorem congr (h : Held refs entries uses) {uses' : κ → Nat} (huses : ∀ key, uses' key = uses key) :
    Held refs entries uses' :=
  ⟨h.nodup, fun key => by rw [h.counted, huses], h.positive⟩

theorem refs_eq (h : Held refs entries uses) {key : κ} {entry : ε}
    (hget : Assoc.get? entries key = some entry) : refs entry = uses key := by
  have hcounted := h.counted key
  rw [refsOf, hget] at hcounted
  exact hcounted

theorem get?_eq_none_iff (h : Held refs entries uses) (key : κ) :
    Assoc.get? entries key = none ↔ uses key = 0 := by
  cases hget : Assoc.get? entries key with
  | none =>
      have hcounted := h.counted key
      rw [refsOf, hget] at hcounted
      simpa using hcounted.symm
  | some entry =>
      have hrefs := h.refs_eq hget
      have hpositive := h.positive key entry hget
      simp only [reduceCtorEq, false_iff]
      omega

/-- The entry of a key is set to one with `n` holders. -/
theorem set (h : Held refs entries uses) (key : κ) {entry : ε} {n : Nat} (hrefs : refs entry = n)
    (hn : 0 < n) : Held refs (Assoc.set entries key entry) (Function.update uses key n) where
  nodup := Assoc.nodup_keys_set key entry h.nodup
  counted := by
    intro k
    by_cases hk : k = key
    · rw [hk, refsOf, Assoc.get?_set, if_pos rfl, Function.update_self]
      exact hrefs
    · rw [Function.update_of_ne hk, refsOf, Assoc.get?_set, if_neg (Ne.symm hk)]
      exact h.counted k
  positive := by
    intro k other hget
    rw [Assoc.get?_set] at hget
    split_ifs at hget with hk
    · cases hget
      omega
    · exact h.positive k other hget

/-- The entry of a key is dropped. -/
theorem erase (h : Held refs entries uses) (key : κ) :
    Held refs (Assoc.erase entries key) (Function.update uses key 0) where
  nodup := by
    rw [Assoc.keys_erase]
    exact h.nodup.filter _
  counted := by
    intro k
    by_cases hk : k = key
    · rw [hk, refsOf, Assoc.get?_erase, if_pos rfl, Function.update_self]
      rfl
    · rw [Function.update_of_ne hk, refsOf, Assoc.get?_erase, if_neg (Ne.symm hk)]
      exact h.counted k
  positive := by
    intro k other hget
    rw [Assoc.get?_erase] at hget
    split_ifs at hget
    exact h.positive k other hget

/-- A table that nobody uses is empty. -/
theorem drained (h : Held refs entries uses) (hnone : ∀ key, uses key = 0) : entries = [] := by
  cases entries with
  | nil => rfl
  | cons entry rest =>
      have hget := (h.get?_eq_none_iff entry.1).mpr (hnone entry.1)
      rw [Assoc.get?_cons, if_pos rfl] at hget
      cases hget

end Held
end RefCounts
end ObjyDb
