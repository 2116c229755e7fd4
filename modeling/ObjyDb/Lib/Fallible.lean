import Mathlib.Data.List.Forall2
import Mathlib.Tactic

/-!
# Fallible — computations that end in a value or an error

Inversion of `Except` programs: what must have succeeded when the whole did.
-/

namespace ObjyDb
namespace Fallible

variable {ε α β : Type*}

theorem bind_eq_ok {α β : Type _} {x : Except ε α} {f : α → Except ε β} {b : β} :
    x >>= f = .ok b ↔ ∃ a, x = .ok a ∧ f a = .ok b := by
  cases x with
  | error e =>
      constructor
      · intro h
        cases h
      · rintro ⟨a, h, -⟩
        cases h
  | ok a =>
      constructor
      · exact fun h => ⟨a, rfl, h⟩
      · rintro ⟨a', h, hf⟩
        cases h
        exact hf

theorem pure_eq_ok {α : Type _} {a b : α} : (pure a : Except ε α) = .ok b ↔ a = b := by
  constructor
  · exact fun h => Except.ok.inj h
  · rintro rfl
    rfl

/-- A check that throws before the rest runs. -/
theorem guard_eq_ok {α : Type _} {c : Prop} [Decidable c] {e : ε} {x : Except ε α} {a : α} :
    (if c then throw e else x) = .ok a ↔ ¬c ∧ x = .ok a := by
  by_cases hc : c
  · rw [if_pos hc]
    constructor
    · intro h
      cases h
    · exact fun h => absurd hc h.1
  · rw [if_neg hc]
    simp [hc]

theorem forall₂_mapM {α β : Type _} {f : α → Except ε β} {xs : List α} {ys : List β}
    (h : xs.mapM f = .ok ys) : List.Forall₂ (fun x y => f x = .ok y) xs ys := by
  induction xs generalizing ys with
  | nil =>
      rw [List.mapM_nil] at h
      cases h
      exact .nil
  | cons x xs ih =>
      rw [List.mapM_cons] at h
      rcases bind_eq_ok.mp h with ⟨y, hy, h⟩
      rcases bind_eq_ok.mp h with ⟨ys', hys, h⟩
      cases h
      exact .cons hy (ih hys)

theorem mapM_eq_map {α β : Type _} {f : α → Except ε β} {g : α → β} {xs : List α}
    (h : ∀ x ∈ xs, f x = .ok (g x)) : xs.mapM f = .ok (xs.map g) := by
  induction xs with
  | nil => rfl
  | cons x xs ih =>
      rw [List.mapM_cons, h x List.mem_cons_self, ih fun y hy => h y (List.mem_cons_of_mem _ hy)]
      rfl

end Fallible
end ObjyDb
