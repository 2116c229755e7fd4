import Mathlib.Algebra.BigOperators.Group.Finset.Basic
import Mathlib.Algebra.Group.Basic

/-!
# Totals — sums over numbered rows

The sum of a quantity over the rows `0 … n - 1`, and how it changes with one row.

* `total_change` — one row's share is exchanged for another
* `total_grow` — rows without a share add nothing
-/

namespace ObjyDb

variable {M : Type*} [AddCommMonoid M]

def total (f : Nat → M) (n : Nat) : M :=
  (Finset.range n).sum f

theorem total_congr {f g : Nat → M} {n : Nat} (h : ∀ i < n, f i = g i) : total f n = total g n :=
  Finset.sum_congr rfl (fun i hi => h i (Finset.mem_range.mp hi))

/-- The row `i` changes, the others do not. -/
theorem total_change {f g : Nat → M} {n i : Nat} (hi : i < n) (h : ∀ j, j ≠ i → g j = f j) :
    total g n + f i = total f n + g i := by
  have hmem : i ∈ Finset.range n := Finset.mem_range.mpr hi
  have hrest : ((Finset.range n).erase i).sum g = ((Finset.range n).erase i).sum f :=
    Finset.sum_congr rfl (fun j hj => h j (Finset.ne_of_mem_erase hj))
  calc total g n + f i
      = (g i + ((Finset.range n).erase i).sum g) + f i := by
        rw [Finset.add_sum_erase _ _ hmem, total]
    _ = (f i + ((Finset.range n).erase i).sum f) + g i := by
        rw [hrest, add_right_comm, add_comm (g i) (f i), add_right_comm]
    _ = total f n + g i := by rw [Finset.add_sum_erase _ _ hmem, total]

theorem total_grow {f : Nat → M} {n m : Nat} (h : n ≤ m) (hzero : ∀ i, n ≤ i → f i = 0) :
    total f m = total f n := by
  refine (Finset.sum_subset (Finset.range_mono h) (fun i _ hi => hzero i ?_)).symm
  exact Nat.le_of_not_lt (fun hlt => hi (Finset.mem_range.mpr hlt))

theorem total_zero (n : Nat) : total (fun _ => (0 : M)) n = 0 :=
  Finset.sum_const_zero

end ObjyDb
