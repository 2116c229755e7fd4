import Mathlib.Tactic

/-!
# Chunks — operations cut into records

`chunkOpsForRecord` fills a record until the next operation would exceed the number of operations
or the number of bytes it may have.
-/

namespace ObjyDb
namespace Persist

section

variable {α : Type*} (opBytes : α → Nat) (maxBytes maxOps : Nat)

/-- The loop of `chunkOpsForRecord`: `current` is the record being filled, of `bytes` bytes. -/
def chunkLoop (current : List α) (bytes : Nat) : List α → List (List α)
  | [] => if current = [] then [] else [current]
  | op :: ops =>
      let nextBytes := bytes + (if current = [] then 0 else 1) + opBytes op
      if current ≠ [] ∧ (maxOps ≤ current.length ∨ maxBytes < nextBytes) then
        current :: chunkLoop [op] (2 + opBytes op) ops
      else chunkLoop (current ++ [op]) nextBytes ops

/-- `chunkOpsForRecord(ops, { maxBytes, maxOps })`, where `opBytes` is the number of bytes of the
JSON text of an operation. -/
def chunkOpsForRecord (ops : List α) : List (List α) :=
  chunkLoop opBytes maxBytes maxOps [] 2 ops

theorem flatten_chunkLoop (ops : List α) (current : List α) (bytes : Nat) :
    (chunkLoop opBytes maxBytes maxOps current bytes ops).flatten = current ++ ops := by
  induction ops generalizing current bytes with
  | nil =>
      unfold chunkLoop
      split_ifs with h <;> simp [h]
  | cons op ops ih =>
      unfold chunkLoop
      dsimp only
      split_ifs <;> simp [ih]

/-- The records hold all operations in their order. -/
theorem flatten_chunkOpsForRecord (ops : List α) :
    (chunkOpsForRecord opBytes maxBytes maxOps ops).flatten = ops :=
  flatten_chunkLoop opBytes maxBytes maxOps ops [] 2

end

end Persist
end ObjyDb
