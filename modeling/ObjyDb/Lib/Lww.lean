import Mathlib.Order.Basic
import Mathlib.Order.Defs.LinearOrder
import Mathlib.Tactic

/-!
# Lww — last-writer-wins registers

A register that keeps the entry with the greatest stamp.  `newest` folds a list of entries in the
order in which they arrive; where equal stamps mean equal entries, the result depends only on the
set of entries (`newest_congr`), and two registers may be merged instead (`newest_append`).
-/

namespace ObjyDb
namespace Lww

section

variable {τ : Type*} [LinearOrder τ] {α : Type*} (stamp : α → τ)

/-! ## Definitions -/

/-- One more entry arrives at a register. -/
def later (register : Option α) (entry : α) : Option α :=
  match register with
  | none => some entry
  | some held => if stamp held < stamp entry then some entry else some held

/-- The register after all entries of a list arrived. -/
def newest (entries : List α) : Option α :=
  entries.foldl (later stamp) none

/-- Entries with equal stamps are equal. -/
def Unique (entries : α → Prop) : Prop :=
  ∀ a b, entries a → entries b → stamp a = stamp b → a = b

/-- An entry of the list that no entry of the list is newer than. -/
def IsNewest (entries : List α) (a : α) : Prop :=
  a ∈ entries ∧ ∀ b ∈ entries, stamp b ≤ stamp a

/-! ## The fold keeps a newest entry -/

theorem newest_concat (entries : List α) (a : α) :
    newest stamp (entries ++ [a]) = later stamp (newest stamp entries) a := by
  simp [newest, List.foldl_append]

theorem newest_cases (entries : List α) :
    (entries = [] ∧ newest stamp entries = none) ∨
      ∃ a, newest stamp entries = some a ∧ IsNewest stamp entries a := by
  induction entries using List.reverseRecOn with
  | nil => exact Or.inl ⟨rfl, rfl⟩
  | append_singleton entries b ih =>
      right
      rw [newest_concat]
      rcases ih with ⟨rfl, hnone⟩ | ⟨a, hsome, hmem, hle⟩
      · exact ⟨b, by rw [hnone]; rfl, by simp [IsNewest]⟩
      · rw [hsome]
        by_cases hlt : stamp a < stamp b
        · -- the new entry takes over
          refine ⟨b, by simp [later, hlt], by simp, ?_⟩
          intro c hc
          rcases List.mem_append.mp hc with hc | hc
          · exact (hle c hc).trans hlt.le
          · exact (List.mem_singleton.mp hc ▸ le_rfl)
        · refine ⟨a, by simp [later, hlt], List.mem_append_left _ hmem, ?_⟩
          intro c hc
          rcases List.mem_append.mp hc with hc | hc
          · exact hle c hc
          · exact List.mem_singleton.mp hc ▸ not_lt.mp hlt

theorem newest_eq_none_iff {entries : List α} : newest stamp entries = none ↔ entries = [] := by
  rcases newest_cases stamp entries with ⟨hnil, hnone⟩ | ⟨a, hsome, hmem, -⟩
  · exact ⟨fun _ => hnil, fun _ => hnone⟩
  · constructor
    · intro hnone
      rw [hsome] at hnone
      cases hnone
    · rintro rfl
      cases hmem

theorem isNewest_of_newest {entries : List α} {a : α} (h : newest stamp entries = some a) :
    IsNewest stamp entries a := by
  rcases newest_cases stamp entries with ⟨-, hnone⟩ | ⟨b, hsome, hb⟩
  · rw [hnone] at h
    cases h
  · rw [hsome] at h
    exact Option.some.inj h ▸ hb

/-! ## Only the set of entries matters -/

theorem newest_eq_some_iff {entries : List α} (hunique : Unique stamp (· ∈ entries)) {a : α} :
    newest stamp entries = some a ↔ IsNewest stamp entries a := by
  constructor
  · exact isNewest_of_newest stamp
  · rintro ⟨hmem, hle⟩
    rcases newest_cases stamp entries with ⟨hnil, -⟩ | ⟨b, hsome, hbmem, hble⟩
    · rw [hnil] at hmem
      cases hmem
    · have heq : stamp b = stamp a := le_antisymm (hle b hbmem) (hble a hmem)
      rw [hsome, hunique b a hbmem hmem heq]

theorem newest_congr {left right : List α} (hunique : Unique stamp (· ∈ left))
    (h : ∀ a, a ∈ left ↔ a ∈ right) : newest stamp left = newest stamp right := by
  have hunique' : Unique stamp (· ∈ right) := fun a b ha hb =>
    hunique a b ((h a).mpr ha) ((h b).mpr hb)
  cases hright : newest stamp right with
  | none =>
      have hnil := (newest_eq_none_iff stamp).mp hright
      refine (newest_eq_none_iff stamp).mpr (List.eq_nil_iff_forall_not_mem.mpr ?_)
      intro a ha
      have hmem := (h a).mp ha
      rw [hnil] at hmem
      cases hmem
  | some a =>
      obtain ⟨hmem, hle⟩ := (newest_eq_some_iff stamp hunique').mp hright
      exact (newest_eq_some_iff stamp hunique).mpr
        ⟨(h a).mpr hmem, fun b hb => hle b ((h b).mp hb)⟩

/-- Receiving a list of entries is receiving its newest entry. -/
theorem newest_append {left right : List α} (hunique : Unique stamp (· ∈ left ++ right)) {a : α}
    (ha : newest stamp right = some a) :
    newest stamp (left ++ right) = later stamp (newest stamp left) a := by
  obtain ⟨hmem, hle⟩ := isNewest_of_newest stamp ha
  rw [← newest_concat]
  -- both lists have the same newest entry, though not the same entries
  obtain ⟨b, hb⟩ := Option.ne_none_iff_exists'.mp
    (fun hnone => by simpa using (newest_eq_none_iff stamp).mp hnone :
      newest stamp (left ++ [a]) ≠ none)
  obtain ⟨hbmem, hble⟩ := isNewest_of_newest stamp hb
  rw [hb, newest_eq_some_iff stamp hunique]
  refine ⟨?_, ?_⟩
  · rcases List.mem_append.mp hbmem with hbl | hbr
    · exact List.mem_append_left _ hbl
    · exact List.mem_append_right _ (List.mem_singleton.mp hbr ▸ hmem)
  · intro c hc
    rcases List.mem_append.mp hc with hcl | hcr
    · exact hble c (List.mem_append_left _ hcl)
    · exact (hle c hcr).trans (hble a (by simp))

/-- An entry that is not newer than the register changes nothing. -/
theorem later_of_le {a b : α} (h : stamp b ≤ stamp a) : later stamp (some a) b = some a := by
  simp [later, not_lt.mpr h]

theorem later_of_lt {a b : α} (h : stamp a < stamp b) : later stamp (some a) b = some b := by
  simp [later, h]

/-- Entries that arrive at a register that holds one arrive after it. -/
theorem foldl_later (held : Option α) (entries : List α) :
    entries.foldl (later stamp) held = newest stamp (held.toList ++ entries) := by
  cases held with
  | none => rfl
  | some a => rfl

end

end Lww
end ObjyDb
