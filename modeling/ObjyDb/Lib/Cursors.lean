import Mathlib.Data.List.Pairwise
import Mathlib.Tactic

/-!
# Cursors — reading a numbered history in pieces

The entries of a history are numbered in the order in which they are made.  A reader keeps a
cursor: the number up to which it has taken every entry it wants.  It is sent segments of the
history and takes them piece by piece; a piece moves the cursor to the number of its last entry,
a segment without entries moves it to the top of the segment.

- `Covered`, `Segment`
- `Segment.piece`, `Segment.covered_top`: where the cursor may go
- `Segment.of_filter`, `Segment.take`, `Segment.append`: where segments come from
-/

namespace ObjyDb
namespace Cursors

variable {ε : Type} (number : ε → ℕ)

/-! ## Definitions -/

/-- Every wanted entry up to `bound` has been taken. -/
def Covered (wanted taken : ε → Prop) (bound : ℕ) : Prop :=
  ∀ e, wanted e → number e ≤ bound → taken e

/-- `rest` has the entries that are wanted above `base` and up to `top`, in order. -/
structure Segment (wanted : ε → Prop) (base top : ℕ) (rest : List ε) : Prop where
  sorted : rest.Pairwise fun a b => number a < number b
  mem : ∀ e ∈ rest, base < number e ∧ number e ≤ top
  complete : ∀ e, wanted e → base < number e → number e ≤ top → e ∈ rest

variable {number} {wanted wanted' taken taken' : ε → Prop} {base top top' bound bound' : ℕ}
  {rest more : List ε}

/-! ## Covered numbers -/

/-- Entries that are made later have greater numbers; those no longer wanted do not matter. -/
theorem Covered.mono (h : Covered number wanted taken bound)
    (hwanted : ∀ e, wanted' e → number e ≤ bound → wanted e) (htaken : ∀ e, taken e → taken' e)
    (hle : bound' ≤ bound) : Covered number wanted' taken' bound' := by
  intro e he hnumber
  have hbound : number e ≤ bound := hnumber.trans hle
  exact htaken e (h e (hwanted e he hbound) hbound)

theorem Covered.max (h : Covered number wanted taken bound)
    (h' : Covered number wanted taken bound') :
    Covered number wanted taken (max bound bound') := by
  intro e he hnumber
  rcases le_max_iff.mp hnumber with hle | hle
  · exact h e he hle
  · exact h' e he hle

/-! ## Segments that are read -/

theorem Segment.mono (h : Segment number wanted base top rest)
    (hwanted : ∀ e, wanted' e → number e ≤ top → wanted e) :
    Segment number wanted' base top rest where
  sorted := h.sorted
  mem := h.mem
  complete := fun e he hbase htop => h.complete e (hwanted e he htop) hbase htop

/-- At the end of a segment everything up to its top has been taken. -/
theorem Segment.covered_top (h : Segment number wanted base top [])
    (hbase : Covered number wanted taken base) : Covered number wanted taken top := by
  intro e he htop
  rcases Nat.lt_or_ge base (number e) with hlt | hle
  · exact absurd (h.complete e he hlt htop) (List.not_mem_nil)
  · exact hbase e he hle

/-- A piece of a segment is taken: the cursor may go to its last entry, and the rest is a segment
from there on. -/
theorem Segment.piece {piece : List ε} {last : ε}
    (h : Segment number wanted base top (piece ++ rest)) (hlast : piece.getLast? = some last)
    (hbase : Covered number wanted taken base) (htaken : ∀ e ∈ piece, taken e) :
    Covered number wanted taken (number last) ∧ Segment number wanted (number last) top rest := by
  have hmem : last ∈ piece := List.mem_of_getLast? hlast
  rcases List.pairwise_append.mp h.sorted with ⟨hpiece, hrest, hacross⟩
  -- the last entry of the piece has the greatest number in it
  have hgreatest : ∀ e ∈ piece, number e ≤ number last := by
    intro e he
    rcases List.getLast?_eq_some_iff.mp hlast with ⟨front, rfl⟩
    rcases List.mem_append.mp he with hfront | heq
    · exact ((List.pairwise_append.mp hpiece).2.2 e hfront last (by simp)).le
    · rw [List.mem_singleton.mp heq]
  refine ⟨?_, hrest, ?_, ?_⟩
  · intro e he hnumber
    rcases Nat.lt_or_ge base (number e) with hlt | hle
    · have htop : number e ≤ top :=
        hnumber.trans (h.mem last (List.mem_append_left _ hmem)).2
      rcases List.mem_append.mp (h.complete e he hlt htop) with hin | hin
      · exact htaken e hin
      · exact absurd hnumber (Nat.not_le.mpr (hacross last hmem e hin))
    · exact hbase e he hle
  · intro e he
    exact ⟨hacross last hmem e he, (h.mem e (List.mem_append_right _ he)).2⟩
  · intro e he hlt htop
    have hbase' : base < number e :=
      (h.mem last (List.mem_append_left _ hmem)).1.trans hlt
    rcases List.mem_append.mp (h.complete e he hbase' htop) with hin | hin
    · exact absurd (hgreatest e hin) (Nat.not_le.mpr hlt)
    · exact hin

/-! ## Segments that are sent -/

/-- What a sorted log holds of the wanted entries above a number. -/
theorem Segment.of_filter {log : List ε} {keep : ε → Bool}
    (hsorted : log.Pairwise fun a b => number a < number b)
    (hkeep : ∀ e ∈ log, keep e → base < number e) (htop : ∀ e ∈ log, number e ≤ top)
    (hcomplete : ∀ e, wanted e → base < number e → e ∈ log ∧ keep e) :
    Segment number wanted base top (log.filter keep) where
  sorted := hsorted.filter _
  mem := by
    intro e he
    rcases List.mem_filter.mp he with ⟨hlog, hkept⟩
    exact ⟨hkeep e hlog hkept, htop e hlog⟩
  complete := by
    intro e he hbase _
    rcases hcomplete e he hbase with ⟨hlog, hkept⟩
    exact List.mem_filter.mpr ⟨hlog, hkept⟩

/-- The first entries of a segment are a segment up to the last of them. -/
theorem Segment.take (h : Segment number wanted base top rest) {count : ℕ} {last : ε}
    (hlast : (rest.take count).getLast? = some last) :
    Segment number wanted base (number last) (rest.take count) := by
  have hsplit : rest.take count ++ rest.drop count = rest := List.take_append_drop count rest
  have hsorted := h.sorted
  rw [← hsplit] at hsorted
  rcases List.pairwise_append.mp hsorted with ⟨htake, _, hacross⟩
  have hmem : last ∈ rest.take count := List.mem_of_getLast? hlast
  refine ⟨htake, ?_, ?_⟩
  · intro e he
    refine ⟨(h.mem e (List.mem_of_mem_take he)).1, ?_⟩
    rcases List.getLast?_eq_some_iff.mp hlast with ⟨front, hfront⟩
    rw [hfront] at he htake
    rcases List.mem_append.mp he with hin | heq
    · exact ((List.pairwise_append.mp htake).2.2 e hin last (by simp)).le
    · rw [List.mem_singleton.mp heq]
  · intro e he hbase hnumber
    have htop : number e ≤ top := hnumber.trans (h.mem last (List.mem_of_mem_take hmem)).2
    have hin : e ∈ rest.take count ++ rest.drop count := hsplit.symm ▸ h.complete e he hbase htop
    rcases List.mem_append.mp hin with hin | hin
    · exact hin
    · exact absurd hnumber (Nat.not_le.mpr (hacross last hmem e hin))

/-- A segment goes on with one that starts at its top. -/
theorem Segment.append (h : Segment number wanted base top rest)
    (h' : Segment number wanted top top' more) (hbase : base ≤ top) (htop : top ≤ top') :
    Segment number wanted base top' (rest ++ more) where
  sorted := by
    refine List.pairwise_append.mpr ⟨h.sorted, h'.sorted, ?_⟩
    intro a ha b hb
    exact (h.mem a ha).2.trans_lt (h'.mem b hb).1
  mem := by
    intro e he
    rcases List.mem_append.mp he with hin | hin
    · exact ⟨(h.mem e hin).1, (h.mem e hin).2.trans htop⟩
    · exact ⟨hbase.trans_lt (h'.mem e hin).1, (h'.mem e hin).2⟩
  complete := by
    intro e he hlt hle
    rcases Nat.lt_or_ge top (number e) with habove | hbelow
    · exact List.mem_append_right _ (h'.complete e he habove hle)
    · exact List.mem_append_left _ (h.complete e he hlt hbelow)

end Cursors
end ObjyDb
