import Mathlib.Data.List.Basic
import Mathlib.Data.List.Infix
import Mathlib.Tactic.Common

/-!
# Search — the first place of a pattern in a list

`indexOf pat text` is the first position of `text` at which `pat` begins.  The rules say where a
search that starts before a known occurrence ends: it walks over what cannot begin the pattern, and
stops at the occurrence when none begins before it.

* `indexOf_skip` — the positions walked over are added to the result;
* `indexOf_skip_head` — a stretch without the pattern's first element is walked over;
* `indexOf_unbordered` — a pattern whose first element does not come again in it is found behind a
  text that does not hold it;
* `indexOf_after` — so is a pattern behind a text that ends in an element the pattern has not.
-/

namespace ObjyDb
namespace Search

variable {α : Type*} [DecidableEq α]

/-! ## The search -/

def indexOf (pat : List α) : List α → Option Nat
  | [] => if pat = [] then some 0 else none
  | c :: rest => if pat <+: c :: rest then some 0 else (indexOf pat rest).map (· + 1)

theorem indexOf_of_prefix {pat text : List α} (h : pat <+: text) : indexOf pat text = some 0 := by
  cases text with
  | nil => rw [indexOf, if_pos (List.prefix_nil.mp h)]
  | cons c rest => rw [indexOf, if_pos h]

theorem indexOf_cons {pat : List α} {c : α} {rest : List α} (h : ¬ pat <+: c :: rest) :
    indexOf pat (c :: rest) = (indexOf pat rest).map (· + 1) := by
  rw [indexOf, if_neg h]

theorem le_of_indexOf {pat text : List α} {i : Nat} (h : indexOf pat text = some i) :
    i + pat.length ≤ text.length := by
  induction text generalizing i with
  | nil =>
      by_cases hpat : pat = []
      · rw [indexOf, if_pos hpat] at h
        cases h
        simp [hpat]
      · rw [indexOf, if_neg hpat] at h
        cases h
  | cons c rest ih =>
      by_cases hpat : pat <+: c :: rest
      · rw [indexOf, if_pos hpat] at h
        cases h
        simpa using hpat.length_le
      · rw [indexOf_cons hpat, Option.map_eq_some_iff] at h
        rcases h with ⟨j, hj, rfl⟩
        have hle := ih hj
        simp only [List.length_cons]
        omega

/-! ## Walking over a text -/

/-- No occurrence begins in `before`. -/
theorem indexOf_skip {pat before text : List α}
    (h : ∀ i < before.length, ¬ pat <+: before.drop i ++ text) :
    indexOf pat (before ++ text) = (indexOf pat text).map (· + before.length) := by
  induction before with
  | nil => simp
  | cons c before ih =>
      have hhead : ¬ pat <+: c :: (before ++ text) := by
        simpa using h 0 (by simp)
      have htail : ∀ i < before.length, ¬ pat <+: before.drop i ++ text := by
        intro i hi
        simpa using h (i + 1) (by simpa using hi)
      rw [List.cons_append, indexOf_cons hhead, ih htail, Option.map_map]
      congr 1

theorem indexOf_skip_head {c : α} {tail before : List α} (h : c ∉ before) (text : List α) :
    indexOf (c :: tail) (before ++ text) =
      (indexOf (c :: tail) text).map (· + before.length) := by
  refine indexOf_skip (fun i hi hbegins => h ?_)
  have hdrop : before.drop i = before[i] :: before.drop (i + 1) := List.drop_eq_getElem_cons hi
  rw [hdrop, List.cons_append, List.cons_prefix_cons] at hbegins
  exact hbegins.1 ▸ List.getElem_mem hi

omit [DecidableEq α] in
/-- Where an occurrence begins in `before`, it lies in it or the end of `before` begins it. -/
theorem prefix_drop {pat before text : List α} {i : Nat} (h : pat <+: before.drop i ++ text) :
    pat <:+: before ∨ before.drop i <+: pat := by
  rcases List.prefix_or_prefix_of_prefix h (List.prefix_append _ text) with hin | hover
  · exact Or.inl (hin.isInfix.trans (List.drop_suffix i before).isInfix)
  · exact Or.inr hover

theorem indexOf_unbordered {c : α} {tail before : List α} (hc : c ∉ tail)
    (h : ¬ c :: tail <:+: before) (rest : List α) :
    indexOf (c :: tail) (before ++ (c :: tail ++ rest)) = some before.length := by
  rw [indexOf_skip, indexOf_of_prefix (List.prefix_append _ rest)]
  · simp
  · intro i hi hbegins
    rcases prefix_drop hbegins with hin | ⟨extra, hover⟩
    · exact h hin
    · nth_rewrite 1 [← hover] at hbegins
      rw [List.prefix_append_right_inj] at hbegins
      cases hdrop : before.drop i with
      | nil =>
          have hlen := congrArg List.length hdrop
          simp only [List.length_drop, List.length_nil] at hlen
          omega
      | cons d ds =>
          rw [hdrop, List.cons_append, List.cons.injEq] at hover
          cases extra with
          | nil =>
              -- then the occurrence lies in `before`
              refine h ⟨before.take i, [], ?_⟩
              calc before.take i ++ c :: tail ++ []
                  = before.take i ++ before.drop i := by
                    rw [List.append_nil, hdrop, hover.1, ← hover.2, List.append_nil]
                _ = before := List.take_append_drop i before
          | cons e extra =>
              -- the overhang begins with the first element of the pattern
              rw [List.cons_append, List.cons_prefix_cons] at hbegins
              exact hc (hover.2 ▸ hbegins.1 ▸ by simp)

theorem indexOf_after {pat before : List α} {x : α} (hx : x ∉ pat)
    (hlast : ∀ y ∈ before.getLast?, y = x) (h : ¬ pat <:+: before) (rest : List α) :
    indexOf pat (before ++ (pat ++ rest)) = some before.length := by
  rw [indexOf_skip, indexOf_of_prefix (List.prefix_append _ rest)]
  · simp
  · intro i hi hbegins
    rcases prefix_drop hbegins with hin | hover
    · exact h hin
    · have hne : before.drop i ≠ [] := by
        intro hnil
        have hlen := congrArg List.length hnil
        simp only [List.length_drop, List.length_nil] at hlen
        omega
      have hmem : (before.drop i).getLast hne ∈ pat := hover.subset (List.getLast_mem hne)
      have hlast' : before.getLast? = some ((before.drop i).getLast hne) := by
        rw [← List.getLast?_eq_some_getLast hne, List.getLast?_drop, if_neg (by omega)]
      exact hx (hlast _ (by rw [hlast']; rfl) ▸ hmem)

end Search
end ObjyDb
