import Mathlib.Data.List.Basic
import Mathlib.Data.List.Forall2
import Mathlib.Data.List.Induction
import Mathlib.Data.List.TakeWhile
import Mathlib.Data.Set.Basic
import Mathlib.Tactic.Common

/-!
# StableSort — the first rows of a merge

Sorting is stable, so the first `n` elements of a sorted list do not depend on an element that has
`n` elements before it.  Hence sorted lists can be cut to `n` elements each before they are
concatenated and sorted again.

- `take_mergeSort_insert`: an element far behind
- `take_mergeSort_flatten`: many lists cut to `n` elements
- `forall₂_of_perm`: two sorted lists of the same elements
-/

namespace ObjyDb

variable {α : Type}

/-- The order is a total preorder of the elements of a list. -/
structure PreorderOn (le : α → α → Bool) (l : List α) : Prop where
  trans : ∀ a ∈ l, ∀ b ∈ l, ∀ c ∈ l, le a b = true → le b c = true → le a c = true
  total : ∀ a ∈ l, ∀ b ∈ l, (le a b || le b a) = true

theorem PreorderOn.mono {le : α → α → Bool} {l part : List α} (h : PreorderOn le l)
    (hpart : part ⊆ l) : PreorderOn le part :=
  ⟨fun a ha b hb c hc => h.trans a (hpart ha) b (hpart hb) c (hpart hc),
    fun a ha b hb => h.total a (hpart ha) b (hpart hb)⟩

/-! ## A preorder of the whole type -/

section

variable {le : α → α → Bool} (htrans : ∀ a b c, le a b = true → le b c = true → le a c = true)
  (htotal : ∀ a b, (le a b || le b a) = true)

include htrans htotal

/-- Sorting after one more element in front puts it before the first element it is below. -/
theorem mergeSort_cons_eq (a : α) (l : List α) :
    (a :: l).mergeSort le = (l.mergeSort le).takeWhile (fun b => !le a b) ++
      a :: (l.mergeSort le).dropWhile (fun b => !le a b) := by
  rcases List.mergeSort_cons htrans htotal a l with ⟨before, after, hcons, hsort, hbefore⟩
  have hsorted := List.pairwise_mergeSort htrans htotal (a :: l)
  rw [hcons] at hsorted
  have hafter : ∀ b ∈ after, le a b = true :=
    (List.pairwise_cons.mp (List.pairwise_append.mp hsorted).2.1).1
  have htake : (before ++ after).takeWhile (fun b => !le a b) = before := by
    rw [List.takeWhile_append_of_pos hbefore]
    cases after with
    | nil => simp
    | cons b rest => simp [hafter b List.mem_cons_self]
  have hdrop : (before ++ after).dropWhile (fun b => !le a b) = after := by
    rw [List.dropWhile_append_of_pos hbefore]
    cases after with
    | nil => rfl
    | cons b rest => simp [hafter b List.mem_cons_self]
  rw [hcons, hsort, htake, hdrop]

/-- An element in the middle of a list stands behind the elements in front of it that are not
above it. -/
theorem mergeSort_insert (xs zs : List α) (y : α) :
    ∃ before after, (xs ++ y :: zs).mergeSort le = before ++ y :: after ∧
      (xs ++ zs).mergeSort le = before ++ after ∧ xs.countP (le · y) ≤ before.length := by
  induction xs with
  | nil =>
      rcases List.mergeSort_cons htrans htotal y zs with ⟨before, after, hcons, hsort, -⟩
      exact ⟨before, after, hcons, hsort, Nat.zero_le _⟩
  | cons x xs ih =>
      rcases ih with ⟨before, after, hwith, hwithout, hcount⟩
      have hsorted := List.pairwise_mergeSort htrans htotal (xs ++ y :: zs)
      rw [hwith] at hsorted
      have hafter : ∀ b ∈ after, le y b = true :=
        (List.pairwise_cons.mp (List.pairwise_append.mp hsorted).2.1).1
      have hbefore : ∀ b ∈ before, le b y = true := fun b hb =>
        (List.pairwise_append.mp hsorted).2.2 b hb y List.mem_cons_self
      rw [List.cons_append, List.cons_append, mergeSort_cons_eq htrans htotal,
        mergeSort_cons_eq htrans htotal, hwith, hwithout, List.countP_cons]
      by_cases hall : ∀ b ∈ before, (!le x b) = true
      · rw [List.takeWhile_append_of_pos hall, List.takeWhile_append_of_pos hall,
          List.dropWhile_append_of_pos hall, List.dropWhile_append_of_pos hall]
        cases hxy : le x y with
        | true =>
            have hnone : after.takeWhile (fun b => !le x b) = [] ∧
                after.dropWhile (fun b => !le x b) = after := by
              cases after with
              | nil => exact ⟨rfl, rfl⟩
              | cons b rest =>
                  have hxb := htrans x y b hxy (hafter b List.mem_cons_self)
                  simp [hxb]
            refine ⟨before ++ [x], after, ?_, ?_, ?_⟩
            · simp [hxy]
            · rw [hnone.1, hnone.2]
              simp
            · rw [List.length_append]
              simpa using hcount
        | false =>
            refine ⟨before, after.takeWhile (fun b => !le x b) ++
              x :: after.dropWhile (fun b => !le x b), ?_, ?_, ?_⟩
            · simp [hxy]
            · simp
            · simpa using hcount
      · -- the new element goes in front of an element of `before`
        have hsplit : ∀ rest, (before ++ rest).takeWhile (fun b => !le x b) =
            before.takeWhile (fun b => !le x b) ∧ (before ++ rest).dropWhile (fun b => !le x b) =
              before.dropWhile (fun b => !le x b) ++ rest := by
          intro rest
          have hne : before.dropWhile (fun b => !le x b) ≠ [] := by
            rw [ne_eq, List.dropWhile_eq_nil_iff]
            exact hall
          have hlen : (before.takeWhile (fun b => !le x b)).length ≠ before.length := by
            intro heq
            have hdecomp := List.takeWhile_append_dropWhile (p := fun b => !le x b) (l := before)
            have hlength := congrArg List.length hdecomp
            rw [List.length_append, heq] at hlength
            exact hne (List.eq_nil_of_length_eq_zero (by omega))
          constructor
          · rw [List.takeWhile_append, if_neg hlen]
          · rw [List.dropWhile_append, if_neg (by simpa using hne)]
        refine ⟨before.takeWhile (fun b => !le x b) ++ x :: before.dropWhile (fun b => !le x b),
          after, ?_, ?_, ?_⟩
        · rw [(hsplit _).1, (hsplit _).2]
          simp
        · rw [(hsplit _).1, (hsplit _).2]
          simp
        · have hlength := congrArg List.length
            (List.takeWhile_append_dropWhile (p := fun b => !le x b) (l := before))
          rw [List.length_append] at hlength
          rw [List.length_append, List.length_cons]
          split_ifs <;> omega

/-- An element that `n` elements precede does not show among the first `n`. -/
theorem take_mergeSort_insert {n : Nat} (xs zs : List α) (y : α) (h : n ≤ xs.countP (le · y)) :
    ((xs ++ y :: zs).mergeSort le).take n = ((xs ++ zs).mergeSort le).take n := by
  rcases mergeSort_insert htrans htotal xs zs y with ⟨before, after, hwith, hwithout, hcount⟩
  rw [hwith, hwithout, List.take_append_of_le_length (h.trans hcount),
    List.take_append_of_le_length (h.trans hcount)]

theorem take_mergeSort_cut {n : Nat} (xs zs part : List α)
    (hsorted : part.Pairwise fun a b => le a b = true) :
    ((xs ++ part ++ zs).mergeSort le).take n = ((xs ++ part.take n ++ zs).mergeSort le).take n := by
  induction part using List.reverseRecOn with
  | nil => rw [List.take_nil]
  | append_singleton part y ih =>
      rw [List.pairwise_append] at hsorted
      by_cases hlen : part.length < n
      · have hall : (part ++ [y]).take n = part ++ [y] :=
          List.take_of_length_le (by simp only [List.length_append, List.length_singleton]; omega)
        rw [hall]
      · have hle : n ≤ part.length := by omega
        have hcount : n ≤ (xs ++ part).countP (le · y) := by
          have hpart : part.countP (le · y) = part.length :=
            List.countP_eq_length.mpr fun x hx => hsorted.2.2 x hx y List.mem_cons_self
          rw [List.countP_append, hpart]
          omega
        calc ((xs ++ (part ++ [y]) ++ zs).mergeSort le).take n
            = (((xs ++ part) ++ y :: zs).mergeSort le).take n := by simp
          _ = ((xs ++ part ++ zs).mergeSort le).take n :=
              take_mergeSort_insert htrans htotal _ _ _ hcount
          _ = ((xs ++ part.take n ++ zs).mergeSort le).take n := ih hsorted.1
          _ = ((xs ++ (part ++ [y]).take n ++ zs).mergeSort le).take n := by
              rw [List.take_append_of_le_length hle]

theorem take_mergeSort_cuts {n : Nat} (parts : List (List α)) (xs : List α)
    (hsorted : ∀ part ∈ parts, part.Pairwise fun a b => le a b = true) :
    ((xs ++ parts.flatten).mergeSort le).take n =
      ((xs ++ (parts.map (List.take n)).flatten).mergeSort le).take n := by
  induction parts generalizing xs with
  | nil => rfl
  | cons part parts ih =>
      have hrest := fun p hp => hsorted p (List.mem_cons_of_mem _ hp)
      rw [List.map_cons, List.flatten_cons, List.flatten_cons, ← List.append_assoc,
        ← List.append_assoc, take_mergeSort_cut htrans htotal xs _ part
          (hsorted part List.mem_cons_self)]
      exact ih (xs ++ part.take n) hrest

end

/-! ## A preorder of the elements in hand -/

section

variable {le : α → α → Bool} {l : List α}

open Classical in
/-- The order with everything outside the list above it. -/
noncomputable def orderWithin (le : α → α → Bool) (l : List α) (a b : α) : Bool :=
  if a ∈ l then if b ∈ l then le a b else true else decide (b ∉ l)

theorem orderWithin_eq {a b : α} (ha : a ∈ l) (hb : b ∈ l) : orderWithin le l a b = le a b := by
  rw [orderWithin, if_pos ha, if_pos hb]

theorem PreorderOn.orderWithin_trans (h : PreorderOn le l) (a b c : α)
    (hab : orderWithin le l a b = true) (hbc : orderWithin le l b c = true) :
    orderWithin le l a c = true := by
  by_cases hc : c ∈ l
  · -- below a member there are members only
    have hb : b ∈ l := by
      by_contra hb
      simp [orderWithin, hb, hc] at hbc
    have ha : a ∈ l := by
      by_contra ha
      simp [orderWithin, ha, hb] at hab
    rw [orderWithin_eq ha hb] at hab
    rw [orderWithin_eq hb hc] at hbc
    rw [orderWithin_eq ha hc]
    exact h.trans a ha b hb c hc hab hbc
  · by_cases ha : a ∈ l <;> simp [orderWithin, ha, hc]

theorem PreorderOn.orderWithin_total (h : PreorderOn le l) (a b : α) :
    (orderWithin le l a b || orderWithin le l b a) = true := by
  unfold orderWithin
  by_cases ha : a ∈ l <;> by_cases hb : b ∈ l
  · simpa [ha, hb] using h.total a ha b hb
  · simp [ha, hb]
  · simp [ha, hb]
  · simp [ha, hb]

theorem mergeSort_orderWithin {part : List α} (hpart : part ⊆ l) :
    part.mergeSort (orderWithin le l) = part.mergeSort le := by
  have hmap := List.map_mergeSort (f := id) (r := orderWithin le l) (s := le) (l := part)
    fun a ha b hb => orderWithin_eq (hpart ha) (hpart hb)
  rwa [List.map_id, List.map_id] at hmap

theorem PreorderOn.pairwise_mergeSort (h : PreorderOn le l) {part : List α} (hpart : part ⊆ l) :
    (part.mergeSort le).Pairwise fun a b => le a b = true := by
  have hsorted := List.pairwise_mergeSort h.orderWithin_trans h.orderWithin_total part
  rw [mergeSort_orderWithin hpart] at hsorted
  refine hsorted.imp_of_mem fun ha hb hab => ?_
  have hle : orderWithin le l _ _ = le _ _ :=
    orderWithin_eq (hpart (List.mem_mergeSort.mp ha)) (hpart (List.mem_mergeSort.mp hb))
  rwa [hle] at hab

/-- The first `n` elements of the sorted concatenation of sorted lists come from the first `n` of
each. -/
theorem PreorderOn.take_mergeSort_flatten {n : Nat} {parts : List (List α)}
    (h : PreorderOn le parts.flatten)
    (hsorted : ∀ part ∈ parts, part.Pairwise fun a b => le a b = true) :
    (parts.flatten.mergeSort le).take n =
      ((parts.map (List.take n)).flatten.mergeSort le).take n := by
  have hsub : (parts.map (List.take n)).flatten ⊆ parts.flatten := by
    intro a ha
    rcases List.mem_flatten.mp ha with ⟨cut, hcut, hmem⟩
    rcases List.mem_map.mp hcut with ⟨part, hpart, rfl⟩
    exact List.mem_flatten.mpr ⟨part, hpart, List.mem_of_mem_take hmem⟩
  rw [← mergeSort_orderWithin (List.Subset.refl parts.flatten), ← mergeSort_orderWithin hsub]
  refine take_mergeSort_cuts h.orderWithin_trans h.orderWithin_total parts [] ?_
  intro part hpart
  refine (hsorted part hpart).imp_of_mem fun ha hb hab => ?_
  rw [orderWithin_eq (List.mem_flatten.mpr ⟨part, hpart, ha⟩)
    (List.mem_flatten.mpr ⟨part, hpart, hb⟩)]
  exact hab

end

/-! ## Two sorted lists of the same elements -/

/-- The elements of the list that are at most `a`. -/
def downSet (le : α → α → Bool) (l : List α) (a : α) : Set α :=
  {b | b ∈ l ∧ le b a = true}

theorem PreorderOn.downSet_subset {le : α → α → Bool} {l : List α} (h : PreorderOn le l) {a b : α}
    (ha : a ∈ l) (hb : b ∈ l) (hab : le a b = true) : downSet le l a ⊆ downSet le l b :=
  fun c hc => ⟨hc.1, h.trans c hc.1 a ha b hb hc.2 hab⟩

theorem PreorderOn.refl {le : α → α → Bool} {l : List α} (h : PreorderOn le l) {a : α}
    (ha : a ∈ l) : le a a = true := by
  simpa using h.total a ha a ha

theorem forall₂_of_map_eq {β : Type} {f : α → β} {l left right : List α}
    (h : left.map f = right.map f) (hleft : left ⊆ l) (hright : right ⊆ l) :
    List.Forall₂ (fun a b => a ∈ l ∧ b ∈ l ∧ f a = f b) left right := by
  induction left generalizing right with
  | nil =>
      rw [List.map_eq_nil_iff.mp h.symm]
      exact .nil
  | cons a left ih =>
      cases right with
      | nil => cases h
      | cons b right =>
          rcases List.cons.inj h with ⟨hab, htail⟩
          refine .cons ⟨hleft List.mem_cons_self, hright List.mem_cons_self, hab⟩ ?_
          exact ih htail (fun c hc => hleft (List.mem_cons_of_mem _ hc))
            (fun c hc => hright (List.mem_cons_of_mem _ hc))

/-- Sorting leaves no choice but among elements of one rank. -/
theorem PreorderOn.forall₂_of_perm {le : α → α → Bool} {l left right : List α}
    (h : PreorderOn le l) (hleft : left ⊆ l) (hperm : left.Perm right)
    (hsleft : left.Pairwise fun a b => le a b = true)
    (hsright : right.Pairwise fun a b => le a b = true) :
    List.Forall₂ (fun a b => a ∈ l ∧ b ∈ l ∧ le a b = true ∧ le b a = true) left right := by
  have hright : right ⊆ l := fun a ha => hleft (hperm.mem_iff.mpr ha)
  have hsorted : ∀ {part : List α}, part ⊆ l → (part.Pairwise fun a b => le a b = true) →
      (part.map (downSet le l)).Pairwise (· ⊆ ·) := by
    intro part hpart hpairwise
    rw [List.pairwise_map]
    exact hpairwise.imp_of_mem fun ha hb hab => h.downSet_subset (hpart ha) (hpart hb) hab
  -- The sets of what is at most each element are sorted by inclusion, hence equal.
  have heq : left.map (downSet le l) = right.map (downSet le l) :=
    (hperm.map _).eq_of_pairwise (fun _ _ _ _ hab hba => Set.Subset.antisymm hab hba)
      (hsorted hleft hsleft) (hsorted hright hsright)
  have hrank : ∀ {a b : α}, a ∈ l → b ∈ l → downSet le l a = downSet le l b → le a b = true :=
    fun ha _ hab => (hab ▸ (⟨ha, h.refl ha⟩ : _ ∈ downSet le l _) : _ ∈ downSet le l _).2
  exact (forall₂_of_map_eq heq hleft hright).imp fun a b hab =>
    ⟨hab.1, hab.2.1, hrank hab.1 hab.2.1 hab.2.2, hrank hab.2.1 hab.1 hab.2.2.symm⟩

end ObjyDb
