import Mathlib.Data.List.Basic
import Mathlib.Data.List.Perm.Basic
import Mathlib.Algebra.Order.Group.Nat
import Mathlib.Order.Basic
import Mathlib.Tactic.SplitIfs

/-!
# BinaryHeap — a heap in an array

The least item is at the front, and the children of the item at `i` are at `2 * i + 1` and
`2 * i + 2`.  An item that is pushed moves up by swaps with its parent; when the front is popped, the
last item takes its place and moves down.

* `BinaryHeap.Ordered` — no item is before its parent
* `BinaryHeap.push_ordered`, `BinaryHeap.pop_spec`, `BinaryHeap.pop_le`
* `BinaryHeap.drain_spec` — popping everything sorts
-/

namespace ObjyDb
namespace BinaryHeap

variable {α δ : Type} [LinearOrder δ] (key : α → δ)

/-! ## The heap -/

/-- Both places exist, and the item at the first is before the one at the second. -/
def before (items : List α) (i j : ℕ) : Bool :=
  match items[i]?, items[j]? with
  | some a, some b => decide (key a < key b)
  | _, _ => false

def swap (items : List α) (i j : ℕ) : List α :=
  match items[i]?, items[j]? with
  | some a, some b => (items.set i b).set j a
  | _, _ => items

def parent (i : ℕ) : ℕ :=
  (i - 1) / 2

/-- Moves the item at `i` up. -/
def up : ℕ → List α → ℕ → List α
  | 0, items, _ => items
  | fuel + 1, items, i =>
      if i = 0 ∨ before key items i (parent i) = false then items
      else up fuel (swap items i (parent i)) (parent i)

/-- The place of the least of an item and its children. -/
def least (items : List α) (i : ℕ) : ℕ :=
  let best := if before key items (2 * i + 1) i then 2 * i + 1 else i
  if before key items (2 * i + 2) best then 2 * i + 2 else best

/-- Moves the item at `i` down. -/
def down : ℕ → List α → ℕ → List α
  | 0, items, _ => items
  | fuel + 1, items, i =>
      if least key items i = i then items
      else down fuel (swap items i (least key items i)) (least key items i)

def push (items : List α) (a : α) : List α :=
  up key items.length (items ++ [a]) items.length

def pop : List α → Option (α × List α)
  | [] => none
  | top :: rest =>
      match rest.getLast? with
      | none => some (top, [])
      | some last => some (top, down key rest.length (last :: rest.dropLast) 0)

/-- Pops until nothing is left. -/
def drain : ℕ → List α → List α
  | 0, _ => []
  | fuel + 1, items =>
      match pop key items with
      | none => []
      | some (top, rest) => top :: drain fuel rest

/-! ## Order -/

/-- The item at `j` is not before the one at `i`. -/
def Edge (items : List α) (i j : ℕ) : Prop :=
  ∀ a b, items[i]? = some a → items[j]? = some b → key a ≤ key b

/-- No item is before its parent. -/
def Ordered (items : List α) : Prop :=
  ∀ i, 0 < i → Edge key items (parent i) i

/-- Only the item at `i` may be before its parent. -/
structure UpReady (items : List α) (i : ℕ) : Prop where
  except : ∀ j, 0 < j → j ≠ i → Edge key items (parent j) j
  grand : 0 < i → ∀ j, 0 < j → parent j = i → Edge key items (parent i) j

/-- Only the children of the item at `i` may be before it. -/
structure DownReady (items : List α) (i : ℕ) : Prop where
  except : ∀ j, 0 < j → parent j ≠ i → Edge key items (parent j) j
  grand : 0 < i → ∀ j, 0 < j → parent j = i → Edge key items (parent i) j

variable {key} {items rest : List α} {a top : α} {i j k l : ℕ}

theorem before_eq_false_iff : before key items i j = false ↔ Edge key items j i := by
  rw [before]
  cases hi : items[i]? with
  | none => simp [Edge, hi]
  | some a =>
      cases hj : items[j]? with
      | none => simp [Edge, hj]
      | some b => simp [Edge, hi, hj]

/-- An item that is before another is at a place, and not after it. -/
theorem exists_of_before (h : before key items i j = true) :
    ∃ a b, items[i]? = some a ∧ items[j]? = some b ∧ key a < key b := by
  rw [before] at h
  cases hi : items[i]? with
  | none =>
      rw [hi] at h
      cases h
  | some a =>
      cases hj : items[j]? with
      | none =>
          rw [hi, hj] at h
          cases h
      | some b =>
          rw [hi, hj] at h
          exact ⟨a, b, rfl, rfl, of_decide_eq_true h⟩

theorem parent_lt (h : 0 < i) : parent i < i := by
  rw [parent]
  omega

theorem parent_left (i : ℕ) : parent (2 * i + 1) = i := by
  rw [parent]
  omega

theorem parent_right (i : ℕ) : parent (2 * i + 2) = i := by
  rw [parent]
  omega

theorem eq_child (hj : 0 < j) (h : parent j = i) : j = 2 * i + 1 ∨ j = 2 * i + 2 := by
  rw [parent] at h
  omega

/-! ## Swaps -/

theorem swap_perm (items : List α) (i j : ℕ) : (swap items i j).Perm items := by
  rw [swap]
  cases hi : items[i]? with
  | none => exact .refl _
  | some a =>
      cases hj : items[j]? with
      | none => exact .refl _
      | some b =>
          rcases List.getElem?_eq_some_iff.mp hi with ⟨hilt, rfl⟩
          rcases List.getElem?_eq_some_iff.mp hj with ⟨hjlt, rfl⟩
          exact List.set_set_perm hilt hjlt

theorem getElem?_swap {b : α} (hi : items[i]? = some a) (hj : items[j]? = some b) (hne : i ≠ j)
    (k : ℕ) : (swap items i j)[k]? = if k = i then some b else if k = j then some a else items[k]? := by
  rw [swap, hi, hj]
  dsimp only
  rcases List.getElem?_eq_some_iff.mp hi with ⟨hilt, -⟩
  rcases List.getElem?_eq_some_iff.mp hj with ⟨hjlt, -⟩
  rw [List.getElem?_set, List.length_set, List.getElem?_set]
  by_cases hkj : j = k
  · subst hkj
    rw [if_pos rfl, if_pos hjlt, if_neg hne.symm, if_pos rfl]
  · rw [if_neg hkj, if_neg (Ne.symm hkj)]
    by_cases hki : i = k
    · subst hki
      rw [if_pos rfl, if_pos hilt, if_pos rfl]
    · rw [if_neg hki, if_neg (Ne.symm hki)]

/-! ## Moving up -/

/-- The item at `i` is before its parent: they change places. -/
theorem UpReady.move (h : UpReady key items i) (hi : 0 < i)
    (hbefore : before key items i (parent i) = true) :
    UpReady key (swap items i (parent i)) (parent i) := by
  rcases exists_of_before hbefore with ⟨a, b, ha, hb, hlt⟩
  have hparent := parent_lt hi
  have hget := getElem?_swap ha hb hparent.ne'
  constructor
  · intro j hj hne c d hc hd
    rw [hget] at hc hd
    by_cases hji : j = i
    · -- the edge between the two
      subst hji
      rw [if_neg hparent.ne, if_pos rfl] at hc
      rw [if_pos rfl] at hd
      cases hc
      cases hd
      exact hlt.le
    · rw [if_neg hji, if_neg hne] at hd
      by_cases hpi : parent j = i
      · -- a child of the place that the parent came down to
        rw [if_pos hpi] at hc
        cases hc
        exact h.grand hi j hj hpi b d hb hd
      · rw [if_neg hpi] at hc
        by_cases hpp : parent j = parent i
        · -- the other child of the place that the item came up to
          rw [if_pos hpp] at hc
          cases hc
          exact hlt.le.trans (h.except j hj hji b d (hpp ▸ hb) hd)
        · rw [if_neg hpp] at hc
          exact h.except j hj hji c d hc hd
  · intro hpos j hj hpj c d hc hd
    have hgrand := parent_lt hpos
    have habove : Edge key items (parent (parent i)) (parent i) := h.except _ hpos hparent.ne
    rw [hget, if_neg (by omega), if_neg hgrand.ne] at hc
    rw [hget] at hd
    by_cases hji : j = i
    · rw [if_pos hji] at hd
      cases hd
      exact habove c b hc hb
    · have hjp := parent_lt hj
      rw [if_neg hji, if_neg (by omega)] at hd
      calc
        key c ≤ key b := habove c b hc hb
        _ ≤ key d := h.except j hj hji b d (hpj ▸ hb) hd

theorem up_spec {fuel : ℕ} (hfuel : i ≤ fuel) (h : UpReady key items i) :
    Ordered key (up key fuel items i) ∧ (up key fuel items i).Perm items := by
  have hstop : (i = 0 ∨ before key items i (parent i) = false) → Ordered key items := by
    intro hstop j hj
    by_cases hji : j = i
    · subst hji
      rcases hstop with hzero | hafter
      · exact absurd hzero hj.ne'
      · exact before_eq_false_iff.mp hafter
    · exact h.except j hj hji
  induction fuel generalizing items i with
  | zero =>
      rw [up]
      exact ⟨hstop (Or.inl (Nat.le_zero.mp hfuel)), .refl _⟩
  | succ fuel ih =>
      rw [up]
      by_cases hcond : i = 0 ∨ before key items i (parent i) = false
      · rw [if_pos hcond]
        exact ⟨hstop hcond, .refl _⟩
      · rw [if_neg hcond]
        rcases not_or.mp hcond with ⟨hne, hbefore⟩
        have hpos := Nat.pos_of_ne_zero hne
        have hmoved := h.move hpos (by simpa using hbefore)
        have hlt := parent_lt hpos
        have hmore := ih (by omega) hmoved (by
          intro hend j hj
          by_cases hji : j = parent i
          · subst hji
            rcases hend with hzero | hafter
            · exact absurd hzero hj.ne'
            · exact before_eq_false_iff.mp hafter
          · exact hmoved.except j hj hji)
        exact ⟨hmore.1, hmore.2.trans (swap_perm _ _ _)⟩

/-! ## Moving down -/

theorem least_cases (key : α → δ) (items : List α) (i : ℕ) :
    (least key items i = i ∧ Edge key items i (2 * i + 1) ∧ Edge key items i (2 * i + 2)) ∨
      0 < least key items i ∧ parent (least key items i) = i ∧
        before key items (least key items i) i = true ∧
        ∀ j, 0 < j → parent j = i → Edge key items (least key items i) j := by
  have hrefl : ∀ k, Edge key items k k := by
    intro k a b ha hb
    rw [ha] at hb
    cases hb
    exact le_rfl
  rw [least]
  cases hleft : before key items (2 * i + 1) i with
  | false =>
      simp only [Bool.false_eq_true, if_false]
      cases hright : before key items (2 * i + 2) i with
      | false =>
          simp only [Bool.false_eq_true, if_false]
          exact Or.inl ⟨trivial, before_eq_false_iff.mp hleft, before_eq_false_iff.mp hright⟩
      | true =>
          simp only [if_true]
          refine Or.inr ⟨by omega, parent_right i, hright, ?_⟩
          intro j hj hpj
          rcases exists_of_before hright with ⟨a, b, ha, hb, hlt⟩
          rcases eq_child hj hpj with rfl | rfl
          · intro c d hc hd
            rw [ha] at hc
            cases hc
            exact hlt.le.trans (before_eq_false_iff.mp hleft b d hb hd)
          · exact hrefl _
  | true =>
      simp only [if_true]
      rcases exists_of_before hleft with ⟨a, b, ha, hb, hlt⟩
      cases hright : before key items (2 * i + 2) (2 * i + 1) with
      | false =>
          simp only [Bool.false_eq_true, if_false]
          refine Or.inr ⟨by omega, parent_left i, hleft, ?_⟩
          intro j hj hpj
          rcases eq_child hj hpj with rfl | rfl
          · exact hrefl _
          · exact before_eq_false_iff.mp hright
      | true =>
          simp only [if_true]
          rcases exists_of_before hright with ⟨c, a', hc, ha', hlt'⟩
          rw [ha] at ha'
          cases ha'
          refine Or.inr ⟨by omega, parent_right i, ?_, ?_⟩
          · rw [before, hc, hb]
            exact decide_eq_true (hlt'.trans hlt)
          · intro j hj hpj
            rcases eq_child hj hpj with rfl | rfl
            · intro x y hx hy
              rw [hc] at hx
              rw [ha] at hy
              cases hx
              cases hy
              exact hlt'.le
            · exact hrefl _

/-- A child is before the item at `i`: the least one changes places with it. -/
theorem DownReady.move (h : DownReady key items i) (hj : 0 < j) (hparent : parent j = i)
    (hbefore : before key items j i = true)
    (hleast : ∀ k, 0 < k → parent k = i → Edge key items j k) :
    DownReady key (swap items i j) j := by
  rcases exists_of_before hbefore with ⟨b, a, hb, ha, hlt⟩
  have hij : i < j := hparent ▸ parent_lt hj
  have hget := getElem?_swap ha hb hij.ne
  constructor
  · intro k hk hne c d hc hd
    rw [hget] at hc hd
    have hkp := parent_lt hk
    by_cases hki : k = i
    · -- the edge into the place that the child came up to
      rw [if_pos hki] at hd
      rw [if_neg (by omega), if_neg hne] at hc
      cases hd
      exact h.grand (by omega) j hj hparent _ _ (hki ▸ hc) hb
    · by_cases hkj : k = j
      · rw [if_neg hki, if_pos hkj] at hd
        rw [if_pos (hkj ▸ hparent)] at hc
        cases hc
        cases hd
        exact hlt.le
      · rw [if_neg hki, if_neg hkj] at hd
        by_cases hpi : parent k = i
        · -- the other child
          rw [if_pos hpi] at hc
          cases hc
          exact hleast k hk hpi _ _ hb hd
        · rw [if_neg hpi, if_neg hne] at hc
          exact h.except k hk hpi c d hc hd
  · intro _ k hk hpk c d hc hd
    have hjk : j < k := hpk ▸ parent_lt hk
    rw [hget, if_pos hparent] at hc
    rw [hget, if_neg (by omega), if_neg hjk.ne'] at hd
    cases hc
    exact h.except k hk (by omega) _ _ (hpk ▸ hb) hd

theorem down_spec {fuel : ℕ} (hfuel : items.length ≤ i + fuel) (h : DownReady key items i) :
    Ordered key (down key fuel items i) ∧ (down key fuel items i).Perm items := by
  induction fuel generalizing items i with
  | zero =>
      rw [down]
      refine ⟨?_, .refl _⟩
      intro j hj
      by_cases hpj : parent j = i
      · -- there are no children
        intro a b ha hb
        have hlt := (List.getElem?_eq_some_iff.mp hb).1
        have := parent_lt hj
        omega
      · exact h.except j hj hpj
  | succ fuel ih =>
      rw [down]
      rcases least_cases key items i with
        ⟨hstop, hleft, hright⟩ | ⟨hpos, hparent, hbefore, hleast⟩
      · rw [if_pos hstop]
        refine ⟨?_, .refl _⟩
        intro j hj
        by_cases hpj : parent j = i
        · rcases eq_child hj hpj with rfl | rfl
          · rw [hpj]
            exact hleft
          · rw [hpj]
            exact hright
        · exact h.except j hj hpj
      · have hlt : i < least key items i := hparent.symm.trans_lt (parent_lt hpos)
        rw [if_neg hlt.ne']
        have hlength := (swap_perm items i (least key items i)).length_eq
        have hmore := ih (by omega) (h.move hpos hparent hbefore hleast)
        exact ⟨hmore.1, hmore.2.trans (swap_perm _ _ _)⟩

/-! ## Operations -/

theorem ordered_nil : Ordered key ([] : List α) := by
  intro i _ a b ha
  cases ha

theorem upReady_push (h : Ordered key items) (a : α) :
    UpReady key (items ++ [a]) items.length := by
  constructor
  · intro j hj hne b c hb hc
    have hlt : j < (items ++ [a]).length := (List.getElem?_eq_some_iff.mp hc).1
    have hjp := parent_lt hj
    rw [List.length_append, List.length_singleton] at hlt
    rw [List.getElem?_append_left (by omega)] at hb hc
    exact h j hj b c hb hc
  · intro _ j hj hpj b c _ hc
    have hlt : j < (items ++ [a]).length := (List.getElem?_eq_some_iff.mp hc).1
    have hjp := parent_lt hj
    rw [List.length_append, List.length_singleton] at hlt
    omega

theorem push_ordered (h : Ordered key items) (a : α) : Ordered key (push key items a) :=
  (up_spec le_rfl (upReady_push h a)).1

theorem push_perm (h : Ordered key items) (a : α) : (push key items a).Perm (a :: items) :=
  (up_spec le_rfl (upReady_push h a)).2.trans (List.perm_append_singleton a items)

theorem downReady_pop (h : Ordered key (top :: rest)) (last : α) :
    DownReady key (last :: rest.dropLast) 0 := by
  have hget : ∀ {j b}, 0 < j → (last :: rest.dropLast)[j]? = some b → (top :: rest)[j]? = some b := by
    intro j b hj hb
    rcases Nat.exists_eq_succ_of_ne_zero hj.ne' with ⟨j, rfl⟩
    rw [List.getElem?_cons_succ] at hb ⊢
    rw [List.getElem?_dropLast] at hb
    split_ifs at hb
    exact hb
  constructor
  · intro j hj hne b c hb hc
    exact h j hj b c (hget (Nat.pos_of_ne_zero hne) hb) (hget hj hc)
  · exact fun hpos => absurd hpos (lt_irrefl 0)

theorem pop_eq_none (h : pop key items = none) : items = [] := by
  cases items with
  | nil => rfl
  | cons top rest =>
      rw [pop] at h
      split at h <;> cases h

theorem pop_spec (h : Ordered key items) (hpop : pop key items = some (top, rest)) :
    Ordered key rest ∧ items.Perm (top :: rest) := by
  cases items with
  | nil => cases hpop
  | cons first items =>
      rw [pop] at hpop
      cases hlast : items.getLast? with
      | none =>
          rw [hlast] at hpop
          cases hpop
          rw [List.getLast?_eq_none_iff.mp hlast]
          exact ⟨ordered_nil, .refl _⟩
      | some last =>
          rw [hlast] at hpop
          cases hpop
          have hitems : items.dropLast ++ [last] = items :=
            List.dropLast_append_getLast? last hlast
          have hlength : (last :: items.dropLast).length ≤ 0 + items.length := by
            rw [← congrArg List.length hitems]
            simp
          have hdown := down_spec hlength (downReady_pop h last)
          refine ⟨hdown.1, .cons _ (.symm ?_)⟩
          calc
            (down key items.length (last :: items.dropLast) 0).Perm (last :: items.dropLast) :=
              hdown.2
            _ |>.Perm (items.dropLast ++ [last]) := (List.perm_append_singleton last _).symm
            _ |>.Perm items := .of_eq hitems

/-- The front of a heap is the least of its items. -/
theorem Ordered.front_le (h : Ordered key (top :: rest)) (ha : a ∈ top :: rest) :
    key top ≤ key a := by
  rcases List.mem_iff_getElem?.mp ha with ⟨i, hi⟩
  clear ha
  induction i using Nat.strong_induction_on generalizing a with
  | h i ih =>
      rcases Nat.eq_zero_or_pos i with rfl | hpos
      · cases hi
        exact le_rfl
      · have hlt : parent i < (top :: rest).length :=
          (parent_lt hpos).trans (List.getElem?_eq_some_iff.mp hi).1
        have hget : (top :: rest)[parent i]? = some (top :: rest)[parent i] :=
          List.getElem?_eq_getElem hlt
        calc
          key top ≤ key (top :: rest)[parent i] := ih (parent i) (parent_lt hpos) hget
          _ ≤ key a := h i hpos _ a hget hi

theorem pop_front (hpop : pop key items = some (top, rest)) : ∃ more, items = top :: more := by
  cases items with
  | nil => cases hpop
  | cons first items =>
      rw [pop] at hpop
      split at hpop <;> cases hpop <;> exact ⟨_, rfl⟩

theorem pop_le (h : Ordered key items) (hpop : pop key items = some (top, rest)) (ha : a ∈ items) :
    key top ≤ key a := by
  rcases pop_front hpop with ⟨more, rfl⟩
  exact h.front_le ha

/-- Popping everything gives the items in order. -/
theorem drain_spec {fuel : ℕ} (hfuel : items.length ≤ fuel) (h : Ordered key items) :
    (drain key fuel items).Pairwise (fun a b => key a ≤ key b) ∧ (drain key fuel items).Perm items := by
  induction fuel generalizing items with
  | zero =>
      rw [List.eq_nil_of_length_eq_zero (Nat.le_zero.mp hfuel)]
      exact ⟨.nil, .refl _⟩
  | succ fuel ih =>
      rw [drain]
      cases hpop : pop key items with
      | none =>
          rw [pop_eq_none hpop]
          exact ⟨.nil, .refl _⟩
      | some popped =>
          rcases popped with ⟨top, rest⟩
          rcases pop_spec h hpop with ⟨hordered, hperm⟩
          have hlength := hperm.length_eq
          rw [List.length_cons] at hlength
          rcases ih (by omega) hordered with ⟨hsorted, hsame⟩
          refine ⟨.cons ?_ hsorted, (hsame.cons top).trans hperm.symm⟩
          intro b hb
          exact pop_le h hpop (hperm.mem_iff.mpr (List.mem_cons_of_mem _ (hsame.mem_iff.mp hb)))

end BinaryHeap
end ObjyDb
