import Mathlib.Data.List.Nodup
import Mathlib.Logic.Function.Basic
import Mathlib.Order.Basic
import Mathlib.Tactic.Common

/-!
# Interning — values shared under reference-counted codes

A table hands out a code for each value in use and counts the holders of the code.  A value whose
last holder lets go gives its code back, and the code is handed out again.  `uses` says how many
holders each code really has.

* `Consistent` — what the table says of every code agrees with its holders;
* `Consistent.acquire` — one more holder of the code of a value;
* `Consistent.release` — one holder less.
-/

namespace ObjyDb

/-- Codes `1 … size` were handed out at some time; `free` lists those without a holder. -/
@[ext]
structure Interning (κ α : Type*) where
  size : Nat
  value : Nat → Option α
  refs : Nat → Nat
  code : κ → Option Nat
  free : List Nat

namespace Interning

variable {κ α : Type*} [DecidableEq κ] (key : α → κ) (t : Interning κ α)

def empty : Interning κ α :=
  ⟨0, fun _ => none, fun _ => 0, fun _ => none, []⟩

/-- The value is put under a code without holders and held once. -/
def place (c : Nat) (v : α) : Interning κ α :=
  { t with
    value := Function.update t.value c (some v)
    refs := Function.update t.refs c 1
    code := Function.update t.code (key v) (some c) }

/-- One more holder of the value, and the code that it gets. -/
def acquire (v : α) : Interning κ α × Nat :=
  match t.code (key v) with
  | some c => ({ t with refs := Function.update t.refs c (t.refs c + 1) }, c)
  | none =>
      match t.free with
      | c :: free => ({ t.place key c v with free := free }, c)
      | [] => ({ t.place key (t.size + 1) v with size := t.size + 1 }, t.size + 1)

/-- The code without its value. -/
def drop (c : Nat) : Interning κ α :=
  { t with
    value := Function.update t.value c none
    refs := Function.update t.refs c 0
    code := match t.value c with
      | some v => Function.update t.code (key v) none
      | none => t.code
    free := c :: t.free }

/-- One holder of the code less. -/
def release (c : Nat) : Interning κ α :=
  if t.refs c - 1 = 0 then t.drop key c
  else { t with refs := Function.update t.refs c (t.refs c - 1) }

/-- What the table says of every code agrees with its holders. -/
structure Consistent (uses : Nat → Nat) : Prop where
  range : ∀ c, uses c ≠ 0 → 1 ≤ c ∧ c ≤ t.size
  refs : ∀ c, t.refs c = uses c
  live : ∀ c, (t.value c).isSome ↔ uses c ≠ 0
  code : ∀ k c, t.code k = some c ↔ ∃ v, t.value c = some v ∧ key v = k
  free : ∀ c, c ∈ t.free ↔ (1 ≤ c ∧ c ≤ t.size) ∧ uses c = 0
  nodup : t.free.Nodup

omit [DecidableEq κ] in
theorem consistent_empty : (empty : Interning κ α).Consistent key (fun _ => 0) where
  range := by
    intro c h
    exact absurd rfl h
  refs := fun _ => rfl
  live := by simp [empty]
  code := by simp [empty]
  free := by
    intro c
    simp only [empty, List.not_mem_nil, and_true, false_iff]
    omega
  nodup := List.nodup_nil

variable {key t} {uses : Nat → Nat}

namespace Consistent

omit [DecidableEq κ] in
/-- Equal keys share a code. -/
theorem code_unique (h : t.Consistent key uses) {c c' : Nat} {v v' : α} (hc : t.value c = some v)
    (hc' : t.value c' = some v') (hkey : key v = key v') : c = c' := by
  have hcode := (h.code (key v) c).mpr ⟨v, hc, rfl⟩
  have hcode' := (h.code (key v') c').mpr ⟨v', hc', rfl⟩
  rw [hkey, hcode'] at hcode
  exact (Option.some.inj hcode).symm

/-- A value put under an unused code. -/
theorem place (h : t.Consistent key uses) {c : Nat} {v : α} (hkey : t.code (key v) = none)
    (hc : uses c = 0) (hpos : 1 ≤ c) (size : Nat) (free : List Nat) (hsize : t.size ≤ size)
    (hle : c ≤ size) (hfree : ∀ d, d ∈ free ↔ ((1 ≤ d ∧ d ≤ size) ∧ uses d = 0) ∧ d ≠ c)
    (hnodup : free.Nodup) :
    Consistent key { t.place key c v with size := size, free := free }
      (Function.update uses c (uses c + 1)) where
  range := by
    intro d hd
    by_cases hdc : d = c
    · rw [hdc]
      exact ⟨hpos, hle⟩
    · rw [Function.update_of_ne hdc] at hd
      exact ⟨(h.range d hd).1, Nat.le_trans (h.range d hd).2 hsize⟩
  refs := by
    intro d
    by_cases hdc : d = c
    · rw [hdc]
      simp [Interning.place, hc]
    · simp only [Interning.place, Function.update_of_ne hdc]
      exact h.refs d
  live := by
    intro d
    by_cases hdc : d = c
    · rw [hdc]
      simp [Interning.place]
    · simp only [Interning.place, Function.update_of_ne hdc]
      exact h.live d
  code := by
    intro k d
    -- no value in use has the new value's key
    have hnew : ∀ d w, t.value d = some w → key w ≠ key v := by
      intro d w hw heq
      have hcode := (h.code (key v) d).mpr ⟨w, hw, heq⟩
      rw [hkey] at hcode
      cases hcode
    have hvalue : t.value c = none := by
      rw [← Option.not_isSome_iff_eq_none, h.live c]
      simpa using hc
    simp only [Interning.place]
    by_cases hk : k = key v
    · rw [hk, Function.update_self]
      by_cases hdc : d = c
      · rw [hdc, Function.update_self]
        simp
      · rw [Function.update_of_ne hdc]
        constructor
        · intro hcd
          exact absurd (Option.some.inj hcd).symm hdc
        · rintro ⟨w, hw, heq⟩
          exact absurd heq (hnew d w hw)
    · rw [Function.update_of_ne hk, h.code]
      by_cases hdc : d = c
      · rw [hdc, Function.update_self, hvalue]
        constructor
        · rintro ⟨w, hw, -⟩
          cases hw
        · rintro ⟨w, hw, heq⟩
          cases hw
          exact absurd heq.symm hk
      · rw [Function.update_of_ne hdc]
  free := by
    intro d
    rw [hfree d]
    by_cases hdc : d = c
    · simp [hdc]
    · simp [hdc]
  nodup := hnodup

/-- One more holder of a value: the table stays consistent. -/
theorem acquire (h : t.Consistent key uses) (v : α) :
    (t.acquire key v).1.Consistent key
      (Function.update uses (t.acquire key v).2 (uses (t.acquire key v).2 + 1)) := by
  unfold Interning.acquire
  cases hcode : t.code (key v) with
  | some c =>
      rcases (h.code _ _).mp hcode with ⟨w, hw, -⟩
      have hused : uses c ≠ 0 := (h.live c).mp (by rw [hw]; rfl)
      refine ⟨?_, ?_, ?_, h.code, ?_, h.nodup⟩
      · intro d hd
        by_cases hdc : d = c
        · exact hdc ▸ h.range c hused
        · rw [Function.update_of_ne hdc] at hd
          exact h.range d hd
      · intro d
        by_cases hdc : d = c
        · simp [hdc, h.refs]
        · simp [Function.update_of_ne hdc, h.refs]
      · intro d
        by_cases hdc : d = c
        · simp [hdc, hw]
        · simp only [Function.update_of_ne hdc]
          exact h.live d
      · intro d
        by_cases hdc : d = c
        · rw [hdc, h.free]
          simp [hused]
        · simp only [Function.update_of_ne hdc]
          exact h.free d
  | none =>
      cases hfree : t.free with
      | cons c free =>
          have hc : (1 ≤ c ∧ c ≤ t.size) ∧ uses c = 0 :=
            (h.free c).mp (by rw [hfree]; exact List.mem_cons_self)
          have hnodup := h.nodup
          rw [hfree, List.nodup_cons] at hnodup
          refine h.place hcode hc.2 hc.1.1 t.size free (Nat.le_refl _) hc.1.2 (fun d => ?_) hnodup.2
          have hd := h.free d
          rw [hfree, List.mem_cons] at hd
          constructor
          · intro hmem
            exact ⟨hd.mp (Or.inr hmem), fun hdc => hnodup.1 (hdc ▸ hmem)⟩
          · rintro ⟨hin, hne⟩
            exact (hd.mpr hin).resolve_left hne
      | nil =>
          have hnone : ∀ d, 1 ≤ d → d ≤ t.size → uses d ≠ 0 := by
            intro d hpos hle hd
            have hmem := (h.free d).mpr ⟨⟨hpos, hle⟩, hd⟩
            rw [hfree] at hmem
            cases hmem
          have hnew : uses (t.size + 1) = 0 := by
            by_contra hused
            have hle := (h.range _ hused).2
            omega
          have hfresh : ∀ d, d ∈ t.free ↔ ((1 ≤ d ∧ d ≤ t.size + 1) ∧ uses d = 0) ∧ d ≠ t.size + 1 := by
            intro d
            rw [hfree]
            simp only [List.not_mem_nil, false_iff]
            rintro ⟨⟨⟨hpos, hle⟩, hd⟩, hne⟩
            exact hnone d hpos (by omega) hd
          exact h.place hcode hnew (by omega) (t.size + 1) t.free (Nat.le_succ _) (Nat.le_refl _) hfresh
            h.nodup

/-- The code that a value gets stands for a value with its key. -/
theorem value_acquire (h : t.Consistent key uses) (v : α) :
    ∃ w, (t.acquire key v).1.value (t.acquire key v).2 = some w ∧ key w = key v := by
  unfold Interning.acquire
  cases hcode : t.code (key v) with
  | some c => exact (h.code _ _).mp hcode
  | none =>
      cases t.free with
      | cons c free => exact ⟨v, Function.update_self .., rfl⟩
      | nil => exact ⟨v, Function.update_self .., rfl⟩

/-- The values of the codes in use stay. -/
theorem value_acquire_of_used (h : t.Consistent key uses) (v : α) {d : Nat} (hd : uses d ≠ 0) :
    (t.acquire key v).1.value d = t.value d := by
  unfold Interning.acquire
  cases hcode : t.code (key v) with
  | some c => rfl
  | none =>
      cases hfree : t.free with
      | cons c free =>
          refine Function.update_of_ne ?_ ..
          rintro rfl
          exact hd ((h.free d).mp (by rw [hfree]; exact List.mem_cons_self)).2
      | nil =>
          refine Function.update_of_ne ?_ ..
          rintro rfl
          have hle := (h.range _ hd).2
          omega

theorem acquire_pos (h : t.Consistent key uses) (v : α) : 1 ≤ (t.acquire key v).2 := by
  have hnew := (h.acquire v).range (t.acquire key v).2
  rw [Function.update_self] at hnew
  exact (hnew (Nat.succ_ne_zero _)).1

/-- The last holder of a code lets go. -/
theorem drop (h : t.Consistent key uses) {c : Nat} (hc : uses c = 1) :
    (t.drop key c).Consistent key (Function.update uses c (uses c - 1)) := by
  have hused : uses c ≠ 0 := by omega
  rcases Option.isSome_iff_exists.mp ((h.live c).mpr hused) with ⟨v, hv⟩
  refine ⟨?_, ?_, ?_, ?_, ?_, ?_⟩
  · intro d hd
    by_cases hdc : d = c
    · exact hdc ▸ h.range c hused
    · rw [Function.update_of_ne hdc] at hd
      exact h.range d hd
  · intro d
    by_cases hdc : d = c
    · simp [Interning.drop, hdc, hc]
    · simp [Interning.drop, Function.update_of_ne hdc, h.refs]
  · intro d
    by_cases hdc : d = c
    · simp [Interning.drop, hdc, hc]
    · simp only [Interning.drop, Function.update_of_ne hdc]
      exact h.live d
  · intro k d
    simp only [Interning.drop, hv]
    by_cases hk : k = key v
    · rw [hk, Function.update_self]
      constructor
      · intro hcode
        cases hcode
      · rintro ⟨w, hw, heq⟩
        by_cases hdc : d = c
        · rw [hdc, Function.update_self] at hw
          cases hw
        · rw [Function.update_of_ne hdc] at hw
          exact absurd (h.code_unique hw hv heq) hdc
    · rw [Function.update_of_ne hk, h.code]
      by_cases hdc : d = c
      · rw [hdc, Function.update_self, hv]
        constructor
        · rintro ⟨w, hw, heq⟩
          cases hw
          exact absurd heq.symm hk
        · rintro ⟨w, hw, -⟩
          cases hw
      · rw [Function.update_of_ne hdc]
  · intro d
    simp only [Interning.drop, List.mem_cons]
    by_cases hdc : d = c
    · have hrange := h.range c hused
      simp [hdc, hc, hrange]
    · rw [Function.update_of_ne hdc, h.free]
      simp [hdc]
  · have hnotFree : c ∉ t.free := fun hmem => hused ((h.free c).mp hmem).2
    exact List.nodup_cons.mpr ⟨hnotFree, h.nodup⟩

/-- One holder of a code less: the table stays consistent. -/
theorem release (h : t.Consistent key uses) {c : Nat} (hc : uses c ≠ 0) :
    (t.release key c).Consistent key (Function.update uses c (uses c - 1)) := by
  unfold Interning.release
  rw [h.refs c]
  by_cases hlast : uses c - 1 = 0
  · rw [if_pos hlast]
    exact h.drop (by omega)
  · rw [if_neg hlast]
    refine ⟨?_, ?_, ?_, h.code, ?_, h.nodup⟩
    · intro d hd
      by_cases hdc : d = c
      · exact hdc ▸ h.range c hc
      · rw [Function.update_of_ne hdc] at hd
        exact h.range d hd
    · intro d
      by_cases hdc : d = c
      · simp [hdc]
      · simp [Function.update_of_ne hdc, h.refs]
    · intro d
      by_cases hdc : d = c
      · rw [hdc, Function.update_self, h.live]
        simp [hc, hlast]
      · simp only [Function.update_of_ne hdc]
        exact h.live d
    · intro d
      by_cases hdc : d = c
      · rw [hdc, h.free]
        simp [hc, hlast]
      · simp only [Function.update_of_ne hdc]
        exact h.free d

/-- The values of the other codes stay. -/
theorem value_release {c d : Nat} (hdc : d ≠ c) : (t.release key c).value d = t.value d := by
  unfold Interning.release
  split
  · exact Function.update_of_ne hdc ..
  · rfl

/-- The value of a code that is still held stays. -/
theorem value_release_of_held (h : t.Consistent key uses) {c : Nat} (hc : uses c - 1 ≠ 0) :
    (t.release key c).value c = t.value c := by
  unfold Interning.release
  rw [h.refs c, if_neg hc]

end Consistent

end Interning

end ObjyDb
