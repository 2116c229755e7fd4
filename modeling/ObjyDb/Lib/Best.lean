import Mathlib.Tactic
import Mathlib.Data.List.Perm.Basic

/-!
# Best — the first best value of a list

`bestOf beats` keeps the first value and replaces it by every later one that beats it.  When
`beats` is a strict weak order of the values, the result is unbeaten (`unbeaten_bestOf`), and where
the unbeaten values coincide it depends on neither their order (`bestOf_perm`) nor their grouping
(`bestOf_filterMap_bestOf`).
-/

namespace ObjyDb
namespace Best

variable {α : Type*} (beats : α → α → Bool)

def step (best : Option α) (v : α) : Option α :=
  match best with
  | none => some v
  | some b => if beats v b then some v else some b

def bestOf (vs : List α) : Option α :=
  vs.foldl (step beats) none

/-- No value of the list beats `v`. -/
def Unbeaten (vs : List α) (v : α) : Prop :=
  ∀ u ∈ vs, beats u v = false

/-- `beats` is a strict weak order of the values. -/
structure WeakOrder (vs : List α) : Prop where
  irrefl : ∀ v ∈ vs, beats v v = false
  asymm : ∀ u ∈ vs, ∀ v ∈ vs, beats u v = true → beats v u = false
  negTrans : ∀ u ∈ vs, ∀ v ∈ vs, ∀ w ∈ vs, beats u v = false → beats v w = false →
    beats u w = false

/-- All unbeaten values are one value. -/
def Decided (vs : List α) : Prop :=
  ∀ v ∈ vs, ∀ w ∈ vs, Unbeaten beats vs v → Unbeaten beats vs w → v = w

variable {beats}

theorem WeakOrder.subset {vs ws : List α} (h : WeakOrder beats vs) (hsub : ws ⊆ vs) :
    WeakOrder beats ws where
  irrefl v hv := h.irrefl v (hsub hv)
  asymm u hu v hv := h.asymm u (hsub hu) v (hsub hv)
  negTrans u hu v hv w hw := h.negTrans u (hsub hu) v (hsub hv) w (hsub hw)

theorem bestOf_concat (vs : List α) (v : α) :
    bestOf beats (vs ++ [v]) = step beats (bestOf beats vs) v := by
  simp [bestOf, List.foldl_append]

theorem bestOf_eq_none_iff {vs : List α} : bestOf beats vs = none ↔ vs = [] := by
  induction vs using List.reverseRecOn with
  | nil => simp [bestOf]
  | append_singleton vs v ih =>
      rw [bestOf_concat]
      cases bestOf beats vs with
      | none => simp [step]
      | some b =>
          by_cases h : beats v b = true <;> simp [step, h]

theorem mem_of_bestOf {vs : List α} {b : α} (h : bestOf beats vs = some b) : b ∈ vs := by
  induction vs using List.reverseRecOn generalizing b with
  | nil => cases h
  | append_singleton vs v ih =>
      rw [bestOf_concat] at h
      cases hbest : bestOf beats vs with
      | none =>
          rw [hbest] at h
          simp [← Option.some.inj h]
      | some a =>
          rw [hbest, step] at h
          split_ifs at h with hbeats
          · simp [← Option.some.inj h]
          · exact List.mem_append_left _ (ih (Option.some.inj h ▸ hbest))

theorem unbeaten_bestOf {vs : List α} (horder : WeakOrder beats vs) {b : α}
    (h : bestOf beats vs = some b) : Unbeaten beats vs b := by
  induction vs using List.reverseRecOn generalizing b with
  | nil => cases h
  | append_singleton vs v ih =>
      have hv : v ∈ vs ++ [v] := by simp
      have hsub : vs ⊆ vs ++ [v] := List.subset_append_left vs [v]
      rw [bestOf_concat] at h
      intro u hu
      cases hbest : bestOf beats vs with
      | none =>
          rw [hbest] at h
          rw [bestOf_eq_none_iff.mp hbest, List.nil_append, List.mem_singleton] at hu
          cases Option.some.inj h
          exact hu ▸ horder.irrefl v hv
      | some a =>
          have ha := hsub (mem_of_bestOf hbest)
          have hrest := ih (horder.subset hsub) hbest
          rw [hbest, step] at h
          split_ifs at h with hbeats
          · cases Option.some.inj h
            rcases List.mem_append.mp hu with hmem | hmem
            · exact horder.negTrans u hu a ha v hv (hrest u hmem) (horder.asymm v hv a ha hbeats)
            · exact List.mem_singleton.mp hmem ▸ horder.irrefl v hv
          · cases Option.some.inj h
            rcases List.mem_append.mp hu with hmem | hmem
            · exact hrest u hmem
            · rw [List.mem_singleton.mp hmem]
              simpa using hbeats

/-- The best of decided values is the one nothing beats. -/
theorem bestOf_eq_some_iff {vs : List α} (horder : WeakOrder beats vs)
    (hdecided : Decided beats vs) {b : α} :
    bestOf beats vs = some b ↔ b ∈ vs ∧ Unbeaten beats vs b := by
  constructor
  · exact fun h => ⟨mem_of_bestOf h, unbeaten_bestOf horder h⟩
  · rintro ⟨hmem, hunbeaten⟩
    obtain ⟨a, ha⟩ : ∃ a, bestOf beats vs = some a :=
      Option.ne_none_iff_exists'.mp fun hnone => by simp [bestOf_eq_none_iff.mp hnone] at hmem
    rw [ha, hdecided a (mem_of_bestOf ha) b hmem (unbeaten_bestOf horder ha) hunbeaten]

theorem Unbeaten.perm {vs ws : List α} (hperm : vs.Perm ws) {v : α} (h : Unbeaten beats vs v) :
    Unbeaten beats ws v :=
  fun u hu => h u (hperm.mem_iff.mpr hu)

theorem Decided.perm {vs ws : List α} (hperm : vs.Perm ws) (h : Decided beats vs) :
    Decided beats ws :=
  fun v hv w hw huv huw => h v (hperm.mem_iff.mpr hv) w (hperm.mem_iff.mpr hw)
    (huv.perm hperm.symm) (huw.perm hperm.symm)

theorem bestOf_perm {vs ws : List α} (horder : WeakOrder beats vs) (hdecided : Decided beats vs)
    (hperm : vs.Perm ws) : bestOf beats vs = bestOf beats ws := by
  cases hbest : bestOf beats ws with
  | none =>
      rw [bestOf_eq_none_iff.mp hbest] at hperm
      rw [hperm.eq_nil]
      rfl
  | some b =>
      have hws := horder.subset hperm.symm.subset
      exact (bestOf_eq_some_iff horder hdecided).mpr ⟨hperm.mem_iff.mpr (mem_of_bestOf hbest),
        (unbeaten_bestOf hws hbest).perm hperm.symm⟩

/-- The best of the bests of the parts is the best of all. -/
theorem bestOf_filterMap_bestOf {parts : List (List α)} (horder : WeakOrder beats parts.flatten)
    (hdecided : Decided beats parts.flatten) :
    bestOf beats (parts.filterMap (bestOf beats)) = bestOf beats parts.flatten := by
  have hsub : parts.filterMap (bestOf beats) ⊆ parts.flatten := by
    intro v hv
    obtain ⟨part, hpart, hbest⟩ := List.mem_filterMap.mp hv
    exact List.mem_flatten.mpr ⟨part, hpart, mem_of_bestOf hbest⟩
  cases hbest : bestOf beats (parts.filterMap (bestOf beats)) with
  | none =>
      have hnil := bestOf_eq_none_iff.mp hbest
      have hall : ∀ part ∈ parts, part = [] := fun part hpart =>
        bestOf_eq_none_iff.mp (List.filterMap_eq_nil_iff.mp hnil part hpart)
      rw [List.flatten_eq_nil_iff.mpr hall]
      rfl
  | some b =>
      have hb := mem_of_bestOf hbest
      have hunbeaten := unbeaten_bestOf (horder.subset hsub) hbest
      refine ((bestOf_eq_some_iff horder hdecided).mpr ⟨hsub hb, ?_⟩).symm
      intro u hu
      obtain ⟨part, hpart, hmem⟩ := List.mem_flatten.mp hu
      have hpartSub : part ⊆ parts.flatten := fun w hw => List.mem_flatten.mpr ⟨part, hpart, hw⟩
      obtain ⟨a, ha⟩ : ∃ a, bestOf beats part = some a :=
        Option.ne_none_iff_exists'.mp fun hnone => by simp [bestOf_eq_none_iff.mp hnone] at hmem
      have hua := unbeaten_bestOf (horder.subset hpartSub) ha u hmem
      have hab := hunbeaten a (List.mem_filterMap.mpr ⟨part, hpart, ha⟩)
      exact horder.negTrans u hu a (hpartSub (mem_of_bestOf ha)) b (hsub hb) hua hab

/-- A value no other beats stays the best when it comes first. -/
theorem bestOf_cons_unbeaten {v : α} {vs : List α} (h : Unbeaten beats vs v) :
    bestOf beats (v :: vs) = some v := by
  induction vs using List.reverseRecOn with
  | nil => rfl
  | append_singleton vs w ih =>
      rw [← List.cons_append, bestOf_concat, ih fun u hu => h u (List.mem_append_left _ hu), step,
        h w (by simp)]
      rfl

end Best
end ObjyDb
