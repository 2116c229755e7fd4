import Mathlib.Data.List.Perm.Subperm
import Mathlib.Order.OrderDual
import ObjyDb.Lib.BinaryHeap

/-!
# BeamSearch — best first search that keeps the best few

A search over a graph whose nodes have scores, except for some.  It goes on from the least candidate,
looks at each node once and keeps as many of the least that it has found as the beam is wide; it
stops at a candidate that is greater than everything kept.

* `BeamSearch.search_spec` — what is kept is distinct, sorted, reached and scored, and no neighbour
  of it is better
* `BeamSearch.Answers.complete` — a beam that has room left keeps all that can be reached
-/

namespace ObjyDb

/-- A node with its score. -/
structure Found (ι δ : Type) where
  id : ι
  dist : δ
deriving DecidableEq

/-- The nodes seen, those to go on from with the least first, and those kept with the greatest
first. -/
structure Beam (ι δ : Type) where
  visited : List ι
  candidates : List (Found ι δ)
  result : List (Found ι δ)

namespace BeamSearch

variable {ι δ : Type} [DecidableEq ι] [LinearOrder δ]

/-- The order of what is kept. -/
def far (f : Found ι δ) : δᵒᵈ :=
  OrderDual.toDual f.dist

variable (next : ι → List ι) (score : ι → Option δ) (width : ℕ)

def keep (b : Beam ι δ) (f : Found ι δ) : Beam ι δ :=
  let result := BinaryHeap.push far b.result f
  { b with
    candidates := BinaryHeap.push Found.dist b.candidates f
    result :=
      -- one too many: the greatest goes
      if width < result.length then
        match BinaryHeap.pop far result with
        | none => result
        | some (_, rest) => rest
      else result }

/-- The greatest score that is kept. -/
def worst (b : Beam ι δ) : Option δ :=
  b.result.head?.map Found.dist

def visit (b : Beam ι δ) (id : ι) : Beam ι δ :=
  if id ∈ b.visited then b
  else
    -- a node without a score is not looked at again either
    let b := { b with visited := id :: b.visited }
    match score id with
    | none => b
    | some dist =>
        if b.result.length < width ∨ (worst b).any (fun w => decide (dist < w)) = true then
          keep width b ⟨id, dist⟩
        else b

def loop : ℕ → Beam ι δ → Beam ι δ
  | 0, b => b
  | fuel + 1, b =>
      match BinaryHeap.pop Found.dist b.candidates with
      | none => b
      | some (current, rest) =>
          let b := { b with candidates := rest }
          -- no candidate that is left is better than this one
          if width ≤ b.result.length ∧ (worst b).any (fun w => decide (w < current.dist)) = true then b
          else loop fuel ((next current.id).foldl (visit score width) b)

/-- An entry is kept and is a candidate. -/
def enter (b : Beam ι δ) (f : Found ι δ) : Beam ι δ :=
  { b with
    candidates := BinaryHeap.push Found.dist b.candidates f
    result := BinaryHeap.push far b.result f }

def start (entries : List (Found ι δ)) : Beam ι δ :=
  entries.foldl enter ⟨entries.map Found.id, [], []⟩

def search (fuel : ℕ) (entries : List (Found ι δ)) : List (Found ι δ) :=
  let result := (loop next score width fuel (start entries)).result
  (BinaryHeap.drain far result.length result).reverse

/-! ## The invariant -/

/-- What can be reached from the entries over scored nodes. -/
inductive Reach (entries : List (Found ι δ)) : ι → Prop
  | entry {f} (h : f ∈ entries) : Reach entries f.id
  | step {a b d} (ha : Reach entries a) (hb : b ∈ next a) (hscore : score b = some d) :
      Reach entries b

omit [DecidableEq ι] [LinearOrder δ] in
theorem not_reach_nil {next : ι → List ι} {score : ι → Option δ} (id : ι) :
    ¬ Reach next score [] id := by
  intro h
  induction h with
  | entry hf => cases hf
  | step _ _ _ ih => exact ih

/-- The node is kept, or as many are kept as may be, and none of them is greater. -/
def Covered (result : List (Found ι δ)) (f : Found ι δ) : Prop :=
  f ∈ result ∨ width ≤ result.length ∧ ∀ r ∈ result, r.dist ≤ f.dist

structure Sound (entries : List (Found ι δ)) (b : Beam ι δ) : Prop where
  candidates : BinaryHeap.Ordered Found.dist b.candidates
  result : BinaryHeap.Ordered far b.result
  seen : ∀ f, f ∈ b.candidates ∨ f ∈ b.result →
    score f.id = some f.dist ∧ f.id ∈ b.visited ∧ Reach next score entries f.id
  nodup : (b.result.map Found.id).Nodup
  length : b.result.length ≤ width
  covered : ∀ id ∈ b.visited, ∀ d, score id = some d → Covered width b.result ⟨id, d⟩

/-- All neighbours of a kept node have been seen, unless it is still a candidate, or one of some
that are exempt. -/
def Expanded (exempt : ι → Prop) (b : Beam ι δ) : Prop :=
  ∀ f ∈ b.result, f ∈ b.candidates ∨ exempt f.id ∨ ∀ n ∈ next f.id, n ∈ b.visited

variable {next score width} {entries : List (Found ι δ)} {b : Beam ι δ} {f : Found ι δ}

omit [DecidableEq ι] in
theorem le_worst (h : BinaryHeap.Ordered far b.result) {w : δ} (hw : worst b = some w) :
    ∀ r ∈ b.result, r.dist ≤ w := by
  rw [worst] at hw
  intro r hr
  cases hresult : b.result with
  | nil =>
      rw [hresult] at hr
      cases hr
  | cons top rest =>
      rw [hresult] at hw h hr
      cases hw
      exact h.front_le hr

omit [DecidableEq ι] [LinearOrder δ] in
theorem exists_worst {p : δ → Bool} (h : (worst b).any p = true) :
    ∃ w, worst b = some w ∧ p w = true := by
  cases hworst : worst b with
  | none =>
      rw [hworst] at h
      cases h
  | some w =>
      rw [hworst] at h
      exact ⟨w, rfl, h⟩

/-- What is kept once `f` is kept too: everything, or all but one that is no better. -/
def Kept (width : ℕ) (f : Found ι δ) (result kept : List (Found ι δ)) : Prop :=
  result.length < width ∧ kept.Perm (f :: result) ∨
    width ≤ result.length ∧ ∃ out : Found ι δ,
      (out :: kept).Perm (f :: result) ∧ ∀ r ∈ f :: result, r.dist ≤ out.dist

omit [DecidableEq ι] in
theorem keep_result (width : ℕ) (h : BinaryHeap.Ordered far b.result) (f : Found ι δ) :
    BinaryHeap.Ordered far (keep width b f).result ∧
      Kept width f b.result (keep width b f).result := by
  have hordered := BinaryHeap.push_ordered h f
  have hperm := BinaryHeap.push_perm h f
  have hlength := hperm.length_eq
  rw [List.length_cons] at hlength
  rw [keep]
  dsimp only
  by_cases hwide : width < (BinaryHeap.push far b.result f).length
  · rw [if_pos hwide]
    cases hpop : BinaryHeap.pop far (BinaryHeap.push far b.result f) with
    | none =>
        have hnil := congrArg List.length (BinaryHeap.pop_eq_none hpop)
        rw [List.length_nil] at hnil
        omega
    | some popped =>
        rcases popped with ⟨out, rest⟩
        rcases BinaryHeap.pop_spec hordered hpop with ⟨hrest, hparts⟩
        refine ⟨hrest, Or.inr ⟨by omega, out, hparts.symm.trans hperm, ?_⟩⟩
        intro r hr
        have hle : far out ≤ far r := BinaryHeap.pop_le hordered hpop (hperm.mem_iff.mpr hr)
        exact hle
  · rw [if_neg hwide]
    exact ⟨hordered, Or.inl ⟨by omega, hperm⟩⟩

section

variable {result kept : List (Found ι δ)}

omit [DecidableEq ι] in
theorem Kept.mem (h : Kept width f result kept) {r : Found ι δ} (hr : r ∈ kept) :
    r = f ∨ r ∈ result := by
  rcases h with ⟨-, hperm⟩ | ⟨-, out, hperm, -⟩
  · exact List.mem_cons.mp (hperm.mem_iff.mp hr)
  · exact List.mem_cons.mp (hperm.mem_iff.mp (List.mem_cons_of_mem _ hr))

omit [DecidableEq ι] in
theorem Kept.nodup (h : Kept width f result kept) (hnodup : ((f :: result).map Found.id).Nodup) :
    (kept.map Found.id).Nodup := by
  rcases h with ⟨-, hperm⟩ | ⟨-, out, hperm, -⟩
  · exact (hperm.map Found.id).nodup_iff.mpr hnodup
  · exact (List.nodup_cons.mp ((hperm.map Found.id).nodup_iff.mpr hnodup)).2

omit [DecidableEq ι] in
theorem Kept.length_le (h : Kept width f result kept) (hlength : result.length ≤ width) :
    kept.length ≤ width := by
  rcases h with ⟨hroom, hperm⟩ | ⟨-, out, hperm, -⟩
  · rw [hperm.length_eq]
    exact hroom
  · have hsame := hperm.length_eq
    rw [List.length_cons, List.length_cons] at hsame
    omega

omit [DecidableEq ι] in
/-- The new node and all that was kept stay, or are no better than what stays. -/
theorem Kept.covered (h : Kept width f result kept) {r : Found ι δ} (hr : r ∈ f :: result) :
    Covered width kept r := by
  rcases h with ⟨-, hperm⟩ | ⟨hfull, out, hperm, hout⟩
  · exact Or.inl (hperm.mem_iff.mpr hr)
  · rcases List.mem_cons.mp (hperm.mem_iff.mpr hr) with rfl | hkept
    · have hsame := hperm.length_eq
      rw [List.length_cons, List.length_cons] at hsame
      refine Or.inr ⟨by omega, fun r' hr' => ?_⟩
      exact hout r' (hperm.mem_iff.mp (List.mem_cons_of_mem _ hr'))
    · exact Or.inl hkept

omit [DecidableEq ι] in
/-- What was covered stays so when a better node is kept. -/
theorem Covered.keep (h : Kept width f result kept)
    (hbetter : result.length < width ∨ ∃ r ∈ result, f.dist < r.dist) {r : Found ι δ}
    (hr : Covered width result r) : Covered width kept r := by
  rcases hr with hmem | ⟨hfull, hle⟩
  · exact h.covered (List.mem_cons_of_mem _ hmem)
  · rcases hbetter with hroom | ⟨top, htop, hlt⟩
    · exact absurd hfull (Nat.not_le.mpr hroom)
    · have hlength : width ≤ kept.length := by
        rcases h with ⟨hroom, -⟩ | ⟨-, out, hperm, -⟩
        · exact absurd hfull (Nat.not_le.mpr hroom)
        · have hsame := hperm.length_eq
          rw [List.length_cons, List.length_cons] at hsame
          omega
      refine Or.inr ⟨hlength, fun r' hr' => ?_⟩
      rcases h.mem hr' with rfl | hold
      · exact hlt.le.trans (hle top htop)
      · exact hle r' hold

end

/-! ### Looking at a node -/

omit [DecidableEq ι] in
theorem Sound.of_visited (h : Sound next score width entries b) {id : ι}
    (hid : ∀ d, score id = some d → Covered width b.result ⟨id, d⟩) :
    Sound next score width entries { b with visited := id :: b.visited } where
  candidates := h.candidates
  result := h.result
  seen := fun f hf =>
    ⟨(h.seen f hf).1, List.mem_cons_of_mem _ (h.seen f hf).2.1, (h.seen f hf).2.2⟩
  nodup := h.nodup
  length := h.length
  covered := by
    intro id' hid' d hscore
    rcases List.mem_cons.mp hid' with rfl | hold
    · exact hid d hscore
    · exact h.covered id' hold d hscore

omit [DecidableEq ι] in
/-- A node that has not been seen is kept. -/
theorem Sound.keep (h : Sound next score width entries b) {id : ι} {d : δ}
    (hnew : id ∉ b.visited) (hscore : score id = some d) (hreach : Reach next score entries id)
    (hbetter : b.result.length < width ∨ ∃ r ∈ b.result, d < r.dist) :
    Sound next score width entries
      (BeamSearch.keep width { b with visited := id :: b.visited } ⟨id, d⟩) := by
  set b' : Beam ι δ := { b with visited := id :: b.visited } with hb'
  set f : Found ι δ := ⟨id, d⟩ with hf
  have hcandidates : (BeamSearch.keep width b' f).candidates =
      BinaryHeap.push Found.dist b.candidates f := rfl
  have hpush := BinaryHeap.push_perm h.candidates f
  rcases keep_result (b := b') width h.result f with ⟨hordered, hkept⟩
  have hseen : ∀ r, r = f ∨ r ∈ b.candidates ∨ r ∈ b.result →
      score r.id = some r.dist ∧ r.id ∈ id :: b.visited ∧ Reach next score entries r.id := by
    rintro r (rfl | hold)
    · exact ⟨hscore, List.mem_cons_self, hreach⟩
    · exact ⟨(h.seen r hold).1, List.mem_cons_of_mem _ (h.seen r hold).2.1, (h.seen r hold).2.2⟩
  have hnodup : ((f :: b.result).map Found.id).Nodup := by
    rw [List.map_cons, List.nodup_cons]
    refine ⟨?_, h.nodup⟩
    intro hmem
    rcases List.mem_map.mp hmem with ⟨r, hr, heq⟩
    have hid : r.id = id := heq
    exact hnew (hid ▸ (h.seen r (Or.inr hr)).2.1)
  refine ⟨hcandidates ▸ BinaryHeap.push_ordered h.candidates f, hordered, ?_,
    hkept.nodup hnodup, hkept.length_le h.length, ?_⟩
  · rintro r (hr | hr)
    · rw [hcandidates] at hr
      exact hseen r ((List.mem_cons.mp (hpush.mem_iff.mp hr)).imp_right Or.inl)
    · exact hseen r ((hkept.mem hr).imp_right Or.inr)
  · intro id' hid' d' hscore'
    rcases List.mem_cons.mp hid' with rfl | hold
    · rw [hscore] at hscore'
      cases hscore'
      exact hkept.covered List.mem_cons_self
    · exact (h.covered id' hold d' hscore').keep hkept hbetter

theorem Sound.visit (h : Sound next score width entries b) {id : ι}
    (hreach : ∀ d, score id = some d → Reach next score entries id) :
    Sound next score width entries (BeamSearch.visit score width b id) := by
  rw [BeamSearch.visit]
  by_cases hnew : id ∈ b.visited
  · rw [if_pos hnew]
    exact h
  · rw [if_neg hnew]
    dsimp only
    cases hscore : score id with
    | none =>
        refine h.of_visited fun d hd => ?_
        rw [hscore] at hd
        cases hd
    | some d =>
        dsimp only
        split_ifs with hbetter
        · refine h.keep hnew hscore (hreach d hscore) (hbetter.imp_right fun hany => ?_)
          rcases exists_worst hany with ⟨w, hw, hlt⟩
          rcases Option.map_eq_some_iff.mp hw with ⟨top, htop, rfl⟩
          exact ⟨top, List.mem_of_mem_head? htop, of_decide_eq_true hlt⟩
        · -- all that is kept is as good
          rcases not_or.mp hbetter with ⟨hfull, hworse⟩
          refine h.of_visited fun d' hd' => Or.inr ⟨Nat.not_lt.mp hfull, fun r hr => ?_⟩
          rw [hscore] at hd'
          cases hd'
          cases hworst : worst b with
          | none =>
              rw [worst, Option.map_eq_none_iff, List.head?_eq_none_iff] at hworst
              rw [hworst] at hr
              cases hr
          | some w =>
              have hsame : worst { b with visited := id :: b.visited } = some w := hworst
              rw [hsame, Option.any_some, decide_eq_true_eq, not_lt] at hworse
              exact (le_worst h.result hworst r hr).trans hworse

theorem visit_visited (score : ι → Option δ) (width : ℕ) (b : Beam ι δ) (id : ι) :
    (∀ n ∈ b.visited, n ∈ (visit score width b id).visited) ∧
      id ∈ (visit score width b id).visited := by
  rw [visit]
  split_ifs with hnew
  · exact ⟨fun _ hn => hn, hnew⟩
  · dsimp only
    have hboth : (∀ n ∈ b.visited, n ∈ id :: b.visited) ∧ id ∈ id :: b.visited :=
      ⟨fun _ hn => List.mem_cons_of_mem _ hn, List.mem_cons_self⟩
    cases score id with
    | none => exact hboth
    | some d =>
        dsimp only
        split_ifs <;> exact hboth

/-- Looking at a node takes nothing from what is expanded. -/
theorem Expanded.visit {exempt : ι → Prop} (h : Sound next score width entries b)
    (hexpanded : Expanded next exempt b) (id : ι) :
    Expanded next exempt (BeamSearch.visit score width b id) := by
  have hgrows := (visit_visited score width b id).1
  intro f hf
  have hold : f ∈ b.result → f ∈ b.candidates ∨ exempt f.id ∨
      ∀ n ∈ next f.id, n ∈ (BeamSearch.visit score width b id).visited := by
    intro hmem
    exact (hexpanded f hmem).imp_right (Or.imp_right fun hall n hn => hgrows n (hall n hn))
  revert hf hold
  rw [BeamSearch.visit]
  split_ifs with hnew
  · exact fun hf hold => hold hf
  · dsimp only
    cases score id with
    | none => exact fun hf hold => hold hf
    | some d =>
        dsimp only
        split_ifs
        · intro hf hold
          set b' : Beam ι δ := { b with visited := id :: b.visited } with hb'
          have hpush := BinaryHeap.push_perm h.candidates (⟨id, d⟩ : Found ι δ)
          rcases (keep_result (b := b') width h.result ⟨id, d⟩).2.mem hf with rfl | hmem
          · exact Or.inl (hpush.mem_iff.mpr List.mem_cons_self)
          · exact (hold hmem).imp_left fun hc => hpush.mem_iff.mpr (List.mem_cons_of_mem _ hc)
        · exact fun hf hold => hold hf

/-- All neighbours of a node are looked at. -/
theorem foldl_visit {exempt : ι → Prop} {ids : List ι} (h : Sound next score width entries b)
    (hexpanded : Expanded next exempt b)
    (hreach : ∀ id ∈ ids, ∀ d, score id = some d → Reach next score entries id) :
    Sound next score width entries (ids.foldl (visit score width) b) ∧
      Expanded next exempt (ids.foldl (visit score width) b) ∧
      (∀ n ∈ b.visited, n ∈ (ids.foldl (visit score width) b).visited) ∧
      ∀ id ∈ ids, id ∈ (ids.foldl (visit score width) b).visited := by
  induction ids generalizing b with
  | nil => exact ⟨h, hexpanded, fun _ hn => hn, by simp⟩
  | cons id ids ih =>
      rw [List.foldl_cons]
      rcases visit_visited score width b id with ⟨hgrows, hself⟩
      rcases ih (h.visit (hreach id List.mem_cons_self)) (hexpanded.visit h id)
        (fun id' hid' => hreach id' (List.mem_cons_of_mem _ hid')) with
        ⟨hsound, hmore, hkeeps, hall⟩
      refine ⟨hsound, hmore, fun n hn => hkeeps n (hgrows n hn), ?_⟩
      intro id' hid'
      rcases List.mem_cons.mp hid' with rfl | hid'
      · exact hkeeps _ hself
      · exact hall id' hid'

/-! ### The loop -/

/-- What the loop can still do: its candidates, and the nodes that it has not seen. -/
def budget (nodes : List ι) (b : Beam ι δ) : ℕ :=
  b.candidates.length + (nodes.filter fun n => decide (n ∉ b.visited)).length

theorem budget_visit {nodes : List ι} (h : Sound next score width entries b) {id : ι}
    (hid : id ∈ nodes) : budget nodes (visit score width b id) ≤ budget nodes b := by
  rw [visit]
  by_cases hnew : id ∈ b.visited
  · rw [if_pos hnew]
  · rw [if_neg hnew]
    have hfewer : (nodes.filter fun n => decide (n ∉ id :: b.visited)).length <
        (nodes.filter fun n => decide (n ∉ b.visited)).length := by
      have hsame : (nodes.filter fun n => decide (n ∉ id :: b.visited)) =
          (nodes.filter fun n => decide (n ∉ b.visited)).filter fun n => decide (n ≠ id) := by
        rw [List.filter_filter]
        refine List.filter_congr fun n _ => ?_
        simp only [List.mem_cons, not_or, Bool.decide_and, ne_eq]
      rw [hsame]
      refine List.length_filter_lt_length_iff_exists.mpr ⟨id, ?_, by simp⟩
      exact List.mem_filter.mpr ⟨hid, by simpa using hnew⟩
    dsimp only
    cases score id with
    | none => exact Nat.add_le_add_left hfewer.le _
    | some d =>
        dsimp only
        split_ifs
        · have hlength := (BinaryHeap.push_perm h.candidates (⟨id, d⟩ : Found ι δ)).length_eq
          rw [List.length_cons] at hlength
          change (BinaryHeap.push Found.dist b.candidates ⟨id, d⟩).length +
            (nodes.filter fun n => decide (n ∉ id :: b.visited)).length ≤ _
          rw [hlength, budget]
          omega
        · exact Nat.add_le_add_left hfewer.le _

theorem budget_foldl_visit {nodes ids : List ι} (h : Sound next score width entries b)
    (hids : ∀ id ∈ ids, id ∈ nodes)
    (hreach : ∀ id ∈ ids, ∀ d, score id = some d → Reach next score entries id) :
    budget nodes (ids.foldl (visit score width) b) ≤ budget nodes b := by
  induction ids generalizing b with
  | nil => exact le_rfl
  | cons id ids ih =>
      rw [List.foldl_cons]
      exact (ih (h.visit (hreach id List.mem_cons_self))
        (fun id' hid' => hids id' (List.mem_cons_of_mem _ hid'))
        (fun id' hid' => hreach id' (List.mem_cons_of_mem _ hid'))).trans
          (budget_visit h (hids id List.mem_cons_self))

/-- The loop comes to its end: all neighbours of what is kept have been seen. -/
theorem loop_spec {nodes : List ι} (hnodes : ∀ id, ∀ n ∈ next id, n ∈ nodes)
    (h : Sound next score width entries b) (hexpanded : Expanded next (fun _ => False) b)
    {fuel : ℕ} (hfuel : budget nodes b < fuel) :
    Sound next score width entries (loop next score width fuel b) ∧
      (∀ n ∈ b.visited, n ∈ (loop next score width fuel b).visited) ∧
      ∀ f ∈ (loop next score width fuel b).result, ∀ n ∈ next f.id,
        n ∈ (loop next score width fuel b).visited := by
  induction fuel generalizing b with
  | zero => exact absurd hfuel (Nat.not_lt_zero _)
  | succ fuel ih =>
      rw [loop]
      cases hpop : BinaryHeap.pop Found.dist b.candidates with
      | none =>
          refine ⟨h, fun _ hn => hn, ?_⟩
          intro f hf
          rcases hexpanded f hf with hc | hfalse | hall
          · rw [BinaryHeap.pop_eq_none hpop] at hc
            cases hc
          · exact hfalse.elim
          · exact hall
      | some popped =>
          rcases popped with ⟨current, rest⟩
          rcases BinaryHeap.pop_spec h.candidates hpop with ⟨hordered, hperm⟩
          have hcurrent : current ∈ b.candidates := hperm.mem_iff.mpr List.mem_cons_self
          have hrest : ∀ f ∈ rest, f ∈ b.candidates := fun f hf =>
            hperm.mem_iff.mpr (List.mem_cons_of_mem _ hf)
          have hpopped : Sound next score width entries { b with candidates := rest } :=
            ⟨hordered, h.result, fun f hf => h.seen f (hf.imp_left (hrest f)), h.nodup, h.length,
              h.covered⟩
          dsimp only
          by_cases hstop : width ≤ b.result.length ∧
              (worst { b with candidates := rest }).any (fun w => decide (w < current.dist)) = true
          · rw [if_pos hstop]
            refine ⟨hpopped, fun _ hn => hn, ?_⟩
            intro f hf
            rcases hexpanded f hf with hc | hfalse | hall
            · -- a candidate is not better than the one that ends the loop
              rcases exists_worst hstop.2 with ⟨w, hw, hlt⟩
              have hle := le_worst h.result hw f hf
              have hleast : current.dist ≤ f.dist := BinaryHeap.pop_le h.candidates hpop hc
              exact absurd (hleast.trans hle) (not_le.mpr (of_decide_eq_true hlt))
            · exact hfalse.elim
            · exact hall
          · rw [if_neg hstop]
            have hreach : ∀ n ∈ next current.id, ∀ d, score n = some d →
                Reach next score entries n := fun n hn d hd =>
              .step (h.seen current (Or.inl hcurrent)).2.2 hn hd
            -- the popped node is no candidate any more, and its neighbours are still to be seen
            have hexempt : Expanded next (· = current.id) { b with candidates := rest } := by
              intro f hf
              rcases hexpanded f hf with hc | hfalse | hall
              · rcases List.mem_cons.mp (hperm.mem_iff.mp hc) with rfl | hc
                · exact Or.inr (Or.inl rfl)
                · exact Or.inl hc
              · exact hfalse.elim
              · exact Or.inr (Or.inr hall)
            rcases foldl_visit hpopped hexempt hreach with ⟨hsound, hmore, hkeeps, hall⟩
            have hclosed : Expanded next (fun _ => False)
                ((next current.id).foldl (visit score width) { b with candidates := rest }) := by
              intro f hf
              rcases hmore f hf with hc | heq | hdone
              · exact Or.inl hc
              · exact Or.inr (Or.inr (heq ▸ hall))
              · exact Or.inr (Or.inr hdone)
            have hbudget := budget_foldl_visit hpopped (hnodes current.id) hreach
            -- looking at nodes costs no more than they were worth, and one candidate is gone
            have hless : budget nodes { b with candidates := rest } < budget nodes b := by
              rw [budget, budget, hperm.length_eq, List.length_cons]
              dsimp only
              omega
            rcases ih hsound hclosed (by omega) with ⟨hlast, hstays, hend⟩
            exact ⟨hlast, fun n hn => hstays n (hkeeps n hn), hend⟩

/-! ### The start -/

/-- Entries that a search can start from: no more than the beam is wide, and with their scores. -/
structure Entries (score : ι → Option δ) (width : ℕ) (entries : List (Found ι δ)) : Prop where
  nodup : (entries.map Found.id).Nodup
  scored : ∀ f ∈ entries, score f.id = some f.dist
  length : entries.length ≤ width

omit [DecidableEq ι] in
theorem start_parts (ids : List ι) (fs : List (Found ι δ)) {b : Beam ι δ}
    (hcandidates : BinaryHeap.Ordered Found.dist b.candidates)
    (hresult : BinaryHeap.Ordered far b.result) (hids : b.visited = ids) :
    let s := fs.foldl enter b
    BinaryHeap.Ordered Found.dist s.candidates ∧ BinaryHeap.Ordered far s.result ∧
      s.visited = ids ∧ s.candidates.Perm (fs ++ b.candidates) ∧
      s.result.Perm (fs ++ b.result) := by
  induction fs generalizing b with
  | nil => exact ⟨hcandidates, hresult, hids, .refl _, .refl _⟩
  | cons f fs ih =>
      rcases ih (b := enter b f) (BinaryHeap.push_ordered hcandidates f)
        (BinaryHeap.push_ordered hresult f) hids with ⟨hc, hr, hv, hpc, hpr⟩
      refine ⟨hc, hr, hv, hpc.trans ?_, hpr.trans ?_⟩
      · exact ((BinaryHeap.push_perm hcandidates f).append_left fs).trans List.perm_middle
      · exact ((BinaryHeap.push_perm hresult f).append_left fs).trans List.perm_middle

omit [DecidableEq ι] in
theorem start_spec (next : ι → List ι) (h : Entries score width entries) :
    Sound next score width entries (start entries) ∧
      (start entries).candidates.Perm entries ∧ (start entries).result.Perm entries ∧
      (start entries).visited = entries.map Found.id := by
  rcases start_parts (entries.map Found.id) entries (b := ⟨entries.map Found.id, [], []⟩)
    BinaryHeap.ordered_nil BinaryHeap.ordered_nil rfl with ⟨hc, hr, hv, hpc, hpr⟩
  rw [List.append_nil] at hpc hpr
  change (start entries).candidates.Perm entries at hpc
  change (start entries).result.Perm entries at hpr
  change (start entries).visited = _ at hv
  refine ⟨⟨hc, hr, ?_, ?_, ?_, ?_⟩, hpc, hpr, hv⟩
  · intro f hf
    have hmem : f ∈ entries := hf.elim hpc.mem_iff.mp hpr.mem_iff.mp
    exact ⟨h.scored f hmem, hv ▸ List.mem_map_of_mem hmem, .entry hmem⟩
  · exact (hpr.map Found.id).nodup_iff.mpr h.nodup
  · exact hpr.length_eq.trans_le h.length
  · intro id hid d hscore
    rw [hv] at hid
    rcases List.mem_map.mp hid with ⟨f, hf, rfl⟩
    rw [h.scored f hf] at hscore
    cases hscore
    exact Or.inl (hpr.mem_iff.mpr hf)

/-! ## What is found -/

/-- What a search gives: scored nodes that can be reached, the least first, and no more than the
beam is wide.  An entry or a neighbour that is left out is no better than what is given. -/
structure Answers (next : ι → List ι) (score : ι → Option δ) (width : ℕ)
    (entries out : List (Found ι δ)) : Prop where
  nodup : (out.map Found.id).Nodup
  length : out.length ≤ width
  sorted : out.Pairwise fun a b => a.dist ≤ b.dist
  scored : ∀ f ∈ out, score f.id = some f.dist
  reached : ∀ f ∈ out, Reach next score entries f.id
  entered : ∀ f ∈ entries, Covered width out f
  neighbours : ∀ f ∈ out, ∀ n ∈ next f.id, ∀ d, score n = some d → Covered width out ⟨n, d⟩

omit [DecidableEq ι] in
theorem Covered.perm {result out : List (Found ι δ)} (hperm : out.Perm result)
    (h : Covered width result f) : Covered width out f := by
  rcases h with hmem | ⟨hfull, hle⟩
  · exact Or.inl (hperm.mem_iff.mpr hmem)
  · exact Or.inr ⟨hperm.length_eq ▸ hfull, fun r hr => hle r (hperm.mem_iff.mp hr)⟩

theorem search_spec {nodes : List ι} (hnodes : ∀ id, ∀ n ∈ next id, n ∈ nodes)
    (h : Entries score width entries) {fuel : ℕ} (hfuel : entries.length + nodes.length < fuel) :
    Answers next score width entries (search next score width fuel entries) := by
  rcases start_spec next h with ⟨hsound, hpc, hpr, hv⟩
  have hexpanded : Expanded next (fun _ => False) (start entries) := fun f hf =>
    Or.inl (hpc.mem_iff.mpr (hpr.mem_iff.mp hf))
  have hbudget : budget nodes (start entries) < fuel := by
    have hfewer := List.length_filter_le (fun n => decide (n ∉ (start entries).visited)) nodes
    rw [budget, hpc.length_eq]
    omega
  rcases loop_spec hnodes hsound hexpanded hbudget with ⟨hend, hkeeps, hlocal⟩
  rw [search]
  set result := (loop next score width fuel (start entries)).result with hresult
  rcases BinaryHeap.drain_spec le_rfl hend.result with ⟨hsorted, hdrained⟩
  have hperm := (List.reverse_perm (BinaryHeap.drain far result.length result)).trans hdrained
  refine ⟨?_, ?_, List.pairwise_reverse.mpr hsorted, ?_, ?_, ?_, ?_⟩
  · exact (hperm.map Found.id).nodup_iff.mpr hend.nodup
  · exact hperm.length_eq.trans_le hend.length
  · exact fun f hf => (hend.seen f (Or.inr (hperm.mem_iff.mp hf))).1
  · exact fun f hf => (hend.seen f (Or.inr (hperm.mem_iff.mp hf))).2.2
  · intro f hf
    refine (hend.covered f.id (hkeeps _ ?_) f.dist (h.scored f hf)).perm hperm
    rw [hv]
    exact List.mem_map_of_mem hf
  · intro f hf n hn d hscore
    exact (hend.covered n (hlocal f (hperm.mem_iff.mp hf) n hn) d hscore).perm hperm

omit [DecidableEq ι] in
/-- A search with room left has found all that can be reached from what it has found. -/
theorem Answers.complete {out : List (Found ι δ)} (h : Answers next score width entries out)
    (hroom : out.length < width) {id : ι} (hreach : Reach next score out id) :
    id ∈ out.map Found.id := by
  -- with room left, what is covered has been found
  induction hreach with
  | entry hf => exact List.mem_map_of_mem hf
  | step ha hb hscore ih =>
      rcases List.mem_map.mp ih with ⟨f, hf, rfl⟩
      rcases h.neighbours f hf _ hb _ hscore with hmem | ⟨hfull, -⟩
      · exact List.mem_map_of_mem hmem
      · exact absurd hfull (Nat.not_le.mpr hroom)

omit [DecidableEq ι] in
theorem Answers.ne_nil {out : List (Found ι δ)} (h : Answers next score width entries out)
    (hentries : entries ≠ []) (hwidth : 0 < width) : out ≠ [] := by
  rcases List.exists_mem_of_ne_nil entries hentries with ⟨f, hf⟩
  rcases h.entered f hf with hmem | ⟨hfull, -⟩
  · exact List.ne_nil_of_mem hmem
  · exact List.ne_nil_of_length_pos (hwidth.trans_le hfull)

omit [DecidableEq ι] [LinearOrder δ] in
/-- The entries of a search in a wider beam. -/
theorem Entries.mono {wider : ℕ} (h : Entries score width entries) (hwidth : width ≤ wider) :
    Entries score wider entries :=
  ⟨h.nodup, h.scored, h.length.trans hwidth⟩

omit [DecidableEq ι] in
/-- A search can go on from what another has found. -/
theorem Answers.asEntries {out : List (Found ι δ)} (h : Answers next score width entries out) :
    Entries score width out :=
  ⟨h.nodup, h.scored, h.length⟩

omit [DecidableEq ι] [LinearOrder δ] in
theorem Entries.take {few : ℕ} (h : Entries score width entries) :
    Entries score few (entries.take few) where
  nodup := h.nodup.sublist ((List.take_sublist few entries).map Found.id)
  scored := fun f hf => h.scored f (List.mem_of_mem_take hf)
  length := by
    rw [List.length_take]
    exact Nat.min_le_left few entries.length

omit [DecidableEq ι] in
theorem Covered.take {few : ℕ} {out : List (Found ι δ)} (hfew : few ≤ width)
    (hsorted : out.Pairwise fun a b => a.dist ≤ b.dist) (h : Covered width out f) :
    Covered few (out.take few) f := by
  rcases h with hmem | ⟨hfull, hle⟩
  · rw [← List.take_append_drop few out, List.mem_append] at hmem
    rcases hmem with hfirst | hlater
    · exact Or.inl hfirst
    · -- it comes after all that are taken
      have hlong := List.length_pos_of_mem hlater
      rw [List.length_drop] at hlong
      rw [← List.take_append_drop few out] at hsorted
      refine Or.inr ⟨?_, fun r hr => (List.pairwise_append.mp hsorted).2.2 r hr f hlater⟩
      rw [List.length_take]
      omega
  · refine Or.inr ⟨?_, fun r hr => hle r (List.mem_of_mem_take hr)⟩
    rw [List.length_take]
    omega

omit [DecidableEq ι] in
/-- The first few answers are the answers of a narrower beam. -/
theorem Answers.take {few : ℕ} {out : List (Found ι δ)} (hfew : few ≤ width)
    (h : Answers next score width entries out) :
    Answers next score few entries (out.take few) where
  nodup := h.asEntries.take.nodup
  length := h.asEntries.take.length
  sorted := h.sorted.sublist (List.take_sublist few out)
  scored := h.asEntries.take.scored
  reached := fun f hf => h.reached f (List.mem_of_mem_take hf)
  entered := fun f hf => (h.entered f hf).take hfew h.sorted
  neighbours := fun f hf n hn d hscore =>
    (h.neighbours f (List.mem_of_mem_take hf) n hn d hscore).take hfew h.sorted

end BeamSearch
end ObjyDb
