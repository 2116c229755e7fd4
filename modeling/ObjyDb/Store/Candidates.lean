import ObjyDb.Store.ValueDirectory

/-!
# Candidates — the limits of the candidate maps

`candidateCount` is kept apart from the candidate maps, and the limits are compared with it.  We
show that it never leaves their total size, and that no step of the directory passes a limit.

* `Counted` — the count is the total, and every limit is kept;
* `Keeps` — what a step does that touches candidates only;
* `keeps_shouldPromote`, `keeps_deleteCandidate` — the steps of `store`.
-/

namespace ObjyDb

open Js

namespace ValueDirectory

/-! ## The total of the candidate maps -/

/-- The count is the total of the candidate maps, and every limit is kept. -/
structure Counted (d : ValueDirectory) : Prop where
  paths : (Assoc.keys d.pathCandidates).Nodup
  names : ∀ entry ∈ d.pathCandidates, (Assoc.keys entry.2).Nodup
  total : d.candidateCount = candidateTotal d.pathCandidates
  within : d.candidateCount ≤ d.config.maxCandidates
  withinPath : ∀ entry ∈ d.pathCandidates, entry.2.length ≤ d.config.maxCandidatesPerPath
  withinPaths : d.pathCandidates.length ≤ d.config.maxPaths

theorem counted_new (config : ValueDirectoryConfig) : (new config).Counted where
  paths := List.nodup_nil
  names := fun _ h => absurd h List.not_mem_nil
  total := rfl
  within := Int.natCast_nonneg _
  withinPath := fun _ h => absurd h List.not_mem_nil
  withinPaths := Nat.zero_le _

/-- Replacing the candidates of one path exchanges its part of the total. -/
theorem candidateTotal_set {maps : PathCandidates} {path : JsString}
    {held : List (JsString × Nat)} (hget : Assoc.get? maps path = some held)
    (candidates : List (JsString × Nat)) :
    candidateTotal (Assoc.set maps path candidates) + held.length =
      candidateTotal maps + candidates.length := by
  induction maps with
  | nil => cases hget
  | cons entry rest ih =>
      rcases entry with ⟨name, kept⟩
      rw [Assoc.get?_cons] at hget
      by_cases hname : name = path
      · rw [if_pos hname] at hget
        cases hget
        rw [Assoc.set, if_pos hname]
        simp only [candidateTotal, List.map_cons, List.sum_cons]
        omega
      · rw [if_neg hname] at hget
        have hrest := ih hget
        rw [Assoc.set, if_neg hname]
        simp only [candidateTotal, List.map_cons, List.sum_cons] at hrest ⊢
        omega

theorem candidateTotal_set_new {maps : PathCandidates} {path : JsString}
    (hget : Assoc.get? maps path = none) :
    candidateTotal (Assoc.set maps path []) = candidateTotal maps := by
  rw [Assoc.set_of_notMem _ (Assoc.get?_eq_none_iff.mp hget)]
  simp [candidateTotal]

theorem length_le_total {maps : PathCandidates} {path : JsString} {held : List (JsString × Nat)}
    (hget : Assoc.get? maps path = some held) : held.length ≤ candidateTotal maps := by
  have hset := candidateTotal_set hget []
  simp only [List.length_nil] at hset
  omega

theorem length_set_of_get? {α : Type} {entries : List (JsString × α)} {key : JsString} {held : α}
    (hget : Assoc.get? entries key = some held) (value : α) :
    (Assoc.set entries key value).length = entries.length := by
  have hmem : key ∈ Assoc.keys entries := Assoc.get?_isSome_iff.mp (by rw [hget]; rfl)
  have hkeys := Assoc.keys_set entries key value
  rw [if_pos hmem] at hkeys
  calc (Assoc.set entries key value).length
      = (Assoc.keys (Assoc.set entries key value)).length := by rw [Assoc.keys, List.length_map]
    _ = (Assoc.keys entries).length := by rw [hkeys]
    _ = entries.length := by rw [Assoc.keys, List.length_map]

theorem length_set_of_none {α : Type} {entries : List (JsString × α)} {key : JsString}
    (hget : Assoc.get? entries key = none) (value : α) :
    (Assoc.set entries key value).length = entries.length + 1 := by
  rw [Assoc.set_of_notMem _ (Assoc.get?_eq_none_iff.mp hget), List.length_append]
  rfl

theorem length_erase {α : Type} {entries : List (JsString × α)}
    (hnodup : (Assoc.keys entries).Nodup) {key : JsString} {held : α}
    (hget : Assoc.get? entries key = some held) :
    (Assoc.erase entries key).length + 1 = entries.length :=
  (Assoc.perm_cons_erase hnodup (Assoc.mem_of_get?_eq_some hget)).length_eq.symm

/-! ## Steps that touch candidates only -/

/-- The configuration and the pool stay, and the candidates stay counted. -/
structure Keeps (d d' : ValueDirectory) : Prop where
  config : d'.config = d.config
  pool : d'.pool = d.pool
  counted : d.Counted → d'.Counted

theorem Keeps.refl (d : ValueDirectory) : d.Keeps d :=
  ⟨rfl, rfl, id⟩

theorem Keeps.trans {d d' d'' : ValueDirectory} (h : d.Keeps d') (h' : d'.Keeps d'') :
    d.Keeps d'' :=
  ⟨h'.config.trans h.config, h'.pool.trans h.pool, fun hd => h'.counted (h.counted hd)⟩

theorem candidatesAt_of_get? {d : ValueDirectory} {path : JsString}
    {held : List (JsString × Nat)} (hget : Assoc.get? d.pathCandidates path = some held) :
    d.candidatesAt path = held := by
  rw [candidatesAt, hget, Option.getD_some]

/-- The candidates of a known path are replaced, and the count follows their number. -/
theorem keeps_setCandidates {d : ValueDirectory} {path : JsString}
    {held : List (JsString × Nat)} (hget : Assoc.get? d.pathCandidates path = some held)
    {candidates : List (JsString × Nat)} {count : Int}
    (hnames : (Assoc.keys held).Nodup → (Assoc.keys candidates).Nodup)
    (hcount : count + held.length = d.candidateCount + candidates.length)
    (hwithin : count ≤ d.candidateCount ∨ count ≤ d.config.maxCandidates)
    (hwithinPath : candidates.length ≤ held.length ∨
      candidates.length ≤ d.config.maxCandidatesPerPath) :
    d.Keeps (d.setCandidates path candidates count) where
  config := rfl
  pool := rfl
  counted := by
    intro h
    have hheld := Assoc.mem_of_get?_eq_some hget
    have htotal := candidateTotal_set hget candidates
    have hsum := h.total
    -- an entry of the new maps is the replaced one or an old one
    have hcases : ∀ entry ∈ Assoc.set d.pathCandidates path candidates,
        entry.2 = candidates ∨ entry ∈ d.pathCandidates := by
      rintro ⟨name, kept⟩ hmem
      rcases (Assoc.mem_set_iff h.paths).mp hmem with ⟨-, heq⟩ | ⟨-, hold⟩
      · exact Or.inl heq
      · exact Or.inr hold
    refine ⟨Assoc.nodup_keys_set path candidates h.paths, ?_, ?_, ?_, ?_, ?_⟩
    · intro entry hentry
      rcases hcases entry hentry with heq | hold
      · rw [heq]
        exact hnames (h.names _ hheld)
      · exact h.names entry hold
    · simp only [setCandidates]
      omega
    · have hold := h.within
      simp only [setCandidates]
      omega
    · intro entry hentry
      rcases hcases entry hentry with heq | hold
      · have hpath := h.withinPath _ hheld
        rw [heq]
        simp only [setCandidates]
        dsimp only at hpath
        omega
      · exact h.withinPath entry hold
    · simp only [setCandidates]
      rw [length_set_of_get? hget]
      exact h.withinPaths

theorem keeps_candidatesForPath (d : ValueDirectory) (path : JsString) :
    d.Keeps (d.candidatesForPath path).1 := by
  unfold candidatesForPath
  split_ifs with hknown hfull
  · exact .refl d
  · exact .refl d
  · have hnone : Assoc.get? d.pathCandidates path = none := by
      simpa [Option.not_isSome_iff_eq_none] using hknown
    refine ⟨rfl, rfl, fun h => ?_⟩
    have hcases : ∀ entry ∈ Assoc.set d.pathCandidates path [],
        entry.2 = [] ∨ entry ∈ d.pathCandidates := by
      intro entry hmem
      rw [Assoc.set_of_notMem _ (Assoc.get?_eq_none_iff.mp hnone)] at hmem
      rcases List.mem_append.mp hmem with hold | hnew
      · exact Or.inr hold
      · rw [List.mem_singleton.mp hnew]
        exact Or.inl rfl
    refine ⟨Assoc.nodup_keys_set path [] h.paths, ?_, ?_, h.within, ?_, ?_⟩
    · intro entry hentry
      rcases hcases entry hentry with heq | hold
      · rw [heq]
        exact List.nodup_nil
      · exact h.names entry hold
    · dsimp only
      rw [candidateTotal_set_new hnone]
      exact h.total
    · intro entry hentry
      rcases hcases entry hentry with heq | hold
      · rw [heq]
        exact Nat.zero_le _
      · exact h.withinPath entry hold
    · dsimp only
      rw [length_set_of_none hnone]
      omega

/-- After `candidatesForPath` found candidates, the path has a map. -/
theorem get?_candidatesForPath {d : ValueDirectory} {path : JsString}
    (h : (d.candidatesForPath path).2 = true) :
    ∃ held, Assoc.get? (d.candidatesForPath path).1.pathCandidates path = some held := by
  unfold candidatesForPath at h ⊢
  split_ifs at h ⊢ with hknown hfull
  · exact Option.isSome_iff_exists.mp hknown
  · refine ⟨[], ?_⟩
    dsimp only
    rw [Assoc.get?_set, if_pos rfl]

/-- Dropping keeps every path, with its candidates or all but the oldest. -/
theorem dropOldest_spec {maps maps' : PathCandidates} (h : dropOldest maps = some maps') :
    Assoc.keys maps' = Assoc.keys maps ∧
      ∀ entry' ∈ maps', ∃ entry ∈ maps, entry.1 = entry'.1 ∧ entry'.2.Sublist entry.2 := by
  induction maps generalizing maps' with
  | nil => cases h
  | cons entry rest ih =>
      rcases entry with ⟨path, candidates⟩
      cases candidates with
      | nil =>
          rcases Option.map_eq_some_iff.mp h with ⟨rest', hrest, rfl⟩
          rcases ih hrest with ⟨hkeys, hentries⟩
          refine ⟨by simpa [Assoc.keys] using hkeys, fun entry' hentry' => ?_⟩
          rcases List.mem_cons.mp hentry' with rfl | hmem
          · exact ⟨_, List.mem_cons_self, rfl, List.Sublist.refl _⟩
          · rcases hentries entry' hmem with ⟨entry, hentry, hspec⟩
            exact ⟨entry, List.mem_cons_of_mem _ hentry, hspec⟩
      | cons oldest candidates =>
          cases h
          refine ⟨rfl, fun entry' hentry' => ?_⟩
          rcases List.mem_cons.mp hentry' with rfl | hmem
          · exact ⟨_, List.mem_cons_self, rfl, List.sublist_cons_self _ _⟩
          · exact ⟨entry', List.mem_cons_of_mem _ hmem, rfl, List.Sublist.refl _⟩

theorem keeps_dropOldestCandidate {d : ValueDirectory} {maps : PathCandidates}
    (hdrop : dropOldest d.pathCandidates = some maps) :
    d.Keeps { d with pathCandidates := maps, candidateCount := d.candidateCount - 1 } where
  config := rfl
  pool := rfl
  counted := by
    intro h
    rcases dropOldest_spec hdrop with ⟨hkeys, hentries⟩
    have htotal := candidateTotal_dropOldest hdrop
    have hsum := h.total
    have hwithin := h.within
    refine ⟨hkeys ▸ h.paths, ?_, ?_, ?_, ?_, ?_⟩
    · intro entry' hentry'
      rcases hentries entry' hentry' with ⟨entry, hentry, -, hsub⟩
      exact (h.names entry hentry).sublist (hsub.map Prod.fst)
    · dsimp only
      omega
    · dsimp only
      omega
    · intro entry' hentry'
      rcases hentries entry' hentry' with ⟨entry, hentry, -, hsub⟩
      exact hsub.length_le.trans (h.withinPath entry hentry)
    · have hlength := congrArg List.length hkeys
      simp only [Assoc.keys, List.length_map] at hlength
      dsimp only
      rw [hlength]
      exact h.withinPaths

theorem keeps_makeRoom (d : ValueDirectory) : d.Keeps d.makeRoom := by
  induction d using makeRoom.induct with
  | case1 d hfull maps hdrop ih =>
      rw [makeRoom, if_pos hfull]
      split
      · rename_i maps' hdrop'
        rw [hdrop] at hdrop'
        cases hdrop'
        exact (keeps_dropOldestCandidate hdrop).trans ih
      · exact .refl d
  | case2 d hfull hnone =>
      rw [makeRoom, if_pos hfull]
      split
      · rename_i maps hdrop
        rw [hnone] at hdrop
        cases hdrop
      · exact .refl d
  | case3 d hfull =>
      rw [makeRoom, if_neg hfull]
      exact .refl d

theorem get?_dropOldest {maps maps' : PathCandidates} (h : dropOldest maps = some maps')
    {path : JsString} {held : List (JsString × Nat)} (hget : Assoc.get? maps path = some held) :
    ∃ left, Assoc.get? maps' path = some left ∧ left.Sublist held := by
  induction maps generalizing maps' with
  | nil => cases h
  | cons entry rest ih =>
      rcases entry with ⟨name, candidates⟩
      rw [Assoc.get?_cons] at hget
      cases candidates with
      | nil =>
          rcases Option.map_eq_some_iff.mp h with ⟨rest', hrest, rfl⟩
          rw [Assoc.get?_cons]
          split_ifs at hget ⊢
          · cases hget
            exact ⟨[], rfl, List.Sublist.refl _⟩
          · exact ih hrest hget
      | cons oldest candidates =>
          cases h
          rw [Assoc.get?_cons]
          split_ifs at hget ⊢
          · cases hget
            exact ⟨candidates, rfl, List.sublist_cons_self _ _⟩
          · exact ⟨held, hget, List.Sublist.refl _⟩

/-- Making room keeps the paths and adds no candidate. -/
theorem get?_makeRoom {d : ValueDirectory} {path : JsString} {held : List (JsString × Nat)}
    (hget : Assoc.get? d.pathCandidates path = some held) :
    ∃ left, Assoc.get? d.makeRoom.pathCandidates path = some left ∧ left.Sublist held := by
  induction d using makeRoom.induct generalizing held with
  | case1 d hfull maps hdrop ih =>
      rw [makeRoom, if_pos hfull]
      split
      · rename_i maps' hdrop'
        rw [hdrop] at hdrop'
        cases hdrop'
        rcases get?_dropOldest hdrop hget with ⟨left, hleft, hsub⟩
        rcases ih hleft with ⟨last, hlast, hlastSub⟩
        exact ⟨last, hlast, hlastSub.trans hsub⟩
      · exact ⟨held, hget, List.Sublist.refl _⟩
  | case2 d hfull hnone =>
      rw [makeRoom, if_pos hfull]
      split
      · rename_i maps hdrop
        rw [hnone] at hdrop
        cases hdrop
      · exact ⟨held, hget, List.Sublist.refl _⟩
  | case3 d hfull =>
      rw [makeRoom, if_neg hfull]
      exact ⟨held, hget, List.Sublist.refl _⟩

/-- A full path loses its oldest candidate. -/
theorem dropOldestOf_spec {d : ValueDirectory} {path : JsString} {held : List (JsString × Nat)}
    (hget : Assoc.get? d.pathCandidates path = some held) :
    d.Keeps (d.dropOldestOf path) ∧
      ∃ left, Assoc.get? (d.dropOldestOf path).pathCandidates path = some left ∧
        left.Sublist held := by
  unfold dropOldestOf
  rw [candidatesAt_of_get? hget]
  split_ifs
  · cases held with
    | nil => exact ⟨.refl d, [], hget, List.Sublist.refl _⟩
    | cons oldest candidates =>
        refine ⟨keeps_setCandidates hget (fun hnodup => ?_) ?_ (Or.inl ?_) (Or.inl ?_),
          candidates, ?_, List.sublist_cons_self _ _⟩
        · exact (List.nodup_cons.mp hnodup).2
        · rw [List.length_cons]
          omega
        · omega
        · exact Nat.le_succ _
        · dsimp only [setCandidates]
          rw [Assoc.get?_set, if_pos rfl]
  · exact ⟨.refl d, held, hget, List.Sublist.refl _⟩

theorem get?_eq_none_of_sublist {α : Type} {entries held : List (JsString × α)} {key : JsString}
    (hsub : entries.Sublist held) (hget : Assoc.get? held key = none) :
    Assoc.get? entries key = none :=
  Assoc.get?_eq_none_iff.mpr fun hmem =>
    Assoc.get?_eq_none_iff.mp hget ((hsub.map Prod.fst).subset hmem)

theorem keeps_rememberCandidate {d : ValueDirectory} {path : JsString}
    {held : List (JsString × Nat)} (hget : Assoc.get? d.pathCandidates path = some held)
    (key : JsString) (count : Nat) : d.Keeps (d.rememberCandidate path key count) := by
  unfold rememberCandidate
  rw [candidatesAt_of_get? hget]
  dsimp only
  split_ifs with hnone hseen hfull hspace
  · exact .refl d
  · rcases Option.isSome_iff_exists.mp hseen with ⟨old, hold⟩
    have hlength := length_set_of_get? hold count
    exact keeps_setCandidates hget (Assoc.nodup_keys_set key count) (by rw [hlength])
      (Or.inl le_rfl) (Or.inl hlength.le)
  · exact keeps_makeRoom d
  · rcases get?_makeRoom hget with ⟨room, hroom, hroomSub⟩
    rcases dropOldestOf_spec hroom with ⟨hkeeps, left, hleft, hleftSub⟩
    have hboth := (keeps_makeRoom d).trans hkeeps
    refine hboth.trans ?_
    rw [candidatesAt_of_get? hleft] at hspace ⊢
    -- making room adds no candidate, so the key is still a new one
    have hnew : Assoc.get? left key = none :=
      get?_eq_none_of_sublist (hleftSub.trans hroomSub) (by simpa using hseen)
    have hlength := length_set_of_none hnew count
    refine keeps_setCandidates hleft (Assoc.nodup_keys_set key count) ?_ (Or.inr ?_) (Or.inr ?_)
    · rw [hlength]
      omega
    · rw [hboth.config]
      omega
    · rw [hboth.config]
      omega
  · rcases get?_makeRoom hget with ⟨room, hroom, -⟩
    exact (keeps_makeRoom d).trans (dropOldestOf_spec hroom).1

theorem keeps_deleteCandidate (d : ValueDirectory) (path key : JsString) :
    d.Keeps (d.deleteCandidate path key) := by
  unfold deleteCandidate
  cases hget : Assoc.get? d.pathCandidates path with
  | none => exact .refl d
  | some held =>
      dsimp only
      split_ifs with hseen
      · refine ⟨rfl, rfl, fun h => ?_⟩
        -- the names of a map are distinct, so one candidate goes
        rcases Option.isSome_iff_exists.mp hseen with ⟨count, hcount⟩
        have hnames : (Assoc.keys held).Nodup := h.names _ (Assoc.mem_of_get?_eq_some hget)
        have hlength := length_erase hnames hcount
        refine (keeps_setCandidates hget (fun hnodup => ?_) ?_ (Or.inl ?_) (Or.inl ?_)).counted h
        · rw [Assoc.keys_erase]
          exact hnodup.filter _
        · omega
        · omega
        · omega
      · exact .refl d

theorem keeps_shouldPromote (d : ValueDirectory) (path key : JsString) :
    d.Keeps (d.shouldPromote path key).1 := by
  unfold shouldPromote
  dsimp only
  split_ifs with hfull hfound hoften
  · exact .refl d
  · exact keeps_candidatesForPath d path
  · rcases get?_candidatesForPath hfound with ⟨held, hheld⟩
    exact (keeps_candidatesForPath d path).trans (keeps_rememberCandidate hheld key _)
  · exact keeps_candidatesForPath d path

/-- A value becomes pooled only while there is room in the pool. -/
theorem length_lt_of_shouldPromote {d : ValueDirectory} {path key : JsString}
    (h : (d.shouldPromote path key).2 = true) : d.pool.length < d.config.maxEntries := by
  unfold shouldPromote at h
  dsimp only at h
  split_ifs at h with hfull
  all_goals omega

end ValueDirectory
end ObjyDb
