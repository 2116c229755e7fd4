import ObjyDb.Vector.Hnsw

/-!
# HnswRuns — what a search by vector gives after any run

The graph of the index stays in order: no node has too many links, only nodes of the index are
linked, and the entry point is one of them.

* `HNSWIndex.Ok.insert`, `HNSWIndex.Ok.remove`
* `IndexedVectors.nearest_spec` — a search gives live vectors, the nearest first
-/

namespace ObjyDb

open Js

namespace HNSWIndex

variable {config : HNSWConfig} {includeId : JsString → Bool} {index before after : HNSWIndex}
  {id key n : JsString} {layer l : ℕ} {links : List JsString}

/-- The graph is in order. -/
structure Ok (config : HNSWConfig) (includeId : JsString → Bool) (index : HNSWIndex) : Prop where
  nodup : index.ids.Nodup
  layered : ∀ id links, Assoc.get? index.nodes id = some links → links ≠ []
  entry : ∀ id layer, index.entryPoint = some (id, layer) → id ∈ index.ids
  entered : index.entryPoint = none → index.nodes = []
  bounded : ∀ layer id, (index.linksOf layer id).length ≤ config.maxNeighbors layer
  included : ∀ id ∈ index.ids, includeId id = true
  linked : ∀ layer id, ∀ n ∈ index.linksOf layer id, includeId n = true

/-- Only links are different. -/
structure Relinked (config : HNSWConfig) (includeId : JsString → Bool)
    (before after : HNSWIndex) : Prop where
  ok : after.Ok config includeId
  ids : after.ids = before.ids
  entryPoint : after.entryPoint = before.entryPoint

theorem Ok.relinked (h : index.Ok config includeId) : Relinked config includeId index index :=
  ⟨h, rfl, rfl⟩

theorem Relinked.trans {last : HNSWIndex} (h : Relinked config includeId before after)
    (hlast : Relinked config includeId after last) : Relinked config includeId before last :=
  ⟨hlast.ok, hlast.ids.trans h.ids, hlast.entryPoint.trans h.entryPoint⟩

/-! ## Links -/

theorem mem_ids_iff : id ∈ index.ids ↔ (Assoc.get? index.nodes id).isSome = true :=
  Assoc.get?_isSome_iff.symm

theorem linksOf_of_get? {old : Links} (h : Assoc.get? index.nodes id = some old) :
    index.linksOf layer id = old[layer]?.getD [] := by
  rw [linksOf, h]

theorem mem_allLinks (h : n ∈ index.linksOf layer id) : n ∈ index.allLinks layer := by
  cases hget : Assoc.get? index.nodes id with
  | none =>
      rw [linksOf, hget] at h
      cases h
  | some old =>
      rw [linksOf_of_get? hget] at h
      exact List.mem_flatMap.mpr ⟨(id, old), Assoc.mem_of_get?_eq_some hget, h⟩

theorem setAt_get (old : Links) (layer : ℕ) (links : List JsString) (l : ℕ) :
    (setAt old layer links)[l]?.getD [] = if l = layer then links else old[l]?.getD [] := by
  rw [setAt, List.getElem?_set]
  by_cases hl : l = layer
  · subst hl
    have hlt : l < (old ++ List.replicate (l + 1 - old.length) ([] : List JsString)).length := by
      rw [List.length_append, List.length_replicate]
      omega
    rw [if_pos rfl, if_pos hlt, if_pos rfl, Option.getD_some]
  · rw [if_neg (Ne.symm hl), if_neg hl, List.getElem?_append]
    split_ifs with hlt
    · rfl
    · -- a hole reads as no links
      rw [List.getElem?_eq_none (Nat.not_lt.mp hlt), Option.getD_none, List.getElem?_replicate]
      split_ifs <;> rfl

theorem setAt_ne_nil (old : Links) (layer : ℕ) (links : List JsString) :
    setAt old layer links ≠ [] := by
  refine List.ne_nil_of_length_pos ?_
  rw [setAt, List.length_set, List.length_append, List.length_replicate]
  omega

theorem ids_setLinks (index : HNSWIndex) (id : JsString) (layer : ℕ) (links : List JsString) :
    (setLinks index id layer links).ids = index.ids := by
  rw [setLinks]
  cases hget : Assoc.get? index.nodes id with
  | none => rfl
  | some old =>
      have hmem : id ∈ Assoc.keys index.nodes := Assoc.get?_isSome_iff.mp (by rw [hget]; rfl)
      change Assoc.keys (Assoc.set index.nodes id _) = Assoc.keys index.nodes
      rw [Assoc.keys_set, if_pos hmem]

theorem entryPoint_setLinks (index : HNSWIndex) (id : JsString) (layer : ℕ)
    (links : List JsString) : (setLinks index id layer links).entryPoint = index.entryPoint := by
  rw [setLinks]
  cases Assoc.get? index.nodes id <;> rfl

theorem linksOf_setLinks (index : HNSWIndex) (id : JsString) (layer : ℕ) (links : List JsString)
    (l : ℕ) (n : JsString) :
    (setLinks index id layer links).linksOf l n = index.linksOf l n ∨
      l = layer ∧ (setLinks index id layer links).linksOf l n = links := by
  cases hget : Assoc.get? index.nodes id with
  | none =>
      rw [setLinks, hget]
      exact Or.inl rfl
  | some old =>
      have hread : Assoc.get? (setLinks index id layer links).nodes n =
          if id = n then some (setAt old layer links) else Assoc.get? index.nodes n := by
        rw [setLinks, hget]
        exact Assoc.get?_set index.nodes id (setAt old layer links) n
      by_cases hn : id = n
      · subst hn
        rw [if_pos rfl] at hread
        rw [linksOf_of_get? hread, linksOf_of_get? hget, setAt_get]
        split_ifs with hl
        · exact Or.inr ⟨hl, rfl⟩
        · exact Or.inl rfl
      · rw [if_neg hn] at hread
        refine Or.inl ?_
        rw [linksOf, linksOf, hread]

/-- Links that are neither too many nor to anything outside the index. -/
theorem Ok.setLinks (h : index.Ok config includeId) (id : JsString)
    (hlength : links.length ≤ config.maxNeighbors layer)
    (hlinks : ∀ n ∈ links, includeId n = true) :
    Relinked config includeId index (index.setLinks id layer links) := by
  have hids := ids_setLinks index id layer links
  refine ⟨⟨hids ▸ h.nodup, ?_, ?_, ?_, ?_, hids ▸ h.included, ?_⟩, hids,
    entryPoint_setLinks index id layer links⟩
  · intro n old hold
    rw [HNSWIndex.setLinks] at hold
    cases hget : Assoc.get? index.nodes id with
    | none =>
        rw [hget] at hold
        exact h.layered n old hold
    | some _ =>
        rw [hget] at hold
        dsimp only at hold
        rw [Assoc.get?_set] at hold
        split_ifs at hold
        · cases hold
          exact setAt_ne_nil _ _ _
        · exact h.layered n old hold
  · intro n l hentry
    rw [entryPoint_setLinks] at hentry
    rw [hids]
    exact h.entry n l hentry
  · intro hentry
    rw [entryPoint_setLinks] at hentry
    have hempty := h.entered hentry
    rw [HNSWIndex.setLinks, hempty]
    exact hempty
  · intro l n
    rcases linksOf_setLinks index id layer links l n with hsame | ⟨rfl, hset⟩
    · rw [hsame]
      exact h.bounded l n
    · rw [hset]
      exact hlength
  · intro l n
    rcases linksOf_setLinks index id layer links l n with hsame | ⟨rfl, hset⟩
    · rw [hsame]
      exact h.linked l n
    · rw [hset]
      exact hlinks

/-- Every node has the links of before, or none. -/
def LinksAmong (before after : HNSWIndex) : Prop :=
  ∀ l n, after.linksOf l n = [] ∨ after.linksOf l n = before.linksOf l n

theorem LinksAmong.bounded (h : LinksAmong before after) (hok : before.Ok config includeId)
    (l : ℕ) (n : JsString) : (after.linksOf l n).length ≤ config.maxNeighbors l := by
  rcases h l n with hnil | hsame
  · rw [hnil]
    exact Nat.zero_le _
  · rw [hsame]
    exact hok.bounded l n

theorem LinksAmong.linked (h : LinksAmong before after) (hok : before.Ok config includeId)
    (l : ℕ) (n : JsString) : ∀ m ∈ after.linksOf l n, includeId m = true := by
  intro m hm
  rcases h l n with hnil | hsame
  · rw [hnil] at hm
    cases hm
  · exact hok.linked l n m (hsame ▸ hm)

/-! ## Removing -/

theorem Ok.unlinkFrom (h : index.Ok config includeId) (id : JsString) (layer : ℕ)
    (n : JsString) : Relinked config includeId index (unlinkFrom id layer index n) := by
  rw [HNSWIndex.unlinkFrom]
  cases hget : Assoc.get? index.nodes n with
  | none => exact h.relinked
  | some old =>
      dsimp only
      cases hlayer : old[layer]? with
      | none => exact h.relinked
      | some entries =>
          have hold : index.linksOf layer n = entries := by
            rw [linksOf_of_get? hget, hlayer, Option.getD_some]
          refine h.setLinks n ?_ ?_
          · exact (List.length_filter_le _ _).trans (hold ▸ h.bounded layer n)
          · exact fun m hm => h.linked layer n m (hold ▸ List.mem_of_mem_filter hm)

theorem Ok.unlinkLayers (h : index.Ok config includeId) (id : JsString) (layer : ℕ)
    (old : Links) : Relinked config includeId index (unlinkLayers id index layer old) := by
  induction old generalizing index layer with
  | nil => exact h.relinked
  | cons entries rest ih =>
      have hfirst : Relinked config includeId index
          (entries.foldl (HNSWIndex.unlinkFrom id layer) index) :=
        List.foldlRecOn entries _ h.relinked fun _ hrel n _ =>
          hrel.trans (hrel.ok.unlinkFrom id layer n)
      exact hfirst.trans (ih hfirst.ok (layer + 1))

theorem foldl_higher_some {nodes : List (JsString × Links)} {best : Option (JsString × ℕ)}
    (h : nodes.foldl higher best = some (id, layer)) :
    best = some (id, layer) ∨ id ∈ Assoc.keys nodes := by
  induction nodes generalizing best with
  | nil => exact Or.inl h
  | cons node rest ih =>
      have hin : ∀ {i}, i ∈ Assoc.keys rest → i ∈ Assoc.keys (node :: rest) := fun hi =>
        List.mem_cons_of_mem _ hi
      rcases ih h with hbest | hmem
      · rw [higher] at hbest
        split at hbest
        · exact Or.inl hbest
        · split_ifs at hbest
          · cases hbest
            exact Or.inr List.mem_cons_self
          · exact Or.inl hbest
      · exact Or.inr (hin hmem)

theorem foldl_higher_none {nodes : List (JsString × Links)} {best : Option (JsString × ℕ)}
    (h : nodes.foldl higher best = none) : best = none ∧ ∀ node ∈ nodes, node.2 = [] := by
  induction nodes generalizing best with
  | nil => exact ⟨h, by simp⟩
  | cons node rest ih =>
      rcases ih h with ⟨hbest, hrest⟩
      rw [higher] at hbest
      split at hbest
      · next hlength =>
          refine ⟨hbest, ?_⟩
          intro m hm
          rcases List.mem_cons.mp hm with rfl | hm
          · exact List.eq_nil_of_length_eq_zero hlength
          · exact hrest m hm
      · split_ifs at hbest with hall
        subst hbest
        exact absurd rfl hall

theorem mem_ids_erase {nodes : List (JsString × Links)} :
    n ∈ Assoc.keys (Assoc.erase nodes id) ↔ n ≠ id ∧ n ∈ Assoc.keys nodes := by
  rw [← Assoc.get?_isSome_iff, ← Assoc.get?_isSome_iff, Assoc.get?_erase]
  by_cases hn : n = id
  · subst hn
    simp
  · simp [hn, Ne.symm hn]

theorem Ok.unlinkExisting (h : index.Ok config includeId) (id : JsString) (old : Links) :
    (index.unlinkExisting id old).Ok config includeId ∧
      ∀ n, n ∈ (index.unlinkExisting id old).ids ↔ n ≠ id ∧ n ∈ index.ids := by
  have hrel := h.unlinkLayers id 0 old
  set linked := HNSWIndex.unlinkLayers id index 0 old with hlinked
  have hok := hrel.ok
  have hids : ∀ n, n ∈ (index.unlinkExisting id old).ids ↔ n ≠ id ∧ n ∈ index.ids := by
    intro n
    rw [← hrel.ids]
    exact mem_ids_erase
  -- nothing but the node itself is gone
  have hget : ∀ n links, Assoc.get? (index.unlinkExisting id old).nodes n = some links →
      Assoc.get? linked.nodes n = some links := by
    intro n links hn
    change Assoc.get? (Assoc.erase linked.nodes id) n = some links at hn
    rw [Assoc.get?_erase] at hn
    split_ifs at hn
    exact hn
  have hlinks : LinksAmong linked (index.unlinkExisting id old) := by
    intro l n
    cases hn : Assoc.get? (index.unlinkExisting id old).nodes n with
    | none =>
        rw [linksOf, hn]
        exact Or.inl rfl
    | some links =>
        rw [linksOf_of_get? hn, linksOf_of_get? (hget n links hn)]
        exact Or.inr rfl
  have hentry : (index.unlinkExisting id old).entryPoint =
      if index.entryPoint.any (fun entry => decide (entry.1 = id)) then
        resetEntryPoint (index.unlinkExisting id old).nodes
      else index.entryPoint := rfl
  have hnodup : (index.unlinkExisting id old).ids.Nodup := by
    change (Assoc.keys (Assoc.erase linked.nodes id)).Nodup
    rw [Assoc.keys_erase]
    exact hok.nodup.filter _
  refine ⟨⟨hnodup, fun n links hn => hok.layered n links (hget n links hn), ?_, ?_,
    hlinks.bounded hok, fun n hn => h.included n ((hids n).mp hn).2, hlinks.linked hok⟩, hids⟩
  · intro n layer hn
    rw [hentry] at hn
    split_ifs at hn with hsame
    · rcases foldl_higher_some hn with hnone | hmem
      · cases hnone
      · exact hmem
    · rw [hn, Option.any_some, decide_eq_true_eq] at hsame
      exact (hids n).mpr ⟨hsame, h.entry n layer hn⟩
  · intro hnone
    rw [hentry] at hnone
    split_ifs at hnone
    · -- every node has a layer, so that only an empty map gives no entry point
      have hall := (foldl_higher_none hnone).2
      refine List.eq_nil_iff_forall_not_mem.mpr fun node hnode => ?_
      have hread := Assoc.get?_eq_some_of_mem hnodup hnode
      exact hok.layered node.1 node.2 (hget _ _ hread) (hall node hnode)
    · have hempty := hok.entered (hrel.entryPoint.trans hnone)
      change Assoc.erase linked.nodes id = []
      rw [hempty]
      rfl

theorem Ok.remove (h : index.Ok config includeId) (id : JsString) :
    (index.remove id).Ok config includeId ∧
      ∀ n, n ∈ (index.remove id).ids ↔ n ≠ id ∧ n ∈ index.ids := by
  rw [HNSWIndex.remove]
  cases hget : Assoc.get? index.nodes id with
  | none =>
      refine ⟨h, fun n => ⟨fun hn => ⟨?_, hn⟩, And.right⟩⟩
      rintro rfl
      rw [mem_ids_iff, hget] at hn
      cases hn
  | some old => exact h.unlinkExisting id old

/-! ## Searching -/

section

variable {V δ : Type} [LinearOrder δ]
variable {distance : V → V → δ} {getVec : JsString → Option V} {vec : V} {width : ℕ}
  {entry : List (Found JsString δ)}

/-- Nodes that a search can start from. -/
structure Seeds (distance : V → V → δ) (getVec : JsString → Option V)
    (includeId : JsString → Bool) (vec : V) (width : ℕ) (entry : List (Found JsString δ)) : Prop where
  entries : BeamSearch.Entries (scoreOf distance getVec vec) width entry
  included : ∀ f ∈ entry, includeId f.id = true

omit [LinearOrder δ] in
theorem Ok.included_of_reach (h : index.Ok config includeId) {score : JsString → Option δ}
    (hentry : ∀ f ∈ entry, includeId f.id = true)
    (hreach : BeamSearch.Reach (index.linksOf layer) score entry id) : includeId id = true := by
  cases hreach with
  | entry hf => exact hentry _ hf
  | step _ hb _ =>
      -- a link leads to a node that the index takes, even where that node has been removed
      exact h.linked layer _ _ hb

theorem Seeds.searchLayer (hseeds : Seeds distance getVec includeId vec width entry)
    (h : index.Ok config includeId) (layer : ℕ) :
    let found := searchLayer distance getVec index entry vec width layer
    BeamSearch.Answers (index.linksOf layer) (scoreOf distance getVec vec) width entry found ∧
      Seeds distance getVec includeId vec width found := by
  have hlinks : ∀ id, ∀ n ∈ index.linksOf layer id, n ∈ index.allLinks layer := fun _ _ hn =>
    mem_allLinks hn
  have hfound := BeamSearch.search_spec hlinks hseeds.entries
    (Nat.lt_succ_self (entry.length + (index.allLinks layer).length))
  exact ⟨hfound, hfound.asEntries, fun f hf =>
    h.included_of_reach hseeds.included (hfound.reached f hf)⟩

omit [LinearOrder δ] in
theorem Ok.entryFor (h : index.Ok config includeId) (vec : V) :
    Seeds distance getVec includeId vec 1 (entryFor distance getVec index vec) := by
  rw [HNSWIndex.entryFor]
  cases hentry : index.entryPoint with
  | none => exact ⟨⟨.nil, by simp, Nat.zero_le _⟩, by simp⟩
  | some top =>
      rcases top with ⟨id, maxLayer⟩
      dsimp only
      cases hscore : scoreOf distance getVec vec id with
      | none => exact ⟨⟨.nil, by simp, Nat.zero_le _⟩, by simp⟩
      | some dist =>
          refine ⟨⟨List.nodup_singleton _, ?_, le_rfl⟩, ?_⟩
          · intro f hf
            rw [List.mem_singleton.mp hf]
            exact hscore
          · intro f hf
            rw [List.mem_singleton.mp hf]
            exact h.included id (h.entry id maxLayer hentry)

theorem Seeds.descend (hseeds : Seeds distance getVec includeId vec 1 entry)
    (h : index.Ok config includeId) (lowest count : ℕ) :
    Seeds distance getVec includeId vec 1 (descend distance getVec index vec lowest count entry) ∧
      (entry ≠ [] → descend distance getVec index vec lowest count entry ≠ []) := by
  induction count generalizing entry with
  | zero => exact ⟨hseeds, id⟩
  | succ count ih =>
      rw [HNSWIndex.descend]
      split_ifs with hnone
      · exact ih hseeds
      · rcases hseeds.searchLayer h (lowest + count + 1) with ⟨-, hfound⟩
        have hfirst : Seeds distance getVec includeId vec 1 ((HNSWIndex.searchLayer distance getVec
            index entry vec 1 (lowest + count + 1)).take 1) :=
          ⟨hfound.entries.take, fun f hf => hfound.included f (List.mem_of_mem_take hf)⟩
        rcases ih hfirst with ⟨hlast, hmore⟩
        refine ⟨hlast, fun _ => hmore ?_⟩
        rw [ne_eq, List.take_eq_nil_iff]
        exact fun hor => hor.elim Nat.one_ne_zero hnone

/-! ## Choosing neighbours -/

theorem selectLoop_spec (distance : V → V → δ) (getVec : JsString → Option V)
    {P : Found JsString δ → Prop} {maxNeighbors : ℕ}
    {candidates selected discarded : List (Found JsString δ)}
    (hlength : selected.length ≤ maxNeighbors) (hcandidates : ∀ f ∈ candidates, P f)
    (hselected : ∀ f ∈ selected, P f) (hdiscarded : ∀ f ∈ discarded, P f) :
    let out := selectLoop distance getVec maxNeighbors candidates selected discarded
    out.1.length ≤ maxNeighbors ∧ (∀ f ∈ out.1, P f) ∧ ∀ f ∈ out.2, P f := by
  induction candidates generalizing selected discarded with
  | nil => exact ⟨hlength, hselected, hdiscarded⟩
  | cons candidate rest ih =>
      have hrest : ∀ f ∈ rest, P f := fun f hf => hcandidates f (List.mem_cons_of_mem _ hf)
      have hadd : ∀ fs : List (Found JsString δ), (∀ f ∈ fs, P f) → ∀ f ∈ fs ++ [candidate], P f := by
        intro fs hfs f hf
        rcases List.mem_append.mp hf with hf | hf
        · exact hfs f hf
        · rw [List.mem_singleton.mp hf]
          exact hcandidates candidate List.mem_cons_self
      rw [selectLoop]
      split_ifs with hfull
      · exact ⟨hlength, hselected, hdiscarded⟩
      · cases getVec candidate.id with
        | none => exact ih hlength hrest hselected hdiscarded
        | some candidateVec =>
            dsimp only
            split_ifs
            · exact ih hlength hrest hselected (hadd discarded hdiscarded)
            · refine ih ?_ hrest (hadd selected hselected) hdiscarded
              rw [List.length_append, List.length_singleton]
              omega

theorem selectNeighbors_spec (distance : V → V → δ) (getVec : JsString → Option V)
    (maxNeighbors : ℕ) (candidates : List (Found JsString δ)) :
    (selectNeighbors distance getVec maxNeighbors candidates).length ≤ maxNeighbors ∧
      ∀ f ∈ selectNeighbors distance getVec maxNeighbors candidates, f ∈ candidates := by
  have hnil : ∀ f ∈ ([] : List (Found JsString δ)), f ∈ candidates := by simp
  rcases selectLoop_spec distance getVec (Nat.zero_le maxNeighbors) (fun _ hf => hf) hnil hnil with
    ⟨hlength, hselected, hdiscarded⟩
  rw [selectNeighbors]
  refine ⟨?_, ?_⟩
  · rw [List.length_append, List.length_take]
    omega
  · intro f hf
    rcases List.mem_append.mp hf with hf | hf
    · exact hselected f hf
    · exact hdiscarded f (List.mem_of_mem_take hf)

theorem pruneLinks_spec (distance : V → V → δ) (getVec : JsString → Option V)
    (maxNeighbors : ℕ) (otherVec : V) (links : List JsString) :
    (pruneLinks distance getVec maxNeighbors otherVec links).length ≤ maxNeighbors ∧
      ∀ n ∈ pruneLinks distance getVec maxNeighbors otherVec links, n ∈ links := by
  rw [pruneLinks]
  set pruned := links.filterMap fun id =>
    (scoreOf distance getVec otherVec id).map fun dist => (⟨id, dist⟩ : Found JsString δ)
    with hpruned
  rcases selectNeighbors_spec distance getVec maxNeighbors
    (pruned.mergeSort fun left right => decide (left.dist ≤ right.dist)) with ⟨hlength, hmem⟩
  refine ⟨by rw [List.length_map]; exact hlength, ?_⟩
  intro n hn
  rcases List.mem_map.mp hn with ⟨f, hf, rfl⟩
  have hsorted := List.mem_mergeSort.mp (hmem f hf)
  rcases List.mem_filterMap.mp hsorted with ⟨id, hid, hscore⟩
  rcases Option.map_eq_some_iff.mp hscore with ⟨dist, -, rfl⟩
  exact hid

/-! ## Inserting -/

theorem Ok.linkBack (h : index.Ok config includeId) (hkey : includeId key = true)
    {neighbor : Found JsString δ} (hscored : (getVec neighbor.id).isSome = true) (layer : ℕ) :
    Relinked config includeId index
      (linkBack config distance getVec key layer index neighbor) := by
  rw [HNSWIndex.linkBack]
  set links := index.linksOf layer neighbor.id ++ [key] with hlinks
  have hincluded : ∀ n ∈ links, includeId n = true := by
    intro n hn
    rcases List.mem_append.mp hn with hn | hn
    · exact h.linked layer _ n hn
    · rw [List.mem_singleton.mp hn]
      exact hkey
  split_ifs with hmany
  · cases hother : getVec neighbor.id with
    | none =>
        rw [hother] at hscored
        cases hscored
    | some otherVec =>
        rcases pruneLinks_spec distance getVec (config.maxNeighbors layer) otherVec links with
          ⟨hlength, hmem⟩
        exact h.setLinks _ hlength fun n hn => hincluded n (hmem n hn)
  · exact h.setLinks _ (Nat.not_lt.mp hmany) hincluded

omit [LinearOrder δ] in
theorem isSome_of_score {f : Found JsString δ}
    (h : scoreOf distance getVec vec f.id = some f.dist) : (getVec f.id).isSome = true := by
  rcases Option.map_eq_some_iff.mp h with ⟨v, hv, -⟩
  rw [hv]
  rfl

theorem Ok.connectLayers (h : index.Ok config includeId) (hkey : includeId key = true)
    (hseeds : Seeds distance getVec includeId vec config.ef entry) (count : ℕ) :
    Relinked config includeId index
      (connectLayers config distance getVec key vec count entry index) := by
  induction count generalizing entry index with
  | zero => exact h.relinked
  | succ layer ih =>
      rw [HNSWIndex.connectLayers]
      rcases hseeds.searchLayer h layer with ⟨-, hfound⟩
      set candidates := HNSWIndex.searchLayer distance getVec index entry vec config.ef layer
      rcases selectNeighbors_spec distance getVec (config.maxNeighbors layer) candidates with
        ⟨hlength, hmem⟩
      set neighbors := selectNeighbors distance getVec (config.maxNeighbors layer) candidates
      have hown : Relinked config includeId index
          (index.setLinks key layer (neighbors.map Found.id)) := by
        refine h.setLinks key (by rw [List.length_map]; exact hlength) fun n hn => ?_
        rcases List.mem_map.mp hn with ⟨f, hf, rfl⟩
        exact hfound.included f (hmem f hf)
      -- each neighbour has a vector, so that it can be pruned
      have hback : Relinked config includeId index
          (neighbors.foldl (HNSWIndex.linkBack config distance getVec key layer)
            (index.setLinks key layer (neighbors.map Found.id))) :=
        List.foldlRecOn neighbors _ hown fun _ hrel f hf =>
          hrel.trans (hrel.ok.linkBack hkey
            (isSome_of_score (hfound.entries.scored f (hmem f hf))) layer)
      exact hback.trans (ih hback.ok hfound)

/-- A new node without links. -/
theorem Ok.withNode (h : index.Ok config includeId) (hnew : key ∉ index.ids)
    (hkey : includeId key = true) (level : ℕ) (entry : JsString × ℕ)
    (hentry : entry.1 = key ∨ entry.1 ∈ index.ids) :
    (⟨Assoc.set index.nodes key (List.replicate (level + 1) []), some entry⟩ :
      HNSWIndex).Ok config includeId ∧
      ∀ n, n ∈ Assoc.keys (Assoc.set index.nodes key (List.replicate (level + 1) [])) ↔
        n = key ∨ n ∈ index.ids := by
  have hids : ∀ n, n ∈ Assoc.keys (Assoc.set index.nodes key (List.replicate (level + 1) [])) ↔
      n = key ∨ n ∈ index.ids := by
    intro n
    have hkeys : key ∉ Assoc.keys index.nodes := hnew
    rw [Assoc.keys_set, if_neg hkeys, List.mem_append, List.mem_singleton]
    exact or_comm
  set fresh : HNSWIndex :=
    ⟨Assoc.set index.nodes key (List.replicate (level + 1) []), some entry⟩ with hfresh
  have hlinks : LinksAmong index fresh := by
    intro l n
    rw [linksOf, linksOf, hfresh]
    dsimp only
    rw [Assoc.get?_set]
    split_ifs
    · refine Or.inl ?_
      dsimp only
      rw [List.getElem?_replicate]
      split_ifs <;> rfl
    · exact Or.inr rfl
  refine ⟨⟨Assoc.nodup_keys_set _ _ h.nodup, ?_, ?_, ?_, hlinks.bounded h, ?_, hlinks.linked h⟩,
    hids⟩
  · intro n links hn
    rw [hfresh] at hn
    dsimp only at hn
    rw [Assoc.get?_set] at hn
    split_ifs at hn
    · cases hn
      exact List.ne_nil_of_length_pos (by rw [List.length_replicate]; exact Nat.succ_pos level)
    · exact h.layered n links hn
  · intro n layer hn
    cases hn
    exact (hids _).mpr hentry
  · intro hnone
    cases hnone
  · intro n hn
    rcases (hids n).mp hn with rfl | hold
    · exact hkey
    · exact h.included n hold

theorem Ok.withEntry (h : index.Ok config includeId) (hkey : key ∈ index.ids) (level : ℕ) :
    ({ index with entryPoint := some (key, level) } : HNSWIndex).Ok config includeId where
  nodup := h.nodup
  layered := h.layered
  entry := by
    intro n layer hn
    cases hn
    exact hkey
  entered := fun hnone => by cases hnone
  bounded := h.bounded
  included := h.included
  linked := h.linked

theorem Ok.insert (h : index.Ok config includeId) (hkey : includeId key = true) (vec : V)
    (level : ℕ) :
    (insert config distance getVec index key vec level).Ok config includeId ∧
      ∀ n, n ∈ (insert config distance getVec index key vec level).ids ↔
        n = key ∨ n ∈ index.ids := by
  rcases h.remove key with ⟨hremoved, hids⟩
  have hnew : key ∉ (index.remove key).ids := fun hmem => ((hids key).mp hmem).1 rfl
  have hall : ∀ n, n = key ∨ n ∈ (index.remove key).ids ↔ n = key ∨ n ∈ index.ids := by
    intro n
    rw [hids]
    by_cases hn : n = key <;> simp [hn]
  rw [HNSWIndex.insert]
  dsimp only
  cases hentry : (index.remove key).entryPoint with
  | none =>
      dsimp only
      rcases hremoved.withNode hnew hkey level (key, level) (Or.inl rfl) with
        ⟨hok, hmem⟩
      exact ⟨hok, fun n => (hmem n).trans (hall n)⟩
  | some top =>
      rcases top with ⟨topId, maxLayer⟩
      dsimp only
      rcases hremoved.withNode hnew hkey level (topId, maxLayer)
        (Or.inr (hremoved.entry topId maxLayer hentry)) with ⟨hok, hmem⟩
      set fresh : HNSWIndex :=
        ⟨Assoc.set (index.remove key).nodes key (List.replicate (level + 1) []),
          some (topId, maxLayer)⟩ with hfresh
      have htop : Seeds distance getVec includeId vec 1
          (HNSWIndex.entryFor distance getVec fresh vec) := hok.entryFor vec
      have hdown := (htop.descend hok level (maxLayer - level)).1
      have hconnected := hok.connectLayers hkey
        ⟨hdown.entries.mono config.ef_pos, hdown.included⟩ (min level maxLayer + 1)
      have hmemAll : ∀ n, n ∈ (HNSWIndex.connectLayers config distance getVec key vec
          (min level maxLayer + 1) (HNSWIndex.descend distance getVec fresh vec level
            (maxLayer - level) (HNSWIndex.entryFor distance getVec fresh vec)) fresh).ids ↔
          n = key ∨ n ∈ index.ids := by
        intro n
        rw [hconnected.ids]
        exact (hmem n).trans (hall n)
      split_ifs
      · exact ⟨hconnected.ok.withEntry ((hmemAll key).mpr (Or.inl rfl)) level, hmemAll⟩
      · exact ⟨hconnected.ok, hmemAll⟩

omit [LinearOrder δ] in
theorem entryFor_ne_nil (hentry : index.entryPoint = some (id, layer))
    (hvec : (getVec id).isSome = true) (vec : V) : entryFor distance getVec index vec ≠ [] := by
  rcases Option.isSome_iff_exists.mp hvec with ⟨v, hv⟩
  have hscore : scoreOf distance getVec vec id = some (distance vec v) := by
    rw [scoreOf, hv, Option.map_some]
  rw [HNSWIndex.entryFor, hentry]
  dsimp only
  rw [hscore]
  exact List.cons_ne_nil _ _

end

end HNSWIndex

/-! ## Runs -/

namespace IndexedVectors

variable {V δ : Type} [LinearOrder δ]
variable {config : HNSWConfig} {distance : V → V → δ} {includeId : JsString → Bool}
  {s : IndexedVectors V} {entered : List JsString}

/-- The index has vectors of the collection, and all that were entered and are still there. -/
structure Ok (config : HNSWConfig) (includeId : JsString → Bool) (entered : List JsString)
    (s : IndexedVectors V) : Prop where
  index : s.index.Ok config includeId
  stored : ∀ id ∈ s.index.ids, (s.getVec id).isSome = true
  built : ∀ id ∈ entered, includeId id = true → (s.getVec id).isSome = true → id ∈ s.index.ids

theorem getVec_set (s : IndexedVectors V) (id : JsString) (vector : V) (n : JsString) :
    ({ s with vectors := Assoc.set s.vectors id vector } : IndexedVectors V).getVec n =
      if id = n then some vector else s.getVec n :=
  Assoc.get?_set s.vectors id vector n

/-- A vector of the collection gets into the index. -/
theorem ok_insert (hindex : s.index.Ok config includeId) {id : JsString}
    (hid : includeId id = true) {vector : V} (hvec : s.getVec id = some vector)
    (hstored : ∀ n ∈ s.index.ids, (s.getVec n).isSome = true)
    (hbuilt : ∀ n ∈ entered, n ≠ id → includeId n = true → (s.getVec n).isSome = true →
      n ∈ s.index.ids) (level : ℕ) :
    Ok config includeId (entered ++ [id])
      { s with index := s.index.insert config distance s.getVec id vector level } := by
  have hinsert : _ ∧ ∀ n, n ∈ (s.index.insert config distance s.getVec id vector level).ids ↔
      n = id ∨ n ∈ s.index.ids := hindex.insert hid vector level
  refine ⟨hinsert.1, ?_, ?_⟩
  · intro n hn
    rcases (hinsert.2 n).mp hn with rfl | hold
    · exact Option.isSome_of_eq_some hvec
    · exact hstored n hold
  · intro n hn hincluded hsome
    refine (hinsert.2 n).mpr (or_iff_not_imp_left.mpr fun hne => ?_)
    rcases List.mem_append.mp hn with hn | hn
    · exact hbuilt n hn hne hincluded hsome
    · exact absurd (List.mem_singleton.mp hn) hne

theorem Ok.setVector (h : s.Ok config includeId entered) (id : JsString) (vector : V)
    (level : ℕ) :
    (s.setVector config distance includeId id vector level).Ok config includeId
      (entered ++ [id]) := by
  rw [IndexedVectors.setVector]
  set t : IndexedVectors V := { s with vectors := Assoc.set s.vectors id vector } with ht
  have hget : ∀ n, t.getVec n = if id = n then some vector else s.getVec n := getVec_set s id vector
  have hstored : ∀ n ∈ t.index.ids, (t.getVec n).isSome = true := by
    intro n hn
    rw [hget]
    split_ifs
    · rfl
    · exact h.stored n hn
  have hbuilt : ∀ n ∈ entered, n ≠ id → includeId n = true → (t.getVec n).isSome = true →
      n ∈ t.index.ids := by
    intro n hn hne hincluded hsome
    rw [hget, if_neg (Ne.symm hne)] at hsome
    exact h.built n hn hincluded hsome
  split_ifs with hid
  · have hvec : t.getVec id = some vector := by rw [hget, if_pos rfl]
    have hindex : t.index.Ok config includeId := h.index
    exact ok_insert hindex hid hvec hstored hbuilt level
  · -- the index does not take the vector
    refine ⟨h.index, hstored, ?_⟩
    intro n hn hincluded hsome
    have hne : n ≠ id := by
      rintro rfl
      exact hid hincluded
    rcases List.mem_append.mp hn with hn | hn
    · exact hbuilt n hn hne hincluded hsome
    · exact absurd (List.mem_singleton.mp hn) hne

omit [LinearOrder δ] in
theorem Ok.removeVector (h : s.Ok config includeId entered) (id : JsString) :
    (s.removeVector id).Ok config includeId entered := by
  rcases h.index.remove id with ⟨hindex, hids⟩
  have hget : ∀ n, (s.removeVector id).getVec n = if id = n then none else s.getVec n :=
    Assoc.get?_erase s.vectors id
  refine ⟨hindex, ?_, ?_⟩
  · intro n hn
    rcases (hids n).mp hn with ⟨hne, hold⟩
    rw [hget, if_neg (Ne.symm hne)]
    exact h.stored n hold
  · intro n hn hincluded hsome
    rw [hget] at hsome
    split_ifs at hsome with hsame
    · cases hsome
    · exact (hids n).mpr ⟨Ne.symm hsame, h.built n hn hincluded hsome⟩

theorem Ok.buildVector (h : s.Ok config includeId entered) (id : JsString) (level : ℕ) :
    (s.buildVector config distance includeId id level).Ok config includeId
      (entered ++ [id]) := by
  rw [IndexedVectors.buildVector]
  cases hvec : s.getVec id with
  | none =>
      refine ⟨h.index, h.stored, fun n hn hincluded hsome => ?_⟩
      rcases List.mem_append.mp hn with hn | hn
      · exact h.built n hn hincluded hsome
      · rw [List.mem_singleton.mp hn, hvec] at hsome
        cases hsome
  | some vector =>
      dsimp only
      split_ifs with hid
      · exact ok_insert h.index hid hvec h.stored (fun n hn _ => h.built n hn) level
      · refine ⟨h.index, h.stored, fun n hn hincluded hsome => ?_⟩
        rcases List.mem_append.mp hn with hn | hn
        · exact h.built n hn hincluded hsome
        · rw [List.mem_singleton.mp hn] at hincluded
          exact absurd hincluded hid

theorem Ok.step (h : s.Ok config includeId entered) (event : VectorEvent V) :
    (s.step config distance includeId event).Ok config includeId
      (entered ++ enteredIds [event]) := by
  cases event with
  | set id vector level => exact h.setVector id vector level
  | remove id =>
      change Ok config includeId (entered ++ []) (s.removeVector id)
      rw [List.append_nil]
      exact h.removeVector id
  | build id level => exact h.buildVector id level

theorem Ok.steps (h : s.Ok config includeId entered) (events : List (VectorEvent V)) :
    (events.foldl (IndexedVectors.step config distance includeId) s).Ok config includeId
      (entered ++ enteredIds events) := by
  induction events generalizing s entered with
  | nil =>
      change Ok config includeId (entered ++ []) s
      rw [List.append_nil]
      exact h
  | cons event rest ih =>
      have hids : enteredIds (event :: rest) = enteredIds [event] ++ enteredIds rest :=
        List.filterMap_append (l := [event])
      rw [List.foldl_cons, hids, ← List.append_assoc]
      exact ih (h.step event)

theorem ok_run (vectors : List (JsString × V)) (events : List (VectorEvent V)) :
    (run config distance includeId vectors events).Ok config includeId (enteredIds events) := by
  have hstart : Ok config includeId [] (⟨vectors, .empty⟩ : IndexedVectors V) :=
    ⟨⟨.nil, by simp [HNSWIndex.empty], by simp [HNSWIndex.empty], fun _ => rfl,
      fun _ _ => Nat.zero_le _, by simp [HNSWIndex.empty, HNSWIndex.ids, Assoc.keys],
      by simp [HNSWIndex.empty, HNSWIndex.linksOf]⟩,
      by simp [HNSWIndex.empty, HNSWIndex.ids, Assoc.keys], by simp⟩
  exact hstart.steps events

/-- What a search for the `k` nearest vectors gives: live vectors of the index with their
distances, the nearest first.  Something is found where the index has a vector, a neighbour of what
is found is found too or is no nearer, and fewer than `k` are all that can be reached from them. -/
structure Nearest (distance : V → V → δ) (includeId : JsString → Bool) (s : IndexedVectors V)
    (query : V) (k : ℕ) (out : List (Found JsString δ)) : Prop where
  nodup : (out.map Found.id).Nodup
  length : out.length ≤ k
  sorted : out.Pairwise fun a b => a.dist ≤ b.dist
  live : ∀ f ∈ out, includeId f.id = true ∧
    ∃ vec, s.getVec f.id = some vec ∧ f.dist = distance query vec
  found : 0 < k → s.index.ids ≠ [] → [] ∉ s.index.ids → out ≠ []
  nearer : ∀ f ∈ out, ∀ n ∈ s.index.linksOf 0 f.id, ∀ vec, s.getVec n = some vec →
    n ∈ out.map Found.id ∨ out.length = k ∧ ∀ g ∈ out, g.dist ≤ distance query vec
  complete : out.length < k → ∀ n,
    BeamSearch.Reach (s.index.linksOf 0) (HNSWIndex.scoreOf distance s.getVec query) out n →
      n ∈ out.map Found.id

/-- The lowest layer gives the nearest, whatever nodes the search starts from. -/
theorem Ok.nearest_of_seeds (h : s.Ok config includeId entered) {query : V} {k width : ℕ}
    {entry : List (Found JsString δ)}
    (hseeds : HNSWIndex.Seeds distance s.getVec includeId query width entry) (hwide : k ≤ width)
    (hentry : entry ≠ []) :
    s.Nearest distance includeId query k
      ((HNSWIndex.searchLayer distance s.getVec s.index entry query width 0).take k) := by
  rcases hseeds.searchLayer h.index 0 with ⟨hanswers, hfound⟩
  have hfew := hanswers.take hwide
  refine ⟨hfew.nodup, hfew.length, hfew.sorted, ?_, fun hk _ _ => hfew.ne_nil hentry hk, ?_,
    fun hroom _ hreach => hfew.complete hroom hreach⟩
  · intro f hf
    refine ⟨hfound.included f (List.mem_of_mem_take hf), ?_⟩
    rcases Option.map_eq_some_iff.mp (hfew.scored f hf) with ⟨vec, hvec, hdist⟩
    exact ⟨vec, hvec, hdist.symm⟩
  · intro f hf n hn vec hvec
    have hscore : HNSWIndex.scoreOf distance s.getVec query n = some (distance query vec) := by
      rw [HNSWIndex.scoreOf, hvec, Option.map_some]
    rcases hfew.neighbours f hf n hn _ hscore with hmem | ⟨hfull, hle⟩
    · exact Or.inl (List.mem_map_of_mem hmem)
    · exact Or.inr ⟨le_antisymm hfew.length hfull, hle⟩

theorem Ok.nearest (h : s.Ok config includeId entered) (query : V) (k : ℕ) (ef : Option ℕ) :
    s.Nearest distance includeId query k (s.index.search distance s.getVec query k ef) := by
  have hnone : (s.index.ids = [] ∨ [] ∈ s.index.ids) → s.Nearest distance includeId query k [] := by
    refine fun hids => ⟨.nil, Nat.zero_le _, .nil, by simp, ?_, by simp, ?_⟩
    · exact fun _ hne hempty => absurd hids (not_or.mpr ⟨hne, hempty⟩)
    · intro _ n hreach
      exact absurd hreach (BeamSearch.not_reach_nil n)
  rw [HNSWIndex.search]
  cases hentry : s.index.entryPoint with
  | none =>
      refine hnone (Or.inl ?_)
      rw [HNSWIndex.ids, h.index.entered hentry]
      rfl
  | some top =>
      rcases top with ⟨topId, maxLayer⟩
      have hstart : HNSWIndex.Seeds distance s.getVec includeId query 1
          (HNSWIndex.entryFor distance s.getVec s.index query) := h.index.entryFor query
      have hne : HNSWIndex.entryFor distance s.getVec s.index query ≠ [] :=
        HNSWIndex.entryFor_ne_nil hentry (h.stored topId (h.index.entry topId maxLayer hentry)) query
      have htop := h.index.entry topId maxLayer hentry
      dsimp only
      by_cases hempty : topId = []
      · rw [if_pos hempty]
        exact hnone (Or.inr (hempty ▸ htop))
      · rw [if_neg hempty]
        cases hfor : HNSWIndex.entryFor distance s.getVec s.index query with
        | nil => exact absurd hfor hne
        | cons first rest =>
            dsimp only
            rw [← hfor]
            set width := max (if 0 < ef.getD (max k 20) then ef.getD (max k 20) else 20) k
              with hwidth
            -- the one node that is left of the descent fits into any beam
            have hpos : 1 ≤ width := by
              refine le_trans ?_ (Nat.le_max_left _ _)
              split_ifs with hef
              · exact hef
              · exact Nat.succ_pos 19
            rcases hstart.descend h.index 0 maxLayer with ⟨hdown, hmore⟩
            exact h.nearest_of_seeds ⟨hdown.entries.mono hpos, hdown.included⟩
              (Nat.le_max_right _ _) (hmore hne)

end IndexedVectors
end ObjyDb
