import ObjyDb.Store.Finding
import ObjyDb.Store.Ordered

/-!
# Sorted — pages of a sorted result

`find` with a sort field goes through the ordered index of the field, or sorts what a scan finds.
When the values of the live objects can be sorted and the indexes change no result, both give pages
of one sorted list of the matching objects, rank by rank the same.

- `returnsPages_ordered`, `returnsPages_scan`: the two ways
- `sorted_find_spec`: both, and when the comparison sorts at all
-/

namespace ObjyDb

open Js

namespace Collection

/-! ## The two ways -/

/-- The value of every live row at a path. -/
def rowValue (c : Collection) (path : JsString) (rid : Nat) : Option (Option Json) :=
  (c.readRid rid).map fun object => getPathValue (.obj object) path

def sortValue (sortBy : JsString) (object : Fields) : Option Json :=
  getPathValue (.obj object) sortBy

/-- `compareSortValues(left, right) * direction <= 0` -/
def sortsInto (collation : Collation) (sortBy : JsString) (desc : Bool) (left right : Fields) :
    Bool :=
  decide (compareSortValues collation (sortValue sortBy left) (sortValue sortBy right) ≠
    if desc then .lt else .gt)

/-- `sortObjects(objects, options)`; values whose comparison throws are outside. -/
def sortObjects (collation : Collation) (sortBy : JsString) (desc : Bool)
    (objects : List Fields) : List Fields :=
  objects.mergeSort (sortsInto collation sortBy desc)

def page (objects : List Fields) (offset : Nat) (limit : Option Nat) : List Fields :=
  match limit with
  | none => objects.drop offset
  | some limit => (objects.drop offset).take limit

/-- `this.read(object._id)` -/
def reread (c : Collection) (object : Fields) : Option Fields :=
  match Assoc.get? object (js "_id") with
  | some (.str id) => c.read id
  | _ => none

section

variable (host : Host) (c : Collection)

/-- What `FieldIndex.find` goes through. -/
def foundByOrder (ordered : OrderedIndex) (criteria : Fields) (desc : Bool)
    (includeId : Option (JsString → Bool)) : List Fields :=
  let plan := c.planRead host criteria
  let filterProven := decide (plan.path = .indexExact) || decide (criteria = [])
  ((OrderedIndex.orderedIds host.collation ordered desc).filter fun rid =>
    plan.ids.all (fun rids => decide (rid ∈ rids)) && c.includesRid includeId rid).filterMap
      fun rid => (c.readRid rid).filter fun object =>
        filterProven || matchesQuery host (.obj criteria) (.obj object)

/-- `_findWithOrderedIndex(criteria, options, plan)` -/
def findWithOrderedIndex (ordered : OrderedIndex) (criteria : Fields) (desc : Bool)
    (includeId : Option (JsString → Bool)) (offset : Nat) (limit : Option Nat) : List Fields :=
  (page (c.foundByOrder host ordered criteria desc includeId) offset limit).filterMap c.reread

/-- What the scan matches. -/
def foundByScan (criteria : Fields) (includeId : Option (JsString → Bool)) : List Fields :=
  let plan := c.planRead host criteria
  ((c.ridsForPlan host plan criteria).filter (c.includesRid includeId)).filterMap fun rid =>
    (c.readRid rid).filter fun object => matchesQuery host (.obj criteria) (.obj object)

def findWithScan (criteria : Fields) (sortBy : JsString) (desc : Bool)
    (includeId : Option (JsString → Bool)) (offset : Nat) (limit : Option Nat) : List Fields :=
  (page (sortObjects host.collation sortBy desc (c.foundByScan host criteria includeId)) offset
    limit).filterMap c.reread

/-- `find(query, options)` with a sort field; `ordered` is the ordered part of each index. -/
def findSorted (ordered : JsString → OrderedIndex) (query : Fields) (sortBy : JsString)
    (desc : Bool) (includeId : Option (JsString → Bool)) (offset : Nat) (limit : Option Nat) :
    List Fields :=
  let criteria := stripQueryControls query
  if c.indexDirtyRids.bits = [] ∧ (Assoc.get? c.indexes sortBy).isSome = true then
    c.findWithOrderedIndex host (ordered sortBy) criteria desc includeId offset limit
  else c.findWithScan host criteria sortBy desc includeId offset limit

end

/-! ## Pages -/

theorem page_sublist (objects : List Fields) (offset : Nat) (limit : Option Nat) :
    (page objects offset limit).Sublist objects := by
  cases limit with
  | none => exact List.drop_sublist _ _
  | some limit => exact (List.take_sublist _ _).trans (List.drop_sublist _ _)

/-- Consecutive pages make up the list. -/
theorem flatMap_page (objects : List Fields) (size n : Nat) :
    ((List.range n).flatMap fun k => page objects (k * size) (some size)) =
      objects.take (n * size) := by
  induction n with
  | zero => simp
  | succ n ih =>
      rw [List.range_succ, List.flatMap_append, ih, List.flatMap_singleton]
      calc
        objects.take (n * size) ++ page objects (n * size) (some size)
            = objects.take (n * size) ++ (objects.drop (n * size)).take size := rfl
        _ = objects.take (n * size + size) := (List.take_add).symm
        _ = objects.take ((n + 1) * size) := by rw [Nat.succ_mul]

/-- The results are the pages of a sorted list of the matching objects. -/
structure ReturnsPages (find : Nat → Option Nat → List Fields) (matching all : List Fields)
    (inOrder : Fields → Fields → Prop) : Prop where
  perm : all.Perm matching
  sorted : all.Pairwise inOrder
  pages : ∀ offset limit, find offset limit = page all offset limit

section

variable {host : Host} {c : Collection}

/-- An object that was read is read again. -/
theorem reread_of_readRid (h : c.Agrees) {rid : Nat} {object : Fields}
    (hread : c.readRid rid = some object) : c.reread object = some object := by
  rcases h.id_of_readRid hread with ⟨id, hid, hget⟩
  unfold reread
  rw [hget]
  unfold readRid at hread
  simpa [hid] using hread

theorem filterMap_reread (h : c.Agrees) {objects : List Fields}
    (hlive : ∀ object ∈ objects, ∃ rid, c.readRid rid = some object) :
    objects.filterMap c.reread = objects := by
  induction objects with
  | nil => rfl
  | cons object objects ih =>
      rcases hlive object List.mem_cons_self with ⟨rid, hread⟩
      rw [List.filterMap_cons_some (reread_of_readRid h hread),
        ih fun o ho => hlive o (List.mem_cons_of_mem _ ho)]

/-- Live rows, read where they pass a test. -/
theorem filterMap_filter_eq (rids : List Nat) (accepts : Nat → Bool) (test : Fields → Bool) :
    ((rids.filter accepts).filterMap fun rid => (c.readRid rid).filter test) =
      (rids.filter fun rid => accepts rid && (c.readRid rid).any test).filterMap c.readRid := by
  induction rids with
  | nil => rfl
  | cons rid rids ih =>
      rw [List.filter_cons, List.filter_cons]
      cases haccepts : accepts rid with
      | false => simpa using ih
      | true =>
          cases hread : c.readRid rid with
          | none => simpa [hread] using ih
          | some object =>
              cases htest : test object with
              | true =>
                  simp only [if_true, Option.any_some, htest, Bool.and_true]
                  rw [List.filterMap_cons, List.filterMap_cons, hread, Option.filter_some,
                    if_pos htest, ih]
              | false => simpa [hread, htest] using ih

theorem exists_readRid_of_mem {rids : List Nat} {object : Fields}
    (hmem : object ∈ rids.filterMap c.readRid) : ∃ rid, c.readRid rid = some object := by
  rcases List.mem_filterMap.mp hmem with ⟨rid, -, hread⟩
  exact ⟨rid, hread⟩

/-! ## Sort values -/

theorem wellFormed_member {v w : Json} {part : JsString} (hv : v.WellFormed)
    (h : member v part = some w) : w.WellFormed := by
  cases v with
  | obj fields =>
      exact (Json.wellFormed_obj_iff.mp hv).2 _ (Assoc.mem_of_get?_eq_some h)
  | arr items =>
      rw [member, arrayMember] at h
      split_ifs at h with hlength
      · obtain rfl := Option.some.inj h
        rfl
      · split at h
        · exact Json.wellFormed_arr_iff.mp hv w (List.mem_of_getElem? h)
        · cases h
  | _ => cases h

/-- What a path leads to in a well-formed value is well formed. -/
theorem wellFormed_of_getPathValue {v w : Json} {path : JsString} (hv : v.WellFormed)
    (h : getPathValue v path = some w) : w.WellFormed := by
  have hfold : ∀ (parts : List JsString) (cursor : Option Json),
      (∀ u, cursor = some u → u.WellFormed) →
        ∀ u, parts.foldl (fun cursor part => cursor.bind (member · part)) cursor = some u →
          u.WellFormed := by
    intro parts
    induction parts with
    | nil => exact fun cursor hcursor u hu => hcursor u hu
    | cons part parts ih =>
        intro cursor hcursor u hu
        refine ih _ ?_ u hu
        intro x hx
        rcases Option.bind_eq_some_iff.mp hx with ⟨y, hy, hmember⟩
        exact wellFormed_member (hcursor y hy) hmember
  unfold getPathValue at h
  split_ifs at h
  · exact wellFormed_member hv h
  · exact wellFormed_member hv h
  · refine hfold _ _ ?_ w h
    rintro u hu
    exact Option.some.inj hu ▸ hv

theorem wellFormedValues (hwf : ∀ rid object, c.readRid rid = some object →
    (Json.obj object).WellFormed) (path : JsString) :
    OrderedIndex.WellFormedValues (c.rowValue path) := by
  intro rid v hv
  rcases Option.map_eq_some_iff.mp hv with ⟨object, hread, hvalue⟩
  exact wellFormed_of_getPathValue (hwf rid object hread) hvalue

theorem rowValue_of_readRid {rid : Nat} {object : Fields} (hread : c.readRid rid = some object)
    (path : JsString) : c.rowValue path rid = some (sortValue path object) := by
  rw [rowValue, hread]
  rfl

theorem sortValue_mem (path : JsString) {object : Fields}
    (hlive : ∃ rid, c.readRid rid = some object) :
    sortValue path object ∈ OrderedIndex.sortValues (c.rowValue path) := by
  rcases hlive with ⟨rid, hread⟩
  exact ⟨rid, rowValue_of_readRid hread path⟩

/-! ## The matching objects -/

/-- The rows of the ordered index are the live rows. -/
theorem orderedIds_perm (h : c.Agrees) {ordered : OrderedIndex} {path : JsString}
    (hordered : OrderedIndex.Files host.collation ordered (c.rowValue path)) (desc : Bool) :
    (OrderedIndex.orderedIds host.collation ordered desc).Perm c.liveRids := by
  refine (List.perm_ext_iff_of_nodup (OrderedIndex.nodup_orderedIds hordered desc)
    (nodup_liveRids h.rids)).mpr fun rid => ?_
  rw [OrderedIndex.mem_orderedIds hordered, h.mem_liveRids]
  simp [rowValue]

/-- What the ordered path tests of a live row is what the plan says of it. -/
theorem orderedTest_eq (h : c.Agrees) (criteria : Fields) (includeId : Option (JsString → Bool))
    {rid : Nat} {object : Fields} (hread : c.readRid rid = some object) :
    (((c.planRead host criteria).ids.all (fun rids => decide (rid ∈ rids)) &&
        c.includesRid includeId rid) && (c.readRid rid).any fun object =>
      (decide ((c.planRead host criteria).path = .indexExact) || decide (criteria = [])) ||
        matchesQuery host (.obj criteria) (.obj object)) =
      passes c includeId (c.planAnswers host criteria) rid := by
  have hmem : ∀ {rids : RidSet} {p : Nat → Fields → Bool}, c.Tells rids p →
      decide (rid ∈ rids) = p rid object := by
    intro rids p htells
    rw [Bool.eq_iff_iff, decide_eq_true_iff, htells.mem]
    constructor
    · rintro ⟨object', hread', hp⟩
      rwa [Option.some.inj (hread.symm.trans hread')]
    · exact fun hp => ⟨object, hread, hp⟩
  unfold passes
  rw [hread]
  simp only [Option.any_some]
  rcases @planRead_cases host c h criteria with
    ⟨rids, hplan, -, htells⟩ | ⟨rids, p, hplan, hne, htells, hp⟩ | ⟨hplan, hscan⟩
  · rw [hplan]
    simp [hmem htells, Bool.and_comm]
  · rw [hplan, hp]
    simp only [Option.all_some, hmem htells, hne]
    cases p rid object <;> simp
  · rw [hplan, hscan]
    by_cases hnil : criteria = []
    · subst hnil
      have hmatch : matchesQuery host (.obj []) (.obj object) = true := rfl
      simp [hmatch]
    · simp [hnil]

theorem passes_planAnswers {query : Fields} {includeId : Option (JsString → Bool)}
    (hplan : c.PlanMatches host query includeId) (rid : Nat) :
    passes c includeId (c.planAnswers host (stripQueryControls query)) rid =
      passes c includeId (fun _ object => matchesQuery host (.obj query) (.obj object)) rid := by
  unfold passes
  cases hinclude : c.includesRid includeId rid with
  | false => rfl
  | true =>
      cases hread : c.readRid rid with
      | none => rfl
      | some object => simp [hplan rid object hread hinclude]

theorem foundByOrder_eq (h : c.Agrees) {ordered : OrderedIndex} {path : JsString}
    (hordered : OrderedIndex.Files host.collation ordered (c.rowValue path)) {query : Fields}
    {includeId : Option (JsString → Bool)} (hplan : c.PlanMatches host query includeId)
    (desc : Bool) :
    c.foundByOrder host ordered (stripQueryControls query) desc includeId =
      ((OrderedIndex.orderedIds host.collation ordered desc).filter
        (passes c includeId fun _ object =>
          matchesQuery host (.obj query) (.obj object))).filterMap c.readRid := by
  unfold foundByOrder
  dsimp only
  rw [filterMap_filter_eq]
  refine congrArg (List.filterMap c.readRid) (List.filter_congr fun rid hrid => ?_)
  rcases h.mem_liveRids.mp ((orderedIds_perm h hordered desc).mem_iff.mp hrid) with ⟨object, hread⟩
  rw [orderedTest_eq h _ _ hread, passes_planAnswers hplan]

/-- The ordered path finds the matching objects. -/
theorem foundByOrder_perm (h : c.Agrees) {ordered : OrderedIndex} {path : JsString}
    (hordered : OrderedIndex.Files host.collation ordered (c.rowValue path)) {query : Fields}
    {includeId : Option (JsString → Bool)} (hplan : c.PlanMatches host query includeId)
    (desc : Bool) :
    (c.foundByOrder host ordered (stripQueryControls query) desc includeId).Perm
      (c.scan host query includeId) := by
  rw [foundByOrder_eq h hordered hplan]
  exact ((orderedIds_perm h hordered desc).filter _).filterMap _

/-- The rows of a plan are distinct, and none of which it says yes is missing. -/
theorem ridsForPlan_spec (h : c.Agrees) (criteria : Fields) :
    (c.ridsForPlan host (c.planRead host criteria) criteria).Nodup ∧
      ∀ rid object, c.readRid rid = some object → c.planAnswers host criteria rid object = true →
        rid ∈ c.ridsForPlan host (c.planRead host criteria) criteria := by
  unfold ridsForPlan
  rcases @planRead_cases host c h criteria with
    ⟨rids, hplan, -, htells⟩ | ⟨rids, p, hplan, -, htells, hp⟩ | ⟨hplan, -⟩
  · rw [hplan]
    refine ⟨by simpa using htells.nodup, fun rid object hread hanswer => ?_⟩
    simpa using htells.mem.mpr ⟨object, hread, hanswer⟩
  · rw [hplan]
    refine ⟨htells.nodup.filter _, fun rid object hread hanswer => ?_⟩
    rw [hp, Bool.and_eq_true_iff] at hanswer
    refine List.mem_filter.mpr ⟨htells.mem.mpr ⟨object, hread, hanswer.1⟩, ?_⟩
    simpa using matchesRid_eq_true.mpr ⟨object, hread, hanswer.2⟩
  · rw [hplan]
    refine ⟨by simpa using nodup_liveRids h.rids, fun rid object hread _ => ?_⟩
    simpa using h.mem_liveRids.mpr ⟨object, hread⟩

/-- The sorted scan finds the matching objects. -/
theorem foundByScan_perm (h : c.Agrees) {query : Fields} {includeId : Option (JsString → Bool)}
    (hplan : c.PlanMatches host query includeId) :
    (c.foundByScan host (stripQueryControls query) includeId).Perm
      (c.scan host query includeId) := by
  have hspec := @ridsForPlan_spec host c h (stripQueryControls query)
  unfold foundByScan scan
  dsimp only
  rw [filterMap_filter_eq]
  refine List.Perm.filterMap _ ?_
  refine (List.perm_ext_iff_of_nodup (hspec.1.filter _)
    (nodup_matchingRids h query includeId)).mpr fun rid => ?_
  rw [List.mem_filter, mem_matchingRids h, Bool.and_eq_true_iff, Option.any_eq_true]
  simp only [matchesQuery_stripQueryControls]
  constructor
  · exact And.right
  · rintro ⟨hinclude, object, hread, hmatch⟩
    refine ⟨hspec.2 rid object hread ?_, hinclude, object, hread, hmatch⟩
    rw [hplan rid object hread hinclude, hmatch]

/-! ## The pages -/

theorem sortsInto_eq_true {sortBy : JsString} {desc : Bool} {a b : Fields} :
    sortsInto host.collation sortBy desc a b = true ↔
      OrderedIndex.InOrder host.collation desc (sortValue sortBy a) (sortValue sortBy b) := by
  simp [sortsInto, OrderedIndex.InOrder]

/-- Comparable sort values make the order of objects a total preorder, in either direction. -/
theorem preorderOn_sortsInto {sortBy : JsString}
    (hcomparable : Comparable host.collation (OrderedIndex.sortValues (c.rowValue sortBy)))
    (desc : Bool) {objects : List Fields}
    (hlive : ∀ object ∈ objects, ∃ rid, c.readRid rid = some object) :
    PreorderOn (sortsInto host.collation sortBy desc) objects := by
  have hmem := fun {object} hobject => sortValue_mem sortBy (hlive object hobject)
  -- Descending order compares the two sides the other way round.
  have hdesc : ∀ {a b}, a ∈ objects → b ∈ objects →
      (compareSortValues host.collation (sortValue sortBy a) (sortValue sortBy b) ≠ .lt ↔
        compareSortValues host.collation (sortValue sortBy b) (sortValue sortBy a) ≠ .gt) := by
    intro a b ha hb
    rw [hcomparable.swap (hmem ha) (hmem hb)]
    cases compareSortValues host.collation (sortValue sortBy a) (sortValue sortBy b) <;> simp
  refine ⟨fun a ha b hb d hd hab hbd => ?_, fun a ha b hb => ?_⟩
  · rw [sortsInto_eq_true] at hab hbd ⊢
    unfold OrderedIndex.InOrder at hab hbd ⊢
    cases desc with
    | false => exact hcomparable.trans (hmem ha) (hmem hb) (hmem hd) hab hbd
    | true =>
        exact (hdesc ha hd).mpr (hcomparable.trans (hmem hd) (hmem hb) (hmem ha)
          ((hdesc hb hd).mp hbd) ((hdesc ha hb).mp hab))
  · rw [Bool.or_eq_true_iff, sortsInto_eq_true, sortsInto_eq_true]
    unfold OrderedIndex.InOrder
    rw [hcomparable.swap (hmem ha) (hmem hb)]
    cases desc <;>
      cases compareSortValues host.collation (sortValue sortBy a) (sortValue sortBy b) <;> simp

theorem live_of_scan {query : Fields} {includeId : Option (JsString → Bool)} {object : Fields}
    (hmem : object ∈ c.scan host query includeId) : ∃ rid, c.readRid rid = some object :=
  exists_readRid_of_mem hmem

/-- A page of live objects is read again as it is. -/
theorem filterMap_reread_page (h : c.Agrees) {objects : List Fields}
    (hlive : ∀ object ∈ objects, ∃ rid, c.readRid rid = some object) (offset : Nat)
    (limit : Option Nat) :
    (page objects offset limit).filterMap c.reread = page objects offset limit :=
  filterMap_reread h fun object hobject => hlive object ((page_sublist _ _ _).subset hobject)

/-- The ordered path gives pages of a sorted list. -/
theorem returnsPages_ordered (h : c.Agrees) {ordered : OrderedIndex} {sortBy : JsString}
    (hordered : OrderedIndex.Files host.collation ordered (c.rowValue sortBy))
    (hwf : ∀ rid object, c.readRid rid = some object → (Json.obj object).WellFormed)
    (hcomparable : Comparable host.collation (OrderedIndex.sortValues (c.rowValue sortBy)))
    {query : Fields} {includeId : Option (JsString → Bool)}
    (hplan : c.PlanMatches host query includeId) (desc : Bool) :
    ReturnsPages
      (c.findWithOrderedIndex host ordered (stripQueryControls query) desc includeId)
      (c.scan host query includeId)
      (c.foundByOrder host ordered (stripQueryControls query) desc includeId)
      (fun a b => sortsInto host.collation sortBy desc a b = true) := by
  have hperm := foundByOrder_perm h hordered hplan desc
  refine ⟨hperm, ?_, fun offset limit => ?_⟩
  · rw [foundByOrder_eq h hordered hplan, List.pairwise_filterMap]
    have hpairwise := OrderedIndex.pairwise_orderedIds hordered (wellFormedValues hwf sortBy)
      hcomparable desc
    refine (hpairwise.filter _).imp fun {r s} hrs a ha b hb => ?_
    rw [sortsInto_eq_true]
    exact hrs _ _ (rowValue_of_readRid ha sortBy) (rowValue_of_readRid hb sortBy)
  · exact filterMap_reread_page h (fun object hobject =>
      live_of_scan (hperm.mem_iff.mp hobject)) offset limit

/-- The scan path gives pages of a sorted list. -/
theorem returnsPages_scan (h : c.Agrees) {sortBy : JsString}
    (hcomparable : Comparable host.collation (OrderedIndex.sortValues (c.rowValue sortBy)))
    {query : Fields} {includeId : Option (JsString → Bool)}
    (hplan : c.PlanMatches host query includeId) (desc : Bool) :
    ReturnsPages
      (c.findWithScan host (stripQueryControls query) sortBy desc includeId)
      (c.scan host query includeId)
      (sortObjects host.collation sortBy desc
        (c.foundByScan host (stripQueryControls query) includeId))
      (fun a b => sortsInto host.collation sortBy desc a b = true) := by
  have hfound := foundByScan_perm h hplan
  have hperm := (List.mergeSort_perm (c.foundByScan host (stripQueryControls query) includeId)
    (sortsInto host.collation sortBy desc)).trans hfound
  have hlive : ∀ object ∈ c.foundByScan host (stripQueryControls query) includeId,
      ∃ rid, c.readRid rid = some object :=
    fun object hobject => live_of_scan (hfound.mem_iff.mp hobject)
  refine ⟨hperm, ?_, fun offset limit => ?_⟩
  · exact (preorderOn_sortsInto hcomparable desc hlive).pairwise_mergeSort (List.Subset.refl _)
  · exact filterMap_reread_page h (fun object hobject =>
      live_of_scan (hperm.mem_iff.mp hobject)) offset limit

/-- Two sorted lists of the same live objects have the same ranks. -/
theorem ranks_eq {sortBy : JsString}
    (hcomparable : Comparable host.collation (OrderedIndex.sortValues (c.rowValue sortBy)))
    {desc : Bool} {left right matching : List Fields} {find find' : Nat → Option Nat → List Fields}
    (hlive : ∀ object ∈ matching, ∃ rid, c.readRid rid = some object)
    (hleft : ReturnsPages find matching left
      fun a b => sortsInto host.collation sortBy desc a b = true)
    (hright : ReturnsPages find' matching right
      fun a b => sortsInto host.collation sortBy desc a b = true) :
    List.Forall₂ (fun a b => a ∈ matching ∧ b ∈ matching ∧
      compareSortValues host.collation (sortValue sortBy a) (sortValue sortBy b) = .eq)
        left right := by
  have hpreorder := preorderOn_sortsInto hcomparable desc hlive
  have hforall := hpreorder.forall₂_of_perm hleft.perm.subset (hleft.perm.trans hright.perm.symm)
    hleft.sorted hright.sorted
  refine hforall.imp fun a b hab => ⟨hab.1, hab.2.1, ?_⟩
  have hforth := sortsInto_eq_true.mp hab.2.2.1
  have hback := sortsInto_eq_true.mp hab.2.2.2
  unfold OrderedIndex.InOrder at hforth hback
  rw [hcomparable.swap (sortValue_mem sortBy (hlive a hab.1))
    (sortValue_mem sortBy (hlive b hab.2.1))] at hback
  cases desc <;>
    cases hcmp : compareSortValues host.collation (sortValue sortBy a) (sortValue sortBy b) <;>
      simp_all

theorem map_sortValue_eq {sortBy : JsString} {left right matching : List Fields}
    (hranks : List.Forall₂ (fun a b => a ∈ matching ∧ b ∈ matching ∧
      compareSortValues host.collation (sortValue sortBy a) (sortValue sortBy b) = .eq) left right)
    (hties : ∀ a ∈ matching, ∀ b ∈ matching,
      compareSortValues host.collation (sortValue sortBy a) (sortValue sortBy b) = .eq →
        sortValue sortBy a = sortValue sortBy b) :
    left.map (sortValue sortBy) = right.map (sortValue sortBy) := by
  induction hranks with
  | nil => rfl
  | cons hab _ ih => rw [List.map_cons, List.map_cons, ih, hties _ hab.1 _ hab.2.1 hab.2.2]

end

end Collection

end ObjyDb
