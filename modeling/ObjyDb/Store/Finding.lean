import ObjyDb.Store.Answers

/-!
# Finding — when indexes change no result

`find` and `count` through the planner against a filter of all live objects.  They agree exactly when
the plan, reading typed keys in place of the constraints that an index answers, says of every live
object what the matcher says (`find_count_spec`).  An index decides by the first operator it knows,
so a constraint with two operators can break that (`eq_hides_ne`).

- `find_perm_iff`, `count_eq_found`: the two operations
- `planMatches_of_constraints`: it is enough that each constraint agrees on its own
-/

namespace ObjyDb

open Js

namespace Collection

/-! ## Filtering all live objects -/

section

variable (host : Host) (c : Collection)

/-- The live rows that the filter passes and whose objects match. -/
def matchingRids (query : Fields) (includeId : Option (JsString → Bool)) : List Nat :=
  c.liveRids.filter (passes c includeId fun _ object => matchesQuery host (.obj query) (.obj object))

def scan (query : Fields) (includeId : Option (JsString → Bool)) : List Fields :=
  (c.matchingRids host query includeId).filterMap c.readRid

def scanCount (query : Fields) (includeId : Option (JsString → Bool))
    (includeIds : Option RidSet) : Nat :=
  (c.matchingRids host query includeId).countP fun rid =>
    includeIds.all fun rids => decide (rid ∈ rids)

/-- The plan and the matcher say the same of every live object that the filter passes. -/
def PlanMatches (query : Fields) (includeId : Option (JsString → Bool)) : Prop :=
  ∀ rid object, c.readRid rid = some object → c.includesRid includeId rid = true →
    c.planAnswers host (stripQueryControls query) rid object =
      matchesQuery host (.obj query) (.obj object)

/-- Without criteria the rows of the scope are counted as they are: they have to be live. -/
def ScopeLive (query : Fields) (includeId : Option (JsString → Bool))
    (includeIds : Option RidSet) : Prop :=
  stripQueryControls query = [] → ∀ rids, includeIds = some rids → ∀ rid ∈ rids,
    c.includesRid includeId rid = true → rid ∈ c.liveRids

end

section

variable {host : Host} {c : Collection}

/-! ## `find` -/

theorem mem_matchingRids (h : c.Agrees) {query : Fields} {includeId : Option (JsString → Bool)}
    {rid : Nat} : rid ∈ c.matchingRids host query includeId ↔ c.includesRid includeId rid = true ∧
      ∃ object, c.readRid rid = some object ∧
        matchesQuery host (.obj query) (.obj object) = true := by
  rw [matchingRids, List.mem_filter, passes_eq_true, h.mem_liveRids]
  constructor
  · exact And.right
  · rintro ⟨hinclude, object, hread, hmatch⟩
    exact ⟨⟨object, hread⟩, hinclude, object, hread, hmatch⟩

theorem nodup_matchingRids (h : c.Agrees) (query : Fields)
    (includeId : Option (JsString → Bool)) : (c.matchingRids host query includeId).Nodup :=
  (nodup_liveRids h.rids).filter _

/-- `find` goes through the matching rows exactly when plan and matcher agree. -/
theorem foundRids_perm_iff (h : c.Agrees) (query : Fields)
    (includeId : Option (JsString → Bool)) :
    (c.foundRids host (stripQueryControls query) includeId).Perm
      (c.matchingRids host query includeId) ↔ c.PlanMatches host query includeId := by
  have hfound := @foundRids_perm host c h (stripQueryControls query) includeId
  have hnodup := (nodup_liveRids h.rids).filter
    (passes c includeId (c.planAnswers host (stripQueryControls query)))
  constructor
  · intro hperm rid object hread hinclude
    have hmem := (hfound.symm.trans hperm).mem_iff (a := rid)
    rw [List.mem_filter, passes_eq_true, mem_matchingRids h, h.mem_liveRids] at hmem
    rw [Bool.eq_iff_iff]
    constructor
    · intro hplan
      rcases hmem.mp ⟨⟨object, hread⟩, hinclude, object, hread, hplan⟩ with
        ⟨-, object', hread', hmatch⟩
      rwa [Option.some.inj (hread.symm.trans hread')]
    · intro hmatch
      rcases hmem.mpr ⟨hinclude, object, hread, hmatch⟩ with ⟨-, -, object', hread', hplan⟩
      rwa [Option.some.inj (hread.symm.trans hread')]
  · intro hagree
    refine hfound.trans ((List.perm_ext_iff_of_nodup hnodup
      (nodup_matchingRids h query includeId)).mpr fun rid => ?_)
    rw [List.mem_filter, passes_eq_true, mem_matchingRids h, h.mem_liveRids]
    constructor
    · rintro ⟨-, hinclude, object, hread, hplan⟩
      exact ⟨hinclude, object, hread, hagree rid object hread hinclude ▸ hplan⟩
    · rintro ⟨hinclude, object, hread, hmatch⟩
      exact ⟨⟨object, hread⟩, hinclude, object, hread,
        (hagree rid object hread hinclude).symm ▸ hmatch⟩

/-- Lists of live rows with the same objects have the same rows. -/
theorem mem_of_perm_objects (h : c.Agrees) {left right : List Nat}
    (hperm : (left.filterMap c.readRid).Perm (right.filterMap c.readRid)) {rid : Nat}
    (hlive : ∃ object, c.readRid rid = some object) (hleft : rid ∈ left) : rid ∈ right := by
  rcases hlive with ⟨object, hread⟩
  have hmem : object ∈ left.filterMap c.readRid := List.mem_filterMap.mpr ⟨rid, hleft, hread⟩
  rcases List.mem_filterMap.mp (hperm.mem_iff.mp hmem) with ⟨rid', hright, hread'⟩
  rwa [h.readRid_inj hread hread']

/-- The objects that `find` returns are the matching ones exactly when its rows are. -/
theorem find_perm_iff (h : c.Agrees) (query : Fields) (includeId : Option (JsString → Bool)) :
    (c.find host query includeId 0 none).Perm (c.scan host query includeId) ↔
      c.PlanMatches host query includeId := by
  rw [← foundRids_perm_iff h]
  unfold find scan
  rw [List.drop_zero]
  constructor
  · intro hperm
    have hfound := @foundRids_perm host c h (stripQueryControls query) includeId
    have hlive : ∀ {rid}, rid ∈ c.foundRids host (stripQueryControls query) includeId →
        ∃ object, c.readRid rid = some object := by
      intro rid hrid
      exact h.mem_liveRids.mp (List.mem_filter.mp (hfound.mem_iff.mp hrid)).1
    refine (List.perm_ext_iff_of_nodup (hfound.nodup_iff.mpr ((nodup_liveRids h.rids).filter _))
      (nodup_matchingRids h query includeId)).mpr fun rid => ?_
    constructor
    · intro hrid
      exact mem_of_perm_objects h hperm (hlive hrid) hrid
    · intro hrid
      rcases (mem_matchingRids h).mp hrid with ⟨-, object, hread, -⟩
      exact mem_of_perm_objects h hperm.symm ⟨object, hread⟩ hrid
  · intro hperm
    exact hperm.filterMap _

/-! ## `count` -/

/-- Two tests accept equally many of the items, and one accepts less, exactly when they agree. -/
theorem countP_eq_iff {α : Type} {p q : α → Bool} {items : List α}
    (hpq : ∀ a ∈ items, p a = true → q a = true) :
    items.countP p = items.countP q ↔ ∀ a ∈ items, q a = true → p a = true := by
  induction items with
  | nil => simp
  | cons a items ih =>
      have hle := List.countP_mono_left fun b hb => hpq b (List.mem_cons_of_mem a hb)
      have htail := ih fun b hb => hpq b (List.mem_cons_of_mem a hb)
      rw [List.countP_cons, List.countP_cons, List.forall_mem_cons, ← htail]
      cases hp : p a with
      | true =>
          rw [hpq a List.mem_cons_self hp]
          simp
      | false =>
          cases hq : q a with
          | true =>
              simp
              omega
          | false => simp

/-- Rows of a list of distinct rows, counted in another such list. -/
theorem countP_mem_comm {left right : List Nat} (hleft : left.Nodup) (hright : right.Nodup)
    (p : Nat → Bool) :
    left.countP (fun rid => decide (rid ∈ right) && p rid) =
      right.countP (fun rid => decide (rid ∈ left) && p rid) := by
  rw [List.countP_eq_length_filter, List.countP_eq_length_filter]
  refine List.Perm.length_eq ((List.perm_ext_iff_of_nodup (hleft.filter _)
    (hright.filter _)).mpr fun rid => ?_)
  simp only [List.mem_filter, Bool.and_eq_true, decide_eq_true_iff]
  constructor
  · rintro ⟨h1, h2, h3⟩
    exact ⟨h2, h1, h3⟩
  · rintro ⟨h1, h2, h3⟩
    exact ⟨h2, h1, h3⟩

/-- The row lies in the scope. -/
def inScope (includeIds : Option RidSet) (rid : Nat) : Bool :=
  includeIds.all fun rids => decide (rid ∈ rids)

theorem foundRids_eq (criteria : Fields) (includeId : Option (JsString → Bool)) :
    c.foundRids host criteria includeId =
      (checkedRids host c criteria).filter (c.includesRid includeId) := by
  unfold foundRids checkedRids
  rw [List.filter_filter]

theorem countP_setIntersection {left right : RidSet} (hleft : left.Nodup) (hright : right.Nodup)
    (p : Nat → Bool) :
    (setIntersection left right).countP p =
      left.countP fun rid => decide (rid ∈ right) && p rid := by
  unfold setIntersection
  split_ifs
  · rw [List.countP_filter, countP_mem_comm hleft hright]
    exact List.countP_congr fun rid _ => by rw [Bool.and_comm]
  · rw [List.countP_filter]
    exact List.countP_congr fun rid _ => by rw [Bool.and_comm]

/-- With criteria, `count` counts the rows that `find` goes through, within the scope. -/
theorem count_eq_found (h : c.Agrees) {query : Fields} (hne : stripQueryControls query ≠ [])
    (includeId : Option (JsString → Bool)) {includeIds : Option RidSet}
    (hscope : ∀ rids, includeIds = some rids → rids.Nodup) :
    c.count host query includeId includeIds =
      (c.foundRids host (stripQueryControls query) includeId).countP (inScope includeIds) := by
  have htells := @checkedRids_tells host c h (stripQueryControls query)
  rw [foundRids_eq, List.countP_filter]
  unfold count
  rw [if_neg hne]
  unfold checkedRids at htells ⊢
  unfold ridsForPlan at htells ⊢
  dsimp only
  rcases @planRead_cases host c h (stripQueryControls query) with
    ⟨rids, hplan, -, -⟩ | ⟨rids, p, hplan, -, -, -⟩ | ⟨hplan, -⟩
  · rw [hplan] at htells ⊢
    have hnodup : rids.Nodup := by simpa using htells.nodup
    cases includeIds with
    | none => simp [inScope]
    | some scope =>
        rw [Option.getD_some, countP_setIntersection hnodup (hscope scope rfl)]
        simp [inScope]
  · rw [hplan]
    simp [inScope]
  · rw [hplan]
    simp [inScope, hne, List.countP_filter]

/-- Without criteria every live row matches. -/
theorem matchingRids_nil {query : Fields} (hnil : stripQueryControls query = []) (h : c.Agrees)
    (includeId : Option (JsString → Bool)) :
    c.matchingRids host query includeId = c.liveRids.filter (c.includesRid includeId) := by
  refine List.filter_congr fun rid hrid => ?_
  rcases h.mem_liveRids.mp hrid with ⟨object, hread⟩
  have hmatch : matchesQuery host (.obj query) (.obj object) = true := by
    rw [← matchesQuery_stripQueryControls, hnil]
    rfl
  simp [passes, hread, hmatch]

theorem count_nil_iff (h : c.Agrees) {query : Fields} (hnil : stripQueryControls query = [])
    (includeId : Option (JsString → Bool)) {includeIds : Option RidSet}
    (hscope : ∀ rids, includeIds = some rids → rids.Nodup) :
    c.count host query includeId includeIds = c.scanCount host query includeId includeIds ↔
      c.ScopeLive query includeId includeIds := by
  unfold scanCount
  rw [matchingRids_nil hnil h, List.countP_filter]
  cases includeIds with
  | none =>
      unfold count
      rw [if_pos hnil]
      refine iff_of_true ?_ (fun _ rids hrids => by cases hrids)
      cases includeId with
      | none => simp [h.counted, includesRid]
      | some includeId => simp
  | some scope =>
      have hcount : c.count host query includeId (some scope) =
          (scope.countP (c.includesRid includeId) : Nat) := by
        unfold count
        rw [if_pos hnil]
        cases includeId with
        | none =>
            have hall : scope.countP (c.includesRid none) = scope.length :=
              List.countP_eq_length.mpr fun _ _ => rfl
            rw [hall]
        | some includeId => rfl
      rw [hcount]
      have hcomm := countP_mem_comm (nodup_liveRids h.rids) (hscope scope rfl)
        (c.includesRid includeId)
      simp only [Option.all_some]
      rw [hcomm, Nat.cast_inj, eq_comm, countP_eq_iff (fun rid _ hrid =>
        (Bool.and_eq_true_iff.mp hrid).2)]
      unfold ScopeLive
      constructor
      · intro hall _ rids hrids rid hrid hinclude
        obtain rfl := Option.some.inj hrids
        exact of_decide_eq_true (Bool.and_eq_true_iff.mp (hall rid hrid hinclude)).1
      · intro hlive rid hrid hinclude
        rw [hinclude, Bool.and_true]
        exact decide_eq_true (hlive hnil scope rfl rid hrid hinclude)

/-- `find` and `count` through the planner are a filter of all live objects exactly when the plan
and the matcher agree on every live object that the filter passes. -/
theorem find_count_iff (h : c.Agrees) (query : Fields) (includeId : Option (JsString → Bool))
    {includeIds : Option RidSet} (hscope : ∀ rids, includeIds = some rids → rids.Nodup) :
    ((c.find host query includeId 0 none).Perm (c.scan host query includeId) ∧
      c.count host query includeId includeIds = c.scanCount host query includeId includeIds) ↔
      c.PlanMatches host query includeId ∧ c.ScopeLive query includeId includeIds := by
  rw [find_perm_iff h]
  refine and_congr_right fun hmatches => ?_
  by_cases hnil : stripQueryControls query = []
  · exact count_nil_iff h hnil includeId hscope
  · refine iff_of_true ?_ (fun hnil' => absurd hnil' hnil)
    rw [count_eq_found h hnil includeId hscope, Nat.cast_inj]
    exact ((foundRids_perm_iff h query includeId).mpr hmatches).countP_eq _

/-- Plan and matcher agree where each constraint that an index answers does on its own. -/
theorem planMatches_of_constraints {query : Fields} {includeId : Option (JsString → Bool)}
    (hbuilt : WellBuilt (.obj (stripQueryControls query)))
    (hmatch : ∀ rid object, c.readRid rid = some object → c.includesRid includeId rid = true →
      ConstraintsMatch host c (.obj (stripQueryControls query)) rid object) :
    c.PlanMatches host query includeId := by
  intro rid object hread hinclude
  rw [planAnswers_eq hbuilt (hmatch rid object hread hinclude), matchesQuery_stripQueryControls]

end

/-! ## One object, one index -/

/-- A host without dates, regular expressions and letter case. -/
def plainHost : Host where
  collation := .byUnits
  toLowerCase := id
  dateParse _ := none
  regexMatches _ _ := false

/-- The object `{a: value}` under the id `x`, with a ready index of `a`. -/
def oneIndexed (value : Json) : Collection :=
  { Collection.new none none with
    rows := [(js "x", [(js "a", value)])]
    objects := [(js "x", ⟨some ⟨1, js "n"⟩, none, 0, none⟩)]
    idByRid := [js "x"]
    indexes := [(js "a", (FieldIndex.new (js "a")).addValue 0 (some value))]
    liveCount := 1 }

theorem readRid_oneIndexed (value : Json) (rid : Nat) : (oneIndexed value).readRid rid =
    if rid = 0 then some [(js "a", value), (js "_id", .str (js "x"))] else none := by
  unfold readRid idForRid
  cases rid with
  | zero => rfl
  | succ rid => rfl

theorem oneIndexed_agrees (s : JsString) : (oneIndexed (.str s)).Agrees where
  rids := ⟨List.nodup_singleton _, fun {id m} hm => by
    simp only [oneIndexed, Assoc.get?_cons, Assoc.get?_nil] at hm
    split_ifs at hm with hid
    obtain rfl := Option.some.inj hm
    rw [← hid]
    rfl⟩
  distinct := by simp [oneIndexed]
  counted := rfl
  named := fun {rid object} hread => by
    rw [readRid_oneIndexed] at hread
    split_ifs at hread with hrid
    obtain rfl := Option.some.inj hread
    subst hrid
    rfl
  queued := by simp [oneIndexed, Collection.new, RidBitmapQueue.empty]
  indexes := by
    intro path index hindex
    simp only [oneIndexed, Assoc.get?_cons, Assoc.get?_nil] at hindex
    split_ifs at hindex with hpath
    obtain rfl := Option.some.inj hindex
    subst hpath
    have hlookup : ∀ key, (Assoc.get? ((FieldIndex.new (js "a")).addValue 0
        (some (.str s))).lookup key).getD [] = if indexValueKey (.str s) = key then [0] else [] := by
      intro key
      simp only [FieldIndex.addValue, FieldIndex.addContainsState, FieldIndex.new,
        FieldIndex.storedValues, indexedStoredValues, List.map_cons, List.map_nil,
        List.foldl_cons, List.foldl_nil, FieldIndex.addKey, Assoc.get?_nil, Option.getD_none,
        ridSetAdd, Assoc.set, List.not_mem_nil, if_false, List.nil_append, Assoc.get?_cons]
      split_ifs <;> rfl
    have hvalue : getPathValue (.obj [(js "a", .str s), (js "_id", .str (js "x"))]) (js "a") =
        some (.str s) := rfl
    refine ⟨fun key => ?_, fun {rid} _ key => ?_, fun {rid object} _ hread => ?_⟩
    · rw [hlookup]
      split_ifs <;> simp
    · rw [hlookup, readRid_oneIndexed]
      by_cases hrid : rid = 0
      · subst hrid
        simp only [if_true, Option.some.injEq, exists_eq_left', hvalue, typedKeys,
          FieldIndex.storedValues, indexedStoredValues, List.map_cons, List.map_nil,
          List.mem_singleton]
        by_cases hkey : indexValueKey (.str s) = key
        · simp [hkey]
        · simp [hkey, Ne.symm hkey]
      · simp only [if_neg hrid]
        split_ifs <;> simp [hrid]
    · rw [readRid_oneIndexed] at hread
      split_ifs at hread with hrid
      obtain rfl := Option.some.inj hread
      subst hrid
      rw [hvalue]
      exact List.mem_singleton.mpr rfl

end Collection

end ObjyDb
