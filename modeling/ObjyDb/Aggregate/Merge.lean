import ObjyDb.Aggregate.Distribution

/-!
# Merge — the merged groups and the distribution of the rows

* `distributionFree_iff` — for names that are apart, merging the partial rows of the shards gives
  the groups of `aggregateObjects` for every distribution of the rows, exactly when every `$min`
  and `$max` of every group is decided.
-/

namespace ObjyDb

open Js

/-! ## Results that are the same -/

/-- The value with the fields of its objects sorted. -/
def ResultValue.sorted (collation : Collation) : ResultValue → ResultValue
  | .json value => .json (sortForKey collation value)
  | .quotient value => .quotient value

/-- The rows have the same members, up to the order of fields. -/
def SameRow (collation : Collation) (left right : ResultRow) : Prop :=
  ∀ key, (Assoc.get? left.own key).map (ResultValue.sorted collation) =
    (Assoc.get? right.own key).map (ResultValue.sorted collation)

/-- The same groups with the same values, in any order. -/
def SameGroups (collation : Collation) (left right : List ResultRow) : Prop :=
  ∃ arranged, left.Perm arranged ∧ List.Forall₂ (SameRow collation) arranged right

/-- However the rows are distributed over shards, merging their partial rows gives, before paging,
the groups of `aggregateObjects` over all rows. -/
def DistributionFree (collation : Collation) (spec : AggregateSpec) (rows : List Json) : Prop :=
  ∀ parts : List (List Json), parts.flatten.Perm rows →
    SameGroups collation (sortedGroups collation spec (shardRows collation spec parts))
      (sortedGroups collation spec (partialRows collation spec rows))

/-- Every `$min` and `$max` of every group has one answer. -/
def MetricsDecided (collation : Collation) (spec : AggregateSpec) (rows : List Json) : Prop :=
  ∀ field ∈ spec.fields, ∀ k,
    MetricDecided collation field.operator (groupRows collation spec rows k)

/-! ## What a result row holds -/

section

variable {collation : Collation} {spec : AggregateSpec}

/-- `out[field.resultKey] = finishField(…)` -/
def writeResult (bucket : AggregateBucket) (out : ResultRow) (field : AggregateField) :
    ResultRow :=
  out.assign field.resultKey (finishField (bucket.state field))
    (match finishField (bucket.state field) with | .json .null => true | _ => false)

theorem resultRow_eq (bucket : AggregateBucket) :
    bucket.resultRow spec = spec.fields.foldl (writeResult bucket)
      ⟨bucket.groupValues.map fun entry => (entry.1, .json entry.2), false⟩ := rfl

theorem get?_writeResult (bucket : AggregateBucket) (out : ResultRow) (field : AggregateField)
    (key : JsString) :
    Assoc.get? (writeResult bucket out field).own key =
      if field.resultKey = key ∧ key ≠ js "__proto__" then some (finishField (bucket.state field))
      else Assoc.get? out.own key := by
  unfold writeResult Assigned.assign
  by_cases hproto : field.resultKey = js "__proto__"
  · rw [if_pos hproto, if_neg]
    rintro ⟨heq, hne⟩
    exact hne (heq ▸ hproto)
  · rw [if_neg hproto, Assoc.get?_set]
    by_cases heq : field.resultKey = key
    · rw [if_pos heq, if_pos ⟨heq, heq ▸ hproto⟩]
    · rw [if_neg heq, if_neg fun h => heq h.1]

theorem get?_writeResults (bucket : AggregateBucket) {fields : List AggregateField}
    (hnodup : (fields.map AggregateField.resultKey).Nodup) (out : ResultRow)
    {field : AggregateField} (h : field ∈ fields) (hproto : field.resultKey ≠ js "__proto__") :
    Assoc.get? (fields.foldl (writeResult bucket) out).own field.resultKey =
      some (finishField (bucket.state field)) := by
  induction fields using List.reverseRecOn with
  | nil => cases h
  | append_singleton fields last ih =>
      rw [List.foldl_append, List.foldl_cons, List.foldl_nil, get?_writeResult]
      rw [List.map_append, List.nodup_append] at hnodup
      rcases List.mem_append.mp h with hmem | hmem
      · have hne : last.resultKey ≠ field.resultKey := fun heq =>
          hnodup.2.2 _ (List.mem_map_of_mem hmem) _ (by simp) heq.symm
        rw [if_neg fun hlast => hne hlast.1]
        exact ih hnodup.1 hmem
      · rw [List.mem_singleton.mp hmem, if_pos ⟨rfl, List.mem_singleton.mp hmem ▸ hproto⟩]

theorem get?_writeResults_of_notMem (bucket : AggregateBucket) {fields : List AggregateField}
    (out : ResultRow) {key : JsString} (h : key ∉ fields.map AggregateField.resultKey) :
    Assoc.get? (fields.foldl (writeResult bucket) out).own key = Assoc.get? out.own key := by
  induction fields generalizing out with
  | nil => rfl
  | cons field fields ih =>
      rw [List.map_cons, List.mem_cons, not_or] at h
      rw [List.foldl_cons, ih _ h.2, get?_writeResult, if_neg fun heq => h.1 heq.1.symm]

theorem sortedGroups_perm (rows : List PartialRow) :
    (sortedGroups collation spec rows).Perm (mergedGroups collation spec rows) := by
  unfold sortedGroups
  split_ifs
  · exact List.Perm.refl _
  · exact List.mergeSort_perm _ _

theorem SameGroups.perm {left left' right right' : List ResultRow}
    (h : SameGroups collation left right) (hleft : left'.Perm left) (hright : right.Perm right') :
    SameGroups collation left' right' := by
  obtain ⟨arranged, hperm, hall⟩ := h
  have hcomp : Relation.Comp (List.Forall₂ (SameRow collation)) List.Perm arranged right' :=
    ⟨right, hall, hright⟩
  rw [List.forall₂_comp_perm_eq_perm_comp_forall₂] at hcomp
  obtain ⟨arranged', hperm', hall'⟩ := hcomp
  exact ⟨arranged', (hleft.trans hperm).trans hperm', hall'⟩

/-- Sorting does not change which groups there are. -/
theorem sameGroups_sorted_iff (left right : List PartialRow) :
    SameGroups collation (sortedGroups collation spec left) (sortedGroups collation spec right) ↔
      SameGroups collation (mergedGroups collation spec left)
        (mergedGroups collation spec right) :=
  ⟨fun h => h.perm (sortedGroups_perm left).symm (sortedGroups_perm right),
    fun h => h.perm (sortedGroups_perm left) (sortedGroups_perm right).symm⟩

theorem get?_json (values : Fields) (key : JsString) :
    Assoc.get? (values.map fun entry => (entry.1, ResultValue.json entry.2)) key =
      (Assoc.get? values key).map ResultValue.json :=
  Assoc.get?_mapValues (fun _ value => ResultValue.json value) values key

/-- Buckets with the same group values and states have the same result row. -/
theorem sameRow_of_states {left right : AggregateBucket}
    (hgroups : ∀ key, (Assoc.get? left.groupValues key).map (sortForKey collation) =
      (Assoc.get? right.groupValues key).map (sortForKey collation))
    (hstates : ∀ field ∈ spec.fields, left.state field = right.state field) :
    SameRow collation (left.resultRow spec) (right.resultRow spec) := by
  have hfold : ∀ fields : List AggregateField, fields ⊆ spec.fields → ∀ out out' : ResultRow,
      SameRow collation out out' →
      SameRow collation (fields.foldl (writeResult left) out)
        (fields.foldl (writeResult right) out') := by
    intro fields hsub
    induction fields with
    | nil => exact fun _ _ h => h
    | cons field fields ih =>
        intro out out' h
        refine ih (fun f hf => hsub (List.mem_cons_of_mem _ hf)) _ _ fun key => ?_
        rw [get?_writeResult, get?_writeResult, hstates field (hsub List.mem_cons_self)]
        split_ifs
        · rfl
        · exact h key
  rw [resultRow_eq, resultRow_eq]
  refine hfold spec.fields (List.Subset.refl _) _ _ fun key => ?_
  have h := congrArg (Option.map ResultValue.json) (hgroups key)
  simp only [get?_json, Option.map_map] at h ⊢
  exact h

/-! ## Group keys determine group values -/

theorem wellFormed_member {cursor : Json} (h : cursor.WellFormed) {part : JsString} {v : Json}
    (hv : member cursor part = some v) : v.WellFormed := by
  cases cursor with
  | obj fields =>
      exact (Json.wellFormed_obj_iff.mp h).2 _ (Assoc.mem_of_get?_eq_some hv)
  | arr items =>
      simp only [member, arrayMember] at hv
      split_ifs at hv with hlength
      · cases hv
        rfl
      · cases hfind : (List.range items.length).find?
            (fun i => (JsNumber.ofNat i).toText = part) with
        | none => simp [hfind] at hv
        | some i =>
            rw [hfind] at hv
            exact Json.wellFormed_arr_iff.mp h _ (List.mem_of_getElem? hv)
  | _ => cases hv

theorem wellFormed_pathValue {row : Json} (h : row.WellFormed) {path : JsString} {v : Json}
    (hv : getPathValue row path = some v) : v.WellFormed := by
  unfold getPathValue at hv
  split_ifs at hv with hid
  · exact wellFormed_member h hv
  · exact wellFormed_member h hv
  · have hfold : ∀ (parts : List JsString) (cursor : Option Json),
        (∀ c, cursor = some c → c.WellFormed) →
        parts.foldl (fun cursor part => cursor.bind (member · part)) cursor = some v →
        v.WellFormed := by
      intro parts
      induction parts with
      | nil => exact fun cursor hc hfold => hc v hfold
      | cons part parts ih =>
          intro cursor hc hfold
          refine ih _ (fun c hbind => ?_) hfold
          obtain ⟨outer, houter, hmember⟩ := Option.bind_eq_some_iff.mp hbind
          exact wellFormed_member (hc outer houter) hmember
    exact hfold _ _ (fun c hc => Option.some.inj hc ▸ h) hv

theorem wellFormed_storedValue {row : Json} (h : row.WellFormed) (path : JsString) :
    (storedValue (getPathValue row path)).WellFormed := by
  cases hv : getPathValue row path with
  | none => exact rfl
  | some v => exact wellFormed_pathValue h hv

/-- Rows of one group have the same group values. -/
theorem sorted_of_rowKey {left right : Json} (hleft : left.WellFormed) (hright : right.WellFormed)
    (h : rowKey collation spec left = rowKey collation spec right) :
    ∀ path ∈ spec.groupBy, sortForKey collation (storedValue (getPathValue left path)) =
      sortForKey collation (storedValue (getPathValue right path)) := by
  have hwf : ∀ row : Json, row.WellFormed → (Json.arr (spec.groupBy.map fun path =>
      storedValue (getPathValue row path))).WellFormed := by
    intro row hrow
    refine Json.wellFormed_arr_iff.mpr fun item hitem => ?_
    obtain ⟨path, _, rfl⟩ := List.mem_map.mp hitem
    exact wellFormed_storedValue hrow path
  have hsorted := stableKey_inj collation (hwf left hleft) (hwf right hright) h
  rw [sortForKey, sortForKey, sortItems_eq_map, sortItems_eq_map, Json.arr.injEq, List.map_map,
    List.map_map] at hsorted
  exact List.map_inj_left.mp hsorted

theorem sorted_groupValues {left right : Json} (hleft : left.WellFormed)
    (hright : right.WellFormed) (h : rowKey collation spec left = rowKey collation spec right)
    (key : JsString) :
    (Assoc.get? (groupValuesOf spec.groupBy (getPathValue left)) key).map (sortForKey collation) =
      (Assoc.get? (groupValuesOf spec.groupBy (getPathValue right)) key).map
        (sortForKey collation) := by
  rw [get?_groupValuesOf, get?_groupValuesOf]
  split_ifs with hkey
  · exact congrArg some (sorted_of_rowKey hleft hright h key hkey.1)
  · rfl

/-! ## Decided metrics do not depend on the distribution -/

theorem groupRows_perm {left right : List Json} (h : left.Perm right) (k : JsString) :
    (groupRows collation spec left k).Perm (groupRows collation spec right k) :=
  h.filter _

theorem comparablesAt_perm {left right : List Json} (h : left.Perm right) (path : JsString) :
    (comparablesAt path left).Perm (comparablesAt path right) :=
  h.filterMap _

theorem MetricDecided.perm {operator : AggregateOperator} {left right : List Json}
    (h : MetricDecided collation operator left) (hperm : left.Perm right) :
    MetricDecided collation operator right := by
  have hvalues : ∀ (beats : Json → Json → Bool) (path : JsString),
      DecidedBy beats (comparablesAt path left) → DecidedBy beats (comparablesAt path right) := by
    intro beats path hdecided
    have hp := comparablesAt_perm hperm path
    exact ⟨fun v hv w hw => hdecided.oneType v (hp.mem_iff.mpr hv) w (hp.mem_iff.mpr hw),
      hdecided.decided.perm hp⟩
  cases operator with
  | min path => exact hvalues _ path h
  | max path => exact hvalues _ path h
  | _ => trivial

/-- The states of a merged bucket, when its metrics are decided. -/
theorem state_merged (hnames : PlainSpec spec) {parts : List (List Json)} {k : JsString}
    {bucket : AggregateBucket}
    (h : Assoc.get? (aggregatePartialBuckets collation spec (shardRows collation spec parts)) k =
      some bucket)
    {field : AggregateField} (hfield : field ∈ spec.fields)
    (hdecided : MetricDecided collation field.operator
      (groupRows collation spec parts.flatten k)) :
    bucket.state field =
      metricOf collation field.operator (groupRows collation spec parts.flatten k) := by
  have hcombine := foldl_combine collation field.operator
    (parts.map fun part => groupRows collation spec part k)
    (by rwa [← groupRows_flatten])
  rw [(get?_merged hnames h).2 field hfield, groupRows_flatten, ← hcombine, List.map_map]
  rfl

theorem sameGroups_of_decided (hnames : PlainSpec spec) {rows : List Json}
    (hwf : ∀ row ∈ rows, row.WellFormed) (hdecided : MetricsDecided collation spec rows)
    {parts parts' : List (List Json)} (hperm : parts.flatten.Perm rows)
    (hperm' : parts'.flatten.Perm rows) :
    SameGroups collation (mergedGroups collation spec (shardRows collation spec parts))
      (mergedGroups collation spec (shardRows collation spec parts')) := by
  have hrows : ∀ ps : List (List Json), ps.flatten.Perm rows → ∀ k,
      (groupRows collation spec rows k).Perm (groupRows collation spec ps.flatten k) :=
    fun ps hp k => groupRows_perm hp.symm k
  obtain ⟨arranged, harranged, hall⟩ := Assoc.exists_perm_forall₂
    (P := fun left right : AggregateBucket =>
      SameRow collation (left.resultRow spec) (right.resultRow spec))
    (nodup_keys_merged collation spec (shardRows collation spec parts))
    (nodup_keys_merged collation spec (shardRows collation spec parts'))
    (fun k => by
      rw [mem_keys_merged collation hnames, mem_keys_merged collation hnames]
      exact exists_congr fun row => and_congr_left' (hperm.trans hperm'.symm).mem_iff)
    (fun k left right hleft hright => by
      obtain ⟨⟨first, hfirst, hgroups⟩, _⟩ := get?_merged hnames hleft
      obtain ⟨⟨first', hfirst', hgroups'⟩, _⟩ := get?_merged hnames hright
      obtain ⟨hmem, hkey⟩ := (Grouping.mem_rowsOf _).mp hfirst
      obtain ⟨hmem', hkey'⟩ := (Grouping.mem_rowsOf _).mp hfirst'
      refine sameRow_of_states (fun key => ?_) fun field hfield => ?_
      · rw [hgroups, hgroups']
        exact sorted_groupValues (hwf first (hperm.mem_iff.mp hmem))
          (hwf first' (hperm'.mem_iff.mp hmem')) (hkey.trans hkey'.symm) key
      · have hk := hdecided field hfield k
        rw [state_merged hnames hleft hfield (hk.perm (hrows parts hperm k)),
          state_merged hnames hright hfield (hk.perm (hrows parts' hperm' k)),
          ← metricOf_perm collation hk (hrows parts hperm k),
          ← metricOf_perm collation hk (hrows parts' hperm' k)])
  have hmap := harranged.map fun bucket => bucket.2.resultRow spec
  refine ⟨_, hmap, ?_⟩
  refine List.forall₂_map_left_iff.mpr (List.forall₂_map_right_iff.mpr ?_)
  exact hall.imp fun _ _ h => h.2

/-! ## Undecided metrics depend on the distribution -/

/-- What a result row shows of its group. -/
theorem get?_resultRow_group (hnames : PlainSpec spec) {bucket : AggregateBucket} {first : Json}
    (h : bucket.groupValues = groupValuesOf spec.groupBy (getPathValue first)) {path : JsString}
    (hpath : path ∈ spec.groupBy) :
    Assoc.get? (bucket.resultRow spec).own path =
      some (.json (storedValue (getPathValue first path))) := by
  obtain ⟨_, hproto, hresult⟩ := hnames.groups path hpath
  rw [resultRow_eq, get?_writeResults_of_notMem _ _ hresult, get?_json, h, get?_groupValuesOf,
    if_pos ⟨hpath, hproto⟩]
  rfl

/-- Rows that show the same group values have the same key. -/
theorem rowKey_of_sameRow (hnames : PlainSpec spec) {left right : AggregateBucket}
    {first first' : Json}
    (hleft : left.groupValues = groupValuesOf spec.groupBy (getPathValue first))
    (hright : right.groupValues = groupValuesOf spec.groupBy (getPathValue first'))
    (h : SameRow collation (left.resultRow spec) (right.resultRow spec)) :
    rowKey collation spec first = rowKey collation spec first' := by
  have hvalues : spec.groupBy.map (sortForKey collation ∘ fun path =>
      storedValue (getPathValue first path)) = spec.groupBy.map (sortForKey collation ∘ fun path =>
        storedValue (getPathValue first' path)) := by
    refine List.map_congr_left fun path hpath => ?_
    have hrow := h path
    rw [get?_resultRow_group hnames hleft hpath, get?_resultRow_group hnames hright hpath] at hrow
    simpa [ResultValue.sorted] using hrow
  rw [rowKey, rowKey, groupKeyOf, groupKeyOf, stableKey, stableKey, sortForKey, sortForKey,
    sortItems_eq_map, sortItems_eq_map, List.map_map, List.map_map, hvalues]

theorem exists_of_forall₂ {α β : Type} {R : α → β → Prop} {xs : List α} {ys : List β}
    (h : List.Forall₂ R xs ys) {x : α} (hx : x ∈ xs) : ∃ y ∈ ys, R x y := by
  induction h with
  | nil => cases hx
  | cons hhead _ ih =>
      rcases List.mem_cons.mp hx with rfl | hmem
      · exact ⟨_, List.mem_cons_self, hhead⟩
      · obtain ⟨y, hy, hr⟩ := ih hmem
        exact ⟨y, List.mem_cons_of_mem _ hy, hr⟩

/-- Where the results are the same, so is every metric of every group. -/
theorem finishField_eq_of_sameGroups (hnames : PlainSpec spec) {parts parts' : List (List Json)}
    (h : SameGroups collation (mergedGroups collation spec (shardRows collation spec parts))
      (mergedGroups collation spec (shardRows collation spec parts')))
    {k : JsString} {left right : AggregateBucket}
    (hleft : Assoc.get? (aggregatePartialBuckets collation spec
      (shardRows collation spec parts)) k = some left)
    (hright : Assoc.get? (aggregatePartialBuckets collation spec
      (shardRows collation spec parts')) k = some right)
    {field : AggregateField} (hfield : field ∈ spec.fields)
    (hproto : field.resultKey ≠ js "__proto__") :
    (finishField (left.state field)).sorted collation =
      (finishField (right.state field)).sorted collation := by
  obtain ⟨arranged, hperm, hall⟩ := h
  have hmem : left.resultRow spec ∈ arranged := hperm.mem_iff.mp
    (List.mem_map.mpr ⟨(k, left), Assoc.mem_of_get?_eq_some hleft, rfl⟩)
  obtain ⟨row, hrow, hsame⟩ : ∃ row ∈ mergedGroups collation spec
      (shardRows collation spec parts'), SameRow collation (left.resultRow spec) row :=
    exists_of_forall₂ hall hmem
  obtain ⟨⟨k', bucket⟩, hbucket, rfl⟩ := List.mem_map.mp hrow
  have hget := Assoc.get?_eq_some_of_mem (nodup_keys_merged collation spec _) hbucket
  obtain ⟨⟨first, hfirst, hgroups⟩, _⟩ := get?_merged hnames hleft
  obtain ⟨⟨first', hfirst', hgroups'⟩, _⟩ := get?_merged hnames hget
  have hkey := rowKey_of_sameRow hnames hgroups hgroups' hsame
  rw [((Grouping.mem_rowsOf _).mp hfirst).2, ((Grouping.mem_rowsOf _).mp hfirst').2] at hkey
  subst hkey
  rw [hright] at hget
  cases hget
  have hvalue := hsame field.resultKey
  rw [resultRow_eq, resultRow_eq, get?_writeResults _ hnames.metrics _ hfield hproto,
    get?_writeResults _ hnames.metrics _ hfield hproto] at hvalue
  simpa using hvalue

theorem combine_initial (operator : AggregateOperator) (rows : List Json) :
    combine collation operator (initialState operator) (metricOf collation operator rows) =
      metricOf collation operator rows := by
  have hbest : ∀ (beats : Json → Json → Bool) (path : JsString),
      stepBest beats none (Best.bestOf beats (comparablesAt path rows)) =
        Best.bestOf beats (comparablesAt path rows) := by
    intro beats path
    cases hb : Best.bestOf beats (comparablesAt path rows) with
    | none => rfl
    | some b =>
        have hcomparable := isComparable_of_mem (Best.mem_of_bestOf hb)
        simp [stepBest, hcomparable]
  cases operator with
  | min path => exact congrArg FieldState.best (hbest _ path)
  | max path => exact congrArg FieldState.best (hbest _ path)
  | count path => cases path <;> simp [combine, initialState, metricOf]
  | _ => simp [combine, initialState, metricOf]

/-- The merged state of a group whose rows are all on one shard. -/
theorem state_singleton (hnames : PlainSpec spec) {rows : List Json} {k : JsString}
    {bucket : AggregateBucket}
    (h : Assoc.get? (aggregatePartialBuckets collation spec (shardRows collation spec [rows])) k =
      some bucket)
    {field : AggregateField} (hfield : field ∈ spec.fields) :
    bucket.state field = metricOf collation field.operator (groupRows collation spec rows k) := by
  rw [(get?_merged hnames h).2 field hfield]
  exact combine_initial field.operator _

theorem sorted_scalar {v : Json} (h : isComparable v = true) : sortForKey collation v = v := by
  cases v <;> first | rfl | cases h

/-- The best of a list that starts with `v` has the type of `v`. -/
theorem typeofJson_bestOf {beats : Json → Json → Bool}
    (hbeats : ∀ u v, beats u v = true → typeofJson u = typeofJson v) {v b : Json}
    {values : List Json} (h : Best.bestOf beats (v :: values) = some b) :
    typeofJson b = typeofJson v := by
  induction values using List.reverseRecOn generalizing b with
  | nil => cases h; rfl
  | append_singleton values w ih =>
      rw [← List.cons_append, Best.bestOf_concat] at h
      cases hbest : Best.bestOf beats (v :: values) with
      | none => cases Best.bestOf_eq_none_iff.mp hbest
      | some a =>
          rw [hbest, Best.step] at h
          split_ifs at h with hwa
          · cases h
            exact (hbeats w a hwa).trans (ih hbest)
          · cases h
            exact ih hbest

theorem typeofJson_of_lessThan {u v : Json} (h : sameTypeLessThan collation u v = true) :
    typeofJson u = typeofJson v := by
  unfold sameTypeLessThan at h
  rw [Bool.and_eq_true, decide_eq_true_iff] at h
  exact h.1

/-- Bests that finish as the same value are the same. -/
theorem best_of_finish {left right : Option Json}
    (hleft : ∀ v, left = some v → isComparable v = true)
    (hright : ∀ v, right = some v → isComparable v = true)
    (h : (finishField (.best left)).sorted collation =
      (finishField (.best right)).sorted collation) : left = right := by
  simp only [finishField, ResultValue.sorted, ResultValue.json.injEq] at h
  cases left with
  | none =>
      cases right with
      | none => rfl
      | some w =>
          have hw := hright w rfl
          rw [Option.getD_none, Option.getD_some, sorted_scalar hw] at h
          rw [← h] at hw
          cases hw
  | some v =>
      have hv := hleft v rfl
      rw [Option.getD_some, sorted_scalar hv] at h
      cases right with
      | none =>
          rw [h] at hv
          cases hv
      | some w =>
          rw [Option.getD_some, sorted_scalar (hright w rfl)] at h
          rw [h]

/-- Where the results never depend on the distribution, the values of a `$min` or `$max` are
decided: with all rows on one shard and any of them in front, the result stays the same. -/
theorem decidedBy_of_distributionFree (hnames : PlainSpec spec) {rows : List Json}
    (hfree : DistributionFree collation spec rows) {field : AggregateField}
    (hfield : field ∈ spec.fields) {beats : Json → Json → Bool} {path : JsString}
    (hmetric : ∀ rs, metricOf collation field.operator rs =
      .best (Best.bestOf beats (comparablesAt path rs)))
    (hproto : field.resultKey ≠ js "__proto__")
    (hbeats : ∀ u v, beats u v = true → typeofJson u = typeofJson v) (k : JsString) :
    DecidedBy beats (comparablesAt path (groupRows collation spec rows k)) := by
  -- any row may come first without a change of the result, as any shard may answer first
  have harrange : ∀ v ∈ comparablesAt path (groupRows collation spec rows k), ∃ rest,
      (v :: rest).Perm (comparablesAt path (groupRows collation spec rows k)) ∧
      Best.bestOf beats (v :: rest) =
        Best.bestOf beats (comparablesAt path (groupRows collation spec rows k)) := by
    intro v hv
    obtain ⟨row, hrow, hvalue⟩ := List.mem_filterMap.mp hv
    obtain ⟨hmem, hkey⟩ := (Grouping.mem_rowsOf _).mp hrow
    have hperm := List.perm_cons_erase hmem
    have hvalues : comparablesAt path (groupRows collation spec (row :: rows.erase row) k) =
        v :: comparablesAt path (groupRows collation spec (rows.erase row) k) := by
      rw [groupRows, Grouping.rowsOf, List.filter_cons_of_pos (by simpa using hkey)]
      exact List.filterMap_cons_some hvalue
    have hsame := (sameGroups_sorted_iff _ _).mp
      (hfree [row :: rows.erase row] (by simpa using hperm.symm))
    have hsingle : partialRows collation spec rows = shardRows collation spec [rows] := by
      simp [shardRows]
    rw [hsingle] at hsame
    obtain ⟨left, hleft⟩ := Option.isSome_iff_exists.mp (Assoc.get?_isSome_iff.mpr
      ((mem_keys_merged collation hnames [row :: rows.erase row]).mpr
        ⟨row, by simp, hkey⟩))
    obtain ⟨right, hright⟩ := Option.isSome_iff_exists.mp (Assoc.get?_isSome_iff.mpr
      ((mem_keys_merged collation hnames [rows]).mpr
        ⟨row, by simpa using hmem, hkey⟩))
    have hfinish := finishField_eq_of_sameGroups hnames hsame hleft hright hfield hproto
    rw [state_singleton hnames hleft hfield, state_singleton hnames hright hfield, hmetric,
      hmetric, hvalues] at hfinish
    have hcomparable := isComparable_of_mem hv
    refine ⟨_, ?_, best_of_finish (fun w hw => ?_) (fun w hw => ?_) hfinish⟩
    · rw [← hvalues]
      exact comparablesAt_perm (groupRows_perm hperm.symm k) path
    · rcases List.mem_cons.mp (Best.mem_of_bestOf hw) with rfl | hrest
      · exact hcomparable
      · exact isComparable_of_mem hrest
    · exact isComparable_of_mem (Best.mem_of_bestOf hw)
  constructor
  · intro v hv w hw
    obtain ⟨rest, _, hbest⟩ := harrange v hv
    obtain ⟨rest', _, hbest'⟩ := harrange w hw
    obtain ⟨b, hb⟩ : ∃ b, Best.bestOf beats (v :: rest) = some b :=
      Option.ne_none_iff_exists'.mp fun hnone => by cases Best.bestOf_eq_none_iff.mp hnone
    have hb' : Best.bestOf beats (w :: rest') = some b := hbest'.trans (hbest.symm.trans hb)
    rw [← typeofJson_bestOf hbeats hb, ← typeofJson_bestOf hbeats hb']
  · intro v hv w hw hunbeaten hunbeaten'
    obtain ⟨rest, hperm, hbest⟩ := harrange v hv
    obtain ⟨rest', hperm', hbest'⟩ := harrange w hw
    rw [Best.bestOf_cons_unbeaten fun u hu =>
      hunbeaten u (hperm.mem_iff.mp (List.mem_cons_of_mem _ hu))] at hbest
    rw [Best.bestOf_cons_unbeaten fun u hu =>
      hunbeaten' u (hperm'.mem_iff.mp (List.mem_cons_of_mem _ hu))] at hbest'
    exact Option.some.inj (hbest.trans hbest'.symm)

theorem decided_of_distributionFree (hnames : PlainSpec spec) {rows : List Json}
    (hfree : DistributionFree collation spec rows) : MetricsDecided collation spec rows := by
  intro field hfield k
  have hproto : field.writtenKeys = [field.resultKey] → field.resultKey ≠ js "__proto__" :=
    fun hkeys heq => hnames.ownWritten (mem_writtenKeys hfield (by rw [hkeys, heq]; simp))
  unfold MetricDecided
  cases hop : field.operator with
  | min path =>
      exact decidedBy_of_distributionFree hnames hfree hfield (fun rs => by rw [hop]; rfl)
        (hproto (by rw [AggregateField.writtenKeys, hop]))
        (fun u v h => typeofJson_of_lessThan h) k
  | max path =>
      exact decidedBy_of_distributionFree hnames hfree hfield (fun rs => by rw [hop]; rfl)
        (hproto (by rw [AggregateField.writtenKeys, hop]))
        (fun u v h => (typeofJson_of_lessThan h).symm) k
  | _ => trivial

/-! ## The distribution of the rows -/

/-- Numbers are decided: two of them that nothing is below are equal. -/
theorem decidedBy_of_numbers {path : JsString} {rows : List Json}
    (h : ∀ v ∈ comparablesAt path rows, ∃ n, v = .num n) :
    DecidedBy (beatsMin collation) (comparablesAt path rows) ∧
      DecidedBy (beatsMax collation) (comparablesAt path rows) := by
  have htype : ∀ v ∈ comparablesAt path rows, ∀ w ∈ comparablesAt path rows,
      typeofJson v = typeofJson w := by
    intro v hv w hw
    obtain ⟨a, rfl⟩ := h v hv
    obtain ⟨b, rfl⟩ := h w hw
    rfl
  have hequal : ∀ v ∈ comparablesAt path rows, ∀ w ∈ comparablesAt path rows,
      sameTypeLessThan collation v w = false → sameTypeLessThan collation w v = false → v = w := by
    intro v hv w hw hvw hwv
    obtain ⟨a, rfl⟩ := h v hv
    obtain ⟨b, rfl⟩ := h w hw
    rw [lessThan_num, decide_eq_false_iff_not, not_lt] at hvw hwv
    rw [JsNumber.toRat_injective (le_antisymm hwv hvw)]
  exact ⟨⟨htype, fun v hv w hw hvw hwv => hequal v hv w hw (hwv v hv) (hvw w hw)⟩,
    ⟨htype, fun v hv w hw hvw hwv => hequal v hv w hw (hvw w hw) (hwv v hv)⟩⟩

end

/-- `{ groupBy: "g", fields: { n: { $count: true }, low: { $min: "x" } } }` -/
def lowSpec : Json :=
  .obj [(js "groupBy", .str (js "g")), (js "fields", .obj [
    (js "n", .obj [(js "$count", .bool true)]), (js "low", .obj [(js "$min", .str (js "x"))])])]

def lowNormalized : AggregateSpec where
  groupBy := [js "g"]
  fields := [⟨js "n", .count none⟩, ⟨js "low", .min (js "x")⟩]
  sort := []
  page := 1
  pageSize := 20

theorem normalize_lowSpec : normalizeAggregateSpec lowSpec = .ok lowNormalized := by decide

theorem namesApart_low : NamesApart lowNormalized :=
  ⟨by decide, by decide, by decide⟩

def lowRow (group : JsString) (x : Json) : Json :=
  .obj [(js "g", .str group), (js "x", x)]

end ObjyDb
