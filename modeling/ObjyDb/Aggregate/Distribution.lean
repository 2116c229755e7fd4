import ObjyDb.Aggregate.Metrics

/-!
# Distribution — aggregating shards and merging

The groups of the merged partial rows do not depend on how the rows are distributed over the
shards, nor on the order in which the shards answer, exactly when every `$min` and `$max` of every
group is decided (`distributionFree_iff`).  Partial rows hold groups and metrics in one flat
object, so their names must be apart.
-/

namespace ObjyDb

open Js

/-! ## Names -/

/-- The names under which a metric is written into a partial row. -/
def AggregateField.writtenKeys (field : AggregateField) : List JsString :=
  match field.operator with
  | .avg _ => [avgSumKey field.resultKey, avgCountKey field.resultKey]
  | _ => [field.resultKey]

def AggregateSpec.writtenKeys (spec : AggregateSpec) : List JsString :=
  spec.fields.flatMap AggregateField.writtenKeys

def AggregateOperator.paths : AggregateOperator → List JsString
  | .sum path => [path]
  | .min path => [path]
  | .max path => [path]
  | .avg path => [path]
  | .count none => []
  | .count (some path) => [path]

/-- The paths a specification reads. -/
def AggregateSpec.paths (spec : AggregateSpec) : List JsString :=
  spec.groupBy ++ spec.fields.flatMap fun field => field.operator.paths

/-- No two things written into a row share a name, and none is written as `__proto__`. -/
structure NamesApart (spec : AggregateSpec) : Prop where
  written : spec.writtenKeys.Nodup
  ownWritten : js "__proto__" ∉ spec.writtenKeys
  groups : ∀ path ∈ spec.groupBy, path ∉ spec.writtenKeys ∧ path ≠ js "__proto__" ∧
    path ∉ spec.fields.map AggregateField.resultKey

/-- A specification as normalized, whose names are apart. -/
structure PlainSpec (spec : AggregateSpec) : Prop extends NamesApart spec where
  metrics : (spec.fields.map AggregateField.resultKey).Nodup

/-- The members an array inherits, besides those of every object. -/
def arrayPrototypeNames : List JsString :=
  [js "at", js "concat", js "copyWithin", js "fill", js "find", js "findIndex", js "findLast",
    js "findLastIndex", js "lastIndexOf", js "pop", js "push", js "reverse", js "shift",
    js "unshift", js "slice", js "sort", js "splice", js "includes", js "indexOf", js "join",
    js "keys", js "entries", js "values", js "forEach", js "filter", js "flat", js "flatMap",
    js "map", js "every", js "some", js "reduce", js "reduceRight", js "toReversed",
    js "toSorted", js "toSpliced", js "with"]

def inheritedNames : Json → List JsString
  | .obj _ => objectPrototypeNames
  | .arr _ => objectPrototypeNames ++ arrayPrototypeNames
  | _ => []

/-- Reading the parts one after the other meets no inherited member. -/
def readsOwn (cursor : Json) : List JsString → Bool
  | [] => true
  | part :: rest =>
      match member cursor part with
      | some next => readsOwn next rest
      | none => decide (part ∉ inheritedNames cursor)

/-- Rows as parsed from JSON, whose paths of the specification read own members only. -/
structure PlainRows (spec : AggregateSpec) (rows : List Json) : Prop where
  wellFormed : ∀ row ∈ rows, row.WellFormed
  readsOwn : ∀ row ∈ rows, ∀ path ∈ spec.paths, readsOwn row (split (unit '.') path) = true

/-! ## What a partial row holds -/

/-- The entries a metric's state is written as. -/
def writtenEntries (state : FieldState) (field : AggregateField) : List (JsString × Json) :=
  match field.operator, state with
  | .sum _, .sum sum => [(field.resultKey, .num sum)]
  | .avg _, .avg sum count =>
      [(avgSumKey field.resultKey, .num sum), (avgCountKey field.resultKey, .num count)]
  | .min _, .best best => [(field.resultKey, best.getD .null)]
  | .max _, .best best => [(field.resultKey, best.getD .null)]
  | .count _, .count count => [(field.resultKey, .num count)]
  | _, _ => []

def PartialRow.assignAll (row : PartialRow) (entries : List (JsString × Json)) : PartialRow :=
  entries.foldl (fun row entry => row.assign entry.1 entry.2) row

theorem mem_writtenKeys {spec : AggregateSpec} {field : AggregateField} (h : field ∈ spec.fields)
    {key : JsString} (hkey : key ∈ field.writtenKeys) : key ∈ spec.writtenKeys :=
  List.mem_flatMap.mpr ⟨field, h, hkey⟩

theorem writePartialField_eq (out : PartialRow) (state : FieldState) (field : AggregateField) :
    writePartialField out state field = out.assignAll (writtenEntries state field) := by
  unfold writePartialField writtenEntries PartialRow.assignAll
  cases field.operator <;> cases state <;> rfl

theorem keys_writtenEntries (collation : Collation) (field : AggregateField) (rows : List Json) :
    (writtenEntries (metricOf collation field.operator rows) field).map Prod.fst =
      field.writtenKeys := by
  unfold writtenEntries AggregateField.writtenKeys
  cases hop : field.operator with
  | count path => cases path <;> rfl
  | _ => rfl

theorem get?_assign (row : PartialRow) {key : JsString} (hkey : key ≠ js "__proto__")
    (value : Json) (k : JsString) :
    Assoc.get? (row.assign key value).own k =
      if key = k then some value else Assoc.get? row.own k := by
  rw [PartialRow.assign, Assigned.assign, if_neg hkey, Assoc.get?_set]

theorem get?_assignAll (row : PartialRow) {entries : List (JsString × Json)}
    (hproto : js "__proto__" ∉ entries.map Prod.fst) (hnodup : (entries.map Prod.fst).Nodup)
    (k : JsString) :
    Assoc.get? (row.assignAll entries).own k =
      (Assoc.get? entries k).or (Assoc.get? row.own k) := by
  induction entries generalizing row with
  | nil => rfl
  | cons entry entries ih =>
      obtain ⟨key, value⟩ := entry
      rw [List.map_cons, List.mem_cons, not_or] at hproto
      obtain ⟨hnotMem, hrest⟩ := List.nodup_cons.mp hnodup
      change Assoc.get? ((row.assign key value).assignAll entries).own k = _
      rw [ih (row.assign key value) hproto.2 hrest, get?_assign row (Ne.symm hproto.1),
        Assoc.get?_cons]
      by_cases hk : key = k
      · have hnone : Assoc.get? entries k = none := Assoc.get?_eq_none_iff.mpr (hk ▸ hnotMem)
        simp [hk, hnone]
      · simp [hk]

/-- Reading back what a part has written merges the part's state. -/
theorem mergePartialField_eq (collation : Collation) (state : FieldState) (field : AggregateField)
    (rows : List Json) {row : PartialRow}
    (hread : ∀ entry ∈ writtenEntries (metricOf collation field.operator rows) field,
      row.read entry.1 = some entry.2) :
    mergePartialField collation state field row =
      combine collation field.operator state (metricOf collation field.operator rows) := by
  have hbest : ∀ beats s best, stepBest beats s (some (Option.getD best .null)) =
      stepBest beats s best := by
    intro beats s best
    cases best with
    | none => simp [stepBest, isComparable]
    | some v => rfl
  unfold mergePartialField combine
  unfold writtenEntries at hread
  cases hop : field.operator with
  | sum path =>
      rw [hop] at hread
      cases state <;> simp_all [metricOf, addNumber]
  | avg path =>
      rw [hop] at hread
      cases state <;> simp_all [metricOf, addNumber]
  | min path =>
      rw [hop] at hread
      cases state <;> simp_all [metricOf]
  | max path =>
      rw [hop] at hread
      cases state <;> simp_all [metricOf]
  | count path =>
      rw [hop] at hread
      cases path <;> cases state <;> simp_all [metricOf, addNumber]

/-! ## The states of a bucket -/

theorem get?_updateState (update : FieldState → AggregateField → FieldState)
    (states : List (JsString × FieldState)) (field : AggregateField) (key : JsString) :
    Assoc.get? (updateState update states field) key =
      if field.resultKey = key then (Assoc.get? states key).map (update · field)
      else Assoc.get? states key := by
  unfold updateState
  by_cases hkey : field.resultKey = key
  · subst hkey
    cases hget : Assoc.get? states field.resultKey with
    | none => simp [hget]
    | some state => simp
  · cases hget : Assoc.get? states field.resultKey with
    | none => simp [hkey]
    | some state => simp [hkey]

theorem get?_updateStates_of_notMem (update : FieldState → AggregateField → FieldState)
    {fields : List AggregateField} (states : List (JsString × FieldState)) {key : JsString}
    (h : key ∉ fields.map AggregateField.resultKey) :
    Assoc.get? (fields.foldl (updateState update) states) key = Assoc.get? states key := by
  induction fields generalizing states with
  | nil => rfl
  | cons field fields ih =>
      rw [List.map_cons, List.mem_cons, not_or] at h
      rw [List.foldl_cons, ih _ h.2, get?_updateState, if_neg (Ne.symm h.1)]

theorem get?_updateStates (update : FieldState → AggregateField → FieldState)
    {fields : List AggregateField} (states : List (JsString × FieldState))
    (hnodup : (fields.map AggregateField.resultKey).Nodup) {field : AggregateField}
    (h : field ∈ fields) :
    Assoc.get? (fields.foldl (updateState update) states) field.resultKey =
      (Assoc.get? states field.resultKey).map (update · field) := by
  induction fields generalizing states with
  | nil => cases h
  | cons f fields ih =>
      obtain ⟨hnotMem, hrest⟩ := List.nodup_cons.mp hnodup
      rw [List.foldl_cons]
      rcases List.mem_cons.mp h with rfl | hmem
      · rw [get?_updateStates_of_notMem update _ hnotMem, get?_updateState, if_pos rfl]
      · have hne : f.resultKey ≠ field.resultKey := fun heq =>
          hnotMem (heq ▸ List.mem_map_of_mem hmem)
        rw [ih _ hrest hmem, get?_updateState, if_neg hne]

/-- The states of the metrics after the rows of a bucket, each metric by itself. -/
theorem get?_foldl_step {ρ : Type} {spec : AggregateSpec}
    (hnodup : (spec.fields.map AggregateField.resultKey).Nodup) {field : AggregateField}
    (h : field ∈ spec.fields) (update : ρ → FieldState → AggregateField → FieldState)
    (groupValues : Fields) (rows : List ρ) :
    Assoc.get? (rows.foldl (fun bucket row => bucket.step spec.fields (update row))
      ⟨groupValues, makeFieldState spec.fields⟩ : AggregateBucket).fields field.resultKey =
      some (rows.foldl (fun state row => update row state field)
        (initialState field.operator)) := by
  induction rows using List.reverseRecOn with
  | nil =>
      refine Assoc.get?_eq_some_of_mem ?_ (List.mem_map_of_mem (f := fun f : AggregateField =>
        (f.resultKey, initialState f.operator)) h)
      simpa [Assoc.keys, makeFieldState, Function.comp_def] using hnodup
  | append_singleton rows row ih =>
      rw [List.foldl_append, List.foldl_append, List.foldl_cons, List.foldl_cons, List.foldl_nil,
        List.foldl_nil]
      exact (get?_updateStates (update row) _ hnodup h).trans (by rw [ih]; rfl)

theorem groupValues_foldl_step {ρ : Type} (fields : List AggregateField)
    (update : ρ → FieldState → AggregateField → FieldState) (bucket : AggregateBucket)
    (rows : List ρ) :
    (rows.foldl (fun bucket row => bucket.step fields (update row)) bucket).groupValues =
      bucket.groupValues := by
  induction rows generalizing bucket with
  | nil => rfl
  | cons row rows ih => exact ih _

/-! ## Group values -/

theorem get?_groupValuesOf (groupBy : List JsString) (read : JsString → Option Json)
    (path : JsString) :
    Assoc.get? (groupValuesOf groupBy read) path =
      if path ∈ groupBy ∧ path ≠ js "__proto__" then some (storedValue (read path)) else none := by
  unfold groupValuesOf
  induction groupBy using List.reverseRecOn with
  | nil => simp
  | append_singleton groupBy last ih =>
      rw [List.foldl_append, List.foldl_cons, List.foldl_nil]
      by_cases hproto : last = js "__proto__"
      · rw [if_pos hproto, ih]
        by_cases hpath : path = js "__proto__" <;> simp_all
      · rw [if_neg hproto, Assoc.get?_set, ih]
        by_cases heq : last = path
        · subst heq
          simp [hproto]
        · simp [heq, Ne.symm heq]

theorem groupValuesOf_congr {groupBy : List JsString} {read read' : JsString → Option Json}
    (h : ∀ path ∈ groupBy, storedValue (read path) = storedValue (read' path)) :
    groupValuesOf groupBy read = groupValuesOf groupBy read' := by
  unfold groupValuesOf
  refine List.foldl_ext _ _ _ fun values path hpath => ?_
  rw [h path hpath]

theorem groupKeyOf_congr (collation : Collation) {groupBy : List JsString}
    {read read' : JsString → Option Json}
    (h : ∀ path ∈ groupBy, storedValue (read path) = storedValue (read' path)) :
    groupKeyOf collation groupBy read = groupKeyOf collation groupBy read' := by
  unfold groupKeyOf
  rw [List.map_congr_left h]

/-! ## The buckets of one shard -/

/-- The group key of a row. -/
def rowKey (collation : Collation) (spec : AggregateSpec) (row : Json) : JsString :=
  groupKeyOf collation spec.groupBy (getPathValue row)

/-- The rows of one group. -/
def groupRows (collation : Collation) (spec : AggregateSpec) (rows : List Json) (k : JsString) :
    List Json :=
  Grouping.rowsOf (rowKey collation spec) rows k

/-- The bucket holds the group values of `first` and the metrics of `rows`. -/
structure Summarizes (collation : Collation) (spec : AggregateSpec) (bucket : AggregateBucket)
    (first : Json) (rows : List Json) : Prop where
  groupValues : bucket.groupValues = groupValuesOf spec.groupBy (getPathValue first)
  states : ∀ field ∈ spec.fields,
    bucket.state field = metricOf collation field.operator rows

section

variable (collation : Collation) {spec : AggregateSpec}

/-- The bucket of a group summarizes its rows. -/
theorem get?_aggregateBuckets (hnodup : (spec.fields.map AggregateField.resultKey).Nodup)
    {rows : List Json} {k : JsString} {bucket : AggregateBucket}
    (h : Assoc.get? (aggregateBuckets collation spec rows) k = some bucket) :
    ∃ first, (groupRows collation spec rows k).head? = some first ∧
      Summarizes collation spec bucket first (groupRows collation spec rows k) := by
  rw [aggregateBuckets, Grouping.get?_group] at h
  obtain ⟨first, hfirst, rfl⟩ := Option.map_eq_some_iff.mp h
  refine ⟨first, hfirst, groupValues_foldl_step .., fun field hfield => ?_⟩
  have hget := get?_foldl_step hnodup hfield
    (fun row state field => stepField collation state field row)
    (groupValuesOf spec.groupBy (getPathValue first)) (groupRows collation spec rows k)
  exact (congrArg (Option.getD · _) hget).trans (foldl_stepField ..)

theorem mem_keys_aggregateBuckets {rows : List Json} {k : JsString} :
    k ∈ Assoc.keys (aggregateBuckets collation spec rows) ↔
      ∃ row ∈ rows, rowKey collation spec row = k :=
  Grouping.mem_keys_group ..

theorem nodup_keys_aggregateBuckets (rows : List Json) :
    (Assoc.keys (aggregateBuckets collation spec rows)).Nodup :=
  Grouping.nodup_keys_group ..

/-! ## Reading a partial row -/

variable {collation}

/-- The entries of all metrics. -/
def metricEntries (collation : Collation) (spec : AggregateSpec) (rows : List Json) :
    List (JsString × Json) :=
  spec.fields.flatMap fun field =>
    writtenEntries (metricOf collation field.operator rows) field

theorem keys_metricEntries (collation : Collation) (rows : List Json) :
    (metricEntries collation spec rows).map Prod.fst = spec.writtenKeys := by
  simp only [metricEntries, List.map_flatMap, keys_writtenEntries, AggregateSpec.writtenKeys]

theorem partialRow_eq {bucket : AggregateBucket} {first : Json} {rows : List Json}
    (h : Summarizes collation spec bucket first rows) :
    bucket.partialRow spec =
      PartialRow.assignAll ⟨bucket.groupValues, false⟩ (metricEntries collation spec rows) := by
  have hfold : ∀ fields : List AggregateField, fields ⊆ spec.fields → ∀ out : PartialRow,
      fields.foldl (fun out field => writePartialField out (bucket.state field) field) out =
        out.assignAll (fields.flatMap fun field =>
          writtenEntries (metricOf collation field.operator rows) field) := by
    intro fields hsub out
    induction fields generalizing out with
    | nil => rfl
    | cons field fields ih =>
        rw [List.foldl_cons, List.flatMap_cons, PartialRow.assignAll, List.foldl_append,
          ih (fun f hf => hsub (List.mem_cons_of_mem _ hf)), writePartialField_eq,
          h.states field (hsub List.mem_cons_self)]
        rfl
  exact hfold spec.fields (List.Subset.refl _) _

theorem read_of_get? {row : PartialRow} {key : JsString} {value : Json}
    (h : Assoc.get? row.own key = some value) : row.read key = some value := by
  rw [PartialRow.read, h]

/-- A partial row reads the group values under their paths. -/
theorem read_group (hnames : PlainSpec spec) {bucket : AggregateBucket} {first : Json}
    {rows : List Json} (h : Summarizes collation spec bucket first rows) {path : JsString}
    (hpath : path ∈ spec.groupBy) :
    (bucket.partialRow spec).read path = some (storedValue (getPathValue first path)) := by
  obtain ⟨hwritten, hproto, _⟩ := hnames.groups path hpath
  have hnone : Assoc.get? (metricEntries collation spec rows) path = none := by
    refine Assoc.get?_eq_none_iff.mpr ?_
    rwa [Assoc.keys, keys_metricEntries]
  refine read_of_get? ?_
  rw [partialRow_eq h, get?_assignAll _ (keys_metricEntries collation rows ▸ hnames.ownWritten)
    (keys_metricEntries collation rows ▸ hnames.written), hnone, Option.none_or, h.groupValues,
    get?_groupValuesOf, if_pos ⟨hpath, hproto⟩]

/-- A partial row reads back what the metrics have written. -/
theorem read_metric (hnames : PlainSpec spec) {bucket : AggregateBucket} {first : Json}
    {rows : List Json} (h : Summarizes collation spec bucket first rows) {field : AggregateField}
    (hfield : field ∈ spec.fields) {entry : JsString × Json}
    (hentry : entry ∈ writtenEntries (metricOf collation field.operator rows) field) :
    (bucket.partialRow spec).read entry.1 = some entry.2 := by
  have hmem : entry ∈ metricEntries collation spec rows :=
    List.mem_flatMap.mpr ⟨field, hfield, hentry⟩
  have hkeys := hnames.written
  rw [← keys_metricEntries collation rows] at hkeys
  have hget : Assoc.get? (metricEntries collation spec rows) entry.1 = some entry.2 :=
    Assoc.get?_eq_some_of_mem hkeys hmem
  refine read_of_get? ?_
  rw [partialRow_eq h, get?_assignAll _ (keys_metricEntries collation rows ▸ hnames.ownWritten) hkeys, hget,
    Option.some_or]

/-! ## The buckets of the merge -/

/-- The partial rows of the shards. -/
def shardRows (collation : Collation) (spec : AggregateSpec) (parts : List (List Json)) :
    List PartialRow :=
  parts.flatMap (partialRows collation spec)

/-- A part without rows of a group leaves the state of its metrics alone. -/
theorem combine_nil (operator : AggregateOperator) (state : FieldState) :
    combine collation operator state (metricOf collation operator []) = state := by
  cases operator with
  | count path =>
      cases path <;> cases state <;> simp [combine, metricOf, countOf, presentAt]
  | _ =>
      cases state <;>
        simp [combine, metricOf, numbersAt, countOf, comparablesAt, stepBest, Best.bestOf]

theorem head?_mem_groupRows {rows : List Json} {k : JsString} {first : Json}
    (h : (groupRows collation spec rows k).head? = some first) :
    first ∈ rows ∧ rowKey collation spec first = k :=
  (Grouping.mem_rowsOf _).mp (List.mem_of_mem_head? h)

/-- A partial row has the key of its group. -/
theorem key_partialRow (hnames : PlainSpec spec) {rows : List Json}
    {bucket : JsString × AggregateBucket} (h : bucket ∈ aggregateBuckets collation spec rows) :
    groupKeyOf collation spec.groupBy (bucket.2.partialRow spec).read = bucket.1 := by
  have hget := Assoc.get?_eq_some_of_mem (nodup_keys_aggregateBuckets collation rows) h
  obtain ⟨first, hfirst, hsummary⟩ := get?_aggregateBuckets collation hnames.metrics hget
  rw [← (head?_mem_groupRows hfirst).2]
  exact groupKeyOf_congr collation fun path hpath => by
    rw [read_group hnames hsummary hpath]
    rfl

/-- The partial rows of one group, one for each shard that has rows of it. -/
theorem rowsOf_shardRows (hnames : PlainSpec spec) (parts : List (List Json)) (k : JsString) :
    Grouping.rowsOf (fun row : PartialRow => groupKeyOf collation spec.groupBy row.read)
      (shardRows collation spec parts) k =
      parts.filterMap fun part =>
        (Assoc.get? (aggregateBuckets collation spec part) k).map (·.partialRow spec) := by
  induction parts with
  | nil => rfl
  | cons part parts ih =>
      have hpart := Grouping.rowsOf_map
        (fun row : PartialRow => groupKeyOf collation spec.groupBy row.read)
        (nodup_keys_aggregateBuckets collation part)
        (fun bucket hbucket => key_partialRow hnames hbucket) k
      rw [shardRows, List.flatMap_cons, Grouping.rowsOf_append, List.filterMap_cons]
      unfold shardRows at ih
      rw [ih, partialRows, hpart]
      cases Assoc.get? (aggregateBuckets collation spec part) k <;> rfl

/-- Merging the partial rows of one group combines the states of the shards. -/
theorem foldl_mergePartialField (hnames : PlainSpec spec) {field : AggregateField}
    (hfield : field ∈ spec.fields) (parts : List (List Json)) (k : JsString)
    (state : FieldState) :
    (parts.filterMap fun part =>
      (Assoc.get? (aggregateBuckets collation spec part) k).map (·.partialRow spec)).foldl
        (fun state row => mergePartialField collation state field row) state =
      (parts.map fun part => metricOf collation field.operator
        (groupRows collation spec part k)).foldl (combine collation field.operator) state := by
  induction parts generalizing state with
  | nil => rfl
  | cons part parts ih =>
      rw [List.map_cons, List.foldl_cons, List.filterMap_cons]
      cases hget : Assoc.get? (aggregateBuckets collation spec part) k with
      | none =>
          have hnil : groupRows collation spec part k = [] := by
            rw [aggregateBuckets, Grouping.get?_group, Option.map_eq_none_iff,
              List.head?_eq_none_iff] at hget
            exact hget
          rw [hnil, combine_nil]
          exact ih state
      | some bucket =>
          obtain ⟨first, _, hsummary⟩ := get?_aggregateBuckets collation hnames.metrics hget
          rw [Option.map_some, List.foldl_cons, mergePartialField_eq collation state field _
            fun entry hentry => read_metric hnames hsummary hfield hentry]
          exact ih _

theorem groupRows_flatten (parts : List (List Json)) (k : JsString) :
    groupRows collation spec parts.flatten k =
      (parts.map fun part => groupRows collation spec part k).flatten := by
  unfold groupRows Grouping.rowsOf
  rw [List.filter_flatten]

/-- A merged bucket has the group values of one of its rows and the combined metrics. -/
theorem get?_merged (hnames : PlainSpec spec) {parts : List (List Json)} {k : JsString}
    {bucket : AggregateBucket}
    (h : Assoc.get? (aggregatePartialBuckets collation spec (shardRows collation spec parts)) k =
      some bucket) :
    (∃ first ∈ groupRows collation spec parts.flatten k,
      bucket.groupValues = groupValuesOf spec.groupBy (getPathValue first)) ∧
    ∀ field ∈ spec.fields, bucket.state field =
      (parts.map fun part => metricOf collation field.operator
        (groupRows collation spec part k)).foldl (combine collation field.operator)
          (initialState field.operator) := by
  rw [aggregatePartialBuckets, Grouping.get?_group, rowsOf_shardRows hnames] at h
  obtain ⟨row, hrow, rfl⟩ := Option.map_eq_some_iff.mp h
  constructor
  · obtain ⟨part, hpart, hget⟩ := List.mem_filterMap.mp (List.mem_of_mem_head? hrow)
    obtain ⟨source, hsource, rfl⟩ := Option.map_eq_some_iff.mp hget
    obtain ⟨first, hfirst, hsummary⟩ := get?_aggregateBuckets collation hnames.metrics hsource
    refine ⟨first, ?_, ?_⟩
    · rw [groupRows_flatten]
      exact List.mem_flatten.mpr ⟨_, List.mem_map_of_mem hpart, List.mem_of_mem_head? hfirst⟩
    · refine (groupValues_foldl_step ..).trans (groupValuesOf_congr fun path hpath => ?_)
      rw [read_group hnames hsummary hpath]
      rfl
  · intro field hfield
    have hget := get?_foldl_step hnames.metrics hfield
      (fun (row : PartialRow) state field => mergePartialField collation state field row)
      (groupValuesOf spec.groupBy row.read) (parts.filterMap fun part =>
        (Assoc.get? (aggregateBuckets collation spec part) k).map (·.partialRow spec))
    exact (congrArg (Option.getD · _) hget).trans (foldl_mergePartialField hnames hfield ..)

/-- The groups of the merge are the groups of the rows. -/
theorem mem_keys_merged (collation : Collation) (hnames : PlainSpec spec)
    (parts : List (List Json)) {k : JsString} :
    k ∈ Assoc.keys (aggregatePartialBuckets collation spec (shardRows collation spec parts)) ↔
      ∃ row ∈ parts.flatten, rowKey collation spec row = k := by
  rw [aggregatePartialBuckets, Grouping.mem_keys_group]
  constructor
  · rintro ⟨row, hrow, hkey⟩
    obtain ⟨part, hpart, hmem⟩ := List.mem_flatMap.mp hrow
    obtain ⟨bucket, hbucket, rfl⟩ := List.mem_map.mp hmem
    obtain ⟨source, hsource, hk⟩ := (mem_keys_aggregateBuckets collation).mp
      (List.mem_map_of_mem hbucket)
    exact ⟨source, List.mem_flatten.mpr ⟨part, hpart, hsource⟩,
      hk.trans ((key_partialRow hnames hbucket).symm.trans hkey)⟩
  · rintro ⟨row, hrow, hkey⟩
    obtain ⟨part, hpart, hmem⟩ := List.mem_flatten.mp hrow
    obtain ⟨bucket, hbucket, hk⟩ := List.mem_map.mp
      ((mem_keys_aggregateBuckets collation).mpr ⟨row, hmem, hkey⟩)
    exact ⟨_, List.mem_flatMap.mpr ⟨part, hpart, List.mem_map_of_mem hbucket⟩,
      (key_partialRow hnames hbucket).trans hk⟩

theorem nodup_keys_merged (collation : Collation) (spec : AggregateSpec)
    (rows : List PartialRow) :
    (Assoc.keys (aggregatePartialBuckets collation spec rows)).Nodup :=
  Grouping.nodup_keys_group ..

end

end ObjyDb
