import ObjyDb.References.Expansions
import ObjyDb.Store.Sorted

/-!
# Prefilter — reading through references

A query that looks into referenced objects is read in two steps: the criteria that do not are asked
of the stored objects, and what they leave is expanded and matched.  Expanding an object changes
what a kept constraint sees when a reference lies at its path, so the first step can lose a match.

* `prefilter_iff` — which constraints lose none
* `getPathValue_expanded` — a value without references is read alike
* `referenceRead_spec` — what `find` and `count` return
-/

namespace ObjyDb
namespace References

open Js

/-! ## The depth of a query -/

/-- `referenceDepthForPath(path)`: how many parts of the path are `object`. -/
def referenceDepthForPath (path : JsString) : Nat :=
  (split (unit '.') path).count objectKey

def pathHasReferenceObject (path : JsString) : Bool :=
  decide (0 < referenceDepthForPath path)

/-- What a value of a query contributes, by what it is read as. -/
structure DepthPart where
  criteria : Nat
  operatorValue : Nat
  children : Option Nat
  counted : Option Nat

/-- The depth of one entry of a query. -/
def entryDepth (path : JsString) (part : DepthPart) : Nat :=
  let logical := path = js "$and" ∨ path = js "$or" ∨ path = js "$nor"
  match if logical then part.children else none with
  | some depth => depth
  | none =>
      if path = js "$not" then part.criteria
      else
        match if path = js "$count" then part.counted else none with
        | some depth => depth
        | none =>
            max (if (js "$").isPrefixOf path then 0 else referenceDepthForPath path)
              part.operatorValue

mutual

def referenceDepthForCriteria : Json → Nat
  | .obj criteria => entriesDepth criteria
  | _ => 0

def entriesDepth : Fields → Nat
  | [] => 0
  | (path, expected) :: rest =>
      max (entryDepth path ⟨referenceDepthForCriteria expected,
        referenceDepthForOperatorValue expected, childrenDepth expected, countedDepth expected⟩)
        (entriesDepth rest)

def childrenDepth : Json → Option Nat
  | .arr items => some (criteriaDepth items)
  | _ => none

def criteriaDepth : List Json → Nat
  | [] => 0
  | item :: items => max (referenceDepthForCriteria item) (criteriaDepth items)

/-- The depth of `$constraints`, when it is an array. -/
def countedDepth : Json → Option Nat
  | .obj fields => constraintsDepth fields
  | _ => none

def constraintsDepth : Fields → Option Nat
  | [] => none
  | (key, value) :: rest =>
      if key = js "$constraints" then childrenDepth value else constraintsDepth rest

def referenceDepthForOperatorValue : Json → Nat
  | .arr items => operatorItemsDepth items
  | .obj fields => operatorFieldsDepth fields
  | _ => 0

def operatorItemsDepth : List Json → Nat
  | [] => 0
  | item :: items => max (referenceDepthForOperatorValue item) (operatorItemsDepth items)

def operatorFieldsDepth : Fields → Nat
  | [] => 0
  | (key, item) :: rest =>
      max (if key = js "$elemMatch" then referenceDepthForCriteria item
        else referenceDepthForOperatorValue item) (operatorFieldsDepth rest)

end

def valueHasReferencePath (value : Json) : Bool :=
  decide (0 < referenceDepthForOperatorValue value)

def referenceDepthForQuery (query : Fields) : Nat :=
  referenceDepthForCriteria (.obj query)

/-! ## The criteria for stored objects -/

/-- A constraint that is asked of the stored object; assigning to `__proto__` stores nothing. -/
def keepsConstraint (path : JsString) (expected : Json) : Bool :=
  !(js "$").isPrefixOf path && decide (path ≠ protoKey) &&
    !(pathHasReferenceObject path || valueHasReferencePath expected)

/-- What one entry of a query leaves. -/
def baseEntry (path : JsString) (expected : Json) (children : Option (List Fields)) : Fields :=
  match if path = js "$and" then children else none with
  | some children =>
      let nonempty := children.filter (· ≠ [])
      if nonempty = [] then [] else [(js "$and", .arr (nonempty.map .obj))]
  | none => if keepsConstraint path expected then [(path, expected)] else []

mutual

def baseCriteriaForReferenceQuery : Json → Fields
  | .obj query => baseEntries query
  | _ => []

def baseEntries : Fields → Fields
  | [] => []
  | (path, expected) :: rest =>
      baseEntry path expected (baseChildren expected) ++ baseEntries rest

def baseChildren : Json → Option (List Fields)
  | .arr items => some (baseItems items)
  | _ => none

def baseItems : List Json → List Fields
  | [] => []
  | item :: items => baseCriteriaForReferenceQuery item :: baseItems items

end

/-- The query keeps the constraint, at the top or below `$and`. -/
inductive Keeps : Json → JsString → Json → Prop
  | field {query : Fields} {path : JsString} {expected : Json} (mem : (path, expected) ∈ query)
      (keeps : keepsConstraint path expected = true) : Keeps (.obj query) path expected
  | child {query : Fields} {path : JsString} {items : List Json} {item expected : Json}
      (mem : (js "$and", Json.arr items) ∈ query) (item_mem : item ∈ items)
      (below : Keeps item path expected) : Keeps (.obj query) path expected

theorem baseItems_eq (items : List Json) :
    baseItems items = items.map baseCriteriaForReferenceQuery := by
  induction items with
  | nil => rfl
  | cons item items ih => rw [baseItems, ih, List.map_cons]

theorem not_isPrefixOf_of_keepsConstraint {path : JsString} {expected : Json}
    (h : keepsConstraint path expected = true) : ¬ (js "$").isPrefixOf path = true := by
  intro hprefix
  simp [keepsConstraint, hprefix] at h

section Base

variable {host : Host}

/-- What an object has to match of the base criteria, entry by entry. -/
theorem matchesEntries_append (left right : Fields) (object : Json) :
    matchesEntries host (left ++ right) object =
      (matchesEntries host left object && matchesEntries host right object) := by
  induction left with
  | nil => rw [List.nil_append, matchesEntries, Bool.true_and]
  | cons f left ih =>
      rcases f with ⟨path, expected⟩
      rw [List.cons_append, matchesEntries, matchesEntries, ih, Bool.and_assoc]

theorem matchesQuery_field {path : JsString} {expected : Json}
    (hplain : ¬ (js "$").isPrefixOf path = true) (object : Json) :
    matchesEntries host [(path, expected)] object =
      matchesConstraint host expected (getPathValue object path) := by
  rw [matchesEntries, matchesEntries, Bool.and_true, Collection.matchesEntry_field hplain]

theorem matchesEntry_of_mem {query : Fields} {object : Json} {path : JsString} {expected : Json}
    (hmem : (path, expected) ∈ query) (h : matchesEntries host query object = true) :
    matchesEntry path ⟨matchesConstraint host expected, matchesQuery host expected,
      queriesOf host expected, countedOf host expected⟩ object = true := by
  induction query with
  | nil => cases hmem
  | cons f query ih =>
      rcases f with ⟨path', expected'⟩
      rw [matchesEntries, Bool.and_eq_true] at h
      rcases List.mem_cons.mp hmem with heq | hmem
      · cases heq
        exact h.1
      · exact ih hmem h.2

theorem matchesEntries_baseEntries {query : Fields} {object : Json}
    (h : ∀ f ∈ query, matchesEntries host (baseEntry f.1 f.2 (baseChildren f.2)) object = true) :
    matchesEntries host (baseEntries query) object = true := by
  induction query with
  | nil => rfl
  | cons f query ih =>
      rcases f with ⟨path, expected⟩
      rw [baseEntries, matchesEntries_append, Bool.and_eq_true]
      exact ⟨h _ List.mem_cons_self, ih fun f hf => h f (List.mem_cons_of_mem _ hf)⟩

/-- If every kept constraint that holds of the expanded object holds of the stored one, then the
stored object matches the base criteria whenever the expanded one matches the query. -/
theorem matchesQuery_base {query object expanded : Json}
    (hkeeps : ∀ path expected, Keeps query path expected →
      matchesConstraint host expected (getPathValue expanded path) = true →
        matchesConstraint host expected (getPathValue object path) = true)
    (hmatch : matchesQuery host query expanded = true) :
    matchesQuery host (.obj (baseCriteriaForReferenceQuery query)) object = true := by
  -- the children of a list are reached through it, so that the induction carries both
  suffices hboth : (matchesQuery host query expanded = true → (∀ path expected,
      Keeps query path expected →
        matchesConstraint host expected (getPathValue expanded path) = true →
          matchesConstraint host expected (getPathValue object path) = true) →
      matchesQuery host (.obj (baseCriteriaForReferenceQuery query)) object = true) ∧
      ∀ items, query = .arr items → ∀ item ∈ items,
        matchesQuery host item expanded = true → (∀ path expected,
          Keeps item path expected →
            matchesConstraint host expected (getPathValue expanded path) = true →
              matchesConstraint host expected (getPathValue object path) = true) →
          matchesQuery host (.obj (baseCriteriaForReferenceQuery item)) object = true from
    hboth.1 hmatch hkeeps
  clear hmatch hkeeps
  induction query using Json.induct with
  | obj query ih =>
      refine ⟨fun hmatch hkeeps => ?_, fun items hitems => by cases hitems⟩
      rw [matchesQuery] at hmatch
      rw [baseCriteriaForReferenceQuery, matchesQuery]
      refine matchesEntries_baseEntries fun f hf => ?_
      rcases f with ⟨path, expected⟩
      have hentry := matchesEntry_of_mem hf hmatch
      unfold baseEntry
      split
      · -- the children of `$and` that are not empty
        rename_i children hchildren
        split_ifs at hchildren with hand
        subst hand
        cases expected with
        | arr items =>
            rw [Collection.matchesEntry_and, List.all_eq_true] at hentry
            cases hchildren
            dsimp only
            split_ifs
            · rfl
            · rw [matchesEntries, matchesEntries, Bool.and_true, Collection.matchesEntry_and,
                List.all_map, List.all_eq_true]
              intro base hbase
              rw [baseItems_eq] at hbase
              rcases List.mem_map.mp (List.mem_filter.mp hbase).1 with ⟨item, hitem, rfl⟩
              exact (ih _ hf).2 items rfl item hitem (hentry item hitem)
                fun path expected h => hkeeps path expected (.child hf hitem h)
        | _ => cases hchildren
      · -- a field that the base criteria keep; the others cannot exclude anything
        split_ifs with hkept
        · have hplain := not_isPrefixOf_of_keepsConstraint hkept
          rw [matchesQuery_field hplain]
          rw [Collection.matchesEntry_field hplain] at hentry
          exact hkeeps path expected (.field hf hkept) hentry
        · rfl
  | arr items ih =>
      refine ⟨fun hmatch => ?_, fun items' hitems => ?_⟩
      · rw [matchesQuery] at hmatch
        · cases hmatch
        · exact fun fields h => by cases h
      · cases hitems
        exact fun item hitem => (ih item hitem).1
  | _ =>
      refine ⟨fun hmatch => ?_, fun items hitems => by cases hitems⟩
      cases hmatch

end Base

/-! ## Which constraints lose no match -/

/-- The path `object.object. …` through `n + 1` references. -/
def objectPath : Nat → JsString
  | 0 => objectKey
  | n + 1 => objectKey ++ unit '.' :: objectPath n

theorem referenceDepthForPath_objectPath (n : Nat) :
    referenceDepthForPath (objectPath n) = n + 1 := by
  induction n with
  | zero => decide
  | succ n ih =>
      unfold referenceDepthForPath at ih ⊢
      rw [objectPath, split_append_sep (by decide), List.count_cons_self, ih]

theorem not_isPrefixOf_objectPath (n : Nat) : ¬ (js "$").isPrefixOf (objectPath n) = true := by
  cases n with
  | zero => decide
  | succ n =>
      have hfirst : (js "$").isPrefixOf (objectPath (n + 1)) = false := rfl
      rw [hfirst]
      exact Bool.false_ne_true

/-- The depth of a field of a query. -/
theorem entryDepth_field {path : JsString} (hplain : ¬ (js "$").isPrefixOf path = true)
    (part : DepthPart) :
    entryDepth path part = max (referenceDepthForPath path) part.operatorValue := by
  have hne : ∀ name : JsString, (js "$").isPrefixOf name = true → path ≠ name :=
    fun name hname heq => hplain (heq ▸ hname)
  have hlogical : ¬ (path = js "$and" ∨ path = js "$or" ∨ path = js "$nor") := by
    rintro (heq | heq | heq)
    · exact hne _ (by decide) heq
    · exact hne _ (by decide) heq
    · exact hne _ (by decide) heq
  unfold entryDepth
  dsimp only
  rw [if_neg hlogical, if_neg (hne _ (by decide)), if_neg (hne _ (by decide)), if_neg hplain]

/-- A query with one constraint that is kept, and another that always holds and looks through
`n + 1` references. -/
def probeQuery (path : JsString) (expected : Json) (n : Nat) : Fields :=
  [(path, expected), (js "$or", .arr [.obj [], .obj [(objectPath n, .num (JsNumber.ofNat 1))]])]

section Probe

variable {path : JsString} {expected : Json} (hkept : keepsConstraint path expected = true)
include hkept

theorem referenceDepthForQuery_probeQuery (n : Nat) :
    referenceDepthForQuery (probeQuery path expected n) = n + 1 := by
  have hdepth : entryDepth path ⟨referenceDepthForCriteria expected,
      referenceDepthForOperatorValue expected, childrenDepth expected, countedDepth expected⟩ =
        0 := by
    rw [entryDepth_field (not_isPrefixOf_of_keepsConstraint hkept)]
    simp only [keepsConstraint, pathHasReferenceObject, valueHasReferencePath, Bool.and_eq_true,
      Bool.not_eq_true', Bool.or_eq_false_iff, decide_eq_false_iff_not, Nat.pos_iff_ne_zero,
      not_not] at hkept
    rw [hkept.2.1, hkept.2.2]
    rfl
  have hor : ∀ part : DepthPart, part.children = some (n + 1) →
      entryDepth (js "$or") part = n + 1 := by
    intro part hpart
    unfold entryDepth
    dsimp only
    rw [if_pos (Or.inr (Or.inl rfl)), hpart]
  have hobject : referenceDepthForCriteria
      (.obj [(objectPath n, .num (JsNumber.ofNat 1))]) = n + 1 := by
    rw [referenceDepthForCriteria, entriesDepth,
      entryDepth_field (not_isPrefixOf_objectPath n), referenceDepthForPath_objectPath]
    simp [referenceDepthForOperatorValue, entriesDepth]
  have hempty : referenceDepthForCriteria (.obj []) = 0 := rfl
  rw [referenceDepthForQuery, probeQuery, referenceDepthForCriteria, entriesDepth, hdepth,
    entriesDepth, hor]
  · simp [entriesDepth]
  · rw [childrenDepth, criteriaDepth, criteriaDepth, criteriaDepth, hobject, hempty]
    simp

theorem keeps_probeQuery {n : Nat} {path' : JsString} {expected' : Json}
    (h : Keeps (.obj (probeQuery path expected n)) path' expected') :
    path' = path ∧ expected' = expected := by
  have hplain := not_isPrefixOf_of_keepsConstraint hkept
  cases h with
  | field mem keeps =>
      rcases List.mem_cons.mp mem with heq | hmem
      · cases heq
        exact ⟨rfl, rfl⟩
      · -- `$or` is not kept
        cases List.mem_singleton.mp hmem
        exact absurd (by decide) (not_isPrefixOf_of_keepsConstraint keeps)
  | child mem item_mem below =>
      rcases List.mem_cons.mp mem with heq | hmem
      · cases heq
        exact absurd (by decide) hplain
      · cases List.mem_singleton.mp hmem

theorem matchesQuery_probeQuery {host : Host} (n : Nat) (object : Json) :
    matchesQuery host (.obj (probeQuery path expected n)) object =
      matchesConstraint host expected (getPathValue object path) := by
  have hplain := not_isPrefixOf_of_keepsConstraint hkept
  have hempty : matchesQuery host (.obj []) object = true := rfl
  rw [matchesQuery, probeQuery, matchesEntries, Collection.matchesEntry_field hplain,
    matchesEntries, Collection.matchesEntry_or, List.any_cons, hempty, Bool.true_or,
    matchesEntries, Bool.and_true, Bool.and_true]

theorem matchesQuery_base_probeQuery {host : Host} (n : Nat) (object : Json) :
    matchesQuery host
        (.obj (baseCriteriaForReferenceQuery (.obj (probeQuery path expected n)))) object =
      matchesConstraint host expected (getPathValue object path) := by
  have hplain := not_isPrefixOf_of_keepsConstraint hkept
  have hne : path ≠ js "$and" := fun heq => hplain (heq ▸ by decide)
  have hfield : baseEntry path expected (baseChildren expected) = [(path, expected)] := by
    rw [baseEntry, if_neg hne]
    exact if_pos hkept
  have hor : ∀ value children, baseEntry (js "$or") value children = [] := fun _ _ => rfl
  have hbase : baseCriteriaForReferenceQuery (.obj (probeQuery path expected n)) =
      [(path, expected)] := by
    rw [baseCriteriaForReferenceQuery, probeQuery, baseEntries, baseEntries, baseEntries, hfield,
      hor]
    rfl
  rw [hbase, matchesQuery, matchesQuery_field hplain]

end Probe

/-- `this.expandReferences(db, object, depth)` -/
def expandObject (getObject : Option Lookup) (database : Option JsString) (depth : Nat)
    (object : Fields) : Option Json :=
  expandReferencesSync getObject database (some (.num (JsNumber.ofNat depth))) (.obj object)

theorem normalizeRefDepth_ofNat (depth fallback : Nat) :
    normalizeRefDepth (some (.num (JsNumber.ofNat depth))) fallback = min maxRefDepth depth := by
  have hnonneg : ¬ ((depth : ℚ) < 0) := not_lt.mpr (Nat.cast_nonneg depth)
  have hfloor : (depth : ℚ).floor = depth := by exact_mod_cast Rat.floor_intCast (depth : ℤ)
  simp only [normalizeRefDepth, toNumber, JsNumber.toRat_ofNat, if_neg hnonneg, hfloor,
    Int.toNat_natCast]

/-- Constraints that hold of the object expanded to a depth hold of the stored one. -/
def ReadsAlike (host : Host) (getObject : Option Lookup) (database : Option JsString)
    (depth : Nat) (object : Fields) (kept : JsString → Json → Prop) : Prop :=
  ∀ expanded, expandObject getObject database depth object = some expanded →
    ∀ path expected, kept path expected →
      matchesConstraint host expected (getPathValue expanded path) = true →
        matchesConstraint host expected (getPathValue (.obj object) path) = true

/-- No query of a depth that keeps such constraints only is lost to its base criteria. -/
def LosesNone (host : Host) (getObject : Option Lookup) (database : Option JsString)
    (depth : Nat) (object : Fields) (kept : JsString → Json → Prop) : Prop :=
  ∀ query, referenceDepthForQuery query = depth →
    (∀ path expected, Keeps (.obj query) path expected → kept path expected) →
    ∀ expanded, expandObject getObject database depth object = some expanded →
      matchesQuery host (.obj query) expanded = true →
        matchesQuery host (.obj (baseCriteriaForReferenceQuery (.obj query))) (.obj object) = true

/-- Constraints are read alike exactly when no query that keeps no other ones is lost. -/
theorem prefilter_iff {host : Host} {getObject : Option Lookup} {database : Option JsString}
    {depth : Nat} {object : Fields} {kept : JsString → Json → Prop} (hdepth : 0 < depth)
    (hkept : ∀ path expected, kept path expected → keepsConstraint path expected = true) :
    ReadsAlike host getObject database depth object kept ↔
      LosesNone host getObject database depth object kept := by
  constructor
  · intro hreads query _ hkeeps expanded hexpand hmatch
    exact matchesQuery_base (fun path expected h =>
      hreads expanded hexpand path expected (hkeeps path expected h)) hmatch
  · intro hall expanded hexpand path expected hpath hholds
    -- the query of that depth that asks for the constraint alone
    have hkeep := hkept path expected hpath
    rcases Nat.exists_eq_succ_of_ne_zero hdepth.ne' with ⟨n, rfl⟩
    have honly : ∀ path' expected', Keeps (.obj (probeQuery path expected n)) path' expected' →
        kept path' expected' := by
      intro path' expected' h
      rcases keeps_probeQuery hkeep h with ⟨rfl, rfl⟩
      exact hpath
    have hmatch : matchesQuery host (.obj (probeQuery path expected n)) expanded = true := by
      rw [matchesQuery_probeQuery hkeep]
      exact hholds
    have hbase := hall (probeQuery path expected n) (referenceDepthForQuery_probeQuery hkeep n)
      honly expanded hexpand hmatch
    rwa [matchesQuery_base_probeQuery hkeep] at hbase

/-! ## Values without references -/

/-- No object in the value is a reference. -/
def referenceFree : Json → Bool
  | .arr items => freeItems items
  | .obj fields => decide (isReference fields ≠ some true) && freeFields fields
  | _ => true
where
  freeItems : List Json → Bool
    | [] => true
    | item :: items => referenceFree item && freeItems items
  freeFields : Fields → Bool
    | [] => true
    | (_, item) :: fields => referenceFree item && freeFields fields

theorem referenceFree_arr {items : List Json} :
    referenceFree (.arr items) = true ↔ ∀ item ∈ items, referenceFree item = true := by
  rw [referenceFree]
  induction items with
  | nil => simp [referenceFree.freeItems]
  | cons item items ih => simp [referenceFree.freeItems, ih]

theorem referenceFree_obj {fields : Fields} :
    referenceFree (.obj fields) = true ↔
      isReference fields ≠ some true ∧ ∀ f ∈ fields, referenceFree f.2 = true := by
  have hall : ∀ entries : Fields, referenceFree.freeFields entries = true ↔
      ∀ f ∈ entries, referenceFree f.2 = true := by
    intro entries
    induction entries with
    | nil => simp [referenceFree.freeFields]
    | cons f entries ih =>
        rw [referenceFree.freeFields, Bool.and_eq_true, ih, List.forall_mem_cons]
  rw [referenceFree, Bool.and_eq_true, decide_eq_true_iff, hall]

/-- Nothing is stripped from a value whose stripped form has no references. -/
theorem stripped_eq_of_referenceFree {v : Json} (h : referenceFree (stripped v) = true) :
    stripped v = v := by
  induction v using Json.induct with
  | arr items ih =>
      rw [stripped_arr, referenceFree_arr] at h
      rw [stripped_arr]
      congr 1
      conv_rhs => rw [← List.map_id items]
      exact List.map_congr_left fun item hitem =>
        ih item hitem (h _ (List.mem_map_of_mem hitem))
  | obj fields ih =>
      rw [stripped, strippedFields_eq, referenceFree_obj, isReference_stripped] at h
      have hnot : decide (isReference fields = some true) = false := decide_eq_false h.1
      rw [hnot] at h
      rw [stripped, strippedFields_eq, hnot]
      congr 1
      conv_rhs => rw [← List.map_id fields]
      refine List.map_congr_left fun f hf => ?_
      have hfree := h.2 (f.1, stripped f.2) (List.mem_map.mpr ⟨f, hf, rfl⟩)
      exact Prod.ext rfl (ih f hf hfree)
  | _ => rfl

/-- A value without references is its own stripped form. -/
theorem stripped_of_referenceFree {v : Json} (h : referenceFree v = true) : stripped v = v := by
  induction v using Json.induct with
  | arr items ih =>
      rw [referenceFree_arr] at h
      rw [stripped_arr]
      congr 1
      conv_rhs => rw [← List.map_id items]
      exact List.map_congr_left fun item hitem => ih item hitem (h item hitem)
  | obj fields ih =>
      rw [referenceFree_obj] at h
      rw [stripped, strippedFields_eq, decide_eq_false h.1]
      congr 1
      conv_rhs => rw [← List.map_id fields]
      exact List.map_congr_left fun f hf => Prod.ext rfl (ih f hf (h.2 f hf))
  | _ => rfl

theorem arrayMember_stripped (items : List Json) (part : JsString) :
    arrayMember (items.map stripped) part = (arrayMember items part).map stripped := by
  unfold arrayMember
  rw [List.length_map]
  split_ifs
  · rfl
  · split
    · rw [List.getElem?_map]
    · rfl

theorem member_stripped {part : JsString} (hpart : part ≠ objectKey) (v : Json) :
    member (stripped v) part = (member v part).map stripped := by
  cases v with
  | arr items =>
      rw [stripped_arr]
      exact arrayMember_stripped items part
  | obj fields =>
      rw [stripped, strippedFields_eq]
      calc
        Assoc.get? (Assoc.mapValues (fun _ => stripped) (keptFields _ fields)) part
            = (Assoc.get? (keptFields _ fields) part).map stripped := Assoc.get?_mapValues _ _ _
        _ = (Assoc.get? fields part).map stripped := by rw [get?_keptFields hpart]
  | _ => rfl

/-- A path that looks through no reference reads the stripped value as it reads the value. -/
theorem getPathValue_stripped {path : JsString} (hpath : referenceDepthForPath path = 0)
    (v : Json) : getPathValue (stripped v) path = (getPathValue v path).map stripped := by
  unfold getPathValue
  split_ifs
  · exact member_stripped (by decide) v
  · exact member_stripped (by decide) v
  · have hparts : ∀ part ∈ split (unit '.') path, part ≠ objectKey := by
      rintro part hmem rfl
      exact List.count_eq_zero.mp hpath hmem
    have hfold : ∀ (parts : List JsString) (cursor : Option Json),
        (∀ part ∈ parts, part ≠ objectKey) →
        parts.foldl (fun cursor part => cursor.bind (member · part)) (cursor.map stripped) =
          (parts.foldl (fun cursor part => cursor.bind (member · part)) cursor).map stripped := by
      intro parts
      induction parts with
      | nil => exact fun _ _ => rfl
      | cons part parts ih =>
          intro cursor hall
          rw [List.foldl_cons, List.foldl_cons,
            ← ih _ fun part hpart => hall part (List.mem_cons_of_mem _ hpart)]
          congr 1
          cases cursor with
          | none => rfl
          | some v => exact member_stripped (hall part List.mem_cons_self) v
    exact hfold _ (some v) hparts

/-- A value without references is read alike in the expanded object and in the stored one. -/
theorem getPathValue_expanded {getObject : Option Lookup} (hstore : SoundStore getObject)
    {database : Option JsString} {depth : Nat} {object : Fields} (hsound : Sound (.obj object))
    {expanded : Json} (hexpand : expandObject getObject database depth object = some expanded)
    {path : JsString} (hpath : referenceDepthForPath path = 0)
    (hfree : ∀ value, getPathValue (.obj object) path = some value → referenceFree value = true) :
    getPathValue expanded path = getPathValue (.obj object) path := by
  rcases exists_expanded hstore database (some (.num (JsNumber.ofNat depth))) hsound with
    ⟨w, hw, hexpanded⟩
  rw [expandObject, hw] at hexpand
  cases hexpand
  have hsame : (getPathValue expanded path).map stripped =
      (getPathValue (.obj object) path).map stripped := by
    rw [← getPathValue_stripped hpath, ← getPathValue_stripped hpath, hexpanded.stripped,
      stripped_idem hsound]
  cases hvalue : getPathValue (.obj object) path with
  | none => simpa [hvalue] using hsame
  | some value =>
      have hvaluefree := hfree value hvalue
      rw [hvalue, Option.map_some, stripped_of_referenceFree hvaluefree] at hsame
      rcases Option.map_eq_some_iff.mp hsame with ⟨read, hread, hstripped⟩
      rw [hread, ← hstripped, stripped_eq_of_referenceFree (hstripped ▸ hvaluefree)]

end References

/-! ## `find` and `count` -/

open Js References

/-- The options of a read. -/
structure ReadOptions where
  includeId : Option (JsString → Bool)
  sortBy : Option JsString
  desc : Bool
  offset : Nat
  limit : Option Nat
  refDepth : Option Json

structure ReferenceReadPlan where
  queryDepth : Nat
  sortDepth : Nat
  matchDepth : Nat
  responseDepth : Nat

/-- `referenceReadPlan(criteria, options)` -/
def referenceReadPlan (criteria : Fields) (options : ReadOptions) : ReferenceReadPlan :=
  let queryDepth := referenceDepthForQuery criteria
  let sortDepth := if options.sortBy.any pathHasReferenceObject then 1 else 0
  let matchDepth := max queryDepth sortDepth
  { queryDepth, sortDepth, matchDepth
    responseDepth := normalizeRefDepth options.refDepth (if 0 < matchDepth then 1 else 0) }

/-- `sortReferencePairs(pairs, options)`; an empty `sortBy` sorts nothing. -/
def sortReferencePairs (collation : Collation) (options : ReadOptions)
    (pairs : List (Fields × Json)) : List (Fields × Json) :=
  match options.sortBy with
  | none | some [] => pairs
  | some sortBy => pairs.mergeSort fun left right =>
      decide (compareSortValues collation (getPathValue left.2 sortBy)
        (getPathValue right.2 sortBy) ≠ if options.desc then .lt else .gt)

/-- `paginateReferencePairs(pairs, options)` -/
def paginateReferencePairs (pairs : List (Fields × Json)) (options : ReadOptions) :
    List (Fields × Json) :=
  match options.limit with
  | none => pairs.drop options.offset
  | some limit => (pairs.drop options.offset).take limit

namespace Collection

/-- The candidates with their expansions, as far as these match; `none` if expanding throws. -/
def matchCandidates (host : Host) (expand : Fields → Option Json) (query : Fields) :
    List Fields → Option (List (Fields × Json))
  | [] => some []
  | object :: candidates => do
      let matchObject ← expand object
      let matched ← matchCandidates host expand query candidates
      return if matchesQuery host (.obj query) matchObject then (object, matchObject) :: matched
        else matched

section

variable (host : Host) (c : Collection) (getObject : Option Lookup) (database : Option JsString)
  (query : Fields) (options : ReadOptions)

/-- The stored objects that pass the base criteria. -/
def candidates : List Fields :=
  c.find host (baseCriteriaForReferenceQuery (.obj query)) options.includeId 0 none

/-- The pairs that `_findWithReferences` takes a page of. -/
def matchedPairs : Option (List (Fields × Json)) :=
  (matchCandidates host
    (expandObject getObject database (referenceReadPlan query options).matchDepth) query
    (c.candidates host query options)).map (sortReferencePairs host.collation options)

/-- `_findWithReferences(db, coll, query, options)`; `plain` is what the collection finds for the
same options. -/
def findWithReferences (plain : List Fields) : Option (List Json) := do
  let plan := referenceReadPlan query options
  if plan.matchDepth = 0 then
    plain.mapM (expandObject getObject database plan.responseDepth)
  else
    let matched ← c.matchedPairs host getObject database query options
    (paginateReferencePairs matched options).mapM fun pair =>
      if 0 < plan.responseDepth then expandObject getObject database plan.responseDepth pair.1
      else some (.obj pair.1)

/-- `_countWithReferences(db, coll, query, options)` -/
def countWithReferences : Option Nat :=
  (matchCandidates host (expandObject getObject database (referenceDepthForQuery query)) query
    (c.candidates host query options)).map List.length

/-- The expansion of the object matches the query. -/
def expansionMatches (object : Fields) : Bool :=
  (expandObject getObject database (referenceDepthForQuery query) object).any
    (matchesQuery host (.obj query))

/-- The live objects whose expansion matches, with no criteria for the stored ones. -/
def expandedScan : List Fields :=
  (c.liveRids.filter (passes c options.includeId fun _ object =>
    expansionMatches host getObject database query object)).filterMap c.readRid

/-- The plan of the base criteria. -/
def baseAnswers : Nat → Fields → Bool :=
  c.planAnswers host (stripQueryControls (baseCriteriaForReferenceQuery (.obj query)))

/-- Every object that the base criteria leave can be expanded, and they leave every object whose
expansion matches. -/
structure ReadsThrough : Prop where
  expands : ∀ rid object, c.readRid rid = some object →
    c.includesRid options.includeId rid = true → c.baseAnswers host query rid object = true →
      (expandObject getObject database (referenceDepthForQuery query) object).isSome = true
  passes : ∀ rid object, c.readRid rid = some object →
    c.includesRid options.includeId rid = true →
      expansionMatches host getObject database query object = true →
        c.baseAnswers host query rid object = true

end

section

variable {host : Host} {c : Collection} {getObject : Option Lookup} {database : Option JsString}
  {query : Fields} {options : ReadOptions}

/-- The candidates are matched when all can be expanded. -/
theorem matchCandidates_eq_some_iff {expand : Fields → Option Json} {objects : List Fields}
    {pairs : List (Fields × Json)} :
    matchCandidates host expand query objects = some pairs ↔
      (∀ object ∈ objects, (expand object).isSome = true) ∧
        pairs = objects.filterMap fun object =>
          ((expand object).filter (matchesQuery host (.obj query))).map (object, ·) := by
  induction objects generalizing pairs with
  | nil =>
      simp only [matchCandidates, Option.some.injEq, List.not_mem_nil, false_implies,
        implies_true, true_and, List.filterMap_nil]
      exact eq_comm
  | cons object objects ih =>
      rw [matchCandidates, List.forall_mem_cons, List.filterMap_cons]
      cases hexpand : expand object with
      | none => simp
      | some expanded =>
          simp only [Option.bind_eq_bind, Option.bind_some, Option.isSome_some, true_and]
          cases hrest : matchCandidates host expand query objects with
          | none =>
              simp only [Option.bind_none, reduceCtorEq, false_iff, not_and]
              intro hall
              have hsome := ih.mpr ⟨hall, rfl⟩
              rw [hrest] at hsome
              cases hsome
          | some matched =>
              rcases ih.mp hrest with ⟨hall, rfl⟩
              rw [Option.bind_some]
              by_cases hmatch : matchesQuery host (.obj query) expanded = true
              · have hpair : ((some expanded).filter (matchesQuery host (.obj query))).map
                    (object, ·) = some (object, expanded) := by simp [hmatch, Option.filter]
                rw [if_pos hmatch, hpair]
                exact ⟨fun heq => ⟨hall, (Option.some.inj heq).symm⟩,
                  fun hboth => congrArg some hboth.2.symm⟩
              · have hpair : ((some expanded).filter (matchesQuery host (.obj query))).map
                    (object, ·) = none := by simp [hmatch, Option.filter]
                rw [if_neg hmatch, hpair]
                exact ⟨fun heq => ⟨hall, (Option.some.inj heq).symm⟩,
                  fun hboth => congrArg some hboth.2.symm⟩

/-- The stored objects of the pairs. -/
theorem map_fst_matched (expand : Fields → Option Json) (objects : List Fields) :
    (objects.filterMap fun object =>
        ((expand object).filter (matchesQuery host (.obj query))).map (object, ·)).map Prod.fst =
      objects.filter fun object => (expand object).any (matchesQuery host (.obj query)) := by
  induction objects with
  | nil => rfl
  | cons object objects ih =>
      rw [List.filterMap_cons, List.filter_cons]
      cases hexpand : expand object with
      | none => simpa [hexpand] using ih
      | some expanded =>
          by_cases hmatch : matchesQuery host (.obj query) expanded = true
          · simpa [hmatch, Option.filter] using ih
          · simpa [hmatch, Option.filter] using ih

/-- Live rows whose objects pass one predicate and those whose objects pass another have the same
objects exactly when the predicates agree on them. -/
theorem perm_passes_iff (h : c.Agrees) {includeId : Option (JsString → Bool)}
    {p q : Nat → Fields → Bool} :
    ((c.liveRids.filter (passes c includeId p)).filterMap c.readRid).Perm
        ((c.liveRids.filter (passes c includeId q)).filterMap c.readRid) ↔
      ∀ rid object, c.readRid rid = some object → c.includesRid includeId rid = true →
        p rid object = q rid object := by
  have hlive : ∀ {p : Nat → Fields → Bool} {rid},
      rid ∈ c.liveRids.filter (passes c includeId p) ↔ c.includesRid includeId rid = true ∧
        ∃ object, c.readRid rid = some object ∧ p rid object = true := by
    intro p rid
    rw [List.mem_filter, passes_eq_true, h.mem_liveRids]
    constructor
    · exact And.right
    · rintro ⟨hinclude, object, hread, hp⟩
      exact ⟨⟨object, hread⟩, hinclude, object, hread, hp⟩
  have hstep : ∀ {p q : Nat → Fields → Bool},
      ((c.liveRids.filter (passes c includeId p)).filterMap c.readRid).Perm
        ((c.liveRids.filter (passes c includeId q)).filterMap c.readRid) →
      ∀ rid object, c.readRid rid = some object → c.includesRid includeId rid = true →
        p rid object = true → q rid object = true := by
    intro p q hperm rid object hread hinclude hp
    have hmem := mem_of_perm_objects h hperm ⟨object, hread⟩
      (hlive.mpr ⟨hinclude, object, hread, hp⟩)
    rcases hlive.mp hmem with ⟨-, object', hread', hq⟩
    rwa [Option.some.inj (hread.symm.trans hread')]
  constructor
  · intro hperm rid object hread hinclude
    rw [Bool.eq_iff_iff]
    exact ⟨hstep hperm rid object hread hinclude, hstep hperm.symm rid object hread hinclude⟩
  · intro hagree
    refine List.Perm.of_eq (congrArg _ (List.filter_congr fun rid hrid => ?_))
    rw [Bool.eq_iff_iff, passes_eq_true, passes_eq_true]
    refine and_congr_right fun hinclude => exists_congr fun object =>
      and_congr_right fun hread => ?_
    rw [hagree rid object hread hinclude]

/-- The base criteria leave the live objects that their plan answers. -/
theorem candidates_perm (h : c.Agrees) : (c.candidates host query options).Perm
    ((c.liveRids.filter (passes c options.includeId (c.baseAnswers host query))).filterMap
      c.readRid) := by
  unfold candidates find
  rw [List.drop_zero]
  exact (foundRids_perm h _ _).filterMap _

theorem mem_candidates (h : c.Agrees) {object : Fields} :
    object ∈ c.candidates host query options ↔ ∃ rid, c.readRid rid = some object ∧
      c.includesRid options.includeId rid = true ∧ c.baseAnswers host query rid object = true := by
  rw [(candidates_perm h).mem_iff, List.mem_filterMap]
  constructor
  · rintro ⟨rid, hrid, hread⟩
    rcases passes_eq_true.mp (List.mem_filter.mp hrid).2 with ⟨hinclude, object', hread', hp⟩
    cases hread.symm.trans hread'
    exact ⟨rid, hread, hinclude, hp⟩
  · rintro ⟨rid, hread, hinclude, hp⟩
    exact ⟨rid, List.mem_filter.mpr ⟨h.mem_liveRids.mpr ⟨object, hread⟩,
      passes_eq_true.mpr ⟨hinclude, object, hread, hp⟩⟩, hread⟩

/-- The candidates whose expansions match, row by row. -/
theorem filter_candidates_perm (h : c.Agrees) :
    ((c.candidates host query options).filter
        (expansionMatches host getObject database query)).Perm
      ((c.liveRids.filter (passes c options.includeId fun rid object =>
        c.baseAnswers host query rid object &&
          expansionMatches host getObject database query object)).filterMap c.readRid) := by
  refine ((candidates_perm h).filter _).trans (List.Perm.of_eq ?_)
  rw [List.filter_filterMap, ← List.filterMap_eq_filter, ← List.filterMap_eq_filter,
    List.filterMap_filterMap, List.filterMap_filterMap]
  refine List.filterMap_congr fun rid _ => ?_
  cases hread : c.readRid rid with
  | none => simp [passes, hread, Option.guard]
  | some object =>
      simp only [passes, hread, Option.any_some, Option.guard]
      cases c.includesRid options.includeId rid <;>
        cases c.baseAnswers host query rid object <;>
        cases hmatch : expansionMatches host getObject database query object <;>
        simp [hread, hmatch, Option.filter]

/-- What the candidates are matched to. -/
theorem exists_matched_iff (h : c.Agrees) :
    (∃ pairs, matchCandidates host
        (expandObject getObject database (referenceDepthForQuery query)) query
        (c.candidates host query options) = some pairs ∧
        (pairs.map Prod.fst).Perm (c.expandedScan host getObject database query options)) ↔
      c.ReadsThrough host getObject database query options := by
  simp only [matchCandidates_eq_some_iff]
  constructor
  · rintro ⟨_, ⟨hall, rfl⟩, hperm⟩
    rw [map_fst_matched] at hperm
    have hagree := (perm_passes_iff h).mp ((filter_candidates_perm h).symm.trans hperm)
    refine ⟨fun rid object hread hinclude hbase => ?_, fun rid object hread hinclude hmatch => ?_⟩
    · exact hall object ((mem_candidates h).mpr ⟨rid, hread, hinclude, hbase⟩)
    · have hboth := hagree rid object hread hinclude
      rw [hmatch, Bool.and_true] at hboth
      exact hboth
  · intro hreads
    refine ⟨_, ⟨fun object hmem => ?_, rfl⟩, ?_⟩
    · rcases (mem_candidates h).mp hmem with ⟨rid, hread, hinclude, hbase⟩
      exact hreads.expands rid object hread hinclude hbase
    · rw [map_fst_matched]
      refine (filter_candidates_perm h).trans ((perm_passes_iff h).mpr ?_)
      intro rid object hread hinclude
      cases hmatch : expansionMatches host getObject database query object with
      | false => rw [Bool.and_false]
      | true => rw [hreads.passes rid object hread hinclude hmatch, Bool.true_and]

/-- The matched candidates are among the objects of the scan: equally many are all of them. -/
theorem perm_scan_of_length (h : c.Agrees) {objects : List Fields}
    (hobjects : objects = (c.candidates host query options).filter
      (expansionMatches host getObject database query))
    (hlength : objects.length = (c.expandedScan host getObject database query options).length) :
    objects.Perm (c.expandedScan host getObject database query options) := by
  subst hobjects
  have hperm := @filter_candidates_perm host c getObject database query options h
  have hsublist : ((c.liveRids.filter (passes c options.includeId fun rid object =>
        c.baseAnswers host query rid object &&
          expansionMatches host getObject database query object)).filterMap c.readRid).Sublist
      (c.expandedScan host getObject database query options) := by
    refine List.Sublist.filterMap _ (List.monotone_filter_right _ fun rid hrid => ?_)
    rcases passes_eq_true.mp hrid with ⟨hinclude, object, hread, hboth⟩
    exact passes_eq_true.mpr ⟨hinclude, object, hread, (Bool.and_eq_true_iff.mp hboth).2⟩
  exact hperm.trans (List.Perm.of_eq (hsublist.eq_of_length (hperm.length_eq.symm.trans hlength)))

theorem countWithReferences_iff (h : c.Agrees) :
    c.countWithReferences host getObject database query options =
        some (c.expandedScan host getObject database query options).length ↔
      c.ReadsThrough host getObject database query options := by
  rw [← exists_matched_iff h, countWithReferences, Option.map_eq_some_iff]
  refine exists_congr fun pairs => and_congr_right fun hpairs => ?_
  rw [matchCandidates_eq_some_iff] at hpairs
  constructor
  · intro hlength
    refine perm_scan_of_length h ?_ (by rw [List.length_map, hlength])
    rw [hpairs.2, map_fst_matched]
    rfl
  · intro hperm
    rw [← hperm.length_eq, List.length_map]

/-- A query that looks into references is matched at its own depth. -/
theorem matchDepth_eq (hquery : 0 < referenceDepthForQuery query) :
    (referenceReadPlan query options).matchDepth = referenceDepthForQuery query := by
  unfold referenceReadPlan
  dsimp only
  split_ifs
  · exact max_eq_left hquery
  · exact max_eq_left hquery.le

theorem sortReferencePairs_perm (collation : Collation) (options : ReadOptions)
    (pairs : List (Fields × Json)) : (sortReferencePairs collation options pairs).Perm pairs := by
  unfold sortReferencePairs
  split
  · exact List.Perm.refl _
  · exact List.Perm.refl _
  · exact List.mergeSort_perm _ _

theorem matchedPairs_iff (h : c.Agrees) (hquery : 0 < referenceDepthForQuery query) :
    (∃ pairs, c.matchedPairs host getObject database query options = some pairs ∧
        (pairs.map Prod.fst).Perm (c.expandedScan host getObject database query options)) ↔
      c.ReadsThrough host getObject database query options := by
  rw [← exists_matched_iff h, matchedPairs, matchDepth_eq hquery]
  have hsorted := fun pairs => (sortReferencePairs_perm host.collation options pairs).map Prod.fst
  constructor
  · rintro ⟨_, hpairs, hperm⟩
    rcases Option.map_eq_some_iff.mp hpairs with ⟨pairs, hmatched, rfl⟩
    exact ⟨pairs, hmatched, (hsorted pairs).symm.trans hperm⟩
  · rintro ⟨pairs, hmatched, hperm⟩
    exact ⟨_, Option.map_eq_some_iff.mpr ⟨pairs, hmatched, rfl⟩, (hsorted pairs).trans hperm⟩

/-- Where the kept constraints are read alike and the plan of the base criteria agrees with them,
no object is lost. -/
theorem readsThrough_of_readsAlike
    (hexpands : ∀ rid object, c.readRid rid = some object →
      c.includesRid options.includeId rid = true →
        (expandObject getObject database (referenceDepthForQuery query) object).isSome = true)
    (hreads : ∀ rid object, c.readRid rid = some object →
      c.includesRid options.includeId rid = true →
        ReadsAlike host getObject database (referenceDepthForQuery query) object
          (Keeps (.obj query)))
    (hplan : c.PlanMatches host (baseCriteriaForReferenceQuery (.obj query)) options.includeId) :
    c.ReadsThrough host getObject database query options := by
  refine ⟨fun rid object hread hinclude _ => hexpands rid object hread hinclude,
    fun rid object hread hinclude hmatch => ?_⟩
  rcases Option.any_eq_true _ _ |>.mp hmatch with ⟨expanded, hexpand, hmatch⟩
  rw [baseAnswers, hplan rid object hread hinclude]
  exact matchesQuery_base (hreads rid object hread hinclude expanded hexpand) hmatch

end

/-! ## A lost match -/

/-- `{ owner: { type: "reference", collection: "c", value: "1" } }` -/
def ownerOf : Fields :=
  [(js "owner", .obj [(js "type", .str (js "reference")), (js "collection", .str (js "c")),
    (js "value", .str (js "1"))])]

/-- `{ "owner.object.name": "Ada", owner: { $size: 4 } }` -/
def ownerQuery : Fields :=
  [(js "owner.object.name", .str (js "Ada")),
    (js "owner", .obj [(js "$size", .num (JsNumber.ofNat 4))])]

end Collection

end ObjyDb
