import ObjyDb.Store.Planner
import ObjyDb.Store.Writes

/-!
# Answers — what the planner's row sets say of each object

Every set of rows that the planner builds is the set of the live objects that pass a predicate.  An
index compares typed keys (`answer`), where the matcher compares loosely; `answers` reads whole
criteria that way, and `planAnswers` is what a plan says of one object.

- `ridsForCriteria_tells`, `partialRidsForCriteria_tells`: the planner's sets
- `foundRids_perm`: the rows that `find` goes through
- `find_count_iff`: indexes change nothing exactly when typed keys and matcher agree on the objects
-/

namespace ObjyDb

open Js

/-! ## Typed keys -/

/-- The keys under which an index files a value. -/
def typedKeys (value : Option Json) : List JsString :=
  (FieldIndex.storedValues value).map indexValueKey

/-- The keys that an index is asked for. -/
def constraintKeys (expected : Json) : List JsString :=
  match indexableContainsValue expected with
  | some value => [indexValueKey value]
  | none => ((indexableConstraintValues expected).getD []).map indexValueKey

/-- An index finds the value under a key of the constraint. -/
def sharesKey (expected : Json) (value : Option Json) : Bool :=
  (constraintKeys expected).any fun key => decide (key ∈ typedKeys value)

/-- The constraint names the id. -/
def namesId (expected : Json) (id : Option Json) : Bool :=
  ((indexableConstraintValues expected).getD []).any fun value =>
    decide (id = some (.str (toJsString value)))

namespace Collection

section

variable (host : Host) (c : Collection)

/-- What the planner takes a field constraint to say of an object: ids by name, rows that are not
marked dirty by typed keys, dirty rows by the matcher. -/
def answer (path : JsString) (expected : Json) (rid : Nat) (object : Fields) : Bool :=
  if path = js "_id" then namesId expected (Assoc.get? object (js "_id"))
  else if c.indexDirtyRids.has rid then matchesQuery host (.obj [(path, expected)]) (.obj object)
  else sharesKey expected (getPathValue (.obj object) path)

def answerFields (fields : Fields) (rid : Nat) (object : Fields) : Bool :=
  fields.all fun entry => c.answer host entry.1 entry.2 rid object

/-- Every child that constrains something says yes. -/
def allChildren (children : List (Json × (Nat → Fields → Bool))) (rid : Nat) (object : Fields) :
    Bool :=
  children.all fun child => isEmptyCriteria child.1 || child.2 rid object

def anyChild (children : List (Json × (Nat → Fields → Bool))) (rid : Nat) (object : Fields) :
    Bool :=
  children.any fun child => child.2 rid object

mutual

/-- The criteria read by what the planner takes their field constraints to say. -/
def answers : Json → Nat → Fields → Bool
  | .obj fields => answerEntries fields
  | query => c.answerFields host (indexedEntries query)

def answerEntries : Fields → Nat → Fields → Bool
  | [], _, _ => true
  | (path, expected) :: rest, rid, object =>
      (match childAnswers expected with
        | some children =>
            if path = js "$and" then allChildren children rid object
            else if path = js "$or" then anyChild children rid object
            else c.answer host path expected rid object
        | none => c.answer host path expected rid object) && answerEntries rest rid object

def childAnswers : Json → Option (List (Json × (Nat → Fields → Bool)))
  | .arr items => some (itemAnswers items)
  | _ => none

def itemAnswers : List Json → List (Json × (Nat → Fields → Bool))
  | [] => []
  | item :: items => (item, answers item) :: itemAnswers items

end

/-- A constraint that no index answers is left to the matcher. -/
def partialAnswer (path : JsString) (expected : Json) (rid : Nat) (object : Fields) : Bool :=
  (c.ridsForFieldConstraint host path expected).isNone || c.answer host path expected rid object

mutual

/-- The part of the criteria that narrows a scan. -/
def partialAnswers : Json → Nat → Fields → Bool
  | .obj fields => partialAnswerEntries fields
  | query => fun rid object =>
      (indexedEntries query).all fun entry => c.partialAnswer host entry.1 entry.2 rid object

def partialAnswerEntries : Fields → Nat → Fields → Bool
  | [], _, _ => true
  | (path, expected) :: rest, rid, object =>
      (match partialChildAnswers expected with
        | some children =>
            if path = js "$and" then allChildren children rid object
            else if path = js "$or" then
              (c.ridsForCriteria host (.obj [(js "$or", expected)])).isNone ||
                answers host c (.obj [(js "$or", expected)]) rid object
            else (js "$").isPrefixOf path || c.partialAnswer host path expected rid object
        | none => (js "$").isPrefixOf path || c.partialAnswer host path expected rid object) &&
        partialAnswerEntries rest rid object

def partialChildAnswers : Json → Option (List (Json × (Nat → Fields → Bool)))
  | .arr items => some (partialItemAnswers items)
  | _ => none

def partialItemAnswers : List Json → List (Json × (Nat → Fields → Bool))
  | [] => []
  | item :: items =>
      (item, if (c.ridsForCriteria host item).isSome then answers host c item
        else partialAnswers item) :: partialItemAnswers items

end

/-- What the plan of the criteria says of one object. -/
def planAnswers (criteria : Fields) (rid : Nat) (object : Fields) : Bool :=
  match (c.planRead host criteria).path with
  | .indexExact => c.answers host (.obj criteria) rid object
  | .indexPartial =>
      c.partialAnswers host (.obj criteria) rid object &&
        matchesQuery host (.obj criteria) (.obj object)
  | .scan => matchesQuery host (.obj criteria) (.obj object)

end

/-! ## Agreement -/

/-- The set that keeps the row when its value is no array of scalars. -/
def keptApart (index : FieldIndex) (rid : Nat) : Option Json → Prop
  | some (.str _) => rid ∈ index.containsStringRids
  | some (.num _) => rid ∈ index.containsScalarRids
  | some (.bool _) => rid ∈ index.containsScalarRids
  | some (.arr items) =>
      items.any FieldIndex.isArray = true → rid ∈ index.containsNestedArrayRids
  | _ => True

/-- The index agrees with the live objects on all rows that are not marked dirty. -/
structure IndexAgrees (c : Collection) (path : JsString) (index : FieldIndex) : Prop where
  nodup : ∀ key, ((Assoc.get? index.lookup key).getD []).Nodup
  filed : ∀ {rid}, c.indexDirtyRids.has rid = false → ∀ key,
    rid ∈ (Assoc.get? index.lookup key).getD [] ↔ ∃ object, c.readRid rid = some object ∧
      key ∈ typedKeys (getPathValue (.obj object) path)
  apart : ∀ {rid object}, c.indexDirtyRids.has rid = false → c.readRid rid = some object →
    keptApart index rid (getPathValue (.obj object) path)

/-- Rows, ids and ready indexes of a collection go together; any set of rows may be dirty. -/
structure Agrees (c : Collection) : Prop where
  rids : c.RidsOk
  distinct : c.idByRid.Nodup
  counted : c.liveCount = c.liveRids.length
  named : ∀ {rid object}, c.readRid rid = some object →
    Assoc.get? object (js "_id") = (c.idForRid rid).map Json.str
  indexes : ∀ {path index}, Assoc.get? c.indexes path = some index → c.IndexAgrees path index
  queued : ∀ rid ∈ c.indexDirtyRids.bits, rid ∈ c.indexDirtyRids.queue

/-! ## Live rows -/

section

variable {host : Host} {c : Collection}

theorem readRid_eq_some_iff (h : c.RidsOk) (hdistinct : c.idByRid.Nodup) {rid : Nat} :
    (c.readRid rid).isSome ↔ ∃ id m, Assoc.get? c.objects id = some m ∧ m.deleted = none ∧
      m.rid = rid := by
  unfold readRid idForRid
  constructor
  · intro hsome
    cases hid : c.idByRid[rid]? with
    | none => simp [hid] at hsome
    | some id =>
        simp only [hid, read] at hsome
        cases hm : Assoc.get? c.objects id with
        | none => simp [hm] at hsome
        | some m =>
            refine ⟨id, m, hm, ?_, ?_⟩
            · cases hdeleted : m.deleted with
              | none => rfl
              | some ts => simp [hm, hdeleted] at hsome
            · -- Both positions hold `id`.
              have howned := h.owned hm
              rcases List.getElem?_eq_some_iff.mp hid with ⟨hrid, hat⟩
              rcases List.getElem?_eq_some_iff.mp howned with ⟨hm', hat'⟩
              exact (hdistinct.getElem_inj_iff ).mp (hat'.trans hat.symm)
  · rintro ⟨id, m, hm, hdeleted, rfl⟩
    simp [h.owned hm, read, hm, hdeleted]

theorem mem_liveRids_iff (h : c.RidsOk) {rid : Nat} : rid ∈ c.liveRids ↔
    ∃ id m, Assoc.get? c.objects id = some m ∧ m.deleted = none ∧ m.rid = rid := by
  unfold liveRids
  simp only [List.mem_map, List.mem_filter, Option.isNone_iff_eq_none]
  constructor
  · rintro ⟨entry, ⟨hmem, hdeleted⟩, rfl⟩
    exact ⟨entry.1, entry.2, h.get?_of_mem hmem, hdeleted, rfl⟩
  · rintro ⟨id, m, hm, hdeleted, rfl⟩
    exact ⟨(id, m), ⟨Assoc.mem_of_get?_eq_some hm, hdeleted⟩, rfl⟩

theorem nodup_liveRids (h : c.RidsOk) : c.liveRids.Nodup := by
  unfold liveRids
  refine List.Nodup.map_on ?_ ((List.Nodup.of_map Prod.fst h.nodup).filter _)
  intro x hx y hy hrid
  by_contra hne
  have hgetx := h.get?_of_mem (List.mem_filter.mp hx).1
  have hgety := h.get?_of_mem (List.mem_filter.mp hy).1
  refine h.rid_ne hgetx hgety ?_ hrid
  intro hkey
  refine hne (Prod.ext hkey ?_)
  rw [hkey] at hgetx
  exact Option.some.inj (hgetx.symm.trans hgety)

theorem Agrees.mem_liveRids (h : c.Agrees) {rid : Nat} :
    rid ∈ c.liveRids ↔ ∃ object, c.readRid rid = some object := by
  rw [mem_liveRids_iff h.rids, ← readRid_eq_some_iff h.rids h.distinct, Option.isSome_iff_exists]

/-- A live object carries the id of its row. -/
theorem Agrees.id_of_readRid (h : c.Agrees) {rid : Nat} {object : Fields}
    (hread : c.readRid rid = some object) :
    ∃ id, c.idForRid rid = some id ∧ Assoc.get? object (js "_id") = some (.str id) := by
  have hnamed := h.named hread
  unfold readRid at hread
  cases hid : c.idForRid rid with
  | none => simp [hid] at hread
  | some id => exact ⟨id, rfl, by rw [hnamed, hid]; rfl⟩

/-- Rows with one object are one row. -/
theorem Agrees.readRid_inj (h : c.Agrees) {rid rid' : Nat} {object : Fields}
    (hread : c.readRid rid = some object) (hread' : c.readRid rid' = some object) :
    rid = rid' := by
  rcases h.id_of_readRid hread with ⟨id, hid, hget⟩
  rcases h.id_of_readRid hread' with ⟨id', hid', hget'⟩
  rw [hget] at hget'
  obtain rfl := Json.str.inj (Option.some.inj hget')
  rcases List.getElem?_eq_some_iff.mp hid with ⟨hrid, hat⟩
  rcases List.getElem?_eq_some_iff.mp hid' with ⟨hrid', hat'⟩
  exact (h.distinct.getElem_inj_iff ).mp (hat.trans hat'.symm)

/-! ## Sets that tell a predicate -/

/-- The rows of the set are the live objects that pass the predicate. -/
structure Tells (c : Collection) (rids : RidSet) (p : Nat → Fields → Bool) : Prop where
  nodup : rids.Nodup
  mem : ∀ {rid}, rid ∈ rids ↔ ∃ object, c.readRid rid = some object ∧ p rid object = true

/-- As `Tells`, where no set at all stands for every live row. -/
def TellsOr (c : Collection) (rids : Option RidSet) (p : Nat → Fields → Bool) : Prop :=
  match rids with
  | none => ∀ rid object, p rid object = true
  | some rids => c.Tells rids p

theorem tellsOr_none : c.TellsOr none fun _ _ => true :=
  fun _ _ => rfl

theorem mem_setIntersection {left right : RidSet} {rid : Nat} :
    rid ∈ setIntersection left right ↔ rid ∈ left ∧ rid ∈ right := by
  unfold setIntersection
  split_ifs <;> simp [and_comm]

theorem nodup_setIntersection {left right : RidSet} (hleft : left.Nodup) (hright : right.Nodup) :
    (setIntersection left right).Nodup := by
  unfold setIntersection
  split_ifs
  · exact hright.filter _
  · exact hleft.filter _

theorem mem_setUnion {left right : RidSet} {rid : Nat} :
    rid ∈ setUnion left right ↔ rid ∈ left ∨ rid ∈ right := by
  unfold setUnion
  induction right generalizing left with
  | nil => simp
  | cons r right ih => simp [ih, or_assoc]

theorem nodup_setUnion {left : RidSet} (hleft : left.Nodup) (right : RidSet) :
    (setUnion left right).Nodup := by
  unfold setUnion
  induction right generalizing left with
  | nil => exact hleft
  | cons r right ih => exact ih (nodup_ridSetAdd hleft r)

theorem Tells.congr {rids : RidSet} {p q : Nat → Fields → Bool} (h : c.Tells rids p)
    (hpq : ∀ rid object, c.readRid rid = some object → p rid object = q rid object) :
    c.Tells rids q where
  nodup := h.nodup
  mem := by
    intro rid
    rw [h.mem]
    constructor
    · rintro ⟨object, hread, hp⟩
      exact ⟨object, hread, hpq rid object hread ▸ hp⟩
    · rintro ⟨object, hread, hq⟩
      exact ⟨object, hread, (hpq rid object hread).symm ▸ hq⟩

theorem Tells.inter {left right : RidSet} {p q : Nat → Fields → Bool} (hleft : c.Tells left p)
    (hright : c.Tells right q) :
    c.Tells (setIntersection left right) (fun rid object => p rid object && q rid object) where
  nodup := nodup_setIntersection hleft.nodup hright.nodup
  mem := by
    intro rid
    rw [mem_setIntersection, hleft.mem, hright.mem]
    constructor
    · rintro ⟨⟨object, hread, hp⟩, object', hread', hq⟩
      obtain rfl := Option.some.inj (hread.symm.trans hread')
      exact ⟨object, hread, by rw [hp, hq]; rfl⟩
    · rintro ⟨object, hread, hboth⟩
      rcases Bool.and_eq_true_iff.mp hboth with ⟨hp, hq⟩
      exact ⟨⟨object, hread, hp⟩, object, hread, hq⟩

theorem Tells.union {left right : RidSet} {p q : Nat → Fields → Bool} (hleft : c.Tells left p)
    (hright : c.Tells right q) :
    c.Tells (setUnion left right) (fun rid object => p rid object || q rid object) where
  nodup := nodup_setUnion hleft.nodup right
  mem := by
    intro rid
    rw [mem_setUnion, hleft.mem, hright.mem]
    constructor
    · rintro (⟨object, hread, hp⟩ | ⟨object, hread, hq⟩)
      · exact ⟨object, hread, by rw [hp]; rfl⟩
      · exact ⟨object, hread, by rw [hq, Bool.or_true]⟩
    · rintro ⟨object, hread, heither⟩
      rcases Bool.or_eq_true_iff.mp heither with hp | hq
      · exact Or.inl ⟨object, hread, hp⟩
      · exact Or.inr ⟨object, hread, hq⟩

theorem TellsOr.narrow {current : Option RidSet} {rids : RidSet} {p q : Nat → Fields → Bool}
    (hcurrent : c.TellsOr current p) (h : c.Tells rids q) :
    c.Tells (narrow current rids) (fun rid object => p rid object && q rid object) := by
  cases current with
  | none =>
      refine h.congr fun rid object _ => ?_
      rw [hcurrent rid object, Bool.true_and]
  | some current => exact Tells.inter hcurrent h

theorem TellsOr.congr {rids : Option RidSet} {p q : Nat → Fields → Bool} (h : c.TellsOr rids p)
    (hpq : ∀ rid object, p rid object = q rid object) : c.TellsOr rids q := by
  cases rids with
  | none => exact fun rid object => (hpq rid object).symm.trans (h rid object)
  | some rids => exact Tells.congr h fun rid object _ => hpq rid object

/-! ## Field constraints -/

theorem mem_foldl_setUnion {α : Type} (sets : α → RidSet) (keys : List α) (ids : RidSet)
    {rid : Nat} :
    rid ∈ keys.foldl (fun ids key => setUnion ids (sets key)) ids ↔
      rid ∈ ids ∨ ∃ key ∈ keys, rid ∈ sets key := by
  induction keys generalizing ids with
  | nil => simp
  | cons key keys ih => simp [ih, mem_setUnion, or_assoc]

theorem nodup_foldl_setUnion {α : Type} (sets : α → RidSet) (keys : List α) {ids : RidSet}
    (h : ids.Nodup) : (keys.foldl (fun ids key => setUnion ids (sets key)) ids).Nodup := by
  induction keys generalizing ids with
  | nil => exact h
  | cons key keys ih => exact ih (nodup_setUnion h _)

theorem mem_idsForValues (index : FieldIndex) (values : List Json) {rid : Nat} :
    rid ∈ index.idsForValues values ↔
      ∃ key ∈ values.map indexValueKey, rid ∈ (Assoc.get? index.lookup key).getD [] := by
  have hmem : ∀ key, key ∈ unique (values.map indexValueKey) ↔
      key ∈ values.map indexValueKey := fun key => mem_unique
  unfold FieldIndex.idsForValues
  split
  · next key hkeys =>
    rw [hkeys] at hmem
    constructor
    · intro hrid
      exact ⟨key, (hmem key).mp (List.mem_singleton.mpr rfl), hrid⟩
    · rintro ⟨key', hkey', hrid⟩
      rwa [List.mem_singleton.mp ((hmem key').mpr hkey')] at hrid
  · rw [mem_foldl_setUnion]
    simp only [List.not_mem_nil, false_or, hmem]

theorem nodup_idsForValues {index : FieldIndex} {path : JsString} (h : c.IndexAgrees path index)
    (values : List Json) : (index.idsForValues values).Nodup := by
  unfold FieldIndex.idsForValues
  split
  · exact h.nodup _
  · exact nodup_foldl_setUnion _ _ List.nodup_nil

/-- The rows that an index gives for a constraint, dirty rows apart. -/
theorem mem_indexed {path : JsString} {index : FieldIndex} (h : c.IndexAgrees path index)
    (keys : List JsString) {expected : Json} (hkeys : keys = constraintKeys expected)
    {indexed : RidSet}
    (hindexed : ∀ rid, rid ∈ indexed ↔ ∃ key ∈ keys, rid ∈ (Assoc.get? index.lookup key).getD [])
    {rid : Nat} (hclean : c.indexDirtyRids.has rid = false) :
    rid ∈ indexed ↔ ∃ object, c.readRid rid = some object ∧
      sharesKey expected (getPathValue (.obj object) path) = true := by
  rw [hindexed, hkeys]
  unfold sharesKey
  simp only [h.filed hclean, List.any_eq_true, decide_eq_true_iff]
  constructor
  · rintro ⟨key, hkey, object, hread, hmem⟩
    exact ⟨object, hread, key, hkey, hmem⟩
  · rintro ⟨object, hread, key, hkey, hmem⟩
    exact ⟨key, hkey, object, hread, hmem⟩

/-- The dirty rows that match are added one by one. -/
theorem mem_foldl_dirty (accepts : Nat → Bool) (queue : List Nat) (out : RidSet) {rid : Nat} :
    rid ∈ queue.foldl (fun out rid => if accepts rid then ridSetAdd out rid else out) out ↔
      rid ∈ out ∨ (rid ∈ queue ∧ accepts rid = true) := by
  induction queue generalizing out with
  | nil => simp
  | cons r queue ih =>
      rw [List.foldl_cons, ih, List.mem_cons]
      by_cases hr : accepts r = true
      · rw [if_pos hr, mem_ridSetAdd]
        constructor
        · rintro ((hout | rfl) | hrest)
          · exact Or.inl hout
          · exact Or.inr ⟨Or.inl rfl, hr⟩
          · exact Or.inr ⟨Or.inr hrest.1, hrest.2⟩
        · rintro (hout | ⟨rfl | hrest, haccepts⟩)
          · exact Or.inl (Or.inl hout)
          · exact Or.inl (Or.inr rfl)
          · exact Or.inr ⟨hrest, haccepts⟩
      · rw [if_neg hr]
        constructor
        · rintro (hout | hrest)
          · exact Or.inl hout
          · exact Or.inr ⟨Or.inr hrest.1, hrest.2⟩
        · rintro (hout | ⟨rfl | hrest, haccepts⟩)
          · exact Or.inl hout
          · exact absurd haccepts hr
          · exact Or.inr ⟨hrest, haccepts⟩

theorem nodup_foldl_dirty (accepts : Nat → Bool) (queue : List Nat) {out : RidSet}
    (h : out.Nodup) :
    (queue.foldl (fun out rid => if accepts rid then ridSetAdd out rid else out) out).Nodup := by
  induction queue generalizing out with
  | nil => exact h
  | cons r queue ih =>
      rw [List.foldl_cons]
      split_ifs
      · exact ih (nodup_ridSetAdd h r)
      · exact ih h

/-- A row whose object matches the one constraint. -/
def dirtyMatch (host : Host) (c : Collection) (path : JsString) (expected : Json) (rid : Nat) :
    Bool :=
  (c.readRid rid).any fun object => matchesQuery host (.obj [(path, expected)]) (.obj object)

theorem dirtyAwareIndexedRids_eq (path : JsString) (expected : Json) (indexed : RidSet) :
    c.dirtyAwareIndexedRids host path expected indexed =
      if c.indexDirtyRids.bits = [] then indexed
      else (c.indexDirtyRids.queue.filter c.indexDirtyRids.has).foldl
        (fun out rid => if dirtyMatch host c path expected rid then ridSetAdd out rid else out)
        (indexed.filter fun rid => !c.indexDirtyRids.has rid) := by
  unfold dirtyAwareIndexedRids
  split_ifs with hbits
  · rfl
  · refine congrArg (fun step => List.foldl step _ _) ?_
    funext out rid
    unfold dirtyMatch
    cases c.readRid rid <;> simp

theorem dirtyAwareIndexedRids_tells (h : c.Agrees) {path : JsString} (hpath : path ≠ js "_id")
    {expected : Json} {indexed : RidSet} (hnodup : indexed.Nodup)
    (hindexed : ∀ {rid}, c.indexDirtyRids.has rid = false → (rid ∈ indexed ↔ ∃ object,
      c.readRid rid = some object ∧
        sharesKey expected (getPathValue (.obj object) path) = true)) :
    c.Tells (c.dirtyAwareIndexedRids host path expected indexed) (c.answer host path expected) := by
  rw [dirtyAwareIndexedRids_eq]
  split_ifs with hbits
  · refine ⟨hnodup, fun {rid} => ?_⟩
    have hclean : c.indexDirtyRids.has rid = false := by simp [RidBitmapQueue.has, hbits]
    rw [hindexed hclean]
    simp [answer, hpath, hclean]
  · refine ⟨nodup_foldl_dirty _ _ (hnodup.filter _), fun {rid} => ?_⟩
    rw [mem_foldl_dirty, List.mem_filter, List.mem_filter]
    cases hdirty : c.indexDirtyRids.has rid with
    | false =>
        rw [hindexed hdirty]
        simp [answer, hpath, hdirty]
    | true =>
        have hqueue := h.queued rid (of_decide_eq_true hdirty)
        simp only [dirtyMatch, answer, hpath, hdirty, hqueue, Bool.not_true, Bool.false_eq_true,
          and_false, false_or, true_and, if_true, if_false, Option.any_eq_true]

/-- The row of the live object that a value names as its id. -/
def namedRid (c : Collection) (value : Json) : Option Nat :=
  ((Assoc.get? c.objects (toJsString value)).filter fun m => m.deleted.isNone).map RowMeta.rid

theorem namedRid_eq_some_iff {value : Json} {rid : Nat} :
    c.namedRid value = some rid ↔ ∃ m, Assoc.get? c.objects (toJsString value) = some m ∧
      m.deleted = none ∧ m.rid = rid := by
  simp [namedRid, and_assoc]

theorem ridsForObjectIdConstraint_eq (expected : Json) :
    c.ridsForObjectIdConstraint expected = (indexableConstraintValues expected).map fun values =>
      setUnion [] (values.filterMap c.namedRid) := by
  unfold ridsForObjectIdConstraint
  congr 1
  funext values
  unfold setUnion
  generalize ([] : RidSet) = out
  induction values generalizing out with
  | nil => rfl
  | cons value values ih =>
      rw [List.foldl_cons, ih]
      unfold namedRid has
      cases hm : Assoc.get? c.objects (toJsString value) with
      | none => simp [hm]
      | some m => cases hdeleted : m.deleted <;> simp [hm, hdeleted]

/-- The rows of the ids that a constraint on `_id` names. -/
theorem ridsForObjectIdConstraint_tells (h : c.Agrees) {expected : Json} {rids : RidSet}
    (hrids : c.ridsForObjectIdConstraint expected = some rids) :
    c.Tells rids (c.answer host (js "_id") expected) := by
  rw [ridsForObjectIdConstraint_eq] at hrids
  cases hvalues : indexableConstraintValues expected with
  | none => simp [hvalues] at hrids
  | some values =>
      rw [hvalues, Option.map_some] at hrids
      obtain rfl := Option.some.inj hrids
      have hanswer : ∀ {rid object id}, Assoc.get? object (js "_id") = some (.str id) →
          (c.answer host (js "_id") expected rid object = true ↔
            ∃ value ∈ values, toJsString value = id) := by
        intro rid object id hget
        simp only [answer, if_true, namesId, hvalues, Option.getD_some, hget, List.any_eq_true,
          decide_eq_true_iff, Option.some.injEq, Json.str.injEq]
        constructor
        · rintro ⟨value, hvalue, heq⟩
          exact ⟨value, hvalue, heq.symm⟩
        · rintro ⟨value, hvalue, heq⟩
          exact ⟨value, hvalue, heq.symm⟩
      refine ⟨nodup_setUnion List.nodup_nil _, fun {rid} => ?_⟩
      rw [mem_setUnion, List.mem_filterMap]
      simp only [List.not_mem_nil, false_or, namedRid_eq_some_iff]
      constructor
      · rintro ⟨value, hvalue, m, hm, hdeleted, hrid⟩
        have hsome := (readRid_eq_some_iff h.rids h.distinct).mpr ⟨_, m, hm, hdeleted, hrid⟩
        rcases Option.isSome_iff_exists.mp hsome with ⟨object, hread⟩
        rcases h.id_of_readRid hread with ⟨id, hid, hget⟩
        refine ⟨object, hread, (hanswer hget).mpr ⟨value, hvalue, ?_⟩⟩
        have howned := h.rids.owned hm
        rw [hrid] at howned
        exact Option.some.inj (howned.symm.trans hid)
      · rintro ⟨object, hread, hagree⟩
        rcases h.id_of_readRid hread with ⟨id, hid, hget⟩
        rcases (hanswer hget).mp hagree with ⟨value, hvalue, rfl⟩
        rcases (readRid_eq_some_iff h.rids h.distinct).mp (by rw [hread]; rfl) with
          ⟨id, m, hm, hdeleted, hrid⟩
        refine ⟨value, hvalue, m, ?_, hdeleted, hrid⟩
        have howned := h.rids.owned hm
        rw [hrid] at howned
        rwa [Option.some.inj (hid.symm.trans howned)]

/-- The rows that the planner has for a field constraint are those of which it says yes. -/
theorem ridsForFieldConstraint_tells (h : c.Agrees) {path : JsString} {expected : Json}
    {rids : RidSet} (hrids : c.ridsForFieldConstraint host path expected = some rids) :
    c.Tells rids (c.answer host path expected) := by
  unfold ridsForFieldConstraint at hrids
  by_cases hpath : path = js "_id"
  · rw [if_pos hpath] at hrids
    exact hpath ▸ ridsForObjectIdConstraint_tells h hrids
  · rw [if_neg hpath] at hrids
    cases hindex : Assoc.get? c.indexes path with
    | none => simp [hindex] at hrids
    | some index =>
        have hagrees := h.indexes hindex
        simp only [hindex] at hrids
        cases hcontains : indexableContainsValue expected with
        | some value =>
            simp only [hcontains, FieldIndex.idsForContains] at hrids
            split_ifs at hrids with hstate
            · cases hrids
            rw [Option.map_some] at hrids
            obtain rfl := Option.some.inj hrids
            refine dirtyAwareIndexedRids_tells h hpath (hagrees.nodup _) fun {rid} hclean => ?_
            refine mem_indexed hagrees [indexValueKey value] ?_ (fun rid => ?_) hclean
            · simp [constraintKeys, hcontains]
            · simp
        | none =>
            simp only [hcontains] at hrids
            cases hvalues : indexableConstraintValues expected with
            | none => simp [hvalues] at hrids
            | some values =>
                rw [hvalues, Option.map_some] at hrids
                obtain rfl := Option.some.inj hrids
                refine dirtyAwareIndexedRids_tells h hpath (nodup_idsForValues hagrees values)
                  fun {rid} hclean => ?_
                refine mem_indexed hagrees (values.map indexValueKey) ?_
                  (fun rid => mem_idsForValues index values) hclean
                simp [constraintKeys, hcontains, hvalues]

/-! ## Children of `$and` and `$or` -/

theorem itemRids_eq (items : List Json) :
    c.itemRids host items = items.map fun item => (item, c.ridsForCriteria host item) := by
  induction items with
  | nil => rw [itemRids]; rfl
  | cons item items ih => rw [itemRids, ih]; rfl

theorem itemAnswers_eq (items : List Json) :
    c.itemAnswers host items = items.map fun item => (item, c.answers host item) := by
  induction items with
  | nil => rw [itemAnswers]; rfl
  | cons item items ih => rw [itemAnswers, ih]; rfl

theorem partialItemRids_eq (items : List Json) :
    c.partialItemRids host items = items.map fun item =>
      (item, (c.ridsForCriteria host item).or (c.partialRidsForCriteria host item)) := by
  induction items with
  | nil => rw [partialItemRids]; rfl
  | cons item items ih => rw [partialItemRids, ih]; rfl

theorem partialItemAnswers_eq (items : List Json) :
    c.partialItemAnswers host items = items.map fun item =>
      (item, if (c.ridsForCriteria host item).isSome then c.answers host item
        else c.partialAnswers host item) := by
  induction items with
  | nil => rw [partialItemAnswers]; rfl
  | cons item items ih => rw [partialItemAnswers, ih]; rfl

theorem childRids_eq_none {expected : Json} (h : ∀ items, expected ≠ .arr items) :
    c.childRids host expected = none := by
  cases expected with
  | arr items => exact absurd rfl (h items)
  | _ => simp [childRids]

theorem childAnswers_eq_none {expected : Json} (h : ∀ items, expected ≠ .arr items) :
    c.childAnswers host expected = none := by
  cases expected with
  | arr items => exact absurd rfl (h items)
  | _ => simp [childAnswers]

variable {sets : Json → Option RidSet} {verdict : Json → Nat → Fields → Bool}

/-- Every item has a set, and the set tells the item's predicate. -/
def AllTell (c : Collection) (sets : Json → Option RidSet) (verdict : Json → Nat → Fields → Bool)
    (items : List Json) : Prop :=
  ∀ item ∈ items, ∃ rids, sets item = some rids ∧ c.Tells rids (verdict item)

theorem foldl_setIntersection_tells {items : List Json} (h : c.AllTell sets verdict items)
    {first : RidSet} {p : Nat → Fields → Bool} (hfirst : c.Tells first p) :
    c.Tells ((items.filterMap sets).foldl setIntersection first) fun rid object =>
      p rid object && items.all fun item => verdict item rid object := by
  induction items generalizing first p with
  | nil => exact hfirst.congr fun rid object _ => (Bool.and_true _).symm
  | cons item items ih =>
      rcases h item List.mem_cons_self with ⟨rids, hsets, htells⟩
      have hrest := ih (fun i hi => h i (List.mem_cons_of_mem _ hi)) (hfirst.inter htells)
      rw [List.filterMap_cons_some hsets, List.foldl_cons]
      exact hrest.congr fun rid object _ => by rw [List.all_cons, Bool.and_assoc]

theorem foldl_setUnion_tells {items : List Json} (h : c.AllTell sets verdict items)
    {first : RidSet} {p : Nat → Fields → Bool} (hfirst : c.Tells first p) :
    c.Tells ((items.filterMap sets).foldl setUnion first) fun rid object =>
      p rid object || items.any fun item => verdict item rid object := by
  induction items generalizing first p with
  | nil => exact hfirst.congr fun rid object _ => (Bool.or_false _).symm
  | cons item items ih =>
      rcases h item List.mem_cons_self with ⟨rids, hsets, htells⟩
      have hrest := ih (fun i hi => h i (List.mem_cons_of_mem _ hi)) (hfirst.union htells)
      rw [List.filterMap_cons_some hsets, List.foldl_cons]
      exact hrest.congr fun rid object _ => by rw [List.any_cons, Bool.or_assoc]

theorem allTell_of_none_not_mem {items : List Json}
    (h : ∀ item ∈ items, ∀ rids, sets item = some rids → c.Tells rids (verdict item))
    (hnone : none ∉ items.map sets) : c.AllTell sets verdict items := by
  intro item hitem
  cases hsets : sets item with
  | none => exact absurd (hsets ▸ List.mem_map_of_mem hitem) hnone
  | some rids => exact ⟨rids, rfl, h item hitem rids hsets⟩

theorem andRids_tells {items : List Json}
    (h : ∀ item ∈ items, ∀ rids, sets item = some rids → c.Tells rids (verdict item))
    {rids : Option RidSet} (hrids : andRids (items.map fun item => (item, sets item)) = some rids) :
    c.TellsOr rids (allChildren (items.map fun item => (item, verdict item))) := by
  have hsets : ((items.map fun item => (item, sets item)).filter fun child =>
      !isEmptyCriteria child.1).map Prod.snd =
        (items.filter fun item => !isEmptyCriteria item).map sets := by
    rw [List.filter_map, List.map_map]
    rfl
  have hagree : ∀ rid object, allChildren (items.map fun item => (item, verdict item)) rid object =
      (items.filter fun item => !isEmptyCriteria item).all fun item => verdict item rid object := by
    intro rid object
    simp [allChildren, List.all_map, List.all_filter, Function.comp_def]
  unfold andRids at hrids
  simp only [hsets] at hrids
  split_ifs at hrids with hnone
  have htell := allTell_of_none_not_mem
    (fun item hitem => h item (List.mem_filter.mp hitem).1) hnone
  generalize (items.filter fun item => !isEmptyCriteria item) = children at *
  rw [List.filterMap_map] at hrids
  cases children with
  | nil =>
      obtain rfl := Option.some.inj hrids
      exact fun rid object => by rw [hagree]; rfl
  | cons child children =>
      rcases htell child List.mem_cons_self with ⟨first, hfirst, htells⟩
      have hrest := foldl_setIntersection_tells
        (fun item hitem => htell item (List.mem_cons_of_mem _ hitem)) htells
      have hmap : (child :: children).filterMap (id ∘ sets) = first :: children.filterMap sets := by
        simp [hfirst]
      rw [hmap] at hrids
      obtain rfl := Option.some.inj hrids
      exact hrest.congr fun rid object _ => by rw [hagree, List.all_cons]

theorem orRids_tells {items : List Json}
    (h : ∀ item ∈ items, ∀ rids, sets item = some rids → c.Tells rids (verdict item))
    {rids : RidSet} (hrids : orRids (items.map fun item => (item, sets item)) = some rids) :
    c.Tells rids (anyChild (items.map fun item => (item, verdict item))) := by
  have hsets : (items.map fun item => (item, sets item)).map Prod.snd = items.map sets := by
    rw [List.map_map]
    rfl
  have hagree : ∀ rid object, anyChild (items.map fun item => (item, verdict item)) rid object =
      items.any fun item => verdict item rid object := by
    intro rid object
    simp [anyChild, List.any_map, Function.comp_def]
  unfold orRids at hrids
  simp only [hsets] at hrids
  split_ifs at hrids with hnone
  have htell := allTell_of_none_not_mem h hnone
  rw [List.filterMap_map] at hrids
  cases items with
  | nil =>
      obtain rfl := Option.some.inj hrids
      exact ⟨List.nodup_nil, by simp [anyChild]⟩
  | cons child children =>
      rcases htell child List.mem_cons_self with ⟨first, hfirst, htells⟩
      have hrest := foldl_setUnion_tells
        (fun item hitem => htell item (List.mem_cons_of_mem _ hitem)) htells
      have hmap : (child :: children).filterMap (id ∘ sets) = first :: children.filterMap sets := by
        simp [hfirst]
      rw [hmap] at hrids
      obtain rfl := Option.some.inj hrids
      exact hrest.congr fun rid object _ => by rw [hagree, List.any_cons]

/-! ## Criteria -/

/-- What the planner's set of a query tells. -/
def CriteriaTell (host : Host) (c : Collection) (query : Json) : Prop :=
  ∀ rids, c.ridsForCriteria host query = some rids → c.Tells rids (c.answers host query)

theorem ridsForFields_tells (h : c.Agrees) {fields : Fields} {current : Option RidSet}
    {p : Nat → Fields → Bool} (hcurrent : c.TellsOr current p) {rids : RidSet}
    (hrids : c.ridsForFields host fields current = some rids) :
    c.Tells rids fun rid object => p rid object && c.answerFields host fields rid object := by
  induction fields generalizing current p with
  | nil =>
      rw [ridsForFields] at hrids
      subst hrids
      exact Tells.congr hcurrent fun rid object _ => (Bool.and_true _).symm
  | cons entry rest ih =>
      rw [ridsForFields] at hrids
      cases hentry : c.ridsForFieldConstraint host entry.1 entry.2 with
      | none => simp [hentry] at hrids
      | some found =>
          simp only [hentry] at hrids
          have hstep : c.TellsOr (some (narrow current found)) _ :=
            hcurrent.narrow (ridsForFieldConstraint_tells h hentry)
          refine (ih hstep hrids).congr fun rid object _ => ?_
          rw [answerFields, answerFields, List.all_cons, Bool.and_assoc]

/-- One entry of criteria: what it adds to the sets so far. -/
theorem ridsForEntries_cons {path : JsString} {expected : Json} {rest : Fields}
    {current : Option RidSet} {rids : RidSet} (h : c.Agrees)
    (hchildren : ∀ items, expected = .arr items → ∀ item ∈ items, CriteriaTell host c item)
    (hrids : c.ridsForEntries host ((path, expected) :: rest) current = some rids)
    {p : Nat → Fields → Bool} (hcurrent : c.TellsOr current p) :
    ∃ next, c.ridsForEntries host rest next = some rids ∧
      c.TellsOr next fun rid object => p rid object &&
        (match c.childAnswers host expected with
          | some children =>
              if path = js "$and" then allChildren children rid object
              else if path = js "$or" then anyChild children rid object
              else c.answer host path expected rid object
          | none => c.answer host path expected rid object) := by
  -- A constraint on a field narrows the rows by what the planner takes it to say.
  have hfield : ∀ {found : RidSet}, c.ridsForFieldConstraint host path expected = some found →
      c.TellsOr (some (narrow current found)) fun rid object =>
        p rid object && c.answer host path expected rid object :=
    fun hfound => hcurrent.narrow (ridsForFieldConstraint_tells h hfound)
  rw [ridsForEntries] at hrids
  by_cases harr : ∃ items, expected = .arr items
  · rcases harr with ⟨items, rfl⟩
    have htell := hchildren items rfl
    rw [childRids, itemRids_eq] at hrids
    rw [childAnswers, itemAnswers_eq]
    dsimp only at hrids ⊢
    split_ifs at hrids ⊢ with hand hor hdollar
    · cases hset : andRids (items.map fun item => (item, c.ridsForCriteria host item)) with
      | none => simp [hset] at hrids
      | some found =>
          have hfound := andRids_tells (fun item hitem => htell item hitem) hset
          cases found with
          | none =>
              refine ⟨current, by simpa [hset] using hrids, hcurrent.congr fun rid object => ?_⟩
              rw [hfound rid object, Bool.and_true]
          | some found => exact ⟨some _, by simpa [hset] using hrids, hcurrent.narrow hfound⟩
    · cases hset : orRids (items.map fun item => (item, c.ridsForCriteria host item)) with
      | none => simp [hset] at hrids
      | some found =>
          have hfound := orRids_tells (fun item hitem => htell item hitem) hset
          exact ⟨some _, by simpa [hset] using hrids, hcurrent.narrow hfound⟩
    · cases hset : c.ridsForFieldConstraint host path (.arr items) with
      | none => simp [hset] at hrids
      | some found => exact ⟨_, by simpa [hset] using hrids, hfield hset⟩
  · have hnot : ∀ items, expected ≠ .arr items := fun items heq => harr ⟨items, heq⟩
    rw [childRids_eq_none hnot] at hrids
    rw [childAnswers_eq_none hnot]
    dsimp only at hrids ⊢
    split_ifs at hrids with hdollar
    cases hset : c.ridsForFieldConstraint host path expected with
    | none => simp [hset] at hrids
    | some found => exact ⟨_, by simpa [hset] using hrids, hfield hset⟩

theorem ridsForEntries_tells (h : c.Agrees) {fields : Fields}
    (hchildren : ∀ field ∈ fields, ∀ items, field.2 = .arr items →
      ∀ item ∈ items, CriteriaTell host c item)
    {current : Option RidSet} {p : Nat → Fields → Bool} (hcurrent : c.TellsOr current p)
    {rids : RidSet} (hrids : c.ridsForEntries host fields current = some rids) :
    c.Tells rids fun rid object => p rid object && c.answerEntries host fields rid object := by
  induction fields generalizing current p with
  | nil =>
      rw [ridsForEntries] at hrids
      subst hrids
      exact Tells.congr hcurrent fun rid object _ => by rw [answerEntries, Bool.and_true]
  | cons entry rest ih =>
      rcases ridsForEntries_cons h (hchildren entry List.mem_cons_self) hrids hcurrent with
        ⟨next, hnext, htells⟩
      refine (ih (fun field hfield => hchildren field (List.mem_cons_of_mem _ hfield)) htells
        hnext).congr fun rid object _ => ?_
      rw [answerEntries, Bool.and_assoc]

/-- The planner's exact set of criteria is told by what it takes their constraints to say. -/
theorem ridsForCriteria_tells (h : c.Agrees) (query : Json) : CriteriaTell host c query := by
  -- Sets are built for queries and for the items of arrays, so both are carried along.
  suffices hboth : CriteriaTell host c query ∧
      ∀ items, query = .arr items → ∀ item ∈ items, CriteriaTell host c item from hboth.1
  have hother : ∀ {query : Json}, (∀ fields, query ≠ .obj fields) → CriteriaTell host c query := by
    intro query hquery rids hrids
    cases query with
    | obj fields => exact absurd rfl (hquery fields)
    | _ =>
        rw [ridsForCriteria] at hrids
        · refine (ridsForFields_tells h tellsOr_none hrids).congr
            fun rid object _ => ?_
          rw [answers, Bool.true_and]
          simp
        · simp
  induction query using Json.induct with
  | arr items ih =>
      refine ⟨hother (by simp), fun items' heq item hitem => ?_⟩
      obtain rfl := Json.arr.inj heq
      exact (ih item hitem).1
  | obj fields ih =>
      refine ⟨fun rids hrids => ?_, by simp⟩
      rw [ridsForCriteria] at hrids
      refine (ridsForEntries_tells h
        (fun field hfield => (ih field hfield).2) tellsOr_none hrids).congr
        fun rid object _ => ?_
      rw [answers, Bool.true_and]
  | _ => exact ⟨hother (by simp), by simp⟩

/-! ## Partial plans -/

theorem partialChildRids_eq_none {expected : Json} (h : ∀ items, expected ≠ .arr items) :
    c.partialChildRids host expected = none := by
  cases expected with
  | arr items => exact absurd rfl (h items)
  | _ => simp [partialChildRids]

theorem partialChildAnswers_eq_none {expected : Json} (h : ∀ items, expected ≠ .arr items) :
    c.partialChildAnswers host expected = none := by
  cases expected with
  | arr items => exact absurd rfl (h items)
  | _ => simp [partialChildAnswers]

/-- What the planner's narrowing set of a query tells. -/
def PartialTell (host : Host) (c : Collection) (query : Json) : Prop :=
  c.TellsOr (c.partialRidsForCriteria host query) (c.partialAnswers host query)

/-- A set found, or none where the constraint is left to the matcher. -/
def narrowFound (current found : Option RidSet) : Option RidSet :=
  match found with
  | some rids => some (narrow current rids)
  | none => current

theorem TellsOr.narrowFound {current found : Option RidSet} {p q : Nat → Fields → Bool}
    (hcurrent : c.TellsOr current p) (hfound : c.TellsOr found q) :
    c.TellsOr (Collection.narrowFound current found)
      fun rid object => p rid object && q rid object := by
  cases found with
  | none =>
      refine hcurrent.congr fun rid object => ?_
      rw [hfound rid object, Bool.and_true]
  | some rids => exact hcurrent.narrow hfound

theorem partialAnswer_tells (host : Host) (h : c.Agrees) (path : JsString) (expected : Json) :
    c.TellsOr (c.ridsForFieldConstraint host path expected)
      (c.partialAnswer host path expected) := by
  unfold partialAnswer
  cases hrids : c.ridsForFieldConstraint host path expected with
  | none => exact fun _ _ => rfl
  | some rids =>
      exact (ridsForFieldConstraint_tells h hrids).congr fun _ _ _ => (Bool.false_or _).symm

theorem partialRidsForFields_tells (h : c.Agrees) {fields : Fields} {current : Option RidSet}
    {p : Nat → Fields → Bool} (hcurrent : c.TellsOr current p) :
    c.TellsOr (c.partialRidsForFields host fields current) fun rid object =>
      p rid object && fields.all fun entry => c.partialAnswer host entry.1 entry.2 rid object := by
  induction fields generalizing current p with
  | nil => exact hcurrent.congr fun rid object => (Bool.and_true _).symm
  | cons entry rest ih =>
      have hstep := ih (hcurrent.narrowFound (partialAnswer_tells host h entry.1 entry.2))
      have heq : c.partialRidsForFields host (entry :: rest) current =
          c.partialRidsForFields host rest
            (narrowFound current (c.ridsForFieldConstraint host entry.1 entry.2)) := by
        rw [partialRidsForFields]
        cases c.ridsForFieldConstraint host entry.1 entry.2 <;> rfl
      rw [heq]
      exact hstep.congr fun rid object => by rw [List.all_cons, Bool.and_assoc]

theorem narrowAll_tells {items : List Json}
    (h : ∀ item ∈ items, c.TellsOr (sets item) (verdict item)) {current : Option RidSet}
    {p : Nat → Fields → Bool} (hcurrent : c.TellsOr current p) :
    c.TellsOr (narrowAll current (items.map fun item => (item, sets item))) fun rid object =>
      p rid object && allChildren (items.map fun item => (item, verdict item)) rid object := by
  induction items generalizing current p with
  | nil => exact hcurrent.congr fun rid object => (Bool.and_true _).symm
  | cons item items ih =>
      have hrest := fun i hi => h i (List.mem_cons_of_mem item hi)
      rw [narrowAll, List.map_cons, List.foldl_cons]
      cases hempty : isEmptyCriteria item with
      | true =>
          refine (ih hrest hcurrent).congr fun rid object => ?_
          simp [allChildren, hempty]
      | false =>
          refine (ih hrest (hcurrent.narrowFound (h item List.mem_cons_self))).congr fun rid object => ?_
          simp [allChildren, hempty, Bool.and_assoc]

/-- The set of an item of `$and`. -/
theorem itemSet_tells (h : c.Agrees) {item : Json} (hnarrowed : PartialTell host c item) :
    c.TellsOr ((c.ridsForCriteria host item).or (c.partialRidsForCriteria host item))
      (if (c.ridsForCriteria host item).isSome then c.answers host item
        else c.partialAnswers host item) := by
  cases hrids : c.ridsForCriteria host item with
  | none => exact hnarrowed
  | some rids => exact ridsForCriteria_tells h item rids hrids

theorem partialRidsForEntries_tells (h : c.Agrees) {fields : Fields}
    (hchildren : ∀ field ∈ fields, ∀ items, field.2 = .arr items →
      ∀ item ∈ items, PartialTell host c item)
    {current : Option RidSet} {p : Nat → Fields → Bool} (hcurrent : c.TellsOr current p) :
    c.TellsOr (c.partialRidsForEntries host fields current) fun rid object =>
      p rid object && c.partialAnswerEntries host fields rid object := by
  induction fields generalizing current p with
  | nil =>
      rw [partialRidsForEntries]
      exact hcurrent.congr fun rid object => by rw [partialAnswerEntries, Bool.and_true]
  | cons entry rest ih =>
      rcases entry with ⟨path, expected⟩
      have hrest := fun field hfield => hchildren field (List.mem_cons_of_mem (path, expected) hfield)
      -- What remains after a set that tells `q` was taken into account.
      have hnext : ∀ {next : Option RidSet} {q : Nat → Fields → Bool},
          c.TellsOr next (fun rid object => p rid object && q rid object) →
          (∀ rid object, c.partialAnswerEntries host ((path, expected) :: rest) rid object =
            (q rid object && c.partialAnswerEntries host rest rid object)) →
          c.TellsOr (c.partialRidsForEntries host rest next) fun rid object =>
            p rid object && c.partialAnswerEntries host ((path, expected) :: rest) rid object := by
        intro next q hq heq
        exact (ih hrest hq).congr fun rid object => by rw [heq, Bool.and_assoc]
      have hfield := hcurrent.narrowFound (partialAnswer_tells host h path expected)
      rw [partialRidsForEntries]
      by_cases harr : ∃ items, expected = .arr items
      · rcases harr with ⟨items, rfl⟩
        rw [partialChildRids, partialItemRids_eq]
        dsimp only
        split_ifs with hand hor hdollar
        · have hitems := narrowAll_tells (fun item hitem => itemSet_tells h
            (hchildren (path, .arr items) List.mem_cons_self items rfl item hitem)) hcurrent
          refine hnext hitems fun rid object => ?_
          rw [partialAnswerEntries, partialChildAnswers, partialItemAnswers_eq]
          simp only [if_pos hand]
        · have hor' : c.TellsOr (c.ridsForCriteria host (.obj [(js "$or", .arr items)]))
              fun rid object => (c.ridsForCriteria host (.obj [(js "$or", .arr items)])).isNone ||
                c.answers host (.obj [(js "$or", .arr items)]) rid object := by
            cases hrids : c.ridsForCriteria host (.obj [(js "$or", .arr items)]) with
            | none => exact fun _ _ => rfl
            | some rids =>
                exact (ridsForCriteria_tells h _ rids hrids).congr fun _ _ _ =>
                  (Bool.false_or _).symm
          have hstep := hnext (hcurrent.narrowFound hor') fun rid object => by
            rw [partialAnswerEntries, partialChildAnswers]
            simp only [if_neg hand, if_pos hor]
          cases hrids : c.ridsForCriteria host (.obj [(js "$or", .arr items)]) with
          | none => simpa only [hrids, narrowFound] using hstep
          | some rids => simpa only [hrids, narrowFound] using hstep
        · refine hnext (q := fun _ _ => true) (hcurrent.congr fun _ _ => (Bool.and_true _).symm)
            fun rid object => ?_
          rw [partialAnswerEntries, partialChildAnswers]
          simp only [if_neg hand, if_neg hor, hdollar, Bool.true_or]
        · have hstep := hnext hfield fun rid object => by
            rw [partialAnswerEntries, partialChildAnswers]
            simp only [if_neg hand, if_neg hor, hdollar, Bool.false_or]
          cases hrids : c.ridsForFieldConstraint host path (.arr items) with
          | none => simpa only [hrids, narrowFound] using hstep
          | some rids => simpa only [hrids, narrowFound] using hstep
      · have hnot : ∀ items, expected ≠ .arr items := fun items heq => harr ⟨items, heq⟩
        rw [partialChildRids_eq_none hnot]
        dsimp only
        split_ifs with hdollar
        · refine hnext (q := fun _ _ => true) (hcurrent.congr fun _ _ => (Bool.and_true _).symm)
            fun rid object => ?_
          rw [partialAnswerEntries, partialChildAnswers_eq_none hnot]
          simp only [hdollar, Bool.true_or]
        · have hstep := hnext hfield fun rid object => by
            rw [partialAnswerEntries, partialChildAnswers_eq_none hnot]
            simp only [hdollar, Bool.false_or]
          cases hrids : c.ridsForFieldConstraint host path expected with
          | none => simpa only [hrids, narrowFound] using hstep
          | some rids => simpa only [hrids, narrowFound] using hstep

theorem partialRidsForCriteria_tells (h : c.Agrees) (query : Json) : PartialTell host c query := by
  suffices hboth : PartialTell host c query ∧
      ∀ items, query = .arr items → ∀ item ∈ items, PartialTell host c item from hboth.1
  have hother : ∀ {query : Json}, (∀ fields, query ≠ .obj fields) → PartialTell host c query := by
    intro query hquery
    unfold PartialTell
    cases query with
    | obj fields => exact absurd rfl (hquery fields)
    | _ =>
        rw [partialRidsForCriteria]
        · refine (partialRidsForFields_tells h tellsOr_none).congr fun rid object => ?_
          rw [partialAnswers, Bool.true_and]
          simp
        · simp
  induction query using Json.induct with
  | arr items ih =>
      refine ⟨hother (by simp), fun items' heq item hitem => ?_⟩
      obtain rfl := Json.arr.inj heq
      exact (ih item hitem).1
  | obj fields ih =>
      refine ⟨?_, by simp⟩
      unfold PartialTell
      rw [partialRidsForCriteria]
      refine (partialRidsForEntries_tells h
        (fun field hfield => (ih field hfield).2) tellsOr_none).congr fun rid object => ?_
      rw [partialAnswers, Bool.true_and]
  | _ => exact ⟨hother (by simp), by simp⟩

/-! ## Rows of a plan -/

theorem matchesEntries_stripQueryControls (query : Fields) (object : Json) :
    matchesEntries host (stripQueryControls query) object = matchesEntries host query object := by
  unfold stripQueryControls
  induction query with
  | nil => rfl
  | cons entry rest ih =>
      rcases entry with ⟨path, expected⟩
      by_cases hcontrol : path ∈ queryControls
      · rw [List.filter_cons_of_neg (by simpa using hcontrol), ih, matchesEntries, matchesEntry,
          if_pos hcontrol, Bool.true_and]
      · rw [List.filter_cons_of_pos (by simpa using hcontrol), matchesEntries, matchesEntries, ih]

/-- The matcher leaves the controls of a query out. -/
theorem matchesQuery_stripQueryControls (query : Fields) (object : Json) :
    matchesQuery host (.obj (stripQueryControls query)) object =
      matchesQuery host (.obj query) object := by
  rw [matchesQuery, matchesQuery, matchesEntries_stripQueryControls]

/-- The row passes the filter on ids and its object the predicate. -/
def passes (c : Collection) (includeId : Option (JsString → Bool)) (p : Nat → Fields → Bool)
    (rid : Nat) : Bool :=
  c.includesRid includeId rid && (c.readRid rid).any (p rid)

theorem passes_eq_true {includeId : Option (JsString → Bool)} {p : Nat → Fields → Bool} {rid : Nat}:
    passes c includeId p rid = true ↔ c.includesRid includeId rid = true ∧
      ∃ object, c.readRid rid = some object ∧ p rid object = true := by
  simp [passes, Option.any_eq_true]

/-- The planner's three ways to answer criteria. -/
theorem planRead_cases (h : c.Agrees) (criteria : Fields) :
    (∃ rids, c.planRead host criteria = ⟨.indexExact, some rids, false⟩ ∧ criteria ≠ [] ∧
      c.Tells rids (c.planAnswers host criteria)) ∨
    (∃ rids p, c.planRead host criteria = ⟨.indexPartial, some rids, true⟩ ∧ criteria ≠ [] ∧
      c.Tells rids p ∧ ∀ rid object, c.planAnswers host criteria rid object =
        (p rid object && matchesQuery host (.obj criteria) (.obj object))) ∨
    (c.planRead host criteria = ⟨.scan, none, false⟩ ∧ ∀ rid object,
      c.planAnswers host criteria rid object = matchesQuery host (.obj criteria) (.obj object)) := by
  by_cases hnil : criteria = []
  · refine Or.inr (Or.inr ⟨by rw [planRead, if_pos hnil], fun rid object => ?_⟩)
    rw [planAnswers, planRead, if_pos hnil]
  · have hnarrowed := @partialRidsForCriteria_tells host c h (.obj criteria)
    unfold PartialTell at hnarrowed
    cases hexact : c.ridsForCriteria host (.obj criteria) with
    | some rids =>
        have hplan : c.planRead host criteria = ⟨.indexExact, some rids, false⟩ := by
          simp only [planRead, if_neg hnil, hexact]
        refine Or.inl ⟨rids, hplan, hnil, ?_⟩
        refine (ridsForCriteria_tells h _ rids hexact).congr fun rid object _ => ?_
        simp only [planAnswers, hplan]
    | none =>
        cases hrids : c.partialRidsForCriteria host (.obj criteria) with
        | some rids =>
            have hplan : c.planRead host criteria = ⟨.indexPartial, some rids, true⟩ := by
              simp only [planRead, if_neg hnil, hexact, hrids]
            rw [hrids] at hnarrowed
            refine Or.inr (Or.inl ⟨rids, _, hplan, hnil, hnarrowed, fun rid object => ?_⟩)
            simp only [planAnswers, hplan]
        | none =>
            have hplan : c.planRead host criteria = ⟨.scan, none, false⟩ := by
              simp only [planRead, if_neg hnil, hexact, hrids]
            refine Or.inr (Or.inr ⟨hplan, fun rid object => ?_⟩)
            simp only [planAnswers, hplan]

theorem matchesRid_eq_true {criteria : Fields} {rid : Nat} :
    c.matchesRid host criteria rid = true ↔ ∃ object, c.readRid rid = some object ∧
      matchesQuery host (.obj criteria) (.obj object) = true := by
  simp [matchesRid, Option.any_eq_true]

/-- A set that tells `p`, filtered by a test of the object. -/
theorem Tells.filter {rids : RidSet} {p : Nat → Fields → Bool} (h : c.Tells rids p)
    (q : Nat → Fields → Bool) :
    c.Tells (rids.filter fun rid => (c.readRid rid).any (q rid))
      fun rid object => p rid object && q rid object where
  nodup := h.nodup.filter _
  mem := by
    intro rid
    rw [List.mem_filter, h.mem, Option.any_eq_true]
    constructor
    · rintro ⟨⟨object, hread, hp⟩, object', hread', hq⟩
      obtain rfl := Option.some.inj (hread.symm.trans hread')
      exact ⟨object, hread, by rw [hp, hq]; rfl⟩
    · rintro ⟨object, hread, hboth⟩
      rcases Bool.and_eq_true_iff.mp hboth with ⟨hp, hq⟩
      exact ⟨⟨object, hread, hp⟩, object, hread, hq⟩

theorem liveRids_tells (h : c.Agrees) : c.Tells c.liveRids fun _ _ => true where
  nodup := nodup_liveRids h.rids
  mem := by simp [h.mem_liveRids]

/-- The rows of the plan, after the check that a scan makes of them. -/
def checkedRids (host : Host) (c : Collection) (criteria : Fields) : List Nat :=
  let plan := c.planRead host criteria
  let verifyScan := decide (plan.path = .scan) && decide (criteria ≠ [])
  (c.ridsForPlan host plan criteria).filter fun rid =>
    !verifyScan || c.matchesRid host criteria rid

theorem checkedRids_tells (h : c.Agrees) (criteria : Fields) :
    c.Tells (checkedRids host c criteria) (c.planAnswers host criteria) := by
  unfold checkedRids ridsForPlan
  rcases @planRead_cases host c h criteria with
    ⟨rids, hplan, -, htells⟩ | ⟨rids, p, hplan, -, htells, hp⟩ | ⟨hplan, hscan⟩
  · rw [hplan]
    simpa using htells
  · rw [hplan]
    have hfilter := htells.filter fun _ object => matchesQuery host (.obj criteria) (.obj object)
    simpa [matchesRid] using hfilter.congr fun rid object _ => (hp rid object).symm
  · rw [hplan]
    have hfilter := (liveRids_tells h).filter fun _ object =>
      matchesQuery host (.obj criteria) (.obj object)
    have htells := hfilter.congr (q := c.planAnswers host criteria) fun rid object _ => by
      rw [hscan, Bool.true_and]
    by_cases hnil : criteria = []
    · -- Without criteria nothing is checked, and every object matches.
      subst hnil
      have hall : ∀ rid ∈ c.liveRids, ((c.readRid rid).any fun object =>
          matchesQuery host (.obj []) (.obj object)) = true := by
        intro rid hrid
        rcases h.mem_liveRids.mp hrid with ⟨object, hread⟩
        rw [hread]
        rfl
      rw [List.filter_eq_self.mpr hall] at htells
      simpa using htells
    · simpa [hnil, matchesRid] using htells

/-- The rows that `find` goes through are the live rows of which the plan says yes. -/
theorem foundRids_perm (h : c.Agrees) (criteria : Fields) (includeId : Option (JsString → Bool)) :
    (c.foundRids host criteria includeId).Perm
      (c.liveRids.filter (passes c includeId (c.planAnswers host criteria))) := by
  have htells := @checkedRids_tells host c h criteria
  have heq : c.foundRids host criteria includeId =
      (checkedRids host c criteria).filter (c.includesRid includeId) := by
    unfold foundRids checkedRids
    rw [List.filter_filter]
  rw [heq]
  refine (List.perm_ext_iff_of_nodup (htells.nodup.filter _)
    ((nodup_liveRids h.rids).filter _)).mpr fun rid => ?_
  rw [List.mem_filter, List.mem_filter, htells.mem, passes_eq_true, h.mem_liveRids]
  constructor
  · rintro ⟨⟨object, hread, hp⟩, hinclude⟩
    exact ⟨⟨object, hread⟩, hinclude, object, hread, hp⟩
  · rintro ⟨-, hinclude, object, hread, hp⟩
    exact ⟨⟨object, hread, hp⟩, hinclude⟩

/-! ## Constraints one by one -/

/-- The children of `$and` and `$or` are objects, all the way down. -/
inductive WellBuilt : Json → Prop
  | obj {fields : Fields} (children : ∀ path items, (path, Json.arr items) ∈ fields →
      path = js "$and" ∨ path = js "$or" → ∀ item ∈ items, WellBuilt item) : WellBuilt (.obj fields)

/-- The criteria constrain a field, at the top or below `$and` and `$or`. -/
inductive Constrains : Json → JsString → Json → Prop
  | field {fields : Fields} {path : JsString} {expected : Json} (mem : (path, expected) ∈ fields)
      (plain : ¬ (js "$").isPrefixOf path = true) : Constrains (.obj fields) path expected
  | child {fields : Fields} {key path : JsString} {items : List Json} {item expected : Json}
      (mem : (key, Json.arr items) ∈ fields) (logical : key = js "$and" ∨ key = js "$or")
      (item_mem : item ∈ items) (below : Constrains item path expected) :
      Constrains (.obj fields) path expected

/-- Each constraint says of the object what the matcher says. -/
def ConstraintsMatch (host : Host) (c : Collection) (query : Json) (rid : Nat) (object : Fields) :
    Prop :=
  ∀ path expected, Constrains query path expected → c.answer host path expected rid object =
    matchesConstraint host expected (getPathValue (.obj object) path)

theorem matchesEntry_field {path : JsString} (hplain : ¬ (js "$").isPrefixOf path = true)
    (part : QueryPart) (object : Json) :
    matchesEntry path part object = part.constraint (getPathValue object path) := by
  have hne : ∀ name : JsString, (js "$").isPrefixOf name = true → path ≠ name :=
    fun name hname heq => hplain (heq ▸ hname)
  have hcontrol : path ∉ queryControls := fun hmem =>
    hplain ((show ∀ name ∈ queryControls, (js "$").isPrefixOf name = true by decide) path hmem)
  rw [matchesEntry, if_neg hcontrol, if_neg (hne _ (by decide)), if_neg (hne _ (by decide)),
    if_neg (hne _ (by decide)), if_neg (hne _ (by decide)), if_neg (hne _ (by decide)),
    if_neg (hne _ (by decide))]

theorem queryList_eq (items : List Json) :
    queryList host items = items.map (matchesQuery host) := by
  induction items with
  | nil => rw [queryList]; rfl
  | cons item items ih => rw [queryList, ih]; rfl

theorem matchesEntry_and (items : List Json) (object : Json) :
    matchesEntry (js "$and") ⟨matchesConstraint host (.arr items), matchesQuery host (.arr items),
      queriesOf host (.arr items), countedOf host (.arr items)⟩ object =
        items.all fun item => matchesQuery host item object := by
  rw [matchesEntry, if_neg (by decide), if_pos rfl, queriesOf, queryList_eq, List.all_map]
  rfl

theorem matchesEntry_or (items : List Json) (object : Json) :
    matchesEntry (js "$or") ⟨matchesConstraint host (.arr items), matchesQuery host (.arr items),
      queriesOf host (.arr items), countedOf host (.arr items)⟩ object =
        items.any fun item => matchesQuery host item object := by
  rw [matchesEntry, if_neg (by decide), if_neg (by decide), if_pos rfl, queriesOf, queryList_eq,
    List.any_map]
  rfl

/-- Criteria that the planner answers in full are read as the matcher reads them. -/
def ExactlyRead (host : Host) (c : Collection) (rid : Nat) (object : Fields) (query : Json) :
    Prop :=
  WellBuilt query → ConstraintsMatch host c query rid object →
    (c.ridsForCriteria host query).isSome →
      c.answers host query rid object = matchesQuery host query (.obj object)

theorem matchesQuery_of_isEmptyCriteria {item object : Json} (h : isEmptyCriteria item = true) :
    matchesQuery host item object = true := by
  have hitem : item = .obj [] := of_decide_eq_true h
  subst hitem
  rfl

theorem isSome_of_andRids {items : List Json} {rids : Option RidSet}
    (h : andRids (items.map fun item => (item, sets item)) = some rids) {item : Json}
    (hitem : item ∈ items) (hne : isEmptyCriteria item = false) : (sets item).isSome := by
  unfold andRids at h
  simp only at h
  split_ifs at h with hnone
  cases hsets : sets item with
  | some found => rfl
  | none =>
      refine absurd ?_ hnone
      refine List.mem_map.mpr ⟨(item, sets item), List.mem_filter.mpr ⟨?_, by simp [hne]⟩, hsets⟩
      exact List.mem_map.mpr ⟨item, hitem, rfl⟩

theorem isSome_of_orRids {items : List Json} {rids : RidSet}
    (h : orRids (items.map fun item => (item, sets item)) = some rids) {item : Json}
    (hitem : item ∈ items) : (sets item).isSome := by
  unfold orRids at h
  simp only at h
  split_ifs at h with hnone
  cases hsets : sets item with
  | some found => rfl
  | none =>
      refine absurd ?_ hnone
      exact List.mem_map.mpr ⟨(item, sets item), List.mem_map.mpr ⟨item, hitem, rfl⟩, hsets⟩

theorem all_congr_of_mem {α : Type} {p q : α → Bool} {items : List α}
    (h : ∀ a ∈ items, p a = q a) : items.all p = items.all q := by
  rw [Bool.eq_iff_iff, List.all_eq_true, List.all_eq_true]
  exact forall₂_congr fun a ha => by rw [h a ha]

theorem any_congr_of_mem {α : Type} {p q : α → Bool} {items : List α}
    (h : ∀ a ∈ items, p a = q a) : items.any p = items.any q := by
  rw [Bool.eq_iff_iff, List.any_eq_true, List.any_eq_true]
  exact exists_congr fun a => and_congr_right fun ha => by rw [h a ha]

theorem answerEntries_eq {rid : Nat} {object : Fields} {all fields : Fields}
    (hsub : ∀ entry ∈ fields, entry ∈ all) (hbuilt : WellBuilt (.obj all))
    (hmatch : ConstraintsMatch host c (.obj all) rid object)
    (hchildren : ∀ field ∈ fields, ∀ items, field.2 = .arr items →
      ∀ item ∈ items, ExactlyRead host c rid object item) {current : Option RidSet}
    (hsome : (c.ridsForEntries host fields current).isSome) :
    c.answerEntries host fields rid object = matchesEntries host fields (.obj object) := by
  induction fields generalizing current with
  | nil => rw [answerEntries, matchesEntries]
  | cons entry rest ih =>
      rcases entry with ⟨path, expected⟩
      have hmem := hsub _ List.mem_cons_self
      have hrest := fun {next : Option RidSet} => @ih
        (fun e he => hsub e (List.mem_cons_of_mem _ he))
        (fun field hfield => hchildren field (List.mem_cons_of_mem _ hfield)) next
      have hfield : ¬ (js "$").isPrefixOf path = true → c.answer host path expected rid object =
          matchesEntry path ⟨matchesConstraint host expected, matchesQuery host expected,
            queriesOf host expected, countedOf host expected⟩ (.obj object) := by
        intro hplain
        rw [matchesEntry_field hplain]
        exact hmatch path expected (.field hmem hplain)
      rw [answerEntries, matchesEntries]
      rw [ridsForEntries] at hsome
      -- a list may be the children of `$and` or `$or`
      by_cases harr : ∃ items, expected = .arr items
      · rcases harr with ⟨items, rfl⟩
        have hitems : path = js "$and" ∨ path = js "$or" → ∀ item ∈ items,
            (c.ridsForCriteria host item).isSome →
              c.answers host item rid object = matchesQuery host item (.obj object) := by
          intro hlogical item hitem
          refine hchildren (path, .arr items) List.mem_cons_self items rfl item hitem ?_
            fun p e hbelow => hmatch p e (.child hmem hlogical hitem hbelow)
          cases hbuilt with
          | obj children => exact children path items hmem hlogical item hitem
        rw [childRids, itemRids_eq] at hsome
        rw [childAnswers, itemAnswers_eq]
        dsimp only at hsome ⊢
        split_ifs at hsome ⊢ with hand hor hdollar
        · subst hand
          rw [matchesEntry_and]
          cases hset : andRids (items.map fun item => (item, c.ridsForCriteria host item)) with
          | none => simp [hset] at hsome
          | some found =>
              -- an empty child matches everything, and the planner skips it
              have hall : allChildren (items.map fun item => (item, c.answers host item)) rid object
                  = items.all fun item => matchesQuery host item (.obj object) := by
                rw [allChildren, List.all_map]
                refine all_congr_of_mem fun item hitem => ?_
                cases hempty : isEmptyCriteria item with
                | true =>
                    rw [matchesQuery_of_isEmptyCriteria hempty]
                    simp [hempty]
                | false =>
                    simp only [Function.comp_apply, hempty, Bool.false_or]
                    exact hitems (Or.inl rfl) item hitem (isSome_of_andRids hset hitem hempty)
              rw [hall]
              cases found with
              | none => rw [hrest (by simpa [hset] using hsome)]
              | some found => rw [hrest (by simpa [hset] using hsome)]
        · subst hor
          rw [matchesEntry_or]
          cases hset : orRids (items.map fun item => (item, c.ridsForCriteria host item)) with
          | none => simp [hset] at hsome
          | some found =>
              have hany : anyChild (items.map fun item => (item, c.answers host item)) rid object
                  = items.any fun item => matchesQuery host item (.obj object) := by
                rw [anyChild, List.any_map]
                exact any_congr_of_mem fun item hitem =>
                  hitems (Or.inr rfl) item hitem (isSome_of_orRids hset hitem)
              rw [hany, hrest (by simpa [hset] using hsome)]
        · exact absurd hsome (by simp)
        · rw [hfield hdollar]
          cases hset : c.ridsForFieldConstraint host path (.arr items) with
          | none => simp [hset] at hsome
          | some found => rw [hrest (by simpa [hset] using hsome)]
      · have hnot : ∀ items, expected ≠ .arr items := fun items heq => harr ⟨items, heq⟩
        rw [childRids_eq_none hnot] at hsome
        rw [childAnswers_eq_none hnot]
        dsimp only at hsome ⊢
        split_ifs at hsome with hdollar
        · exact absurd hsome (by simp)
        · rw [hfield hdollar]
          cases hset : c.ridsForFieldConstraint host path expected with
          | none => simp [hset] at hsome
          | some found => rw [hrest (by simpa [hset] using hsome)]

theorem exactlyRead (rid : Nat) (object : Fields) (query : Json) :
    ExactlyRead host c rid object query := by
  suffices hboth : ExactlyRead host c rid object query ∧
      ∀ items, query = .arr items → ∀ item ∈ items, ExactlyRead host c rid object item from hboth.1
  have hother : ∀ {query : Json}, (∀ fields, query ≠ .obj fields) →
      ExactlyRead host c rid object query := by
    intro query hquery hbuilt
    cases hbuilt with
    | obj children => exact absurd rfl (hquery _)
  induction query using Json.induct with
  | arr items ih =>
      refine ⟨hother (by simp), fun items' heq item hitem => ?_⟩
      obtain rfl := Json.arr.inj heq
      exact (ih item hitem).1
  | obj fields ih =>
      refine ⟨fun hbuilt hmatch hsome => ?_, by simp⟩
      rw [ridsForCriteria] at hsome
      rw [answers, matchesQuery]
      exact answerEntries_eq (fun _ he => he) hbuilt hmatch (fun field hfield => (ih field hfield).2)
        hsome
  | _ => exact ⟨hother (by simp), by simp⟩

/-- Criteria that narrow a scan keep every object that the matcher accepts. -/
def PartlyRead (host : Host) (c : Collection) (rid : Nat) (object : Fields) (query : Json) : Prop :=
  WellBuilt query → ConstraintsMatch host c query rid object →
    matchesQuery host query (.obj object) = true → c.partialAnswers host query rid object = true

theorem partialAnswer_of_match {rid : Nat} {object : Fields} {fields : Fields} {path : JsString}
    {expected : Json} (hmatch : ConstraintsMatch host c (.obj fields) rid object)
    (hmem : (path, expected) ∈ fields) (hplain : ¬ (js "$").isPrefixOf path = true)
    (hentry : matchesEntry path ⟨matchesConstraint host expected, matchesQuery host expected,
      queriesOf host expected, countedOf host expected⟩ (.obj object) = true) :
    c.partialAnswer host path expected rid object = true := by
  rw [matchesEntry_field hplain] at hentry
  rw [partialAnswer, hmatch path expected (.field hmem hplain)]
  exact Bool.or_eq_true_iff.mpr (Or.inr hentry)

theorem partialAnswerEntries_of_matches {rid : Nat} {object : Fields} {all fields : Fields}
    (hsub : ∀ entry ∈ fields, entry ∈ all) (hbuilt : WellBuilt (.obj all))
    (hmatch : ConstraintsMatch host c (.obj all) rid object)
    (hchildren : ∀ field ∈ fields, ∀ items, field.2 = .arr items →
      ∀ item ∈ items, PartlyRead host c rid object item)
    (hmatches : matchesEntries host fields (.obj object) = true) :
    c.partialAnswerEntries host fields rid object = true := by
  induction fields with
  | nil => rw [partialAnswerEntries]
  | cons entry rest ih =>
      rcases entry with ⟨path, expected⟩
      have hmem := hsub _ List.mem_cons_self
      rw [matchesEntries, Bool.and_eq_true_iff] at hmatches
      rcases hmatches with ⟨hentry, hrest⟩
      have htail := ih (fun e he => hsub e (List.mem_cons_of_mem _ he))
        (fun field hfield => hchildren field (List.mem_cons_of_mem _ hfield)) hrest
      have hfield : ((js "$").isPrefixOf path || c.partialAnswer host path expected rid object) =
          true := by
        by_cases hplain : (js "$").isPrefixOf path = true
        · rw [hplain, Bool.true_or]
        · rw [partialAnswer_of_match hmatch hmem hplain hentry, Bool.or_true]
      rw [partialAnswerEntries, Bool.and_eq_true_iff]
      refine ⟨?_, htail⟩
      by_cases harr : ∃ items, expected = .arr items
      · rcases harr with ⟨items, rfl⟩
        have hbelow : path = js "$and" ∨ path = js "$or" → ∀ item ∈ items,
            WellBuilt item ∧ ConstraintsMatch host c item rid object := by
          intro hlogical item hitem
          refine ⟨?_, fun p e hbelow => hmatch p e (.child hmem hlogical hitem hbelow)⟩
          cases hbuilt with
          | obj children => exact children path items hmem hlogical item hitem
        rw [partialChildAnswers, partialItemAnswers_eq]
        dsimp only
        split_ifs with hand hor
        · subst hand
          rw [matchesEntry_and, List.all_eq_true] at hentry
          rw [allChildren, List.all_map, List.all_eq_true]
          intro item hitem
          rcases hbelow (Or.inl rfl) item hitem with ⟨hwell, hconstraints⟩
          rw [Function.comp_apply, Bool.or_eq_true_iff]
          refine Or.inr ?_
          cases hsome : (c.ridsForCriteria host item).isSome with
          | true =>
              rw [if_pos rfl]
              exact (exactlyRead rid object item hwell hconstraints hsome).trans
                (hentry item hitem)
          | false =>
              rw [if_neg (by simp)]
              exact hchildren (js "$and", .arr items) List.mem_cons_self items rfl item hitem hwell
                hconstraints (hentry item hitem)
        · subst hor
          -- The set of the whole `$or` is exact.
          have hor : WellBuilt (.obj [(js "$or", .arr items)]) := .obj fun key items' hkey _ => by
            rcases Prod.mk.inj (List.mem_singleton.mp hkey) with ⟨-, hitems⟩
            obtain rfl := Json.arr.inj hitems
            exact fun item hitem => (hbelow (Or.inr rfl) item hitem).1
          have hconstraints : ConstraintsMatch host c (.obj [(js "$or", .arr items)]) rid object := by
            intro p e hconstrains
            cases hconstrains with
            | field hfield hplain =>
                rcases Prod.mk.inj (List.mem_singleton.mp hfield) with ⟨rfl, -⟩
                exact absurd (by decide) hplain
            | child hchild hlogical hitem hinner =>
                rcases Prod.mk.inj (List.mem_singleton.mp hchild) with ⟨-, hitems⟩
                obtain rfl := Json.arr.inj hitems
                exact (hbelow (Or.inr rfl) _ hitem).2 p e hinner
          cases hsome : (c.ridsForCriteria host (.obj [(js "$or", .arr items)])).isSome with
          | false =>
              rw [Option.isSome_eq_false_iff.mp hsome]
              rfl
          | true =>
              rw [exactlyRead rid object _ hor hconstraints hsome, matchesQuery, matchesEntries,
                hentry, matchesEntries]
              exact Bool.or_true _
        · exact hfield
      · rw [partialChildAnswers_eq_none fun items heq => harr ⟨items, heq⟩]
        exact hfield

theorem partlyRead (rid : Nat) (object : Fields) (query : Json) :
    PartlyRead host c rid object query := by
  suffices hboth : PartlyRead host c rid object query ∧
      ∀ items, query = .arr items → ∀ item ∈ items, PartlyRead host c rid object item from hboth.1
  have hother : ∀ {query : Json}, (∀ fields, query ≠ .obj fields) →
      PartlyRead host c rid object query := by
    intro query hquery hbuilt
    cases hbuilt with
    | obj children => exact absurd rfl (hquery _)
  induction query using Json.induct with
  | arr items ih =>
      refine ⟨hother (by simp), fun items' heq item hitem => ?_⟩
      obtain rfl := Json.arr.inj heq
      exact (ih item hitem).1
  | obj fields ih =>
      refine ⟨fun hbuilt hmatch hmatches => ?_, by simp⟩
      rw [matchesQuery] at hmatches
      rw [partialAnswers]
      exact partialAnswerEntries_of_matches (fun _ he => he) hbuilt hmatch
        (fun field hfield => (ih field hfield).2) hmatches
  | _ => exact ⟨hother (by simp), by simp⟩

/-- A plan says what the matcher says of an object of which each of its constraints does. -/
theorem planAnswers_eq {criteria : Fields} {rid : Nat} {object : Fields}
    (hbuilt : WellBuilt (.obj criteria))
    (hmatch : ConstraintsMatch host c (.obj criteria) rid object) :
    c.planAnswers host criteria rid object =
      matchesQuery host (.obj criteria) (.obj object) := by
  unfold planAnswers planRead
  split_ifs with hnil
  · rfl
  · cases hexact : c.ridsForCriteria host (.obj criteria) with
    | some rids =>
        exact exactlyRead rid object _ hbuilt hmatch (by rw [hexact]; rfl)
    | none =>
        cases hnarrowed : c.partialRidsForCriteria host (.obj criteria) with
        | none => rfl
        | some rids =>
            cases hmatches : matchesQuery host (.obj criteria) (.obj object) with
            | false => simp
            | true =>
                have hread := partlyRead rid object (.obj criteria) hbuilt hmatch hmatches
                simp [hread]

end

end Collection

end ObjyDb
