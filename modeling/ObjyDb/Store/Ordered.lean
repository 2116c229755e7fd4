import ObjyDb.Lib.StableSort
import ObjyDb.Query.Sorting
import ObjyDb.Store.FieldIndex

/-!
# Ordered — the ordered part of a field index

Beside the typed keys a field index keeps a bucket of rows for every value, by the canonical key of
the value.  The buckets are sorted by the value that made them, so that rows come out by rank.

- `Files.addOrdered`, `Files.removeOrdered`: the buckets keep to the rows
- `mem_orderedIds`, `pairwise_orderedIds`: all rows come out, in order
-/

namespace ObjyDb

open Js

/-! ## Buckets -/

/-- The rows of one value; `none` is `undefined`. -/
structure Bucket where
  value : Option Json
  ids : RidSet

/-- The map `ordered` of an index. -/
abbrev OrderedIndex := List (JsString × Bucket)

namespace OrderedIndex

variable (collation : Collation)

/-- `orderedValueKey(value)` -/
def orderedValueKey : Option Json → JsString
  | none => js "undefined:undefined"
  | some value => typeofJson value ++ unit ':' :: stableKey collation value

/-- `_addOrdered(rid, value)` -/
def addOrdered (ordered : OrderedIndex) (rid : Nat) (value : Option Json) : OrderedIndex :=
  let key := orderedValueKey collation value
  let bucket := (Assoc.get? ordered key).getD ⟨value, []⟩
  Assoc.set ordered key { bucket with ids := ridSetAdd bucket.ids rid }

/-- `_removeOrdered(rid, value)` -/
def removeOrdered (ordered : OrderedIndex) (rid : Nat) (value : Option Json) : OrderedIndex :=
  let key := orderedValueKey collation value
  match Assoc.get? ordered key with
  | none => ordered
  | some bucket =>
      if ridSetDelete bucket.ids rid = [] then Assoc.erase ordered key
      else Assoc.set ordered key { bucket with ids := ridSetDelete bucket.ids rid }

/-- The order of two buckets: by value, and by key where the values compare as equal. -/
def bucketsBefore (left right : JsString × Bucket) : Bool :=
  match compareSortValues collation left.2.value right.2.value with
  | .lt => true
  | .gt => false
  | .eq => decide (collation.compare left.1 right.1 ≠ .gt)

/-- `_sortedOrderedKeys()`.  The code keeps the list until a bucket comes or goes. -/
def sortedOrderedKeys (ordered : OrderedIndex) : List JsString :=
  (ordered.mergeSort (bucketsBefore collation)).map Prod.fst

/-- `orderedIds(desc)` -/
def orderedIds (ordered : OrderedIndex) (desc : Bool) : List Nat :=
  let keys := sortedOrderedKeys collation ordered
  (if desc then keys.reverse else keys).flatMap fun key =>
    ((Assoc.get? ordered key).map Bucket.ids).getD []

/-! ## Agreement -/

/-- The buckets hold the rows, each under the key of its value; `value` is what each row has. -/
structure Files (ordered : OrderedIndex) (value : Nat → Option (Option Json)) : Prop where
  nodup : (Assoc.keys ordered).Nodup
  keyed : ∀ {key bucket}, Assoc.get? ordered key = some bucket →
    orderedValueKey collation bucket.value = key
  wellFormed : ∀ {key bucket v}, Assoc.get? ordered key = some bucket → bucket.value = some v →
    v.WellFormed
  distinct : ∀ {key bucket}, Assoc.get? ordered key = some bucket →
    bucket.ids.Nodup ∧ bucket.ids ≠ []
  filed : ∀ {rid key}, (∃ bucket, Assoc.get? ordered key = some bucket ∧ rid ∈ bucket.ids) ↔
    ∃ v, value rid = some v ∧ orderedValueKey collation v = key

section

variable {collation : Collation} {ordered : OrderedIndex} {value : Nat → Option (Option Json)}

theorem files_nil : Files collation [] fun _ => none where
  nodup := List.nodup_nil
  keyed h := by cases h
  wellFormed h := by cases h
  distinct h := by cases h
  filed := by simp

/-- A row that was not there is filed under its value. -/
theorem Files.addOrdered (h : Files collation ordered value) {rid : Nat} (hrid : value rid = none)
    {v : Option Json} (hwf : ∀ w, v = some w → w.WellFormed) :
    Files collation (addOrdered collation ordered rid v)
      (fun r => if r = rid then some v else value r) := by
  unfold OrderedIndex.addOrdered
  generalize hkey : orderedValueKey collation v = key
  have hbucket : ∀ {bucket}, Assoc.get? ordered key = some bucket ∨
      (Assoc.get? ordered key = none ∧ bucket = ⟨v, []⟩) →
      orderedValueKey collation bucket.value = key ∧ bucket.ids.Nodup ∧
        ∀ w, bucket.value = some w → w.WellFormed := by
    rintro bucket (hget | ⟨-, rfl⟩)
    · exact ⟨h.keyed hget, (h.distinct hget).1, fun w hw => h.wellFormed hget hw⟩
    · exact ⟨hkey, List.nodup_nil, hwf⟩
  have hgot : Assoc.get? ordered key = some ((Assoc.get? ordered key).getD ⟨v, []⟩) ∨
      (Assoc.get? ordered key = none ∧ (Assoc.get? ordered key).getD ⟨v, []⟩ = ⟨v, []⟩) := by
    cases Assoc.get? ordered key with
    | none => exact Or.inr ⟨rfl, rfl⟩
    | some bucket => exact Or.inl rfl
  have hnew : ∀ {r : Nat}, r ≠ rid →
      (r ∈ ((Assoc.get? ordered key).getD ⟨v, []⟩).ids ↔
        ∃ bucket, Assoc.get? ordered key = some bucket ∧ r ∈ bucket.ids) := by
    intro r _
    cases Assoc.get? ordered key <;> simp
  refine ⟨Assoc.nodup_keys_set _ _ h.nodup, ?_, ?_, ?_, ?_⟩
  · intro k bucket hget
    rw [Assoc.get?_set] at hget
    split_ifs at hget with hk
    · obtain rfl := Option.some.inj hget
      exact (hbucket hgot).1.trans hk
    · exact h.keyed hget
  · intro k bucket w hget hw
    rw [Assoc.get?_set] at hget
    split_ifs at hget with hk
    · obtain rfl := Option.some.inj hget
      exact (hbucket hgot).2.2 w hw
    · exact h.wellFormed hget hw
  · intro k bucket hget
    rw [Assoc.get?_set] at hget
    split_ifs at hget with hk
    · obtain rfl := Option.some.inj hget
      refine ⟨nodup_ridSetAdd (hbucket hgot).2.1 rid, fun hnil => ?_⟩
      have hmem : rid ∈ ridSetAdd ((Assoc.get? ordered key).getD ⟨v, []⟩).ids rid :=
        mem_ridSetAdd.mpr (Or.inr rfl)
      simp [show ridSetAdd ((Assoc.get? ordered key).getD ⟨v, []⟩).ids rid = [] from hnil] at hmem
    · exact h.distinct hget
  · intro r k
    simp only [Assoc.get?_set]
    by_cases hr : r = rid
    · subst hr
      have hnone : ¬ ∃ bucket, Assoc.get? ordered k = some bucket ∧ r ∈ bucket.ids := by
        rw [h.filed, hrid]
        simp
      by_cases hk : key = k
      · simp [hk, hkey]
      · simp only [if_neg hk, if_true, Option.some.injEq, exists_eq_left', hkey]
        exact iff_of_false hnone hk
    · simp only [if_neg hr]
      rw [← h.filed]
      by_cases hk : key = k
      · subst hk
        rw [if_pos rfl, ← hnew hr]
        simp [hr]
      · rw [if_neg hk]

/-- A row that is there is taken out by its value. -/
theorem Files.removeOrdered (h : Files collation ordered value) {rid : Nat} {v : Option Json}
    (hrid : value rid = some v) :
    Files collation (removeOrdered collation ordered rid v)
      (fun r => if r = rid then none else value r) := by
  rcases h.filed.mpr ⟨v, hrid, rfl⟩ with ⟨bucket, hget, hmem⟩
  unfold OrderedIndex.removeOrdered
  simp only [hget]
  -- other rows and other buckets are filed as before
  have hother : ∀ {r k}, r ≠ rid ∨ orderedValueKey collation v ≠ k →
      ((∃ b, Assoc.get? ordered k = some b ∧ r ∈ b.ids) ↔ ∃ w,
        (if r = rid then none else value r) = some w ∧ orderedValueKey collation w = k) := by
    rintro r k hne
    by_cases hr : r = rid
    · subst hr
      rw [h.filed, hrid]
      simpa using hne
    · rw [if_neg hr, h.filed]
  split_ifs with hnil
  · -- The bucket held this row only.
    refine ⟨(Assoc.keys_erase ordered _).symm ▸ h.nodup.filter _, ?_, ?_, ?_, ?_⟩
    · intro k b hb
      rw [Assoc.get?_erase] at hb
      split_ifs at hb
      exact h.keyed hb
    · intro k b w hb hw
      rw [Assoc.get?_erase] at hb
      split_ifs at hb
      exact h.wellFormed hb hw
    · intro k b hb
      rw [Assoc.get?_erase] at hb
      split_ifs at hb
      exact h.distinct hb
    · intro r k
      simp only [Assoc.get?_erase]
      by_cases hk : orderedValueKey collation v = k
      · subst hk
        by_cases hr : r = rid
        · simp [hr]
        · rw [← hother (Or.inl hr), hget]
          have hnot : r ∉ bucket.ids := fun hr' => by
            have : r ∈ ridSetDelete bucket.ids rid := mem_ridSetDelete.mpr ⟨hr', hr⟩
            rw [hnil] at this
            cases this
          simp [hnot]
      · rw [← hother (Or.inr hk)]
        simp [hk]
  · -- The bucket goes on with its other rows.
    refine ⟨Assoc.nodup_keys_set _ _ h.nodup, ?_, ?_, ?_, ?_⟩
    · intro k b hb
      rw [Assoc.get?_set] at hb
      split_ifs at hb with hk
      · obtain rfl := Option.some.inj hb
        exact (h.keyed hget).trans hk
      · exact h.keyed hb
    · intro k b w hb hw
      rw [Assoc.get?_set] at hb
      split_ifs at hb with hk
      · obtain rfl := Option.some.inj hb
        exact h.wellFormed hget hw
      · exact h.wellFormed hb hw
    · intro k b hb
      rw [Assoc.get?_set] at hb
      split_ifs at hb with hk
      · obtain rfl := Option.some.inj hb
        exact ⟨nodup_ridSetDelete (h.distinct hget).1 rid, hnil⟩
      · exact h.distinct hb
    · intro r k
      simp only [Assoc.get?_set]
      by_cases hk : orderedValueKey collation v = k
      · subst hk
        by_cases hr : r = rid
        · simp [hr]
        · rw [← hother (Or.inl hr), hget]
          simp [hr]
      · rw [← hother (Or.inr hk)]
        simp [hk]

/-! ## Values of one key -/

/-- Both `undefined`, or equal up to the order of fields. -/
def SameKey (collation : Collation) (a b : Option Json) : Prop :=
  a.map (sortForKey collation) = b.map (sortForKey collation)

theorem typeofJson_cases (v : Json) : typeofJson v = js "string" ∨ typeofJson v = js "number" ∨
    typeofJson v = js "boolean" ∨ typeofJson v = js "object" := by
  cases v <;> simp [typeofJson]

/-- The types have different first letters. -/
theorem typeofJson_of_head? {v w : Json} (h : (typeofJson v).head? = (typeofJson w).head?) :
    typeofJson v = typeofJson w := by
  rcases typeofJson_cases v with hv | hv | hv | hv <;>
    rcases typeofJson_cases w with hw | hw | hw | hw <;> rw [hv, hw] at h ⊢ <;>
      exact absurd h (by decide)

theorem head?_typeofJson (v : Json) (rest : JsString) :
    (typeofJson v ++ rest).head? = (typeofJson v).head? ∧
      (typeofJson v).head? ≠ some (unit 'u') := by
  rcases typeofJson_cases v with hv | hv | hv | hv <;> rw [hv] <;> exact ⟨rfl, by decide⟩

/-- The canonical key of a value determines it up to the order of fields. -/
theorem sameKey_of_orderedValueKey {a b : Option Json} (ha : ∀ v, a = some v → v.WellFormed)
    (hb : ∀ v, b = some v → v.WellFormed)
    (h : orderedValueKey collation a = orderedValueKey collation b) : SameKey collation a b := by
  have hundefined : ∀ v, orderedValueKey collation none ≠ orderedValueKey collation (some v) := by
    intro v heq
    have hhead := congrArg List.head? heq
    rw [orderedValueKey, orderedValueKey, (head?_typeofJson v _).1] at hhead
    exact (head?_typeofJson v []).2 hhead.symm
  cases a with
  | none =>
      cases b with
      | none => rfl
      | some w => exact absurd h (hundefined w)
  | some v =>
      cases b with
      | none => exact absurd h.symm (hundefined v)
      | some w =>
          rw [orderedValueKey, orderedValueKey] at h
          have htype : typeofJson v = typeofJson w := by
            have hhead := congrArg List.head? h
            rw [(head?_typeofJson v _).1, (head?_typeofJson w _).1] at hhead
            exact typeofJson_of_head? hhead
          rw [htype] at h
          have hstable := (List.cons.inj (List.append_cancel_left h)).2
          exact congrArg some (stableKey_inj collation (ha v rfl) (hb w rfl) hstable)

theorem itemTexts_sortForKey {items : List Json}
    (h : ∀ item ∈ items, toJsString (sortForKey collation item) = toJsString item) :
    toJsString.itemTexts (items.map (sortForKey collation)) = toJsString.itemTexts items := by
  induction items with
  | nil => rfl
  | cons item items ih =>
      have hitem := h item List.mem_cons_self
      have hrest := ih fun i hi => h i (List.mem_cons_of_mem _ hi)
      rw [List.map_cons]
      cases item with
      | null => rw [sortForKey, toJsString.itemTexts, toJsString.itemTexts, hrest]
      | arr elements =>
          rw [sortForKey] at hitem ⊢
          rw [toJsString.itemTexts, toJsString.itemTexts, hrest, hitem] <;> simp
      | obj fields =>
          rw [sortForKey] at hitem ⊢
          rw [toJsString.itemTexts, toJsString.itemTexts, hrest, hitem] <;> simp
      | _ =>
          rw [sortForKey]
          rw [toJsString.itemTexts, toJsString.itemTexts, hrest] <;> simp

/-- The text of a value does not depend on the order of fields. -/
theorem toJsString_sortForKey (v : Json) : toJsString (sortForKey collation v) = toJsString v := by
  induction v using Json.induct with
  | arr items ih =>
      rw [sortForKey, sortItems_eq_map, toJsString, toJsString, itemTexts_sortForKey ih]
  | obj fields _ => rw [sortForKey, toJsString, toJsString]
  | _ => rw [sortForKey]

/-- Sort values of one key are exchangeable. -/
theorem compareSortValues_sortForKey (a b : Option Json) :
    compareSortValues collation (a.map (sortForKey collation)) (b.map (sortForKey collation)) =
      compareSortValues collation a b := by
  have hnull : ∀ {v : Json}, v ≠ .null → sortForKey collation v ≠ .null := by
    intro v hv
    cases v <;> simp_all [sortForKey]
  have hnumber : ∀ v : Json, (sortForKey collation v).isNumber = v.isNumber := by
    intro v
    cases v <;> rfl
  have hempty : ∀ a : Option Json,
      isEmptyValue (a.map (sortForKey collation)) = isEmptyValue a := by
    intro a
    cases a with
    | none => rfl
    | some v => cases v <;> simp [isEmptyValue, sortForKey]
  cases hea : isEmptyValue a with
  | true =>
      cases heb : isEmptyValue b with
      | true =>
          rcases isEmptyValue_iff.mp hea with rfl | rfl <;>
            rcases isEmptyValue_iff.mp heb with rfl | rfl <;> rfl
      | false =>
          rw [compareSortValues_empty_left hea heb,
            compareSortValues_empty_left ((hempty a).trans hea) ((hempty b).trans heb)]
  | false =>
      cases heb : isEmptyValue b with
      | true =>
          rw [compareSortValues_empty_right hea heb,
            compareSortValues_empty_right ((hempty a).trans hea) ((hempty b).trans heb)]
      | false =>
          rcases eq_some_of_not_empty hea with ⟨v, rfl, hv⟩
          rcases eq_some_of_not_empty heb with ⟨w, rfl, hw⟩
          simp only [Option.map_some]
          by_cases hboth : v.isNumber = true ∧ w.isNumber = true
          · rcases isNumber_eq_true hboth.1 with ⟨x, rfl⟩
            rcases isNumber_eq_true hboth.2 with ⟨y, rfl⟩
            rfl
          · have hnot : v.isNumber = false ∨ w.isNumber = false := by
              cases hv' : v.isNumber <;> cases hw' : w.isNumber <;> simp_all
            rw [compareSortValues_text hv hw hnot, compareSortValues_text (hnull hv) (hnull hw)
              (by rwa [hnumber, hnumber]), toJsString_sortForKey, toJsString_sortForKey]

theorem SameKey.compare_eq {a a' b b' : Option Json} (ha : SameKey collation a a')
    (hb : SameKey collation b b') :
    compareSortValues collation a b = compareSortValues collation a' b' := by
  rw [← compareSortValues_sortForKey, ha, hb, compareSortValues_sortForKey]

/-! ## Rows in order -/

/-- The values of the rows. -/
def sortValues (value : Nat → Option (Option Json)) : Set (Option Json) :=
  {v | ∃ rid, value rid = some v}

def WellFormedValues (value : Nat → Option (Option Json)) : Prop :=
  ∀ rid v, value rid = some (some v) → v.WellFormed

/-- The value of a bucket is that of each of its rows. -/
theorem Files.sameKey (h : Files collation ordered value) (hwf : WellFormedValues value)
    {key : JsString} {bucket : Bucket} (hget : Assoc.get? ordered key = some bucket) {rid : Nat}
    (hrid : rid ∈ bucket.ids) :
    ∃ v, value rid = some v ∧ SameKey collation bucket.value v := by
  rcases h.filed.mp ⟨bucket, hget, hrid⟩ with ⟨v, hv, hkey⟩
  refine ⟨v, hv, sameKey_of_orderedValueKey (fun w hw => h.wellFormed hget hw) ?_
    ((h.keyed hget).trans hkey.symm)⟩
  rintro w rfl
  exact hwf rid w hv

theorem Files.mem_iff (h : Files collation ordered value) {entry : JsString × Bucket} :
    entry ∈ ordered ↔ Assoc.get? ordered entry.1 = some entry.2 :=
  ⟨Assoc.get?_eq_some_of_mem h.nodup, Assoc.mem_of_get?_eq_some⟩

/-- Every bucket has a row, so its value stands for one of the sort values. -/
theorem Files.exists_sortValue (h : Files collation ordered value) (hwf : WellFormedValues value)
    {entry : JsString × Bucket} (hentry : entry ∈ ordered) :
    ∃ v ∈ sortValues value, SameKey collation entry.2.value v := by
  have hget := h.mem_iff.mp hentry
  rcases List.exists_mem_of_ne_nil _ (h.distinct hget).2 with ⟨rid, hrid⟩
  rcases h.sameKey hwf hget hrid with ⟨v, hv, hsame⟩
  exact ⟨v, ⟨rid, hv⟩, hsame⟩

theorem bucketsBefore_iff {left right : JsString × Bucket} :
    bucketsBefore collation left right = true ↔
      compareSortValues collation left.2.value right.2.value ≠ .gt ∧
        (compareSortValues collation left.2.value right.2.value = .eq →
          collation.compare left.1 right.1 ≠ .gt) := by
  unfold bucketsBefore
  cases compareSortValues collation left.2.value right.2.value <;> simp

/-- Comparable sort values make the order of the buckets a total preorder. -/
theorem Files.preorderOn (h : Files collation ordered value) (hwf : WellFormedValues value)
    (hcomparable : Comparable collation (sortValues value)) :
    PreorderOn (bucketsBefore collation) ordered := by
  have hswap : ∀ l ∈ ordered, ∀ r ∈ ordered, compareSortValues collation r.2.value l.2.value =
      (compareSortValues collation l.2.value r.2.value).swap := by
    intro l hl r hr
    rcases h.exists_sortValue hwf hl with ⟨v, hv, hlv⟩
    rcases h.exists_sortValue hwf hr with ⟨w, hw, hrw⟩
    rw [hrw.compare_eq hlv, hlv.compare_eq hrw]
    exact hcomparable.swap hv hw
  have htrans : ∀ l ∈ ordered, ∀ m ∈ ordered, ∀ r ∈ ordered,
      compareSortValues collation l.2.value m.2.value ≠ .gt →
      compareSortValues collation m.2.value r.2.value ≠ .gt →
        compareSortValues collation l.2.value r.2.value ≠ .gt := by
    intro l hl m hm r hr
    rcases h.exists_sortValue hwf hl with ⟨u, hu, hlu⟩
    rcases h.exists_sortValue hwf hm with ⟨v, hv, hmv⟩
    rcases h.exists_sortValue hwf hr with ⟨w, hw, hrw⟩
    rw [hlu.compare_eq hmv, hmv.compare_eq hrw, hlu.compare_eq hrw]
    exact hcomparable.trans hu hv hw
  refine ⟨fun l hl m hm r hr hlm hmr => ?_, fun l hl r hr => ?_⟩
  · rw [bucketsBefore_iff] at hlm hmr ⊢
    refine ⟨htrans l hl m hm r hr hlm.1 hmr.1, fun heq => ?_⟩
    -- Outer buckets of one rank have only buckets of that rank between them.
    have hrl : compareSortValues collation r.2.value l.2.value ≠ .gt := by
      rw [hswap l hl r hr, heq]
      simp
    have hml := htrans m hm r hr l hl hmr.1 hrl
    have hrm := htrans r hr l hl m hm hrl hlm.1
    rw [hswap l hl m hm] at hml
    rw [hswap m hm r hr] at hrm
    have hlmeq : compareSortValues collation l.2.value m.2.value = .eq := by
      cases hcmp : compareSortValues collation l.2.value m.2.value <;> simp_all
    have hmreq : compareSortValues collation m.2.value r.2.value = .eq := by
      cases hcmp : compareSortValues collation m.2.value r.2.value <;> simp_all
    exact collation.trans _ _ _ (hlm.2 hlmeq) (hmr.2 hmreq)
  · rw [Bool.or_eq_true_iff, bucketsBefore_iff, bucketsBefore_iff, hswap l hl r hr]
    have hkeys := collation.swap l.1 r.1
    cases hcmp : compareSortValues collation l.2.value r.2.value with
    | lt => exact Or.inl ⟨by simp, by simp⟩
    | gt => exact Or.inr ⟨by simp, by simp⟩
    | eq =>
        cases hkey : collation.compare l.1 r.1 with
        | gt => exact Or.inr ⟨by simp, fun _ => by rw [hkeys, hkey]; simp⟩
        | lt => exact Or.inl ⟨by simp, fun _ => by simp⟩
        | eq => exact Or.inl ⟨by simp, fun _ => by simp⟩

end

/-- The first value may come before the second one. -/
def InOrder (collation : Collation) (desc : Bool) (a b : Option Json) : Prop :=
  compareSortValues collation a b ≠ if desc then .lt else .gt

section

variable {collation : Collation} {ordered : OrderedIndex} {value : Nat → Option (Option Json)}

theorem flatMap_sortedOrderedKeys (h : Files collation ordered value) (desc : Bool) :
    orderedIds collation ordered desc =
      (if desc then (ordered.mergeSort (bucketsBefore collation)).reverse
        else ordered.mergeSort (bucketsBefore collation)).flatMap fun entry => entry.2.ids := by
  have hmap : ∀ entries : List (JsString × Bucket), entries ⊆ ordered →
      ((entries.map Prod.fst).flatMap fun key =>
        ((Assoc.get? ordered key).map Bucket.ids).getD []) =
          entries.flatMap fun entry => entry.2.ids := by
    intro entries hsub
    rw [List.flatMap_map]
    refine List.flatMap_congr fun entry hentry => ?_
    rw [h.mem_iff.mp (hsub hentry)]
    rfl
  have hsub : ordered.mergeSort (bucketsBefore collation) ⊆ ordered :=
    fun entry hentry => List.mem_mergeSort.mp hentry
  unfold orderedIds sortedOrderedKeys
  cases desc with
  | false => exact hmap _ hsub
  | true =>
      simp only [if_true]
      rw [← List.map_reverse]
      exact hmap _ fun entry hentry => hsub (List.mem_reverse.mp hentry)

theorem mem_orderedIds (h : Files collation ordered value) (desc : Bool) {rid : Nat} :
    rid ∈ orderedIds collation ordered desc ↔ ∃ v, value rid = some v := by
  rw [flatMap_sortedOrderedKeys h, List.mem_flatMap]
  have hmem : ∀ entry, entry ∈ (if desc then (ordered.mergeSort (bucketsBefore collation)).reverse
      else ordered.mergeSort (bucketsBefore collation)) ↔ entry ∈ ordered := by
    intro entry
    cases desc <;> simp
  constructor
  · rintro ⟨entry, hentry, hrid⟩
    rcases h.filed.mp ⟨entry.2, h.mem_iff.mp ((hmem entry).mp hentry), hrid⟩ with ⟨v, hv, -⟩
    exact ⟨v, hv⟩
  · rintro ⟨v, hv⟩
    rcases h.filed.mpr ⟨v, hv, rfl⟩ with ⟨bucket, hget, hrid⟩
    exact ⟨(_, bucket), (hmem _).mpr (h.mem_iff.mpr hget), hrid⟩

/-- No row is in two buckets. -/
theorem nodup_orderedIds (h : Files collation ordered value) (desc : Bool) :
    (orderedIds collation ordered desc).Nodup := by
  rw [flatMap_sortedOrderedKeys h]
  have hperm : (if desc then (ordered.mergeSort (bucketsBefore collation)).reverse
      else ordered.mergeSort (bucketsBefore collation)).Perm ordered := by
    cases desc with
    | false => exact List.mergeSort_perm _ _
    | true => exact (List.reverse_perm _).trans (List.mergeSort_perm _ _)
  refine (hperm.flatMap_right _).nodup_iff.mpr (List.nodup_flatMap.mpr ⟨?_, ?_⟩)
  · intro entry hentry
    exact (h.distinct (h.mem_iff.mp hentry)).1
  · have hnodup : ordered.Pairwise fun left right => left.1 ≠ right.1 :=
      List.pairwise_map.mp h.nodup
    refine hnodup.imp_of_mem fun {left right} hleft hright hne => ?_
    intro rid hl hr
    rcases h.filed.mp ⟨left.2, h.mem_iff.mp hleft, hl⟩ with ⟨v, hv, hkey⟩
    rcases h.filed.mp ⟨right.2, h.mem_iff.mp hright, hr⟩ with ⟨w, hw, hkey'⟩
    obtain rfl := Option.some.inj (hv.symm.trans hw)
    exact hne (hkey.symm.trans hkey')

/-- The rows come out by the order of their values. -/
theorem pairwise_orderedIds (h : Files collation ordered value) (hwf : WellFormedValues value)
    (hcomparable : Comparable collation (sortValues value)) (desc : Bool) :
    (orderedIds collation ordered desc).Pairwise fun r s => ∀ v w, value r = some v →
      value s = some w → InOrder collation desc v w := by
  rw [flatMap_sortedOrderedKeys h]
  have hsorted := (h.preorderOn hwf hcomparable).pairwise_mergeSort (List.Subset.refl ordered)
  have hmem : ∀ {entry}, entry ∈ ordered.mergeSort (bucketsBefore collation) → entry ∈ ordered :=
    fun hentry => List.mem_mergeSort.mp hentry
  -- Rows of two buckets compare as the buckets do.
  have hrows : ∀ left ∈ ordered, ∀ right ∈ ordered, bucketsBefore collation left right = true →
      ∀ r ∈ left.2.ids, ∀ s ∈ right.2.ids, ∀ v w, value r = some v → value s = some w →
        compareSortValues collation v w ≠ .gt ∧ compareSortValues collation w v ≠ .lt := by
    intro left hleft right hright hbefore r hr s hs v w hv hw
    rcases h.sameKey hwf (h.mem_iff.mp hleft) hr with ⟨v', hv', hlv⟩
    rcases h.sameKey hwf (h.mem_iff.mp hright) hs with ⟨w', hw', hrw⟩
    obtain rfl := Option.some.inj (hv.symm.trans hv')
    obtain rfl := Option.some.inj (hw.symm.trans hw')
    have hne := (bucketsBefore_iff.mp hbefore).1
    rw [hlv.compare_eq hrw] at hne
    refine ⟨hne, ?_⟩
    rw [hcomparable.swap ⟨r, hv⟩ ⟨s, hw⟩]
    cases hcmp : compareSortValues collation v w <;> simp_all
  have hwithin : ∀ entry ∈ ordered, entry.2.ids.Pairwise fun r s => ∀ v w, value r = some v →
      value s = some w → InOrder collation desc v w := by
    intro entry hentry
    refine List.pairwise_of_forall_mem_list fun r hr s hs v w hv hw => ?_
    have hrefl := (h.preorderOn hwf hcomparable).refl hentry
    have hboth := hrows entry hentry entry hentry hrefl
    unfold InOrder
    cases desc with
    | false => exact (hboth r hr s hs v w hv hw).1
    | true => exact (hboth s hs r hr w v hw hv).2
  rw [List.pairwise_flatMap]
  cases desc with
  | false =>
      refine ⟨fun entry hentry => hwithin entry (hmem hentry), ?_⟩
      exact hsorted.imp_of_mem fun {left right} hleft hright hbefore r hr s hs v w hv hw =>
        (hrows left (hmem hleft) right (hmem hright) hbefore r hr s hs v w hv hw).1
  | true =>
      simp only [if_true]
      refine ⟨fun entry hentry => hwithin entry (hmem (List.mem_reverse.mp hentry)), ?_⟩
      rw [List.pairwise_reverse]
      exact hsorted.imp_of_mem fun {left right} hleft hright hbefore r hr s hs v w hv hw =>
        (hrows left (hmem hleft) right (hmem hright) hbefore s hs r hr w v hw hv).2

end

end OrderedIndex

end ObjyDb
