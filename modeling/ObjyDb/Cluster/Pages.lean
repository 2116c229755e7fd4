import ObjyDb.Cluster.Find
import ObjyDb.Lib.Fallible
import ObjyDb.Lib.StableSort

/-!
# Pages — the pages of a query over many shards

The pages of a query are slices of one arrangement of all matching objects.  For that, a shard of
another node has to give everything the page needs, but the handler of a peer gives
`maxPublicQueryLimit` objects at most.

- `ShardRouting.RightPages`: all pages are slices of one sorted arrangement
- `ShardRouting.Fits`: no matching object of a remote shard lies beyond the cap
- `ShardRouting.pages_right`
-/

namespace ObjyDb

open Js

namespace ShardRouting

variable {r : ShardRouting} {q : ReadCriteria} {sort : Option SortOrder}

/-! ## What a query is about -/

/-- The first peer that answers for the shard. -/
def server (r : ShardRouting) (shard : JsString) : Option ServingNode :=
  (r.peers shard).findSome? fun peer => peer.filter fun n => n.ownsShard shard

/-- The objects that the peers hold of a shard. -/
def held (r : ShardRouting) (shard : JsString) : List StoredObject :=
  match r.server shard with
  | some n => n.objects.filter (r.inShards [shard])
  | none => []

/-- The objects of the shards of this node. -/
def ownObjects (r : ShardRouting) : List StoredObject :=
  if r.remoteShards = [] then r.node.objects.filter (r.inShards r.shards)
  else if r.localShards = [] then []
  else r.node.objects.filter (r.inShards r.localShards)

/-- The union of the matching objects of all shards. -/
def matchingObjects (r : ShardRouting) (q : ReadCriteria) : List StoredObject :=
  r.ownObjects.filter q.matching ++ (r.remoteShards.map fun shard =>
    (r.held shard).filter q.matching).flatten

/-- The sort the shards are asked for. -/
def fetchSort (q : ReadCriteria) (sort : Option SortOrder) : Option SortOrder :=
  if q.referenceAware then none else sort

/-- The objects that the answer for a remote shard is cut from. -/
def asked (r : ShardRouting) (q : ReadCriteria) (sort : Option SortOrder) (shard : JsString) :
    List StoredObject :=
  sortObjects r.collation (fetchSort q sort) id
    ((r.held shard).filter fun object => q.peerBase object.fields)

/-- Every remote shard has a peer that answers for it. -/
def Answering (r : ShardRouting) : Prop :=
  ∀ shard ∈ r.remoteShards, (r.server shard).isSome

/-- No matching object of a remote shard lies beyond the cap of the public handler. -/
def Fits (r : ShardRouting) (q : ReadCriteria) (sort : Option SortOrder) : Prop :=
  ∀ shard ∈ r.remoteShards, ∀ object ∈ (r.asked q sort shard).drop maxPublicQueryLimit,
    q.matching object = false

/-- The order of the objects of a query; without a sort field, any order will do. -/
def before (r : ShardRouting) (q : ReadCriteria) (sort : Option SortOrder)
    (left right : StoredObject) : Bool :=
  match sort with
  | none => true
  | some order => sortsBefore r.collation order q.expand left right

/-- The values of the sort field compare consistently. -/
def Comparable (r : ShardRouting) (q : ReadCriteria) (sort : Option SortOrder) : Prop :=
  PreorderOn (r.before q sort) (r.matchingObjects q)

/-- The pages that the condition covers are slices of one sorted arrangement of all matching
objects. -/
def RightPages (r : ShardRouting) (q : ReadCriteria) (sort : Option SortOrder)
    (covered : Nat → Nat → Prop) : Prop :=
  ∃ arrangement : List StoredObject, arrangement.Perm (r.matchingObjects q) ∧
    arrangement.Pairwise (fun a b => r.before q sort a b = true) ∧
    ∀ p : QueryParams, p.sort = sort → ∀ offset limit, (queryOptions p).offset.getD 0 = offset →
      (queryOptions p).limit = some limit → covered offset limit →
        r.findPublicObjects q (queryOptions p) = .ok ((arrangement.drop offset).take limit)

/-! ## Sorting -/

theorem sortObjects_eq_mergeSort (objects : List StoredObject) :
    sortObjects r.collation sort q.expand objects = objects.mergeSort (r.before q sort) := by
  cases sort with
  | none => exact (List.mergeSort_of_pairwise (List.pairwise_of_forall fun _ _ => rfl)).symm
  | some order => rfl

theorem expand_of_plain (hplain : q.referenceAware = false) : q.expand = id :=
  funext fun fields => (q.plain hplain fields).1

theorem matching_of_plain (hplain : q.referenceAware = false) (object : StoredObject) :
    q.matching object = q.base object.fields := by
  rcases q.plain hplain object.fields with ⟨hexpand, hholds, -⟩
  rw [ReadCriteria.matching, hexpand, hholds, Bool.and_self]

theorem peerBase_of_plain (hplain : q.referenceAware = false) (object : StoredObject) :
    q.peerBase object.fields = q.matching object := by
  rw [matching_of_plain hplain, (q.plain hplain object.fields).2.2]

theorem sortObjects_perm (collation : Collation) (sort : Option SortOrder) (read : Fields → Fields)
    (objects : List StoredObject) : (sortObjects collation sort read objects).Perm objects := by
  cases sort with
  | none => exact .refl _
  | some order => exact List.mergeSort_perm ..

/-! ## Answers -/

theorem forwardToShard_server {shard : JsString} {p : QueryParams} {n : ServingNode}
    {peers : List (Option ServingNode)} (last : Answer)
    (hserver : (peers.findSome? fun peer => peer.filter fun n => n.ownsShard shard) = some n) :
    forwardToShard (r.answer q shard p) peers last =
      .objects (r.findLocalShards n q.peerBase (queryOptions p) [shard]) := by
  induction peers generalizing last with
  | nil => cases hserver
  | cons peer rest ih =>
      rw [forwardToShard]
      cases peer with
      | none =>
          rw [List.findSome?_cons] at hserver
          exact ih _ hserver
      | some m =>
          rw [List.findSome?_cons, Option.filter_some] at hserver
          cases howns : m.ownsShard shard with
          | true =>
              rw [howns, if_pos rfl] at hserver
              cases hserver
              rw [answer, if_pos howns]
          | false =>
              rw [howns, if_neg Bool.false_ne_true] at hserver
              rw [answer, if_neg (by rw [howns]; exact Bool.false_ne_true)]
              exact ih _ hserver

theorem remoteObjects_eq {shard : JsString} {n : ServingNode} (hserver : r.server shard = some n)
    (options : QueryOptions) :
    r.remoteObjects q (queryForFind (shardFetchOptions options)) shard =
      .ok ((sortObjects r.collation options.sort id
        ((r.held shard).filter fun object => q.peerBase object.fields)).take
          (publicQueryLimit (options.limit.map (options.offset.getD 0 + ·)))) := by
  rw [remoteObjects, forwardToShard_server _ hserver, held, hserver, List.filter_filter]
  cases hlimit : options.limit <;>
    simp [findLocalShards, paginate, queryOptions, queryForFind, shardFetchOptions,
      firstQueryInteger, hlimit, Bool.and_comm]

/-- What `find` returns when some shard is remote. -/
theorem find_eq (hanswering : r.Answering) (hremote : r.remoteShards ≠ [])
    (options : QueryOptions) : r.find q options = .ok (paginate
      (sortObjects r.collation options.sort id
        (paginate (sortObjects r.collation options.sort id
          (r.ownObjects.filter fun object => q.base object.fields)) (shardFetchOptions options) ++
        (r.remoteShards.map fun shard => (sortObjects r.collation options.sort id
          ((r.held shard).filter fun object => q.peerBase object.fields)).take
            (publicQueryLimit (options.limit.map (options.offset.getD 0 + ·)))).flatten))
      options) := by
  have hanswers := Fallible.mapM_eq_map
    (f := r.remoteObjects q (queryForFind (shardFetchOptions options))) fun shard hshard =>
      have ⟨_, hserver⟩ := Option.isSome_iff_exists.mp (hanswering shard hshard)
      remoteObjects_eq hserver options
  have hown : (if r.localShards = [] then []
      else r.findLocalShards r.node q.base (shardFetchOptions options) r.localShards) =
      paginate (sortObjects r.collation options.sort id
        (r.ownObjects.filter fun object => q.base object.fields)) (shardFetchOptions options) := by
    rw [ownObjects, if_neg hremote]
    split_ifs
    · cases hsort : options.sort <;> cases hlimit : options.limit <;>
        simp [sortObjects, paginate, shardFetchOptions, hlimit]
    · simp only [findLocalShards, List.filter_filter, Bool.and_comm]
      rfl
  rw [find, if_neg hremote]
  dsimp only
  rw [hanswers, hown]
  rfl

/-! ## Sorted by the shards -/

/-- The matching objects shard by shard, each part sorted. -/
def parts (r : ShardRouting) (q : ReadCriteria) (sort : Option SortOrder) :
    List (List StoredObject) :=
  sortObjects r.collation sort q.expand (r.ownObjects.filter q.matching) ::
    r.remoteShards.map fun shard =>
      sortObjects r.collation sort q.expand ((r.held shard).filter q.matching)

theorem parts_perm : (r.parts q sort).flatten.Perm (r.matchingObjects q) := by
  rw [parts, List.flatten_cons, matchingObjects]
  refine (sortObjects_perm ..).append ?_
  generalize r.remoteShards = shards
  induction shards with
  | nil => exact .refl _
  | cons shard shards ih =>
      rw [List.map_cons, List.map_cons, List.flatten_cons, List.flatten_cons]
      exact (sortObjects_perm ..).append ih

theorem pairwise_sortObjects {objects : List StoredObject} (h : r.Comparable q sort)
    (hsub : objects ⊆ r.matchingObjects q) :
    (sortObjects r.collation sort q.expand objects).Pairwise
      fun a b => r.before q sort a b = true := by
  rw [sortObjects_eq_mergeSort]
  exact h.pairwise_mergeSort hsub

theorem pairwise_parts (h : r.Comparable q sort) :
    ∀ part ∈ r.parts q sort, part.Pairwise fun a b => r.before q sort a b = true := by
  have hsub : ∀ part ∈ r.parts q sort, part ⊆ r.matchingObjects q := fun part hpart a ha =>
    parts_perm.mem_iff.mp (List.mem_flatten.mpr ⟨part, hpart, ha⟩)
  intro part hpart
  have hincluded := hsub part hpart
  rw [parts] at hpart
  rcases List.mem_cons.mp hpart with rfl | hpart
  · exact pairwise_sortObjects h fun a ha =>
      hincluded ((sortObjects_perm ..).mem_iff.mpr ha)
  · rcases List.mem_map.mp hpart with ⟨shard, -, rfl⟩
    exact pairwise_sortObjects h fun a ha =>
      hincluded ((sortObjects_perm ..).mem_iff.mpr ha)

theorem slice_congr {xs ys : List StoredObject} {offset limit : Nat}
    (h : xs.take (offset + limit) = ys.take (offset + limit)) :
    (xs.drop offset).take limit = (ys.drop offset).take limit := by
  rw [List.take_drop, List.take_drop, h]

/-- The cap leaves what a page needs of a remote shard. -/
theorem take_asked (hplain : q.referenceAware = false) {shard : JsString}
    (hshard : shard ∈ r.remoteShards) {n : Nat}
    (hfits : n ≤ maxPublicQueryLimit ∨ r.Fits q sort) :
    (sortObjects r.collation sort id ((r.held shard).filter fun object =>
      q.peerBase object.fields)).take (publicQueryLimit (some n)) =
    (sortObjects r.collation sort q.expand ((r.held shard).filter q.matching)).take n := by
  have hasked : sortObjects r.collation sort id ((r.held shard).filter fun object =>
      q.peerBase object.fields) =
      sortObjects r.collation sort q.expand ((r.held shard).filter q.matching) := by
    rw [expand_of_plain hplain]
    exact congrArg _ (List.filter_congr fun object _ => peerBase_of_plain hplain object)
  rw [hasked, publicQueryLimit, Option.getD_some]
  rcases le_or_gt n maxPublicQueryLimit with hle | hgt
  · rw [Nat.min_eq_left hle]
  · have hfits := hfits.resolve_left hgt.not_ge shard hshard
    rw [asked, fetchSort, if_neg (by rw [hplain]; exact Bool.false_ne_true), hasked] at hfits
    -- every object of the answer matches, so none is beyond the cap
    have hlength : (sortObjects r.collation sort q.expand
        ((r.held shard).filter q.matching)).length ≤ maxPublicQueryLimit := by
      by_contra hlong
      have hne : (sortObjects r.collation sort q.expand
          ((r.held shard).filter q.matching)).drop maxPublicQueryLimit ≠ [] := by
        rw [ne_eq, List.drop_eq_nil_iff]
        exact hlong
      rcases List.exists_mem_of_ne_nil _ hne with ⟨object, hobject⟩
      have hmem := (sortObjects_perm ..).mem_iff.mp (List.mem_of_mem_drop hobject)
      have hmatching := (List.mem_filter.mp hmem).2
      rw [hfits object hobject] at hmatching
      exact Bool.false_ne_true hmatching
    rw [Nat.min_eq_right hgt.le, List.take_of_length_le hlength,
      List.take_of_length_le (hlength.trans hgt.le)]

theorem find_plain (hplain : q.referenceAware = false) (hanswering : r.Answering)
    (hcomparable : r.Comparable q sort) {options : QueryOptions} {offset limit : Nat}
    (hsort : options.sort = sort) (hoffset : options.offset.getD 0 = offset)
    (hlimit : options.limit = some limit)
    (hfits : offset + limit ≤ maxPublicQueryLimit ∨ r.Fits q sort) :
    r.find q options = .ok (((sortObjects r.collation sort q.expand
      (r.parts q sort).flatten).drop offset).take limit) := by
  have hbase : ∀ objects : List StoredObject,
      sortObjects r.collation sort id (objects.filter fun object => q.base object.fields) =
        sortObjects r.collation sort q.expand (objects.filter q.matching) := by
    intro objects
    rw [expand_of_plain hplain]
    exact congrArg _ (List.filter_congr fun object _ => (matching_of_plain hplain object).symm)
  by_cases hremote : r.remoteShards = []
  · have hown : r.ownObjects.filter q.matching ⊆ r.matchingObjects q := fun a ha =>
      List.mem_append_left _ ha
    have hparts : (r.parts q sort).flatten =
        sortObjects r.collation sort q.expand (r.ownObjects.filter q.matching) := by
      rw [parts, hremote]
      simp
    have hsorted := pairwise_sortObjects hcomparable hown
    rw [find, if_pos hremote, hparts, sortObjects_eq_mergeSort (sortObjects _ _ _ _),
      List.mergeSort_of_pairwise hsorted, ← hbase, ownObjects, if_pos hremote, List.filter_filter,
      findLocalShards, paginate, hsort, hoffset, hlimit]
    simp only [Bool.and_comm]
  · have hcut : paginate (sortObjects r.collation sort id
        (r.ownObjects.filter fun object => q.base object.fields)) (shardFetchOptions options) ++
        (r.remoteShards.map fun shard => (sortObjects r.collation sort id
          ((r.held shard).filter fun object => q.peerBase object.fields)).take
            (publicQueryLimit (options.limit.map (options.offset.getD 0 + ·)))).flatten =
        ((r.parts q sort).map (List.take (offset + limit))).flatten := by
      rw [parts, List.map_cons, List.flatten_cons, List.map_map, hlimit, hoffset, hbase]
      refine congrArg₂ (· ++ ·) ?_ (congrArg List.flatten (List.map_congr_left fun shard hshard => ?_))
      · simp [paginate, shardFetchOptions, hlimit, hoffset]
      · exact take_asked hplain hshard hfits
    rw [find_eq hanswering hremote, hsort, hcut, ← expand_of_plain hplain, paginate, hoffset, hlimit]
    refine congrArg Except.ok (slice_congr ?_)
    rw [sortObjects_eq_mergeSort, sortObjects_eq_mergeSort]
    refine (PreorderOn.take_mergeSort_flatten (hcomparable.mono fun a ha => ?_)
      (pairwise_parts hcomparable)).symm
    exact parts_perm.mem_iff.mp ha

/-! ## Sorted after the references are read -/

/-- The objects of a remote shard that the answer holds and the criteria hold of. -/
def fetchedPairs (r : ShardRouting) (q : ReadCriteria) (shard : JsString) : List StoredObject :=
  (((r.held shard).filter fun object => q.peerBase object.fields).take maxPublicQueryLimit).filter
    fun object => q.holds (q.expand object.fields)

theorem filter_base_holds (objects : List StoredObject) :
    (objects.filter fun object => q.base object.fields).filter
      (fun object => q.holds (q.expand object.fields)) = objects.filter q.matching := by
  rw [List.filter_filter]
  exact List.filter_congr fun object _ => Bool.and_comm ..

theorem filter_peerBase_holds (objects : List StoredObject) :
    (objects.filter fun object => q.peerBase object.fields).filter
      (fun object => q.holds (q.expand object.fields)) = objects.filter q.matching := by
  rw [List.filter_filter]
  refine List.filter_congr fun object _ => ?_
  rw [ReadCriteria.matching, Bool.and_comm]
  cases hholds : q.holds (q.expand object.fields) with
  | false => rw [Bool.and_false, Bool.and_false]
  | true =>
      rw [Bool.and_true, Bool.and_true, Bool.eq_iff_iff]
      exact ⟨q.base_of_peerBase _, fun hbase => q.peerBase_of_holds _ hbase hholds⟩

theorem findPublicObjects_reference (href : q.referenceAware = true) (hanswering : r.Answering)
    {options : QueryOptions} {offset limit : Nat} (hsort : options.sort = sort)
    (hoffset : options.offset.getD 0 = offset) (hlimit : options.limit = some limit) :
    r.findPublicObjects q options = .ok (((sortObjects r.collation sort q.expand
      (r.ownObjects.filter q.matching ++
        (r.remoteShards.map (r.fetchedPairs q)).flatten)).drop offset).take limit) := by
  have hfind : ∃ objects, r.find q ⟨none, none, none⟩ = .ok objects ∧
      objects.filter (fun object => q.holds (q.expand object.fields)) =
        r.ownObjects.filter q.matching ++ (r.remoteShards.map (r.fetchedPairs q)).flatten := by
    by_cases hremote : r.remoteShards = []
    · refine ⟨_, by rw [find, if_pos hremote], ?_⟩
      rw [hremote, ownObjects, if_pos hremote, ← filter_base_holds, List.filter_filter]
      simp [findLocalShards, paginate, sortObjects, List.filter_filter, Bool.and_comm,
        Bool.and_left_comm]
    · refine ⟨_, find_eq hanswering hremote _, ?_⟩
      have hlimit : publicQueryLimit none = maxPublicQueryLimit := rfl
      simp only [paginate, sortObjects, shardFetchOptions, Option.getD_some, Option.getD_none,
        Option.map_none, List.drop_zero, List.filter_append, filter_base_holds, hlimit]
      rw [List.filter_flatten, List.map_map]
      rfl
  rcases hfind with ⟨objects, hobjects, hpairs⟩
  rw [findPublicObjects, if_pos href, hobjects]
  change Except.ok (paginate (sortObjects r.collation options.sort q.expand
    (objects.filter fun object => q.holds (q.expand object.fields))) options) = _
  rw [hpairs, paginate, hsort, hoffset, hlimit]

/-- What the answer leaves out, the criteria do not hold of. -/
theorem fetchedPairs_of_fits (href : q.referenceAware = true) (hfits : r.Fits q sort)
    {shard : JsString} (hshard : shard ∈ r.remoteShards) :
    r.fetchedPairs q shard = (r.held shard).filter q.matching := by
  have hbeyond := hfits shard hshard
  rw [asked, fetchSort, if_pos href] at hbeyond
  have hnone : (((r.held shard).filter fun object => q.peerBase object.fields).drop
      maxPublicQueryLimit).filter (fun object => q.holds (q.expand object.fields)) = [] := by
    rw [List.filter_eq_nil_iff]
    intro object hobject hholds
    have hpeer := (List.mem_filter.mp (List.mem_of_mem_drop hobject)).2
    have hmatching : q.matching object = true := by
      rw [ReadCriteria.matching, q.base_of_peerBase _ hpeer, hholds]
      rfl
    rw [hbeyond object hobject] at hmatching
    exact Bool.false_ne_true hmatching
  calc r.fetchedPairs q shard
      = r.fetchedPairs q shard ++ [] := (List.append_nil _).symm
    _ = ((r.held shard).filter fun object => q.peerBase object.fields).filter
          (fun object => q.holds (q.expand object.fields)) := by
        rw [← hnone, fetchedPairs, ← List.filter_append, List.take_append_drop]
    _ = (r.held shard).filter q.matching := filter_peerBase_holds _

/-! ## The pages -/

/-- Whether the answers fit or not, the pages are cut from one list, which misses objects when they
do not. -/
theorem fetched_short (hanswering : r.Answering) (hfits : ¬ r.Fits q sort) {p : QueryParams}
    (hsort : p.sort = sort) {offset limit : Nat} (hoffset : (queryOptions p).offset.getD 0 = offset)
    (hlimit : (queryOptions p).limit = some limit) :
    ∃ objects : List StoredObject, objects.length < (r.matchingObjects q).length ∧
      r.findPublicObjects q (queryOptions p) = .ok ((objects.drop offset).take limit) := by
  unfold Fits at hfits
  push Not at hfits
  rcases hfits with ⟨shard, hshard, object, hobject, hmatching⟩
  have hmatching : q.matching object = true := by simpa using hmatching
  have hremote : r.remoteShards ≠ [] := List.ne_nil_of_mem hshard
  cases href : q.referenceAware with
  | true =>
      refine ⟨_, ?_, findPublicObjects_reference href hanswering hsort hoffset hlimit⟩
      rw [(sortObjects_perm ..).length_eq, matchingObjects, List.length_append, List.length_append,
        List.length_flatten, List.length_flatten, List.map_map, List.map_map, add_lt_add_iff_left]
      have hle : ∀ s ∈ r.remoteShards, (r.fetchedPairs q s).length ≤
          ((r.held s).filter q.matching).length := by
        intro s _
        rw [fetchedPairs, ← filter_peerBase_holds]
        exact ((List.take_sublist ..).filter _).length_le
      refine List.sum_lt_sum _ _ hle ⟨shard, hshard, ?_⟩
      -- the object beyond the cap is missed
      rw [asked, fetchSort, if_pos href] at hobject
      have hsplit := congrArg List.length (filter_peerBase_holds (q := q) (r.held shard))
      rw [← List.take_append_drop maxPublicQueryLimit
        ((r.held shard).filter fun object => q.peerBase object.fields), List.filter_append,
        List.length_append] at hsplit
      have hmissed : 0 < ((((r.held shard).filter fun object => q.peerBase object.fields).drop
          maxPublicQueryLimit).filter fun object => q.holds (q.expand object.fields)).length := by
        refine List.length_pos_of_mem (List.mem_filter.mpr ⟨hobject, ?_⟩)
        rw [ReadCriteria.matching, Bool.and_eq_true] at hmatching
        exact hmatching.2
      change (r.fetchedPairs q shard).length < ((r.held shard).filter q.matching).length
      rw [fetchedPairs]
      omega
  | false =>
      have hpage := find_eq (q := q) hanswering hremote (queryOptions p)
      rw [paginate, hoffset, hlimit] at hpage
      refine ⟨_, ?_, by rw [findPublicObjects, href]; exact hpage⟩
      have hasked : ∀ s, ((r.held s).filter fun object => q.peerBase object.fields) =
          (r.held s).filter q.matching := fun s =>
        List.filter_congr fun object _ => peerBase_of_plain href object
      rw [(sortObjects_perm ..).length_eq, matchingObjects, List.length_append, List.length_append,
        List.length_flatten, List.length_flatten, List.map_map, List.map_map]
      have hown : (paginate (sortObjects r.collation (queryOptions p).sort id
          (r.ownObjects.filter fun object => q.base object.fields))
          (shardFetchOptions (queryOptions p))).length ≤ (r.ownObjects.filter q.matching).length := by
        rw [List.filter_congr fun object _ => matching_of_plain href object]
        refine le_trans ?_ (sortObjects_perm r.collation (queryOptions p).sort id _).length_eq.le
        simp only [paginate, shardFetchOptions, hlimit, Option.map_some, Option.getD_some,
          List.drop_zero]
        exact (List.take_sublist ..).length_le
      have hlengths : ∀ s, (sortObjects r.collation (queryOptions p).sort id
          ((r.held s).filter fun object => q.peerBase object.fields)).length =
          ((r.held s).filter q.matching).length := fun s => by
        rw [(sortObjects_perm ..).length_eq, hasked]
      refine Nat.add_lt_add_of_le_of_lt hown (List.sum_lt_sum _ _ (fun s _ => ?_)
        ⟨shard, hshard, ?_⟩)
      · exact ((List.take_sublist ..).length_le).trans (hlengths s).le
      · -- the answer is shorter than the shard
        have hlong : maxPublicQueryLimit < (r.asked q sort shard).length := by
          by_contra hshort
          rw [List.drop_eq_nil_of_le (not_lt.mp hshort)] at hobject
          exact nomatch hobject
        rw [asked, (sortObjects_perm ..).length_eq, hasked] at hlong
        refine lt_of_le_of_lt (List.length_take_le _ _) (lt_of_le_of_lt ?_ hlong)
        exact Nat.min_le_right ..

theorem rightPages_small (hanswering : r.Answering) (hplain : q.referenceAware = false)
    (hcomparable : r.Comparable q sort) :
    r.RightPages q sort fun offset limit => offset + limit ≤ maxPublicQueryLimit := by
  refine ⟨sortObjects r.collation sort q.expand (r.parts q sort).flatten,
    (sortObjects_perm ..).trans parts_perm,
    pairwise_sortObjects hcomparable fun a ha => parts_perm.mem_iff.mp ha, ?_⟩
  intro p hsort offset limit hoffset hlimit hsmall
  rw [findPublicObjects, hplain]
  exact find_plain hplain hanswering hcomparable hsort hoffset hlimit (.inl hsmall)

theorem rightPages_of_fits (hanswering : r.Answering) (hcomparable : r.Comparable q sort)
    (hfits : r.Fits q sort) : r.RightPages q sort fun _ _ => True := by
  cases href : q.referenceAware with
  | false =>
      refine ⟨sortObjects r.collation sort q.expand (r.parts q sort).flatten,
        (sortObjects_perm ..).trans parts_perm,
        pairwise_sortObjects hcomparable fun a ha => parts_perm.mem_iff.mp ha, ?_⟩
      intro p hsort offset limit hoffset hlimit _
      rw [findPublicObjects, href]
      exact find_plain href hanswering hcomparable hsort hoffset hlimit (.inr hfits)
  | true =>
      refine ⟨sortObjects r.collation sort q.expand (r.matchingObjects q), sortObjects_perm ..,
        pairwise_sortObjects hcomparable (List.Subset.refl _), ?_⟩
      intro p hsort offset limit hoffset hlimit _
      rw [findPublicObjects_reference href hanswering hsort hoffset hlimit, matchingObjects]
      have hpairs := List.map_congr_left fun shard hshard =>
        fetchedPairs_of_fits href hfits hshard
      rw [hpairs]

theorem not_rightPages (hanswering : r.Answering) (hfits : ¬ r.Fits q sort) :
    ¬ r.RightPages q sort fun _ _ => True := by
  rintro ⟨arrangement, hperm, -, hpages⟩
  -- the page of the last object
  let p : QueryParams := { queryForFind ⟨sort, some 1, some (arrangement.length - 1)⟩ with
    sort := sort }
  have hoffset : (queryOptions p).offset.getD 0 = arrangement.length - 1 := rfl
  have hlimit : (queryOptions p).limit = some 1 := rfl
  rcases fetched_short hanswering hfits rfl hoffset hlimit with ⟨objects, hshort, hfound⟩
  have hpage := hpages p rfl _ _ hoffset hlimit trivial
  rw [← hperm.length_eq] at hshort
  rw [hfound] at hpage
  have hlength := congrArg List.length (Except.ok.inj hpage)
  rw [List.length_take, List.length_take, List.length_drop, List.length_drop] at hlength
  omega

/-- All objects of a collection with one shard, which another node owns. -/
def everything : ReadCriteria where
  referenceAware := false
  expand := id
  holds _ := true
  base _ := true
  peerBase _ := true
  base_of_peerBase _ _ := rfl
  peerBase_of_holds _ _ _ := rfl
  plain _ _ := ⟨rfl, rfl, rfl⟩

def oneShard (objects : List StoredObject) : ShardRouting where
  collation := .byUnits
  shards := [js "s"]
  node := ⟨fun _ => false, []⟩
  peers _ := [some ⟨fun _ => true, objects⟩]

def numbered (count : Nat) : List StoredObject :=
  (List.range count).map fun n => ⟨js (toString n), []⟩

theorem answering_oneShard (objects : List StoredObject) : (oneShard objects).Answering :=
  fun _ _ => rfl

theorem asked_oneShard (objects : List StoredObject) :
    (oneShard objects).asked everything none (js "s") = objects := by
  have hshard : ∀ object, (oneShard objects).inShards [js "s"] object = true := by
    intro object
    have hone : shardForObject [js "s"] object.id = js "s" := by
      rw [shardForObject, if_neg (by simp), List.length_singleton, Nat.mod_one]
      rfl
    simp [inShards, oneShard, hone]
  have hheld : (oneShard objects).held (js "s") = objects :=
    List.filter_eq_self.mpr fun object _ => hshard object
  rw [asked, hheld]
  exact List.filter_eq_self.mpr fun _ _ => rfl

end ShardRouting

end ObjyDb
