import ObjyDb.Cluster.ShardMap
import ObjyDb.Query.Keys

/-!
# Find — a page of objects from the shards of a collection

`ShardRequestRouter.find` asks the own store and, for every shard of another node, a peer that
owns the shard; it sorts what comes back and cuts the page out of it.  A peer answers through the
same public handler, which caps the number of objects of an answer.

The expanded references of an answer, the counts and the query paths are left out.
-/

namespace ObjyDb

open Js

/-! ## Options -/

/-- `DEFAULT_PUBLIC_QUERY_LIMIT` -/
def defaultPublicQueryLimit : Nat := 250

/-- `MAX_PUBLIC_QUERY_LIMIT` -/
def maxPublicQueryLimit : Nat := 250

/-- How the objects are sorted; `none` without `sortBy`. -/
structure SortOrder where
  sortBy : JsString
  desc : Bool

structure QueryOptions where
  sort : Option SortOrder
  limit : Option Nat
  offset : Option Nat

/-- The parameters of a query as `queryInteger` reads them: first those of the URL, then the
controls of the query itself. -/
structure QueryParams where
  sort : Option SortOrder
  limit : Option Nat
  dollarLimit : Option Nat
  controlLimit : Option Nat
  controlPageSize : Option Nat
  offset : Option Nat
  skip : Option Nat
  dollarOffset : Option Nat
  dollarSkip : Option Nat
  controlOffset : Option Nat
  controlSkip : Option Nat
  controlPage : Option Nat

def firstQueryInteger (values : List (Option Nat)) : Option Nat :=
  values.findSome? id

def queryPageOffset (page pageSize : Option Nat) : Option Nat :=
  match page, pageSize with
  | some page, some pageSize => some ((page - 1) * pageSize)
  | _, _ => none

def publicQueryLimit (value : Option Nat) : Nat :=
  min (value.getD defaultPublicQueryLimit) maxPublicQueryLimit

/-- `queryOptions(req, controls)` -/
def queryOptions (p : QueryParams) : QueryOptions :=
  let limit := publicQueryLimit
    (firstQueryInteger [p.limit, p.dollarLimit, p.controlLimit, p.controlPageSize])
  { sort := p.sort
    limit := some limit
    offset := firstQueryInteger [p.offset, p.skip, p.dollarOffset, p.dollarSkip, p.controlOffset,
      p.controlSkip, queryPageOffset p.controlPage (some limit)] }

/-- What a shard is asked for. -/
def shardFetchOptions (options : QueryOptions) : QueryOptions where
  sort := options.sort
  limit := options.limit.map (options.offset.getD 0 + ·)
  offset := some 0

/-- The parameters of the forwarded request. -/
def queryForFind (options : QueryOptions) : QueryParams where
  sort := options.sort
  limit := options.limit
  dollarLimit := none
  controlLimit := none
  controlPageSize := none
  offset := options.offset
  skip := none
  dollarOffset := none
  dollarSkip := none
  controlOffset := none
  controlSkip := none
  controlPage := none

/-! ## Objects -/

structure StoredObject where
  id : JsString
  fields : Fields

/-- `compareSortValues(left, right) * direction <= 0` -/
def sortsBefore (collation : Collation) (order : SortOrder) (read : Fields → Fields)
    (left right : StoredObject) : Bool :=
  let compared := compareSortValues collation (getPathValue (.obj (read left.fields)) order.sortBy)
    (getPathValue (.obj (read right.fields)) order.sortBy)
  if order.desc then decide (compared ≠ .lt) else decide (compared ≠ .gt)

/-- `sortObjects(objects, options)`, by what `read` makes of the objects. -/
def sortObjects (collation : Collation) (sort : Option SortOrder) (read : Fields → Fields)
    (objects : List StoredObject) : List StoredObject :=
  match sort with
  | none => objects
  | some order => objects.mergeSort (sortsBefore collation order read)

def paginate (objects : List StoredObject) (options : QueryOptions) : List StoredObject :=
  let rest := objects.drop (options.offset.getD 0)
  match options.limit with
  | none => rest
  | some limit => rest.take limit

/-- The criteria of a request, as the stores and the handlers evaluate them. -/
structure ReadCriteria where
  /-- The criteria mention a path through a reference. -/
  referenceAware : Bool
  /-- The object with its references expanded. -/
  expand : Fields → Fields
  /-- The criteria hold of the expanded object. -/
  holds : Fields → Bool
  /-- `matchesQuery` of the criteria that a store is asked for. -/
  base : Fields → Bool
  /-- The same in the handler of a peer, which merges the permissions of the user once more. -/
  peerBase : Fields → Bool
  base_of_peerBase : ∀ fields, peerBase fields = true → base fields = true
  peerBase_of_holds : ∀ fields, base fields = true → holds (expand fields) = true →
    peerBase fields = true
  plain : referenceAware = false → ∀ fields, expand fields = fields ∧ holds fields = base fields ∧
    peerBase fields = base fields

/-- The object is one that the query asks for. -/
def ReadCriteria.matching (q : ReadCriteria) (object : StoredObject) : Bool :=
  q.base object.fields && q.holds (q.expand object.fields)

/-! ## Nodes -/

/-- A node as the router sees it: the shards it owns, and its live objects in the order in which
the plan of the query yields them. -/
structure ServingNode where
  ownsShard : JsString → Bool
  objects : List StoredObject

/-- The routing of one collection. -/
structure ShardRouting where
  collation : Collation
  /-- `shardsForCollection` -/
  shards : ShardNames
  node : ServingNode
  /-- `routingPeersForShard`; `none` is a peer that does not answer. -/
  peers : JsString → List (Option ServingNode)

namespace ShardRouting

variable (r : ShardRouting)

/-- The objects of some shards; all objects when no shard is named. -/
def inShards (shards : List JsString) (object : StoredObject) : Bool :=
  decide (shards = []) || decide (shardForObject r.shards object.id ∈ shards)

/-- `findLocalShards` on a node: the matching objects of the shards, sorted and cut to the page. -/
def findLocalShards (n : ServingNode) (base : Fields → Bool) (options : QueryOptions)
    (shards : List JsString) : List StoredObject :=
  paginate (sortObjects r.collation options.sort id
    (n.objects.filter fun object => r.inShards shards object && base object.fields)) options

/-- The answer to a forwarded request. -/
inductive Answer
  | objects (objects : List StoredObject)
  | failed (status : Nat)

/-- The handler of a peer, for a request that names its target shard. -/
def answer (q : ReadCriteria) (shard : JsString) (p : QueryParams) : Option ServingNode → Answer
  | none => .failed 503
  | some n =>
      if n.ownsShard shard then
        .objects (r.findLocalShards n q.peerBase (queryOptions p) [shard])
      else .failed 409

/-- `forwardToShard`: the peers in turn, while their answer is worth another try. -/
def forwardToShard (ask : Option ServingNode → Answer) : List (Option ServingNode) → Answer → Answer
  | [], last => last
  | peer :: rest, _ =>
      match ask peer with
      | .objects objects => .objects objects
      | .failed status =>
          if status ∈ [409, 503, 504] then forwardToShard ask rest (.failed status)
          else .failed status

def localShards : List JsString :=
  r.shards.filter r.node.ownsShard

def remoteShards : List JsString :=
  r.shards.filter fun shard => !r.node.ownsShard shard

/-- The objects of the remote shard, or the status the query fails with. -/
def remoteObjects (q : ReadCriteria) (p : QueryParams) (shard : JsString) :
    Except Nat (List StoredObject) :=
  match forwardToShard (r.answer q shard p) (r.peers shard) (.failed 503) with
  | .objects objects => .ok objects
  | .failed status => .error status

/-- `ShardRequestRouter.find`, for a request without a target shard. -/
def find (q : ReadCriteria) (options : QueryOptions) : Except Nat (List StoredObject) :=
  if r.remoteShards = [] then .ok (r.findLocalShards r.node q.base options r.shards)
  else do
    let fetch := shardFetchOptions options
    let remote ← r.remoteShards.mapM (r.remoteObjects q (queryForFind fetch))
    let own := if r.localShards = [] then []
      else r.findLocalShards r.node q.base fetch r.localShards
    return paginate (sortObjects r.collation options.sort id (own ++ remote.flatten)) options

/-- `findPublicObjects`; with criteria or a sort field that read references, all objects are
fetched and the references are read here. -/
def findPublicObjects (q : ReadCriteria) (options : QueryOptions) :
    Except Nat (List StoredObject) :=
  if q.referenceAware then do
    let objects ← r.find q ⟨none, none, none⟩
    let pairs := objects.filter fun object => q.holds (q.expand object.fields)
    return paginate (sortObjects r.collation options.sort q.expand pairs) options
  else r.find q options

end ShardRouting

end ObjyDb
