import ObjyDb.Cluster.ShardMap
import ObjyDb.Query.Keys
import Mathlib.Data.List.Sort

/-!
# Topology — published shard maps

A desired shard map is published over the current one.  A map with another number of shards starts
a reshard: its shards get generated names, and the old names stay as the source until the reshard
is finalized.  The locale that orders the desired shards is a parameter, and so is the entropy of
a new topology id.
-/

namespace ObjyDb

open Js

/-! ## Reading JSON -/

/-- `value?.key` -/
def Js.Json.prop (v : Json) (key : JsString) : Option Json :=
  match v with
  | .obj fields => Assoc.get? fields key
  | _ => none

/-- `value?.key` if that is truthy, for `value?.key || …`. -/
def truthyProp (v : Option Json) (key : JsString) : Option Json :=
  (v.bind fun v => v.prop key).filter Json.truthy

/-- `[...text]`: a surrogate pair is one element. -/
def codePoints : JsString → List JsString
  | [] => []
  | [u] => [[u]]
  | u :: v :: rest =>
      if isHighSurrogate u && isLowSurrogate v then [u, v] :: codePoints rest
      else [u] :: codePoints (v :: rest)

/-- `names.sort()` -/
def sortNames (names : List JsString) : List JsString :=
  names.insertionSort (· ≤ ·)

/-- `Object.fromEntries(entries)` -/
def fromEntries {β : Type} (entries : List (JsString × β)) : List (JsString × β) :=
  entries.foldl (fun object entry => Assoc.set object entry.1 entry.2) []

/-! ## Maps -/

/-- `SHARD_PARTITIONER` -/
def shardPartitioner : JsString := js "fnv1a32-mod-v1"

/-- The peers of every shard, as the map gives them.  The order of the shards says nothing. -/
abbrev Shards := List (JsString × List Json)

inductive TopologyState
  | active
  | resharding
  deriving DecidableEq

structure TopologySource where
  id : JsString
  shards : List JsString
  deriving DecidableEq

structure Topology where
  id : JsString
  state : TopologyState
  partitioner : JsString
  source : Option TopologySource
  deriving DecidableEq

structure ShardMap where
  topology : Topology
  shards : Shards
  deriving DecidableEq

inductive ShardMapError
  /-- `shard map must define top-level shards` -/
  | missingShards
  | unsupportedVersion
  /-- JavaScript cannot spread the peers, or map the source shards. -/
  | typeError
  | missingId
  | unsupportedPartitioner
  | unsupportedState
  /-- `active shard topology must not define a source` -/
  | sourceOfActive
  /-- `resharding topology must define its source id and shards` -/
  | missingSource
  /-- `source and target shard names overlap` -/
  | overlap (shard : JsString)
  /-- `cannot start another topology change while resharding is unfinished` -/
  | unfinished
  /-- `topology changed while finalizing` -/
  | topologyChanged
  /-- `cannot finalize a missing shard map` -/
  | missingMap
  deriving DecidableEq

def TopologyState.toJson : TopologyState → Json
  | .active => .str (js "active")
  | .resharding => .str (js "resharding")

def TopologySource.toJson (source : TopologySource) : Json :=
  .obj [(js "id", .str source.id), (js "shards", .arr (source.shards.map .str))]

def Topology.toJson (topology : Topology) : Json :=
  .obj ([(js "id", .str topology.id), (js "state", topology.state.toJson),
    (js "partitioner", .str topology.partitioner)] ++
      topology.source.toList.map fun source => (js "source", source.toJson))

def shardsJson (shards : Shards) : Json :=
  .obj (shards.map fun entry => (entry.1, .obj [(js "peers", .arr entry.2)]))

def ShardMap.toJson (map : ShardMap) : Json :=
  .obj [(js "version", .num (JsNumber.ofNat 2)), (js "topology", map.topology.toJson),
    (js "shards", shardsJson map.shards)]

namespace ShardMap

/-- `Object.keys(map.shards).sort()` -/
def shardNames (map : ShardMap) : List JsString :=
  sortNames (Assoc.keys map.shards)

end ShardMap

/-! ## Topology ids -/

/-- `String(n)` of a count. -/
def countText (n : Nat) : JsString :=
  (JsNumber.expDigits n).map JsNumber.digitUnit

/-- `h.toString(16).padStart(8, "0")` of a number below 2³² -/
def hex8 (h : Nat) : JsString :=
  (List.range 8).map fun i => unit (Nat.digitChar (h / 16 ^ (7 - i) % 16))

def shortHash (value : JsString) : JsString :=
  hex8 (hashString value) ++ hex8 (hashString (codePoints value).reverse.flatten)

def initialTopologyId (shardNames : List JsString) (partitioner : JsString) : JsString :=
  js "t-" ++ shortHash (js "initial|" ++ partitioner ++ js "|" ++ join (unit '|') shardNames)

/-- `transitionTopologyId`; `entropy` are the first digits of a random UUID. -/
def transitionTopologyId (sourceId signature entropy : JsString) : JsString :=
  js "t-" ++ (shortHash (sourceId ++ js "|" ++ signature)).take 8 ++ js "-" ++ entropy

/-- `String(index).padStart(4, "0")` -/
def indexText (index : Nat) : JsString :=
  List.replicate (4 - (countText index).length) (unit '0') ++ countText index

def topologyShardName (topologyId : JsString) (index : Nat) : JsString :=
  topologyId ++ js "-s" ++ indexText index

/-- `${normalized.topology.partitioner}:${Object.keys(normalized.shards).length}` -/
def partitionSignature (partitioner : JsString) (shards : Shards) : JsString :=
  partitioner ++ unit ':' :: countText shards.length

def ShardMap.signature (map : ShardMap) : JsString :=
  partitionSignature map.topology.partitioner map.shards

/-! ## Normalisation -/

/-- `[...(config?.peers || [])]` -/
def cloneShard (config : Json) : Except ShardMapError (List Json) :=
  match truthyProp (some config) (js "peers") with
  | none => .ok []
  | some (.arr peers) => .ok peers
  | some (.str text) => .ok ((codePoints text).map .str)
  | some _ => .error .typeError

/-- `map.shards`, with the check that it is an object. -/
def topLevelShards (map : Json) : Except ShardMapError Fields :=
  match map.prop (js "shards") with
  | some (.obj shards) => .ok shards
  | _ => .error .missingShards

def cloneShards (shards : Fields) : Except ShardMapError Shards := do
  let entries ← shards.mapM fun entry => do return (entry.1, ← cloneShard entry.2)
  return fromEntries entries

/-- A topology before it is validated. -/
structure RawTopology where
  id : JsString
  state : Json
  partitioner : Json
  source : Option TopologySource

/-- `topology.source`; equal shards are left out and the others sorted. -/
def normalizeSource (source : Json) : Except ShardMapError TopologySource :=
  let id := ((truthyProp (some source) (js "id")).map toJsString).getD []
  match truthyProp (some source) (js "shards") with
  | none => .ok ⟨id, []⟩
  | some (.arr shards) => .ok ⟨id, sortNames (shards.map toJsString).dedup⟩
  | some _ => .error .typeError

def normalizeTopology (topology : Option Json) (shardNames : List JsString) :
    Except ShardMapError RawTopology := do
  let partitioner := (truthyProp topology (js "partitioner")).getD (.str shardPartitioner)
  let id := match truthyProp topology (js "id") with
    | some id => toJsString id
    | none => initialTopologyId shardNames (toJsString partitioner)
  let state := (truthyProp topology (js "state")).getD (TopologyState.active.toJson)
  let source ← (truthyProp topology (js "source")).mapM normalizeSource
  return ⟨id, state, partitioner, source⟩

def validateTopology (topology : RawTopology) (shardNames : List JsString) :
    Except ShardMapError Topology :=
  if topology.id = [] then .error .missingId
  else if topology.partitioner ≠ .str shardPartitioner then .error .unsupportedPartitioner
  else if topology.state = TopologyState.active.toJson then
    if topology.source.isSome then .error .sourceOfActive
    else .ok ⟨topology.id, .active, shardPartitioner, none⟩
  else if topology.state = TopologyState.resharding.toJson then
    match topology.source with
    | none => .error .missingSource
    | some source =>
        if source.id = [] ∨ source.shards = [] then .error .missingSource
        else
          match source.shards.find? (· ∈ shardNames) with
          | some shard => .error (.overlap shard)
          | none => .ok ⟨topology.id, .resharding, shardPartitioner, some source⟩
  else .error .unsupportedState

/-- `map.version !== undefined && ![1, 2].includes(Number(map.version))` -/
def unsupportedVersion (map : Json) : Bool :=
  match map.prop (js "version") with
  | none => false
  | some version =>
      decide (toNumber version ≠ some (JsNumber.ofNat 1) ∧
        toNumber version ≠ some (JsNumber.ofNat 2))

def normalizeShardMap (map : Json) : Except ShardMapError ShardMap := do
  let shards ← topLevelShards map
  if unsupportedVersion map then throw .unsupportedVersion
  let shards ← cloneShards shards
  let shardNames := sortNames (Assoc.keys shards)
  let topology ← normalizeTopology (map.prop (js "topology")) shardNames
  return ⟨← validateTopology topology shardNames, shards⟩

/-! ## Publishing -/

/-- `normalizeDesiredShardMap`: the partitioner and the shards. -/
def normalizeDesiredShardMap (map : Json) (fallbackPartitioner : JsString) :
    Except ShardMapError (JsString × Shards) := do
  let shards ← cloneShards (← topLevelShards map)
  let partitioner := (truthyProp (map.prop (js "topology")) (js "partitioner")).getD
    (.str (if fallbackPartitioner = [] then shardPartitioner else fallbackPartitioner))
  if partitioner ≠ .str shardPartitioner then throw .unsupportedPartitioner
  return (shardPartitioner, shards)

section

variable (collation : Collation)

/-- The peers of every target shard: those of the desired shard of this name if all targets have
one, those of the desired shard at the same place otherwise. -/
def assignPeerLayout (targetNames : List JsString) (desiredShards : Shards) : Shards :=
  let desiredEntries := desiredShards.insertionSort fun a b => collation.compare a.1 b.1 ≠ .gt
  let exact := targetNames.length = desiredEntries.length ∧
    ∀ name ∈ targetNames, name ∈ Assoc.keys desiredShards
  fromEntries ((sortNames targetNames).zipIdx.map fun target =>
    (target.1,
      if exact then (Assoc.get? desiredShards target.1).getD []
      else (desiredEntries[target.2]?.map Prod.snd).getD []))

/-- `Object.keys(currentMap.shards || {}).length` is 0. -/
def hasNoShards (map : Json) : Bool :=
  match map.prop (js "shards") with
  | some (.obj shards) => shards.isEmpty
  | some (.arr items) => items.isEmpty
  | some (.str text) => text.isEmpty
  | _ => true

def publishShardMap (currentMap : Option Json) (desiredMap : Json) (entropy : JsString) :
    Except ShardMapError ShardMap :=
  match currentMap with
  | none => normalizeShardMap desiredMap
  | some currentMap =>
      if hasNoShards currentMap then normalizeShardMap desiredMap
      else do
        let current ← normalizeShardMap currentMap
        let desired ← normalizeDesiredShardMap desiredMap current.topology.partitioner
        let desiredSignature := partitionSignature desired.1 desired.2
        if current.topology.state = .resharding ∧ current.signature ≠ desiredSignature then
          throw .unfinished
        if current.signature = desiredSignature then
          return { current with
            shards := assignPeerLayout collation (Assoc.keys current.shards) desired.2 }
        let topologyId := transitionTopologyId current.topology.id desiredSignature entropy
        let targetShardNames :=
          (List.range desired.2.length).map fun index => topologyShardName topologyId index
        return {
          topology := ⟨topologyId, .resharding, desired.1,
            some ⟨current.topology.id, current.shardNames⟩⟩
          shards := assignPeerLayout collation targetShardNames desired.2 }

end

def finalizeShardMap (map : Json) (expectedTopologyId : Option JsString) :
    Except ShardMapError ShardMap := do
  let normalized ← normalizeShardMap map
  if ∃ id, expectedTopologyId = some id ∧ id ≠ [] ∧ normalized.topology.id ≠ id then
    throw .topologyChanged
  if normalized.topology.state = .active then return normalized
  return { normalized with
    topology := ⟨normalized.topology.id, .active, normalized.topology.partitioner, none⟩ }

/-! ## `ShardMapStore` -/

inductive ShardMapEvent
  | save (desiredMap : Json) (entropy : JsString)
  | finalize (expectedTopologyId : Option JsString)

namespace ShardMapStore

/-- `load()` of a file that the store has written; it never has to be migrated. -/
def load (stored : Option ShardMap) : Except ShardMapError (Option ShardMap) :=
  match stored with
  | none => .ok none
  | some map => do return some (← normalizeShardMap map.toJson)

/-- The map that `save` or `finalize` writes. -/
def perform (collation : Collation) (stored : Option ShardMap) :
    ShardMapEvent → Except ShardMapError ShardMap
  | .save desiredMap entropy => do
      let current ← load stored
      publishShardMap collation (current.map ShardMap.toJson) desiredMap entropy
  | .finalize expectedTopologyId => do
      let current ← load stored
      match current with
      | none => throw .missingMap
      | some current => finalizeShardMap current.toJson expectedTopologyId

/-- The stored map after an event; a rejected one leaves it. -/
def step (collation : Collation) (stored : Option ShardMap) (event : ShardMapEvent) :
    Option ShardMap :=
  match perform collation stored event with
  | .ok map => some map
  | .error _ => stored

def run (collation : Collation) (events : List ShardMapEvent) : Option ShardMap :=
  events.foldl (step collation) none

end ShardMapStore

end ObjyDb
