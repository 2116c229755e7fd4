import ObjyDb.Js.Text

/-!
# ShardMap — which shard an object is on

An object is routed by the FNV-1a hash of its id over the sorted shard names.
-/

namespace ObjyDb

open Js

/-- `GLOBAL_DATABASE` -/
def globalDatabase : JsString := js "*"

/-- `GLOBAL_COLLECTION` -/
def globalCollection : JsString := js "*"

/-- `DEFAULT_SHARD` -/
def defaultShard : JsString := js "default"

/-- `hashString`: `Math.imul` and `>>> 0` keep 32 bits. -/
def hashString (value : JsString) : Nat :=
  value.foldl (fun h unit => ((h ^^^ unit.val) * 0x01000193) % 2 ^ 32) 0x811c9dc5

/-- The shard names of the map, in the order of `shardsForCollection`. -/
abbrev ShardNames := List JsString

/-- `shardForObject(database, collection, objectId)`, which looks at the id only. -/
def shardForObject (shards : ShardNames) (objectId : JsString) : JsString :=
  if shards = [] then defaultShard
  else shards.getD (hashString objectId % shards.length) defaultShard

end ObjyDb
