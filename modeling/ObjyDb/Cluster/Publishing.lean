import ObjyDb.Cluster.Topology
import ObjyDb.Lib.Fallible

/-!
# Publishing — runs of published and finalized shard maps

The shard map store publishes a desired map over the map it holds, or finalizes the map it holds.

- `normalizeShardMap_toJson`, `lawful_of_normalizeShardMap`: the lawful maps are those that
  normalisation keeps
-/

namespace ObjyDb

open Js Fallible

/-! ## Lawful maps -/

/-- A source as a resharding map may have it, beside the target shards. -/
structure TopologySource.Lawful (source : TopologySource) (targets : List JsString) : Prop where
  id : source.id ≠ []
  shards : source.shards ≠ []
  sorted : source.shards.Pairwise (· ≤ ·)
  nodup : source.shards.Nodup
  apart : ∀ shard ∈ source.shards, shard ∉ targets

structure ShardMap.Lawful (map : ShardMap) : Prop where
  nodup : (Assoc.keys map.shards).Nodup
  id : map.topology.id ≠ []
  partitioner : map.topology.partitioner = shardPartitioner
  active : map.topology.state = .active → map.topology.source = none
  resharding : map.topology.state = .resharding →
    ∃ source, map.topology.source = some source ∧ source.Lawful (Assoc.keys map.shards)

/-! ## Sorted names -/

theorem sortNames_perm (names : List JsString) : (sortNames names).Perm names :=
  List.perm_insertionSort _ _

@[simp]
theorem mem_sortNames {names : List JsString} {name : JsString} :
    name ∈ sortNames names ↔ name ∈ names :=
  (sortNames_perm names).mem_iff

theorem sortNames_sorted (names : List JsString) : (sortNames names).Pairwise (· ≤ ·) :=
  List.pairwise_insertionSort _ _

theorem sortNames_of_sorted {names : List JsString} (h : names.Pairwise (· ≤ ·)) :
    sortNames names = names :=
  h.insertionSort_eq

theorem sortNames_congr {names names' : List JsString} (h : names.Perm names') :
    sortNames names = sortNames names' := by
  apply List.Perm.eq_of_pairwise (fun _ _ _ _ => le_antisymm) (sortNames_sorted _)
    (sortNames_sorted _)
  exact ((sortNames_perm names).trans h).trans (sortNames_perm names').symm

/-! ## Objects from entries -/

theorem foldl_set_of_nodup {β : Type} (entries object : List (JsString × β))
    (h : (Assoc.keys (object ++ entries)).Nodup) :
    entries.foldl (fun object entry => Assoc.set object entry.1 entry.2) object =
      object ++ entries := by
  induction entries generalizing object with
  | nil => simp
  | cons entry rest ih =>
      have hnew : entry.1 ∉ Assoc.keys object := by
        simp only [Assoc.keys, List.map_append, List.map_cons] at h ⊢
        rw [List.nodup_append] at h
        exact fun hmem => h.2.2 _ hmem _ List.mem_cons_self rfl
      rw [List.foldl_cons, Assoc.set_of_notMem _ hnew, ih _ (by simpa using h)]
      simp

theorem fromEntries_of_nodup {β : Type} {entries : List (JsString × β)}
    (h : (Assoc.keys entries).Nodup) : fromEntries entries = entries := by
  simpa [fromEntries] using foldl_set_of_nodup entries [] (by simpa using h)

theorem nodup_fromEntries {β : Type} (entries : List (JsString × β)) :
    (Assoc.keys (fromEntries entries)).Nodup := by
  unfold fromEntries
  suffices h : ∀ object : List (JsString × β), (Assoc.keys object).Nodup →
      (Assoc.keys (entries.foldl (fun object entry => Assoc.set object entry.1 entry.2)
        object)).Nodup from h [] (by simp [Assoc.keys])
  induction entries with
  | nil => exact fun _ h => h
  | cons entry rest ih => exact fun _ h => ih _ (Assoc.nodup_keys_set _ _ h)

theorem nodup_cloneShards {shards : Fields} {cloned : Shards} (h : cloneShards shards = .ok cloned) :
    (Assoc.keys cloned).Nodup := by
  rw [cloneShards] at h
  rcases bind_eq_ok.mp h with ⟨entries, -, h⟩
  rw [← pure_eq_ok.mp h]
  exact nodup_fromEntries entries

/-! ## What normalisation keeps -/

theorem prop_shards_toJson (map : ShardMap) :
    map.toJson.prop (js "shards") = some (shardsJson map.shards) := by
  have h1 : js "version" ≠ js "shards" := by decide
  have h2 : js "topology" ≠ js "shards" := by decide
  simp [ShardMap.toJson, Json.prop, Assoc.get?_cons, h1, h2]

theorem prop_topology_toJson (map : ShardMap) :
    map.toJson.prop (js "topology") = some map.topology.toJson := by
  have h1 : js "version" ≠ js "topology" := by decide
  simp [ShardMap.toJson, Json.prop, Assoc.get?_cons, h1]

theorem cloneShard_peers (peers : List Json) :
    cloneShard (.obj [(js "peers", .arr peers)]) = .ok peers := by
  simp [cloneShard, truthyProp, Json.prop, Assoc.get?_cons, Json.truthy, Option.filter]

theorem cloneShards_shardsJson {shards : Shards} (h : (Assoc.keys shards).Nodup) :
    cloneShards (shards.map fun entry => (entry.1, .obj [(js "peers", .arr entry.2)])) =
      .ok shards := by
  have hentries : (shards.map fun entry => (entry.1, Json.obj [(js "peers", .arr entry.2)])).mapM
      (fun entry => do return (entry.1, ← cloneShard entry.2)) =
        (.ok shards : Except ShardMapError Shards) := by
    clear h
    induction shards with
    | nil => rfl
    | cons entry rest ih =>
        rw [List.map_cons, List.mapM_cons, ih, cloneShard_peers]
        rfl
  rw [cloneShards, hentries]
  exact congrArg Except.ok (fromEntries_of_nodup h)

theorem truthyProp_some {v w : Json} {key : JsString} (h : v.prop key = some w)
    (htruthy : w.truthy = true) : truthyProp (some v) key = some w := by
  simp [truthyProp, h, Option.filter, htruthy]

theorem normalizeSource_toJson {source : TopologySource} {targets : List JsString}
    (h : source.Lawful targets) : normalizeSource source.toJson = .ok source := by
  have hne : js "id" ≠ js "shards" := by decide
  have hid : truthyProp (some source.toJson) (js "id") = some (.str source.id) := by
    apply truthyProp_some
    · simp [TopologySource.toJson, Json.prop, Assoc.get?_cons]
    · simpa [Json.truthy] using h.id
  have hshards : truthyProp (some source.toJson) (js "shards") =
      some (.arr (source.shards.map .str)) := by
    apply truthyProp_some
    · simp [TopologySource.toJson, Json.prop, Assoc.get?_cons, hne]
    · rfl
  -- the shards are sorted and without repetition already
  have htexts : (source.shards.map Json.str).map toJsString = source.shards := by
    simp [Function.comp_def, toJsString]
  simp only [normalizeSource, hid, hshards, htexts, h.nodup.dedup, sortNames_of_sorted h.sorted]
  rfl

/-- The topology of a lawful map before it is validated again. -/
def Topology.raw (topology : Topology) : RawTopology :=
  ⟨topology.id, topology.state.toJson, .str topology.partitioner, topology.source⟩

theorem normalizeTopology_toJson {map : ShardMap} (h : map.Lawful) (names : List JsString) :
    normalizeTopology (some map.topology.toJson) names = .ok map.topology.raw := by
  have h1 : js "id" ≠ js "partitioner" := by decide
  have h2 : js "state" ≠ js "partitioner" := by decide
  have h3 : js "id" ≠ js "state" := by decide
  have h4 : js "id" ≠ js "source" := by decide
  have h5 : js "state" ≠ js "source" := by decide
  have h6 : js "partitioner" ≠ js "source" := by decide
  have hid : truthyProp (some map.topology.toJson) (js "id") = some (.str map.topology.id) := by
    apply truthyProp_some
    · simp [Topology.toJson, Json.prop, Assoc.get?_cons]
    · simpa [Json.truthy] using h.id
  have hstate : truthyProp (some map.topology.toJson) (js "state") =
      some map.topology.state.toJson := by
    apply truthyProp_some
    · simp [Topology.toJson, Json.prop, Assoc.get?_cons, h3]
    · cases map.topology.state <;> decide
  have hpartitioner : truthyProp (some map.topology.toJson) (js "partitioner") =
      some (.str map.topology.partitioner) := by
    apply truthyProp_some
    · simp [Topology.toJson, Json.prop, Assoc.get?_cons, h1, h2]
    · rw [h.partitioner]
      decide
  have hsource : (truthyProp (some map.topology.toJson) (js "source")).mapM normalizeSource =
      .ok map.topology.source := by
    cases hstate : map.topology.state with
    | active =>
        simp [truthyProp, Topology.toJson, Json.prop, Assoc.get?_cons, h4, h5, h6,
          h.active hstate, pure, Except.pure]
    | resharding =>
        rcases h.resharding hstate with ⟨source, hsource, hlawful⟩
        have hprop : truthyProp (some map.topology.toJson) (js "source") =
            some source.toJson := by
          apply truthyProp_some
          · simp [Topology.toJson, Json.prop, Assoc.get?_cons, h4, h5, h6, hsource]
          · rfl
        rw [hprop, Option.mapM_some, normalizeSource_toJson hlawful, hsource]
        rfl
  simp only [normalizeTopology, hid, hstate, hpartitioner, hsource]
  rfl

theorem validateTopology_raw {map : ShardMap} (h : map.Lawful) :
    validateTopology map.topology.raw map.shardNames = .ok map.topology := by
  rcases htopology : map.topology with ⟨id, state, partitioner, source⟩
  have hid := h.id
  have hpartitioner := h.partitioner
  have hactive := h.active
  have hresharding := h.resharding
  simp only [htopology] at hid hpartitioner hactive hresharding
  subst hpartitioner
  cases state with
  | active =>
      rw [hactive rfl]
      simp [validateTopology, Topology.raw, hid]
  | resharding =>
      rcases hresharding rfl with ⟨source, rfl, hlawful⟩
      have hne : TopologyState.resharding.toJson ≠ TopologyState.active.toJson := by decide
      have hfind : source.shards.find? (· ∈ map.shardNames) = none := by
        rw [List.find?_eq_none]
        intro shard hshard
        simpa [ShardMap.shardNames] using hlawful.apart shard hshard
      simp [validateTopology, Topology.raw, hid, hne, hlawful.id, hlawful.shards, hfind]

/-- Normalisation accepts a lawful map as it is. -/
theorem normalizeShardMap_toJson {map : ShardMap} (h : map.Lawful) :
    normalizeShardMap map.toJson = .ok map := by
  have hshards : topLevelShards map.toJson =
      .ok (map.shards.map fun entry => (entry.1, .obj [(js "peers", .arr entry.2)])) := by
    rw [topLevelShards, prop_shards_toJson]
    rfl
  have hversion : unsupportedVersion map.toJson = false := by
    simp [unsupportedVersion, ShardMap.toJson, Json.prop, Assoc.get?_cons, toNumber]
  rw [normalizeShardMap, hshards]
  simp only [bind, Except.bind, hversion, Bool.false_eq_true, if_false,
    cloneShards_shardsJson h.nodup, prop_topology_toJson, normalizeTopology_toJson h]
  rw [show sortNames (Assoc.keys map.shards) = map.shardNames from rfl, validateTopology_raw h]
  rfl

/-! ## What normalisation makes -/

theorem normalizeSource_lawful {v : Json} {source : TopologySource} (h : normalizeSource v = .ok source) :
    source.shards.Pairwise (· ≤ ·) ∧ source.shards.Nodup := by
  rw [normalizeSource] at h
  split at h
  · cases h
    exact ⟨.nil, .nil⟩
  · cases h
    exact ⟨sortNames_sorted _, (sortNames_perm _).nodup_iff.mpr (List.nodup_dedup _)⟩
  · cases h

theorem normalizeTopology_source {v : Option Json} {names : List JsString} {raw : RawTopology}
    (h : normalizeTopology v names = .ok raw) {source : TopologySource}
    (hsource : raw.source = some source) :
    source.shards.Pairwise (· ≤ ·) ∧ source.shards.Nodup := by
  rw [normalizeTopology] at h
  rcases bind_eq_ok.mp h with ⟨found, hfound, h⟩
  rw [← pure_eq_ok.mp h] at hsource
  cases hprop : truthyProp v (js "source") with
  | none =>
      rw [hprop] at hfound
      cases hfound
      cases hsource
  | some w =>
      rw [hprop, Option.mapM_some] at hfound
      cases hw : normalizeSource w with
      | error e => rw [hw] at hfound; cases hfound
      | ok normalized =>
          rw [hw] at hfound
          cases hfound
          cases hsource
          exact normalizeSource_lawful hw

/-- Everything that a validated topology satisfies. -/
theorem lawful_of_validateTopology {raw : RawTopology} {shards : Shards} {topology : Topology}
    (hnodup : (Assoc.keys shards).Nodup)
    (hraw : ∀ source, raw.source = some source →
      source.shards.Pairwise (· ≤ ·) ∧ source.shards.Nodup)
    (h : validateTopology raw (sortNames (Assoc.keys shards)) = .ok topology) :
    (⟨topology, shards⟩ : ShardMap).Lawful := by
  rw [validateTopology] at h
  split_ifs at h with hid hpartitioner hactive hsource hresharding
  · cases h
    exact ⟨hnodup, hid, rfl, fun _ => rfl, nofun⟩
  · cases hsource : raw.source with
    | none => rw [hsource] at h; cases h
    | some source =>
        rw [hsource] at h
        dsimp only at h
        split_ifs at h with hempty
        split at h
        · cases h
        · rename_i hfind
          cases h
          rw [List.find?_eq_none] at hfind
          rcases not_or.mp hempty with ⟨hsourceId, hshards⟩
          rcases hraw source hsource with ⟨hsorted, hsourceNodup⟩
          refine ⟨hnodup, hid, rfl, nofun, fun _ => ⟨source, rfl, ?_⟩⟩
          exact ⟨hsourceId, hshards, hsorted, hsourceNodup,
            fun shard hshard => by simpa using hfind shard hshard⟩

/-- Normalisation makes lawful maps only. -/
theorem lawful_of_normalizeShardMap {v : Json} {map : ShardMap} (h : normalizeShardMap v = .ok map) :
    map.Lawful := by
  rw [normalizeShardMap] at h
  rcases bind_eq_ok.mp h with ⟨fields, -, h⟩
  rcases guard_eq_ok.mp h with ⟨-, h⟩
  rcases bind_eq_ok.mp h with ⟨shards, hshards, h⟩
  rcases bind_eq_ok.mp h with ⟨raw, hraw, h⟩
  rcases bind_eq_ok.mp h with ⟨topology, htopology, h⟩
  rw [← pure_eq_ok.mp h]
  exact lawful_of_validateTopology (nodup_cloneShards hshards)
    (fun source => normalizeTopology_source hraw) htopology

/-! ## Generated names -/

theorem digitUnit_injective : Function.Injective JsNumber.digitUnit := by
  intro a b h
  have hval := congrArg Fin.val h
  simp only [JsNumber.digitUnit] at hval
  exact Fin.ext (by omega)

theorem digitsValue_expDigits (n : Nat) : digitsValue (JsNumber.expDigits n) = n := by
  unfold JsNumber.expDigits
  split_ifs with h
  · subst h
    rfl
  · exact digitsValue_decimalDigits n

theorem countText_injective : Function.Injective countText := by
  intro a b h
  have hdigits := List.map_injective_iff.mpr digitUnit_injective h
  rw [← digitsValue_expDigits a, hdigits, digitsValue_expDigits]

theorem indexText_injective : Function.Injective indexText := by
  have hpadded : ∀ n, indexText n = (List.replicate (4 - (countText n).length) 0 ++
      JsNumber.expDigits n).map JsNumber.digitUnit := by
    intro n
    rw [List.map_append, List.map_replicate]
    rfl
  have hvalue : ∀ zeros n, digitsValue (List.replicate zeros 0 ++ JsNumber.expDigits n) = n := by
    intro zeros n
    rw [digitsValue_append_list, digitsValue_zeros, digitsValue_expDigits]
    simp
  intro a b h
  rw [hpadded, hpadded] at h
  -- leading zeros do not change the value
  have hdigits := congrArg digitsValue (List.map_injective_iff.mpr digitUnit_injective h)
  rwa [hvalue, hvalue] at hdigits

theorem topologyShardName_injective (topologyId : JsString) :
    Function.Injective (topologyShardName topologyId) := by
  intro a b h
  exact indexText_injective (List.append_cancel_left h)

theorem infix_topologyShardName (sourceId signature entropy : JsString) (index : Nat) :
    entropy <:+: topologyShardName (transitionTopologyId sourceId signature entropy) index := by
  refine ⟨js "t-" ++ (shortHash (sourceId ++ js "|" ++ signature)).take 8 ++ js "-",
    js "-s" ++ indexText index, ?_⟩
  simp only [topologyShardName, transitionTopologyId, List.append_assoc]

/-! ## Layouts -/

section

variable (collation : Collation)

theorem assignPeerLayout_eq {targets : List JsString} (h : targets.Nodup) (desired : Shards) :
    Assoc.keys (assignPeerLayout collation targets desired) = sortNames targets := by
  rw [assignPeerLayout]
  set entries := (sortNames targets).zipIdx.map _ with hentries
  have hkeys : Assoc.keys entries = sortNames targets := by
    rw [hentries, Assoc.keys, List.map_map]
    exact List.zipIdx_map_fst 0 (sortNames targets)
  rw [fromEntries_of_nodup]
  · exact hkeys
  · rw [hkeys]
    exact (sortNames_perm targets).nodup_iff.mpr h

theorem assignPeerLayout_congr {targets targets' : List JsString} (h : targets.Perm targets')
    (desired : Shards) :
    assignPeerLayout collation targets desired = assignPeerLayout collation targets' desired := by
  simp only [assignPeerLayout, sortNames_congr h, h.length_eq, h.mem_iff]

/-- A target of every shard, in any order, has the desired peers of this name. -/
theorem get?_assignPeerLayout_exact {targets : List JsString} {desired : Shards}
    (htargets : targets.Nodup) (h : targets.Perm (Assoc.keys desired)) (name : JsString) :
    Assoc.get? (assignPeerLayout collation targets desired) name = Assoc.get? desired name := by
  have hlength : targets.length =
      (desired.insertionSort fun a b => collation.compare a.1 b.1 ≠ .gt).length := by
    rw [List.length_insertionSort, h.length_eq, Assoc.keys, List.length_map]
  have hexact : targets.length =
      (desired.insertionSort fun a b => collation.compare a.1 b.1 ≠ .gt).length ∧
        ∀ name ∈ targets, name ∈ Assoc.keys desired :=
    ⟨hlength, fun name hname => h.mem_iff.mp hname⟩
  have hkeys := assignPeerLayout_eq collation htargets desired
  by_cases hname : name ∈ Assoc.keys desired
  · rcases Option.isSome_iff_exists.mp (Assoc.get?_isSome_iff.mpr hname) with ⟨peers, hpeers⟩
    rw [hpeers]
    apply Assoc.get?_eq_some_of_mem
    · rw [hkeys]
      exact (sortNames_perm targets).nodup_iff.mpr htargets
    · have hmem : name ∈ sortNames targets := mem_sortNames.mpr (h.mem_iff.mpr hname)
      rcases List.getElem_of_mem hmem with ⟨i, hi, hget⟩
      rw [assignPeerLayout, fromEntries_of_nodup, List.mem_map]
      · refine ⟨(name, i), ?_, ?_⟩
        · rw [List.mk_mem_zipIdx_iff_getElem?, List.getElem?_eq_getElem hi, hget]
        · simp only [if_pos hexact, hpeers, Option.getD_some]
      · rw [Assoc.keys, List.map_map]
        exact (List.zipIdx_map_fst 0 (sortNames targets)).symm ▸
          (sortNames_perm targets).nodup_iff.mpr htargets
  · rw [Assoc.get?_eq_none_iff.mpr hname, Assoc.get?_eq_none_iff, hkeys, mem_sortNames, h.mem_iff]
    exact hname

end

/-! ## Publishing over a map with shards -/

section

variable (collation : Collation)

/-- The map that starts a reshard of `current` into as many shards as are desired. -/
def ShardMap.reshard (current : ShardMap) (desired : Shards) (entropy : JsString) : ShardMap :=
  let topologyId := transitionTopologyId current.topology.id
    (partitionSignature shardPartitioner desired) entropy
  { topology := ⟨topologyId, .resharding, shardPartitioner,
      some ⟨current.topology.id, current.shardNames⟩⟩
    shards := assignPeerLayout collation
      ((List.range desired.length).map fun index => topologyShardName topologyId index) desired }

/-- The map with the desired peers. -/
def ShardMap.relaid (current : ShardMap) (desired : Shards) : ShardMap :=
  { current with shards := assignPeerLayout collation (Assoc.keys current.shards) desired }

theorem ShardMap.Lawful.signature_eq_iff {current : ShardMap} (h : current.Lawful)
    (desired : Shards) : current.signature = partitionSignature shardPartitioner desired ↔
      current.shards.length = desired.length := by
  rw [ShardMap.signature, partitionSignature, partitionSignature, h.partitioner,
    List.append_cancel_left_eq, List.cons.injEq]
  exact ⟨fun heq => countText_injective heq.2, fun heq => ⟨rfl, congrArg countText heq⟩⟩

theorem partitioner_of_normalizeDesired {v : Json} {fallback : JsString}
    {desired : JsString × Shards} (h : normalizeDesiredShardMap v fallback = .ok desired) :
    desired.1 = shardPartitioner := by
  rw [normalizeDesiredShardMap] at h
  rcases bind_eq_ok.mp h with ⟨fields, -, h⟩
  rcases bind_eq_ok.mp h with ⟨shards, -, h⟩
  rcases guard_eq_ok.mp h with ⟨-, h⟩
  rw [← pure_eq_ok.mp h]

/-- What publishing over a lawful map with shards comes to. -/
theorem publishShardMap_eq {current : ShardMap} (h : current.Lawful) (hne : current.shards ≠ [])
    {desiredMap : Json} {desired : JsString × Shards}
    (hdesired : normalizeDesiredShardMap desiredMap current.topology.partitioner = .ok desired)
    (entropy : JsString) :
    publishShardMap collation (some current.toJson) desiredMap entropy =
      if current.shards.length = desired.2.length then .ok (current.relaid collation desired.2)
      else if current.topology.state = .resharding then .error .unfinished
      else .ok (current.reshard collation desired.2 entropy) := by
  have hshards : hasNoShards current.toJson = false := by
    rw [hasNoShards, prop_shards_toJson]
    simpa [shardsJson] using hne
  have hpartitioner := partitioner_of_normalizeDesired hdesired
  rw [publishShardMap]
  simp only [hshards, Bool.false_eq_true, if_false, normalizeShardMap_toJson h, hdesired, bind,
    Except.bind, hpartitioner, ne_eq, h.signature_eq_iff]
  by_cases hlength : current.shards.length = desired.2.length
  · simp only [hlength, not_true_eq_false, and_false, if_false, if_true]
    rfl
  · by_cases hstate : current.topology.state = .resharding
    · simp only [hlength, hstate, not_false_eq_true, and_true, if_true, if_false]
      rfl
    · simp only [hlength, hstate, false_and, if_false]
      rfl

theorem publishShardMap_rejects {current : ShardMap} (h : current.Lawful)
    (hne : current.shards ≠ []) {desiredMap : Json} {e : ShardMapError}
    (hdesired : normalizeDesiredShardMap desiredMap current.topology.partitioner = .error e)
    (entropy : JsString) :
    publishShardMap collation (some current.toJson) desiredMap entropy = .error e := by
  have hshards : hasNoShards current.toJson = false := by
    rw [hasNoShards, prop_shards_toJson]
    simpa [shardsJson] using hne
  rw [publishShardMap]
  simp only [hshards, Bool.false_eq_true, if_false, normalizeShardMap_toJson h, hdesired, bind,
    Except.bind]

theorem keys_relaid {current : ShardMap} (h : current.Lawful) (desired : Shards) :
    Assoc.keys (current.relaid collation desired).shards = current.shardNames :=
  assignPeerLayout_eq collation h.nodup desired

theorem ShardMap.Lawful.relaid {current : ShardMap} (h : current.Lawful) (desired : Shards) :
    (current.relaid collation desired).Lawful := by
  refine ⟨?_, h.id, h.partitioner, h.active, fun hstate => ?_⟩
  · rw [keys_relaid collation h]
    exact (sortNames_perm _).nodup_iff.mpr h.nodup
  · rcases h.resharding hstate with ⟨source, hsource, hlawful⟩
    refine ⟨source, hsource, hlawful.id, hlawful.shards, hlawful.sorted, hlawful.nodup, ?_⟩
    intro shard hshard
    rw [keys_relaid collation h]
    simpa [ShardMap.shardNames] using hlawful.apart shard hshard

/-- The names of the target shards of a reshard, before they are sorted. -/
def targetNames (current : ShardMap) (desired : Shards) (entropy : JsString) : List JsString :=
  (List.range desired.length).map fun index =>
    topologyShardName (transitionTopologyId current.topology.id
      (partitionSignature shardPartitioner desired) entropy) index

theorem targetNames_nodup (current : ShardMap) (desired : Shards) (entropy : JsString) :
    (targetNames current desired entropy).Nodup :=
  List.nodup_range.map (topologyShardName_injective _)

theorem keys_reshard (current : ShardMap) (desired : Shards) (entropy : JsString) :
    Assoc.keys (current.reshard collation desired entropy).shards =
      sortNames (targetNames current desired entropy) :=
  assignPeerLayout_eq collation (targetNames_nodup current desired entropy) desired

theorem length_reshard (current : ShardMap) (desired : Shards) (entropy : JsString) :
    (current.reshard collation desired entropy).shards.length = desired.length := by
  have hkeys := congrArg List.length (keys_reshard collation current desired entropy)
  simpa [Assoc.keys, (sortNames_perm _).length_eq, targetNames] using hkeys

theorem length_relaid {current : ShardMap} (h : current.Lawful) (desired : Shards) :
    (current.relaid collation desired).shards.length = current.shards.length := by
  have hkeys := congrArg List.length (keys_relaid collation h desired)
  simpa [Assoc.keys, ShardMap.shardNames, (sortNames_perm _).length_eq] using hkeys

/-- Fresh entropy is in no name of the current map, so the target names are new. -/
theorem ShardMap.Lawful.reshard {current : ShardMap} (h : current.Lawful)
    (hne : current.shards ≠ []) (desired : Shards) {entropy : JsString}
    (hfresh : ∀ name ∈ Assoc.keys current.shards, ¬entropy <:+: name) :
    (current.reshard collation desired entropy).Lawful := by
  refine ⟨?_, ?_, rfl, nofun, fun _ => ⟨_, rfl, h.id, ?_, sortNames_sorted _, ?_, ?_⟩⟩
  · rw [keys_reshard]
    exact (sortNames_perm _).nodup_iff.mpr (targetNames_nodup current desired entropy)
  · simp [ShardMap.reshard, transitionTopologyId, show js "t-" ≠ [] by decide]
  · intro hempty
    have hperm := sortNames_perm (Assoc.keys current.shards)
    rw [show sortNames (Assoc.keys current.shards) = [] from hempty, List.nil_perm] at hperm
    exact hne (List.map_eq_nil_iff.mp hperm)
  · exact (sortNames_perm _).nodup_iff.mpr h.nodup
  · intro shard hshard
    rw [keys_reshard, mem_sortNames, targetNames, List.mem_map]
    rintro ⟨index, -, rfl⟩
    exact hfresh _ (mem_sortNames.mp hshard) (infix_topologyShardName _ _ _ _)

/-- Another publication of the desired map finds its layout in place. -/
theorem relaid_relaid {current : ShardMap} (h : current.Lawful) (desired : Shards) :
    (current.relaid collation desired).relaid collation desired =
      current.relaid collation desired := by
  have hperm : (Assoc.keys (current.relaid collation desired).shards).Perm
      (Assoc.keys current.shards) := by
    rw [keys_relaid collation h]
    exact sortNames_perm _
  rw [ShardMap.relaid, assignPeerLayout_congr collation hperm]
  rfl

theorem relaid_reshard (current : ShardMap) (desired : Shards) (entropy : JsString) :
    (current.reshard collation desired entropy).relaid collation desired =
      current.reshard collation desired entropy := by
  have hperm : (Assoc.keys (current.reshard collation desired entropy).shards).Perm
      (targetNames current desired entropy) := by
    rw [keys_reshard]
    exact sortNames_perm _
  rw [ShardMap.relaid, assignPeerLayout_congr collation hperm]
  rfl

end

/-! ## Finalizing -/

/-- The map after its reshard. -/
def ShardMap.finalized (map : ShardMap) : ShardMap :=
  { map with topology := ⟨map.topology.id, .active, map.topology.partitioner, none⟩ }

theorem ShardMap.Lawful.finalized {map : ShardMap} (h : map.Lawful) : map.finalized.Lawful :=
  ⟨h.nodup, h.id, h.partitioner, fun _ => rfl, nofun⟩

theorem finalized_of_active {map : ShardMap} (h : map.Lawful)
    (hactive : map.topology.state = .active) : map.finalized = map := by
  have hsource := h.active hactive
  rcases map with ⟨⟨id, state, partitioner, source⟩, shards⟩
  simp only at hactive hsource
  subst hactive hsource
  rfl

theorem eq_finalized_of_finalize {map next : ShardMap} (h : map.Lawful)
    {expected : Option JsString} (hnext : finalizeShardMap map.toJson expected = .ok next) :
    next = map.finalized := by
  rw [finalizeShardMap, normalizeShardMap_toJson h] at hnext
  rcases guard_eq_ok.mp hnext with ⟨-, hnext⟩
  by_cases hactive : map.topology.state = .active
  · rw [if_pos hactive] at hnext
    rw [finalized_of_active h hactive, pure_eq_ok.mp hnext]
  · rw [if_neg hactive] at hnext
    exact (pure_eq_ok.mp hnext).symm

/-! ## The first map -/

/-- A first map that is published again is desired as it is. -/
theorem normalizeDesired_of_normalize {v : Json} {map : ShardMap} (h : normalizeShardMap v = .ok map) :
    normalizeDesiredShardMap v map.topology.partitioner = .ok (shardPartitioner, map.shards) := by
  have hpartitioner := (lawful_of_normalizeShardMap h).partitioner
  rw [normalizeShardMap] at h
  rcases bind_eq_ok.mp h with ⟨fields, hfields, h⟩
  rcases guard_eq_ok.mp h with ⟨-, h⟩
  rcases bind_eq_ok.mp h with ⟨shards, hshards, h⟩
  rcases bind_eq_ok.mp h with ⟨raw, hraw, h⟩
  rcases bind_eq_ok.mp h with ⟨topology, htopology, h⟩
  rw [← pure_eq_ok.mp h] at hpartitioner ⊢
  have hrawPartitioner : raw.partitioner = .str shardPartitioner := by
    rw [validateTopology] at htopology
    split_ifs at htopology with hid hne
    all_goals exact not_not.mp hne
  rw [normalizeTopology] at hraw
  rcases bind_eq_ok.mp hraw with ⟨source, -, hraw⟩
  rw [← pure_eq_ok.mp hraw] at hrawPartitioner
  have hgiven : (truthyProp (v.prop (js "topology")) (js "partitioner")).getD
      (.str (if topology.partitioner = [] then shardPartitioner else topology.partitioner)) =
        .str shardPartitioner := by
    rw [hpartitioner, if_neg (by decide)]
    exact hrawPartitioner
  rw [normalizeDesiredShardMap, hfields]
  simp only [bind, Except.bind, hshards, hgiven, ne_eq, not_true_eq_false, if_false]
  rfl

/-! ## Runs -/

namespace ShardMapStore

section

variable (collation : Collation)

theorem load_lawful {map : ShardMap} (h : map.Lawful) : load (some map) = .ok (some map) := by
  rw [load, normalizeShardMap_toJson h]
  rfl

/-- Entropy is fresh when no shard of the stored map has it in its name. -/
def Fresh (stored : Option ShardMap) : ShardMapEvent → Prop
  | .save _ entropy =>
      ∀ map, stored = some map → ∀ name ∈ Assoc.keys map.shards, ¬entropy <:+: name
  | .finalize _ => True

/-- A map is published over no map or over one that has shards. -/
def OverShards (stored : Option ShardMap) : ShardMapEvent → Prop
  | .save _ _ => ∀ map, stored = some map → map.shards ≠ []
  | .finalize _ => True

structure Proper (stored : Option ShardMap) (event : ShardMapEvent) : Prop where
  fresh : Fresh stored event
  overShards : OverShards stored event

/-- Every event of the run is admitted where it happens. -/
def Along (admits : Option ShardMap → ShardMapEvent → Prop) (stored : Option ShardMap) :
    List ShardMapEvent → Prop
  | [] => True
  | event :: events => admits stored event ∧ Along admits (step collation stored event) events

/-- The maps differ in the order of their shards at most. -/
structure SameMap (map map' : ShardMap) : Prop where
  topology : map.topology = map'.topology
  shards : ∀ name, Assoc.get? map.shards name = Assoc.get? map'.shards name

/-- Publishing the desired map changes nothing. -/
def Keeps (admits : Option ShardMap → ShardMapEvent → Prop) (map : ShardMap)
    (desiredMap : Json) : Prop :=
  ∀ entropy, admits (some map) (.save desiredMap entropy) →
    ∃ result, perform collation (some map) (.save desiredMap entropy) = .ok result ∧
      SameMap result map

/-- What is expected of a stored map and of the admitted events that may come next. -/
structure Faithful (admits : Option ShardMap → ShardMapEvent → Prop) (stored : Option ShardMap) :
    Prop where
  accepted : ∀ map, stored = some map → normalizeShardMap map.toJson = .ok map
  apart : ∀ map, stored = some map → map.topology.state = .resharding →
    ∃ source, map.topology.source = some source ∧
      ∀ shard ∈ source.shards, shard ∉ Assoc.keys map.shards
  renames : ∀ map event next, stored = some map → admits stored event →
    perform collation stored event = .ok next → next.shardNames ≠ map.shardNames →
      map.topology.state = .active ∧ next.topology.state = .resharding ∧
        next.topology.source = some ⟨map.topology.id, map.shardNames⟩
  unfinished : ∀ map event next, stored = some map → map.topology.state = .resharding →
    admits stored event → perform collation stored event = .ok next →
      next.shardNames = map.shardNames ∧
        (next.topology.state = .resharding → next.topology = map.topology)
  refused : ∀ map desiredMap entropy desired, stored = some map →
    map.topology.state = .resharding → admits stored (.save desiredMap entropy) →
      normalizeDesiredShardMap desiredMap map.topology.partitioner = .ok desired →
        partitionSignature desired.1 desired.2 ≠ map.signature →
          perform collation stored (.save desiredMap entropy) = .error .unfinished
  again : ∀ desiredMap entropy next, admits stored (.save desiredMap entropy) →
    perform collation stored (.save desiredMap entropy) = .ok next →
      Keeps collation admits next desiredMap ∧
        ∀ expected final, perform collation (some next) (.finalize expected) = .ok final →
          Keeps collation admits final desiredMap

theorem perform_save {map : ShardMap} (h : map.Lawful) (desiredMap : Json) (entropy : JsString) :
    perform collation (some map) (.save desiredMap entropy) =
      publishShardMap collation (some map.toJson) desiredMap entropy := by
  rw [perform, load_lawful h]
  rfl

theorem perform_finalize {map next : ShardMap} (h : map.Lawful) {expected : Option JsString}
    (hnext : perform collation (some map) (.finalize expected) = .ok next) :
    next = map.finalized := by
  rw [perform, load_lawful h] at hnext
  exact eq_finalized_of_finalize h hnext

/-- A map that has the layout of a desired map keeps it. -/
theorem keeps_of_relaid {map : ShardMap} (h : map.Lawful) {desiredMap : Json}
    {desired : JsString × Shards}
    (hdesired : normalizeDesiredShardMap desiredMap shardPartitioner = .ok desired)
    (hlength : map.shards.length = desired.2.length)
    (hrelaid : ∀ name, Assoc.get? (map.relaid collation desired.2).shards name =
      Assoc.get? map.shards name) : Keeps collation Proper map desiredMap := by
  intro entropy hproper
  rw [← h.partitioner] at hdesired
  refine ⟨map.relaid collation desired.2, ?_, rfl, hrelaid⟩
  rw [perform_save collation h, publishShardMap_eq collation h (hproper.overShards map rfl) hdesired,
    if_pos hlength]

/-- What a proper publication over a map comes to. -/
theorem save_cases {map next : ShardMap} (h : map.Lawful) {desiredMap : Json} {entropy : JsString}
    (hproper : Proper (some map) (.save desiredMap entropy))
    (hnext : perform collation (some map) (.save desiredMap entropy) = .ok next) :
    ∃ desired : JsString × Shards,
      normalizeDesiredShardMap desiredMap shardPartitioner = .ok desired ∧
      (map.shards.length = desired.2.length ∧ next = map.relaid collation desired.2 ∨
        map.topology.state = .active ∧ next = map.reshard collation desired.2 entropy) := by
  have hne := hproper.overShards map rfl
  rw [perform_save collation h] at hnext
  cases hdesired : normalizeDesiredShardMap desiredMap map.topology.partitioner with
  | error e =>
      rw [publishShardMap_rejects collation h hne hdesired] at hnext
      cases hnext
  | ok desired =>
      rw [publishShardMap_eq collation h hne hdesired] at hnext
      rw [h.partitioner] at hdesired
      refine ⟨desired, hdesired, ?_⟩
      split_ifs at hnext with hlength hstate
      · exact Or.inl ⟨hlength, (Except.ok.inj hnext).symm⟩
      · refine Or.inr ⟨?_, (Except.ok.inj hnext).symm⟩
        cases hmap : map.topology.state with
        | active => rfl
        | resharding => exact absurd hmap hstate

theorem lawful_perform {stored : Option ShardMap} (h : ∀ map, stored = some map → map.Lawful)
    {event : ShardMapEvent} (hproper : Proper stored event) {next : ShardMap}
    (hnext : perform collation stored event = .ok next) : next.Lawful := by
  cases stored with
  | none =>
      cases event with
      | save desiredMap entropy => exact lawful_of_normalizeShardMap hnext
      | finalize expected => cases hnext
  | some map =>
      have hmap := h map rfl
      cases event with
      | save desiredMap entropy =>
          rcases save_cases collation hmap hproper hnext with
            ⟨desired, -, ⟨-, rfl⟩ | ⟨-, rfl⟩⟩
          · exact hmap.relaid collation desired.2
          · exact hmap.reshard collation (hproper.overShards map rfl) desired.2
              (hproper.fresh map rfl)
      | finalize expected =>
          rw [perform_finalize collation hmap hnext]
          exact hmap.finalized

theorem lawful_run {events : List ShardMapEvent} {stored : Option ShardMap}
    (h : ∀ map, stored = some map → map.Lawful) (hproper : Along collation Proper stored events) :
    ∀ map, events.foldl (step collation) stored = some map → map.Lawful := by
  induction events generalizing stored with
  | nil => exact h
  | cons event events ih =>
      refine ih ?_ hproper.2
      intro map hmap
      rw [step] at hmap
      cases hnext : perform collation stored event with
      | error e =>
          rw [hnext] at hmap
          exact h map hmap
      | ok next =>
          rw [hnext] at hmap
          rw [← Option.some.inj hmap]
          exact lawful_perform collation h hproper.1 hnext

theorem shardNames_of_perm {map next : ShardMap}
    (h : (Assoc.keys next.shards).Perm (Assoc.keys map.shards)) :
    next.shardNames = map.shardNames :=
  sortNames_congr h

/-- The desired map of an accepted publication is in place afterwards. -/
theorem keeps_of_save {stored : Option ShardMap} (h : ∀ map, stored = some map → map.Lawful)
    {desiredMap : Json} {entropy : JsString} {next : ShardMap}
    (hproper : Proper stored (.save desiredMap entropy))
    (hnext : perform collation stored (.save desiredMap entropy) = .ok next) :
    Keeps collation Proper next desiredMap ∧
      Keeps collation Proper next.finalized desiredMap := by
  have hlawful := lawful_perform collation h hproper hnext
  suffices hplace : ∃ desired : JsString × Shards,
      normalizeDesiredShardMap desiredMap shardPartitioner = .ok desired ∧
      next.shards.length = desired.2.length ∧
      ∀ name, Assoc.get? (next.relaid collation desired.2).shards name =
        Assoc.get? next.shards name by
    rcases hplace with ⟨desired, hdesired, hlength, hrelaid⟩
    exact ⟨keeps_of_relaid collation hlawful hdesired hlength hrelaid,
      keeps_of_relaid collation hlawful.finalized hdesired hlength hrelaid⟩
  cases stored with
  | none =>
      have hdesired := normalizeDesired_of_normalize hnext
      rw [hlawful.partitioner] at hdesired
      exact ⟨_, hdesired, rfl,
        get?_assignPeerLayout_exact collation hlawful.nodup (List.Perm.refl _)⟩
  | some map =>
      rcases save_cases collation (h map rfl) hproper hnext with
        ⟨desired, hdesired, ⟨hlength, rfl⟩ | ⟨-, rfl⟩⟩
      · refine ⟨desired, hdesired, (length_relaid collation (h map rfl) _).trans hlength, ?_⟩
        intro name
        rw [relaid_relaid collation (h map rfl)]
      · refine ⟨desired, hdesired, length_reshard collation map _ entropy, ?_⟩
        intro name
        rw [relaid_reshard]

/-- Lawful maps are as expected, and so is what comes next. -/
theorem faithful_of_lawful {stored : Option ShardMap}
    (h : ∀ map, stored = some map → map.Lawful) : Faithful collation Proper stored where
  accepted map hmap := normalizeShardMap_toJson (h map hmap)
  apart map hmap hstate := by
    rcases (h map hmap).resharding hstate with ⟨source, hsource, hlawful⟩
    exact ⟨source, hsource, hlawful.apart⟩
  renames map event next hmap hproper hnext hnames := by
    subst hmap
    have hlawful := h map rfl
    cases event with
    | save desiredMap entropy =>
        rcases save_cases collation hlawful hproper hnext with
          ⟨desired, -, ⟨-, rfl⟩ | ⟨hactive, rfl⟩⟩
        · refine absurd (shardNames_of_perm ?_) hnames
          rw [keys_relaid collation hlawful]
          exact sortNames_perm _
        · exact ⟨hactive, rfl, rfl⟩
    | finalize expected =>
        rw [perform_finalize collation hlawful hnext] at hnames
        exact absurd rfl hnames
  unfinished map event next hmap hstate hproper hnext := by
    subst hmap
    have hlawful := h map rfl
    cases event with
    | save desiredMap entropy =>
        rcases save_cases collation hlawful hproper hnext with
          ⟨desired, -, ⟨-, rfl⟩ | ⟨hactive, -⟩⟩
        · refine ⟨shardNames_of_perm ?_, fun _ => rfl⟩
          rw [keys_relaid collation hlawful]
          exact sortNames_perm _
        · rw [hactive] at hstate
          cases hstate
    | finalize expected =>
        rw [perform_finalize collation hlawful hnext]
        exact ⟨rfl, nofun⟩
  refused map desiredMap entropy desired hmap hstate hproper hdesired hsignature := by
    subst hmap
    have hlawful := h map rfl
    have hne := hproper.overShards map rfl
    rw [perform_save collation hlawful, publishShardMap_eq collation hlawful hne hdesired]
    have hpartitioner := partitioner_of_normalizeDesired hdesired
    rw [hpartitioner] at hsignature
    rw [if_neg fun hlength => hsignature ((hlawful.signature_eq_iff _).mpr hlength).symm,
      if_pos hstate]
  again desiredMap entropy next hproper hnext := by
    rcases keeps_of_save collation h hproper hnext with ⟨hkeeps, hfinal⟩
    refine ⟨hkeeps, fun expected final hfinalize => ?_⟩
    rw [perform_finalize collation (lawful_perform collation h hproper hnext) hfinalize]
    exact hfinal

/-- Over maps with shards, and with fresh entropy, published maps are as expected in every run. -/
theorem run_faithful {events : List ShardMapEvent} (h : Along collation Proper none events) :
    Faithful collation Proper (run collation events) :=
  faithful_of_lawful collation (lawful_run collation nofun h)

end

/-! ## Witness and failure -/

/-- A desired map with shards of these names, without peers. -/
def desiredNames (names : List JsString) : Json :=
  .obj [(js "shards", .obj (names.map fun name => (name, .obj [])))]

/-- One shard is split in two, and the reshard is finalized. -/
def splitRun : List ShardMapEvent :=
  [.save (desiredNames [js "a"]) (js "0a"), .save (desiredNames [js "a", js "b"]) (js "1b"),
    .finalize none]

theorem run_faithful_split :
    Faithful Collation.byUnits Proper (run Collation.byUnits splitRun) ∧
      ((run Collation.byUnits splitRun).map fun map => map.shards.length) = some 2 := by
  refine ⟨run_faithful Collation.byUnits ?_, by decide +kernel⟩
  refine ⟨⟨nofun, nofun⟩, ⟨?_, ?_⟩, ⟨trivial, trivial⟩, trivial⟩
  · intro map hmap name hname
    rw [← Option.some.inj hmap] at hname
    revert name
    decide +kernel
  · intro map hmap
    rw [← Option.some.inj hmap]
    decide +kernel

/-- A map without shards starts a reshard that the next map replaces. -/
def emptiedRun : List ShardMapEvent :=
  [.save (desiredNames [js "a"]) (js "0a"), .save (desiredNames []) (js "1b")]

/-- While that reshard is unfinished, the shards get other names. -/
theorem emptied_not_faithful :
    ¬∀ events, Along Collation.byUnits Fresh none events →
      Faithful Collation.byUnits Fresh (run Collation.byUnits events) := by
  intro h
  have hrun : Along Collation.byUnits Fresh none emptiedRun := by
    refine ⟨nofun, ?_, trivial⟩
    intro map hmap name hname
    rw [← Option.some.inj hmap] at hname
    revert name
    decide +kernel
  have hlaws := h emptiedRun hrun
  have hmap : ∃ map, run Collation.byUnits emptiedRun = some map ∧
      map.topology.state = .resharding ∧ map.shards = [] ∧
        ∃ next, perform Collation.byUnits (some map)
          (.save (desiredNames [js "c"]) (js "2c")) = .ok next ∧ next.shardNames = [js "c"] :=
    ⟨_, rfl, by decide +kernel, by decide +kernel, _, rfl, by decide +kernel⟩
  rcases hmap with ⟨map, hmap, hstate, hshards, next, hnext, hnames⟩
  have hfresh : Fresh (run Collation.byUnits emptiedRun)
      (.save (desiredNames [js "c"]) (js "2c")) := by
    intro map' hmap' name hname
    rw [hmap] at hmap'
    rw [← Option.some.inj hmap', hshards] at hname
    cases hname
  rw [← hmap] at hnext
  have hsame := (hlaws.unfinished map _ next hmap hstate hfresh hnext).1
  rw [hnames, ShardMap.shardNames, hshards] at hsame
  exact absurd hsame (by decide)

end ShardMapStore

end ObjyDb
