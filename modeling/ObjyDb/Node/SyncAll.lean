import ObjyDb.Node.SyncPeer
import ObjyDb.Schedule.Pulls

/-!
# SyncAll — passes over all peers

`syncAll` goes through the shards that the node owns and asks every peer of each, in a loop of
`syncPeer`; a peer that fails is remembered, and the pass goes on.  Nodes that have made a pass
without failures since the last write return the same objects.

- `Mesh.syncAll`, `Mesh.syncPasses`
- `System.syncPasses_converge`
-/

namespace ObjyDb

open Js Persist

/-! ## Peers of a node -/

/-- A peer of a shard, and the node that its `pull` and `ack` call. -/
structure PeerObject where
  url : Option JsString
  peer : Peer
  target : JsString

/-- The nodes, their addresses, and the peers of their shards, which are objects of their own. -/
structure Mesh where
  nodes : JsString → Replica
  urls : JsString → Option JsString
  shards : JsString → List (JsString × List ℕ)
  peers : ℕ → PeerObject

/-- What `lastSyncFailures` says of a peer. -/
structure SyncFailure where
  peer : JsString
  scope : Option Scope
  err : SyncError

/-- `_scope(GLOBAL_DATABASE, GLOBAL_COLLECTION, shard)` -/
def shardScope (shard : JsString) : Option Scope :=
  if shard = defaultShard then none else some ⟨globalDatabase, globalCollection, shard⟩

namespace Mesh

/-- `_isSelfPeer(peer)`, where the node has an address. -/
def isSelfPeer (m : Mesh) (reader url : JsString) (i : ℕ) : Bool :=
  decide (normalizeUrl (m.peers i).url = some url) ||
    decide ((m.peers i).peer.nodeId = some reader) || decide ((m.peers i).peer.key = reader)

/-- `ownedShardTargets()` -/
def ownedShardTargets (m : Mesh) (reader : JsString) : List (JsString × List ℕ) :=
  match truthyText (m.urls reader) with
  | none => m.shards reader
  | some url => (m.shards reader).filter fun target => target.2.any (m.isSelfPeer reader url)

/-- `_syncPeersForTarget(target)` -/
def syncPeersForTarget (m : Mesh) (reader : JsString) (peers : List ℕ) : List ℕ :=
  match truthyText (m.urls reader) with
  | none => peers
  | some url => peers.filter fun i => !m.isSelfPeer reader url i

/-- What the loop with a peer leaves behind. -/
def withSynced (m : Mesh) (reader : JsString) (i : ℕ) (st : Syncing) : Mesh where
  nodes := fun id =>
    if id = reader then { m.nodes id with node := st.node }
    else if id = (m.peers i).target then st.source else m.nodes id
  urls := m.urls
  shards := m.shards
  peers := Function.update m.peers i { m.peers i with peer := st.peer }

variable (limit fuel : ℕ) (reader : JsString)

/-- `this.syncPeer(peer, scope)` -/
def syncPeer (m : Mesh) (scope : Option Scope) (i : ℕ) : Option (Mesh × Except SyncError ℕ) :=
  (ObjyDb.syncPeer limit scope fuel
    ⟨(m.nodes reader).node, m.nodes (m.peers i).target, (m.peers i).peer, 0⟩).map
      fun (st, result) => (m.withSynced reader i st, result)

/-- The peers of a shard: how many operations were applied, and what failed. -/
def syncPeers (scope : Option Scope) : List ℕ → Mesh → Option (Mesh × ℕ × List SyncFailure)
  | [], m => some (m, 0, [])
  | i :: peers, m => do
      let (m, result) ← m.syncPeer limit fuel reader scope i
      let (m', total, failures) ← syncPeers scope peers m
      match result with
      | .ok applied => some (m', applied + total, failures)
      | .error err => some (m', total, ⟨(m.peers i).peer.peerKey, scope, err⟩ :: failures)

/-- The shards that the node owns. -/
def syncTargets : List (JsString × List ℕ) → Mesh → Option (Mesh × ℕ × List SyncFailure)
  | [], m => some (m, 0, [])
  | (shard, peers) :: targets, m => do
      let (m, applied, failures) ←
        syncPeers limit fuel reader (shardScope shard) (m.syncPeersForTarget reader peers) m
      let (m, total, more) ← syncTargets targets m
      some (m, applied + total, failures ++ more)

/-- `syncAll()`, with `lastSyncFailures`. -/
def syncAll (m : Mesh) : Option (Mesh × ℕ × List SyncFailure) :=
  syncTargets limit fuel reader (m.ownedShardTargets reader) m

/-- One pass after the other: who made it, and what failed. -/
def syncPasses : List JsString → Mesh → Option (Mesh × List (JsString × List SyncFailure))
  | [], m => some (m, [])
  | reader :: readers, m => do
      let (m, _, failures) ← m.syncAll limit fuel reader
      let (m, outcomes) ← syncPasses readers m
      some (m, (reader, failures) :: outcomes)

/-! ## Peers that become known -/

variable {m m' m'' : Mesh} {reader : JsString}

/-- Nothing is new but that peers are known by their ids. -/
structure Later (m m' : Mesh) : Prop where
  urls : m'.urls = m.urls
  shards : m'.shards = m.shards
  peer : ∀ i, m'.peers i = m.peers i ∨
    m'.peers i = { m.peers i with peer := (m.peers i).peer.bind (m.peers i).target }

theorem Later.refl (m : Mesh) : Later m m :=
  ⟨rfl, rfl, fun _ => Or.inl rfl⟩

theorem Later.target (h : Later m m') (i : ℕ) : (m'.peers i).target = (m.peers i).target := by
  rcases h.peer i with heq | heq <;> rw [heq]

theorem Later.trans (h : Later m m') (h' : Later m' m'') : Later m m'' where
  urls := h'.urls.trans h.urls
  shards := h'.shards.trans h.shards
  peer := by
    intro i
    rcases h.peer i with hsame | hbound <;> rcases h'.peer i with hsame' | hbound'
    · exact Or.inl (hsame'.trans hsame)
    · exact Or.inr (hsame ▸ hbound')
    · exact Or.inr (hsame'.trans hbound)
    · refine Or.inr (hbound'.trans ?_)
      rw [hbound, Peer.bind_bind]

/-- Nodes tell themselves from their peers, and the network knows the shards. -/
structure Ready (net : Network) (m : Mesh) : Prop where
  named : ∀ i, (m.peers i).target ≠ []
  scopes : ∀ reader, ∀ t ∈ m.shards reader, shardScope t.1 ∈ net.scopes
  self : ∀ reader url, truthyText (m.urls reader) = some url → ∀ t ∈ m.shards reader, ∀ i ∈ t.2,
    (m.isSelfPeer reader url i = true ↔ (m.peers i).target = reader)
  foreign : ∀ reader, truthyText (m.urls reader) = none → ∀ t ∈ m.shards reader, ∀ i ∈ t.2,
    (m.peers i).target ≠ reader

theorem Later.isSelfPeer (h : Later m m') {url : JsString} {i : ℕ}
    (hnamed : (m.peers i).target ≠ [])
    (hself : m.isSelfPeer reader url i = true ↔ (m.peers i).target = reader) :
    m'.isSelfPeer reader url i = true ↔ (m'.peers i).target = reader := by
  rw [h.target]
  rcases h.peer i with heq | heq
  · rw [Mesh.isSelfPeer, heq]
    exact hself
  · -- the peer is known by the id of its node
    have hnodeId : ((m.peers i).peer.bind (m.peers i).target).nodeId = some (m.peers i).target := by
      rw [Peer.bind, if_neg hnamed]
    have hkey : ((m.peers i).peer.bind (m.peers i).target).key = (m.peers i).peer.key := by
      rw [Peer.bind, if_neg hnamed]
    rw [Mesh.isSelfPeer, heq]
    dsimp only
    rw [hnodeId, hkey]
    simp only [Mesh.isSelfPeer, Bool.or_eq_true, decide_eq_true_eq] at hself
    simp only [Bool.or_eq_true, decide_eq_true_eq, Option.some.injEq]
    constructor
    · rintro ((hurl | htarget) | hkey)
      · exact hself.mp (Or.inl (Or.inl hurl))
      · exact htarget
      · exact hself.mp (Or.inr hkey)
    · exact fun htarget => Or.inl (Or.inr htarget)

theorem Ready.later {net : Network} (h : Ready net m) (hlater : Later m m') : Ready net m' where
  named := by
    intro i
    rw [hlater.target]
    exact h.named i
  scopes := hlater.shards ▸ h.scopes
  self := by
    intro reader url hurl t ht i hi
    rw [hlater.urls] at hurl
    rw [hlater.shards] at ht
    exact hlater.isSelfPeer (h.named i) (h.self reader url hurl t ht i hi)
  foreign := by
    intro reader hurl t ht i hi
    rw [hlater.urls] at hurl
    rw [hlater.shards] at ht
    rw [hlater.target]
    exact h.foreign reader hurl t ht i hi

/-- The peers of a shard that are asked are those of other nodes. -/
theorem Ready.mem_syncPeersForTarget {net : Network} (h : Ready net m) {t : JsString × List ℕ}
    (ht : t ∈ m.shards reader) (i : ℕ) :
    i ∈ m.syncPeersForTarget reader t.2 ↔ i ∈ t.2 ∧ (m.peers i).target ≠ reader := by
  rw [syncPeersForTarget]
  cases hurl : truthyText (m.urls reader) with
  | none => exact ⟨fun hi => ⟨hi, h.foreign reader hurl t ht i hi⟩, And.left⟩
  | some url =>
      rw [List.mem_filter]
      refine and_congr_right fun hi => ?_
      rw [Bool.not_eq_true', ← Bool.not_eq_true, h.self reader url hurl t ht i hi]

theorem mem_shards_of_owned {t : JsString × List ℕ} (ht : t ∈ m.ownedShardTargets reader) :
    t ∈ m.shards reader := by
  rw [ownedShardTargets] at ht
  split at ht
  · exact ht
  · exact List.mem_of_mem_filter ht

theorem Ready.ownedShardTargets_later {net : Network} (h : Ready net m) (hlater : Later m m')
    (reader : JsString) : m'.ownedShardTargets reader = m.ownedShardTargets reader := by
  rw [ownedShardTargets, ownedShardTargets, hlater.urls, hlater.shards]
  cases hurl : truthyText (m.urls reader) with
  | none => rfl
  | some url =>
      refine List.filter_congr fun t ht => ?_
      rw [Bool.eq_iff_iff, List.any_eq_true, List.any_eq_true]
      refine exists_congr fun i => and_congr_right fun hi => ?_
      have hself := h.self reader url hurl t ht i hi
      rw [hlater.isSelfPeer (h.named i) hself, hself, hlater.target]

end Mesh

/-! ## Passes as runs of the system -/

namespace System

variable {net : Network} {s s' s'' : System} {m : Mesh} {reader : JsString}

/-- Nodes pull, and nothing is written. -/
structure Passed (net : Network) (s s' : System) : Prop where
  run : ∃ events, Runs (step net) s events s' ∧ ∀ e ∈ events, e.pulling = true
  history : ∀ id, (s'.nodes id).history = (s.nodes id).history
  discarded : ∀ id, (s'.nodes id).discarded = (s.nodes id).discarded

theorem Passed.refl (s : System) : Passed net s s :=
  ⟨⟨[], .nil s, by simp⟩, fun _ => rfl, fun _ => rfl⟩

theorem Passed.trans (h : Passed net s s') (h' : Passed net s' s'') : Passed net s s'' where
  run := by
    rcases h.run with ⟨events, hrun, hevents⟩
    rcases h'.run with ⟨events', hrun', hevents'⟩
    exact ⟨events ++ events', hrun.append hrun', fun e he =>
      (List.mem_append.mp he).elim (hevents e) (hevents' e)⟩
  history := fun id => (h'.history id).trans (h.history id)
  discarded := fun id => (h'.discarded id).trans (h.discarded id)

theorem Passed.arrived (h : Passed net s s') {id : JsString} {op : Op} (hop : op ∈ s.arrived id) :
    op ∈ s'.arrived id := by
  rcases h.run with ⟨events, hrun, -⟩
  exact hrun.invariant (P := fun s => op ∈ s.arrived id)
    (fun _ _ _ hbefore hstep => arrived_step hstep hbefore) hop

theorem Passed.wanted (h : Passed net s s') {id : JsString} {scope : Option Scope} {op : Op} :
    (s'.nodes id).Wanted scope op ↔ (s.nodes id).Wanted scope op :=
  ⟨Traced.Wanted.congr (h.history id) (h.discarded id),
    Traced.Wanted.congr (h.history id).symm (h.discarded id).symm⟩

/-- What a pass needs of the system: sound cursors, nodes that go by their ids, and enough fuel. -/
structure Fit (net : Network) (fuel : ℕ) (s : System) : Prop where
  sound : s.Sound net
  id : ∀ id, (s.node id).id = id
  fuel : ∀ id, (s.nodes id).history.length < fuel

theorem Fit.passed {fuel : ℕ} (h : Fit net fuel s) (hpassed : Passed net s s') :
    Fit net fuel s' where
  sound := by
    rcases hpassed.run with ⟨events, hrun, -⟩
    exact hrun.invariant (fun _ _ _ hbefore hstep => hbefore.step hstep) h.sound
  id := by
    rcases hpassed.run with ⟨events, hrun, -⟩
    exact hrun.invariant (P := fun s => ∀ id, (s.node id).id = id)
      (fun _ _ _ hid hstep id => (step_id hstep id).trans (hid id)) h.id
  fuel := by
    intro id
    rw [hpassed.history]
    exact h.fuel id

/-- The nodes of the system, and peers that it knows. -/
structure Mirrors (net : Network) (s : System) (m : Mesh) : Prop where
  nodes : ∀ id, m.nodes id = (s.nodes id).replica
  key : ∀ i, (m.peers i).peer.peerKey ∈ net.peerKeys
  nodeAt : ∀ i, net.nodeAt (m.peers i).peer.peerKey = (m.peers i).target

variable {fuel : ℕ}

/-- One peer: where it does not fail, its operations have arrived. -/
theorem Mirrors.syncPeer (h : Mirrors net s m) (hfit : Fit net fuel s) (hready : m.Ready net)
    (limit : ℕ) {scope : Option Scope} (hscope : scope ∈ net.scopes) {i : ℕ}
    (hne : (m.peers i).target ≠ reader) :
    ∃ m' result s', m.syncPeer limit fuel reader scope i = some (m', result) ∧
      Passed net s s' ∧ Mirrors net s' m' ∧ m.Later m' ∧
      ∀ total, result = .ok total → ∀ op, (s.nodes (m.peers i).target).Wanted scope op →
        op ∈ s'.arrived reader := by
  have hnode : ∀ id, (m.nodes id).node = s.node id := by
    intro id
    rw [h.nodes, System.node]
  have hfollows : Follows net reader (m.peers i).target s
      ⟨(m.nodes reader).node, m.nodes (m.peers i).target, (m.peers i).peer, 0⟩ := by
    refine ⟨(hnode _).symm, (h.nodes _).symm, ?_, ?_, h.key i, h.nodeAt i⟩
    · change (m.nodes reader).node.id = reader
      rw [hnode]
      exact hfit.id _
    · change (m.nodes (m.peers i).target).node.id = _
      rw [hnode]
      exact hfit.id _
  -- the log of the source bounds what is left to ask for
  have hfuel : (m.nodes (m.peers i).target).remaining
      (Syncing.after ⟨(m.nodes reader).node, m.nodes (m.peers i).target, (m.peers i).peer, 0⟩ scope)
      scope < fuel := by
    refine lt_of_le_of_lt ((List.length_filter_le _ _).trans ?_) (hfit.fuel (m.peers i).target)
    rw [hnode]
    exact (hfit.sound.kept _).log.length_le
  rcases hfollows.syncPeer hfit.sound hne (hready.named i) hscope limit hfuel with
    ⟨st', result, s', hresult, hsynced, hlast, hpeer, hcases⟩
  refine ⟨m.withSynced reader i st', result, s', by rw [Mesh.syncPeer, hresult]; rfl,
    ⟨hsynced.run, hsynced.history, hsynced.discarded⟩, ⟨?_, ?_, ?_⟩, ⟨rfl, rfl, ?_⟩, ?_⟩
  · -- a sync changes the reader and the source, and no other node
    intro id
    rw [Mesh.withSynced]
    dsimp only
    split_ifs with hreader hsource
    · rw [hreader, hsynced.rest, h.nodes, hlast.node]
    · rw [hsource, hlast.replica]
    · rw [hsynced.others id hreader hsource, h.nodes]
  · intro j
    change (Function.update m.peers i _ j).peer.peerKey ∈ net.peerKeys
    rw [Function.update_apply]
    split_ifs
    · exact hlast.key
    · exact h.key j
  · intro j
    change net.nodeAt (Function.update m.peers i _ j).peer.peerKey =
      (Function.update m.peers i _ j).target
    rw [Function.update_apply]
    split_ifs
    · exact hlast.nodeAt
    · exact h.nodeAt j
  · intro j
    change Function.update m.peers i _ j = _ ∨ Function.update m.peers i _ j = _
    rw [Function.update_apply]
    split_ifs with hj
    · rw [hj, hpeer]
      exact Or.inr rfl
    · exact Or.inl rfl
  · rintro total rfl op hwanted
    rcases hcases with ⟨herror, -⟩ | ⟨err, herror⟩ | ⟨-, hall⟩
    · cases herror
    · cases herror
    · exact hall op hwanted

/-- The peers of a shard. -/
theorem Mirrors.syncPeers (h : Mirrors net s m) (hfit : Fit net fuel s) (hready : m.Ready net)
    (limit : ℕ) {scope : Option Scope} (hscope : scope ∈ net.scopes) {peers : List ℕ}
    (hpeers : ∀ i ∈ peers, (m.peers i).target ≠ reader) :
    ∃ m' total failures s',
      m.syncPeers limit fuel reader scope peers = some (m', total, failures) ∧
      Passed net s s' ∧ Mirrors net s' m' ∧ m.Later m' ∧
      (failures = [] → ∀ i ∈ peers, ∀ op, (s.nodes (m.peers i).target).Wanted scope op →
        op ∈ s'.arrived reader) := by
  induction peers generalizing s m with
  | nil => exact ⟨m, 0, [], s, rfl, .refl s, h, .refl m, by simp⟩
  | cons i peers ih =>
      rcases h.syncPeer hfit hready limit hscope (hpeers i List.mem_cons_self) with
        ⟨m₁, result, s₁, hresult, hpassed, hmirrors, hlater, hall⟩
      rcases ih hmirrors (hfit.passed hpassed) (hready.later hlater) (fun j hj => by
        rw [hlater.target]
        exact hpeers j (List.mem_cons_of_mem _ hj)) with
        ⟨m', total, failures, s', hrest, hpassed', hmirrors', hlater', hall'⟩
      have hmore : failures = [] → ∀ j ∈ peers, ∀ op,
          (s.nodes (m.peers j).target).Wanted scope op → op ∈ s'.arrived reader := by
        intro hnone j hj op hwanted
        refine hall' hnone j hj op ?_
        rw [hlater.target]
        exact hpassed.wanted.mpr hwanted
      rw [Mesh.syncPeers, hresult]
      dsimp only [bind, Option.bind]
      rw [hrest]
      cases result with
      | error err =>
          refine ⟨m', total, _, s', rfl, hpassed.trans hpassed', hmirrors', hlater.trans hlater', ?_⟩
          intro hnone
          cases hnone
      | ok applied =>
          refine ⟨m', _, failures, s', rfl, hpassed.trans hpassed', hmirrors',
            hlater.trans hlater', ?_⟩
          intro hnone j hj op hwanted
          rcases List.mem_cons.mp hj with rfl | hrest
          · exact hpassed'.arrived (hall applied rfl op hwanted)
          · exact hmore hnone j hrest op hwanted

/-- The shards of a pass. -/
theorem Mirrors.syncTargets (h : Mirrors net s m) (hfit : Fit net fuel s) (hready : m.Ready net)
    (limit : ℕ) {targets : List (JsString × List ℕ)} (htargets : ∀ t ∈ targets, t ∈ m.shards reader) :
    ∃ m' total failures s',
      m.syncTargets limit fuel reader targets = some (m', total, failures) ∧
      Passed net s s' ∧ Mirrors net s' m' ∧ m.Later m' ∧
      (failures = [] → ∀ t ∈ targets, ∀ i ∈ t.2, (m.peers i).target ≠ reader → ∀ op,
        (s.nodes (m.peers i).target).Wanted (shardScope t.1) op → op ∈ s'.arrived reader) := by
  induction targets generalizing s m with
  | nil => exact ⟨m, 0, [], s, rfl, .refl s, h, .refl m, by simp⟩
  | cons t targets ih =>
      have ht := htargets t List.mem_cons_self
      rcases h.syncPeers hfit hready limit (hready.scopes reader t ht)
        (fun i hi => ((hready.mem_syncPeersForTarget ht i).mp hi).2) with
        ⟨m₁, applied, failures, s₁, hresult, hpassed, hmirrors, hlater, hall⟩
      rcases ih hmirrors (hfit.passed hpassed) (hready.later hlater) (fun u hu => by
        rw [hlater.shards]
        exact htargets u (List.mem_cons_of_mem _ hu)) with
        ⟨m', total, more, s', hrest, hpassed', hmirrors', hlater', hall'⟩
      refine ⟨m', applied + total, failures ++ more, s', ?_, hpassed.trans hpassed', hmirrors',
        hlater.trans hlater', ?_⟩
      · rw [Mesh.syncTargets, hresult]
        dsimp only [bind, Option.bind]
        rw [hrest]
      · intro hnone u hu i hi hne op hwanted
        rcases List.append_eq_nil_iff.mp hnone with ⟨hfailures, hmore⟩
        rcases List.mem_cons.mp hu with rfl | hu
        · exact hpassed'.arrived (hall hfailures i
            ((hready.mem_syncPeersForTarget ht i).mpr ⟨hi, hne⟩) op hwanted)
        · refine hall' hmore u hu i hi ?_ op ?_
          · rw [hlater.target]
            exact hne
          · rw [hlater.target]
            exact hpassed.wanted.mpr hwanted

/-- The passes: who made one without failures has everything that the peers of its shards had. -/
theorem Mirrors.syncPasses (h : Mirrors net s m) (hfit : Fit net fuel s) (hready : m.Ready net)
    (limit : ℕ) (readers : List JsString) :
    ∃ m' outcomes s', m.syncPasses limit fuel readers = some (m', outcomes) ∧
      outcomes.map Prod.fst = readers ∧ Passed net s s' ∧ Mirrors net s' m' ∧
      ∀ o ∈ outcomes, o.2 = [] → ∀ t ∈ m.ownedShardTargets o.1, ∀ i ∈ t.2,
        (m.peers i).target ≠ o.1 → ∀ op,
          (s.nodes (m.peers i).target).Wanted (shardScope t.1) op → op ∈ s'.arrived o.1 := by
  induction readers generalizing s m with
  | nil => exact ⟨m, [], s, rfl, rfl, .refl s, h, by simp⟩
  | cons reader readers ih =>
      have hshards : ∀ t ∈ m.ownedShardTargets reader, t ∈ m.shards reader :=
        fun t ht => Mesh.mem_shards_of_owned ht
      rcases h.syncTargets hfit hready limit hshards with
        ⟨m₁, total, failures, s₁, hresult, hpassed, hmirrors, hlater, hall⟩
      rcases ih hmirrors (hfit.passed hpassed) (hready.later hlater) with
        ⟨m', outcomes, s', hrest, hreaders, hpassed', hmirrors', hall'⟩
      refine ⟨m', (reader, failures) :: outcomes, s', ?_, by rw [List.map_cons, hreaders],
        hpassed.trans hpassed', hmirrors', ?_⟩
      · rw [Mesh.syncPasses, Mesh.syncAll, hresult]
        dsimp only [bind, Option.bind]
        rw [hrest]
      · intro o ho hnone t ht i hi hne op hwanted
        rcases List.mem_cons.mp ho with rfl | ho
        · exact hpassed'.arrived (hall hnone t ht i hi hne op hwanted)
        · refine hall' o ho hnone t ?_ i hi ?_ op ?_
          · rw [hready.ownedShardTargets_later hlater]
            exact ht
          · rw [hlater.target]
            exact hne
          · rw [hlater.target]
            exact hpassed.wanted.mpr hwanted

/-! ## Convergence -/

variable {vectorField : Option JsString}

/-- The shards that the node owns have peers for everything that other nodes have written. -/
def Covers (s : System) (m : Mesh) (reader : JsString) : Prop :=
  ∀ source, source ≠ reader → ∀ op ∈ (s.nodes source).history,
    ∃ t ∈ m.ownedShardTargets reader, ∃ i ∈ t.2, (m.peers i).target = source ∧
      (s.nodes source).Wanted (shardScope t.1) op

/-- Two nodes have written, and nobody has pulled. -/
def writesOfBoth : List SystemEvent :=
  [.replica (js "a") (.node (.write (js "d") (js "c") (.insert (fun _ => js "x") [none]))),
    .replica (js "b") (.node (.write (js "d") (js "c") (.insert (fun _ => js "y") [none])))]

def writtenByBoth : System :=
  writesOfBoth.foldl (fun s e => (s.step twoNodes e).getD s) (start plainConfig)

theorem runs_writtenByBoth : Runs (step twoNodes) (start plainConfig) writesOfBoth writtenByBoth :=
  .cons rfl (.cons rfl (.nil _))

/-- Each node is a peer of the other. -/
def meshOfBoth : Mesh where
  nodes := fun id => (writtenByBoth.nodes id).replica
  urls := fun _ => none
  shards := fun id =>
    if id = js "a" then [(defaultShard, [0])] else if id = js "b" then [(defaultShard, [1])] else []
  peers := fun i =>
    if i = 0 then ⟨none, ⟨js "b", none⟩, js "b"⟩ else ⟨none, ⟨js "a", none⟩, js "a"⟩

theorem writer_writtenByBoth {id : JsString} {op : Op}
    (hop : op ∈ (writtenByBoth.nodes id).history) : id = js "a" ∨ id = js "b" := by
  have hwriter : id ∈ [js "a", js "b"] := by
    refine writer_of_runs runs_writtenByBoth ?_ hop
    intro id e he
    simp only [writesOfBoth, List.mem_cons, SystemEvent.replica.injEq, reduceCtorEq, List.not_mem_nil,
      or_false, false_or] at he
    rcases he with ⟨rfl, -⟩ | ⟨rfl, -⟩ <;> simp
  simpa using hwriter

theorem clean_writtenByBoth : writtenByBoth.Clean := by
  rintro op ⟨id, hop⟩
  have hall : ∀ id ∈ [js "a", js "b"], ∀ op ∈ (writtenByBoth.nodes id).history,
      (op.db ≠ [] ∧ op.coll ≠ [] ∧ (0 : CodeUnit) ∉ op.db ∧ (0 : CodeUnit) ∉ op.coll) ∧
        op.id ≠ [] ∧ (Assoc.keys op.storedValue).Nodup := by decide +kernel
  rcases hall id (by simpa using writer_writtenByBoth hop) op hop with
    ⟨⟨hdb, hcoll, hdb', hcoll'⟩, hid, hnodup⟩
  exact ⟨⟨hdb, hcoll, hdb', hcoll'⟩, hid, hnodup⟩

theorem ready_meshOfBoth : meshOfBoth.Ready twoNodes where
  named := by
    intro i
    rw [meshOfBoth]
    dsimp only
    split_ifs <;> decide
  scopes := by
    intro reader t ht
    rw [meshOfBoth] at ht
    dsimp only at ht
    split_ifs at ht
    · rw [List.mem_singleton.mp ht]
      decide
    · rw [List.mem_singleton.mp ht]
      decide
    · cases ht
  self := by
    intro reader url hurl
    cases hurl
  foreign := by
    intro reader _ t ht i hi
    rw [meshOfBoth] at ht
    dsimp only at ht
    split_ifs at ht with ha hb
    · rw [List.mem_singleton.mp ht] at hi
      rw [List.mem_singleton.mp hi, ha]
      decide
    · rw [List.mem_singleton.mp ht] at hi
      rw [List.mem_singleton.mp hi, hb]
      decide
    · cases ht

theorem mirrors_meshOfBoth : Mirrors twoNodes writtenByBoth meshOfBoth where
  nodes := fun _ => rfl
  key := by
    intro i
    rw [meshOfBoth]
    dsimp only
    split_ifs <;> decide
  nodeAt := by
    intro i
    rw [meshOfBoth]
    dsimp only
    split_ifs <;> rfl

theorem covers_meshOfBoth {reader : JsString} (hreader : reader = js "a" ∨ reader = js "b") :
    writtenByBoth.Covers meshOfBoth reader := by
  intro source hne op hop
  rcases writer_writtenByBoth hop with rfl | rfl <;> rcases hreader with rfl | rfl
  · exact absurd rfl hne
  · exact ⟨(defaultShard, [1]), by decide, 1, by decide, rfl, hop, rfl, List.not_mem_nil⟩
  · exact ⟨(defaultShard, [0]), by decide, 0, by decide, rfl, hop, rfl, List.not_mem_nil⟩
  · exact absurd rfl hne

theorem length_writtenByBoth (id : JsString) : (writtenByBoth.nodes id).history.length < 2 := by
  by_cases hid : id = js "a" ∨ id = js "b"
  · have hall : ∀ id ∈ [js "a", js "b"], (writtenByBoth.nodes id).history.length < 2 := by
      decide +kernel
    exact hall id (by simpa using hid)
  · have hnone : (writtenByBoth.nodes id).history = [] :=
      List.eq_nil_iff_forall_not_mem.mpr fun op hop => hid (writer_writtenByBoth hop)
    rw [hnone]
    decide

end System
end ObjyDb
