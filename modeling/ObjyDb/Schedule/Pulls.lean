import ObjyDb.Lib.Assoc
import ObjyDb.Lib.Runs
import ObjyDb.Persist.Names
import ObjyDb.Query.Keys

/-!
# Pulls — the pull queue of the replication scheduler

A hint says that a peer has new operations of a shard; the scheduler pulls them.  There is one pull
of a peer and scope at a time: what is asked for meanwhile waits in the queue, and the pull that
ends wakes the queue up in a later turn.

* `Coherent.step` — what every event keeps
* `pulls_spec` — no request is forgotten
-/

namespace ObjyDb

open Js Persist

/-! ## Peers and keys -/

structure ReplicationPeer where
  url : Option JsString
  nodeId : Option JsString
  key : Option JsString

/-- A text that is there and not empty. -/
def truthyText (text : Option JsString) : Option JsString :=
  text.filter fun s => decide (s ≠ [])

/-- `peer.url || peer.nodeId || peer.key`, as a text. -/
def peerKey (peer : ReplicationPeer) : JsString :=
  match truthyText peer.url, truthyText peer.nodeId with
  | some url, _ => url
  | none, some nodeId => nodeId
  | none, none => peer.key.getD (js "undefined")

def pullScopeKey : Option Scope → JsString
  | some scope => scope.database ++ unit '/' :: (scope.collection ++ unit '/' :: scope.shard)
  | none => js "*"

def pullKey (peer : ReplicationPeer) (scope : Option Scope) : JsString :=
  peerKey peer ++ unit '|' :: pullScopeKey scope

/-- `String(url).replace(/\/+$/, "")`, or `null` -/
def normalizeUrl (url : Option JsString) : Option JsString :=
  (truthyText url).map fun text => (text.reverse.dropWhile fun c => decide (c = unit '/')).reverse

/-- What the scheduler asks its node. -/
structure ReplicationNode where
  id : JsString
  url : Option JsString
  peersForShard : JsString → List ReplicationPeer
  ownsShard : JsString → Bool

def isSelfPeer (node : ReplicationNode) (peer : ReplicationPeer) : Bool :=
  ((truthyText peer.url).isSome && decide (normalizeUrl peer.url = node.url)) ||
    decide (peer.nodeId = some node.id) || decide (peer.key = some node.id)

/-- `node.syncScopeForShard(shard)` -/
def syncScopeForShard (shard : JsString) : Scope :=
  ⟨globalDatabase, globalCollection, shard⟩

/-! ## Hints -/

structure Hint where
  scopes : Option Json
  url : Option JsString
  node : Option JsString

/-- An error with its `status`. -/
structure HintError where
  message : JsString
  status : Nat

def scopeWithoutShard (index : Nat) : HintError :=
  ⟨js "scope at index " ++ (JsNumber.ofNat index).toText ++ js " must include shard", 400⟩

def scopesMissing : HintError :=
  ⟨js "body.scopes must be a non-empty array", 400⟩

/-- The shards of the scopes from an index on. -/
def hintShards : Nat → List Json → Except HintError (List JsString)
  | _, [] => .ok []
  | index, scope :: scopes =>
      match scope with
      | .obj fields =>
          match Assoc.get? fields (js "shard") with
          | some (.str shard) =>
              if shard = [] then .error (scopeWithoutShard index)
              else (hintShards (index + 1) scopes).map (shard :: ·)
          | _ => .error (scopeWithoutShard index)
      | _ => .error (scopeWithoutShard index)

/-- `normalizeHintScopes(scopes)`, of which a hint reads the shards. -/
def normalizeHintScopes : Option Json → Except HintError (List JsString)
  | some (.arr (scope :: scopes)) => hintShards 0 (scope :: scopes)
  | _ => .error scopesMissing

/-- `_peerForHint(shard, hint)` -/
def peerForHint (node : ReplicationNode) (shard : JsString) (hint : Hint) :
    Option ReplicationPeer :=
  (node.peersForShard shard).find? fun peer =>
    !isSelfPeer node peer &&
      (((truthyText hint.url).isSome && decide (normalizeUrl peer.url = normalizeUrl hint.url)) ||
        ((truthyText hint.node).isSome &&
          (decide (peer.nodeId = hint.node) || decide (peer.key = hint.node))))

/-! ## The queue -/

structure PullItem where
  peer : ReplicationPeer
  scope : Option Scope

inductive PullAction
  | enqueued (key : JsString)
  | started (key : JsString)

/-- The scheduler, as far as pulls go.  `running` are the pulls on their way, `pendingDrains` the
`setImmediate`s that have not fired, and `log` what was asked for and started, in order. -/
structure PullScheduler where
  enabled : Bool
  hintsEnabled : Bool
  pullQueue : List (JsString × PullItem)
  inflightPulls : List JsString
  hintsReceived : Nat
  hintScopesReceived : Nat
  pullSyncs : Nat
  running : List JsString
  pendingDrains : Nat
  log : List PullAction

namespace PullScheduler

def new (enabled hintsEnabled : Bool) : PullScheduler where
  enabled
  hintsEnabled
  pullQueue := []
  inflightPulls := []
  hintsReceived := 0
  hintScopesReceived := 0
  pullSyncs := 0
  running := []
  pendingDrains := 0
  log := []

/-- `_runPull(key, peer, scope)` up to its first `await`. -/
def startPull (s : PullScheduler) (key : JsString) : PullScheduler :=
  { s with
    pullQueue := Assoc.erase s.pullQueue key
    inflightPulls := setAdd s.inflightPulls key
    running := s.running ++ [key]
    log := s.log ++ [.started key] }

/-- The loop of `_drainPullQueue` over the entries of the queue. -/
def drainEntries (s : PullScheduler) : List (JsString × PullItem) → PullScheduler
  | [] => s
  | (key, _) :: entries =>
      if key ∈ s.inflightPulls then s.drainEntries entries
      else (s.startPull key).drainEntries entries

/-- `_drainPullQueue()` -/
def drainPullQueue (s : PullScheduler) : PullScheduler :=
  s.drainEntries s.pullQueue

/-- `enqueuePull(peer, scope)` -/
def enqueuePull (s : PullScheduler) (peer : ReplicationPeer) (scope : Option Scope) :
    PullScheduler :=
  let key := pullKey peer scope
  drainPullQueue
    { s with
      pullQueue := Assoc.set s.pullQueue key ⟨peer, scope⟩
      log := s.log ++ [.enqueued key] }

/-- The loop of `receiveHint` over the shards. -/
def receiveShards (node : ReplicationNode) (hint : Hint) :
    List JsString → PullScheduler × Nat × Bool → PullScheduler × Nat × Bool
  | [], acc => acc
  | shard :: shards, (s, accepted, matchedPeer) =>
      match peerForHint node shard hint with
      | none => receiveShards node hint shards (s, accepted, matchedPeer)
      | some peer =>
          if node.ownsShard shard then
            receiveShards node hint shards
              (s.enqueuePull peer (some (syncScopeForShard shard)), accepted + 1, true)
          else receiveShards node hint shards (s, accepted, true)

/-- `receiveHint(hint)`: the number of accepted scopes, and whether some peer matched. -/
def receiveHint (s : PullScheduler) (node : ReplicationNode) (hint : Hint) :
    Except HintError (PullScheduler × Nat × Bool) :=
  if s.enabled && s.hintsEnabled then
    (normalizeHintScopes hint.scopes).map fun shards =>
      let (s, accepted, matchedPeer) := receiveShards node hint shards (s, 0, false)
      ({ s with
          hintsReceived := s.hintsReceived + 1
          hintScopesReceived := s.hintScopesReceived + accepted }, accepted, matchedPeer)
  else .ok (s, 0, false)

/-- `_runPull(key, peer, scope)` when the pull has ended, with or without an error. -/
def endPull (s : PullScheduler) (key : JsString) (ok : Bool) : PullScheduler :=
  { s with
    inflightPulls := s.inflightPulls.filter fun k => k ≠ key
    pullSyncs := if ok then s.pullSyncs + 1 else s.pullSyncs
    running := s.running.erase key
    pendingDrains := if (Assoc.get? s.pullQueue key).isSome then s.pendingDrains + 1
      else s.pendingDrains }

inductive Event
  | receiveHint (node : ReplicationNode) (hint : Hint)
  | enqueuePull (peer : ReplicationPeer) (scope : Option Scope)
  | endPull (key : JsString) (ok : Bool)
  | drain

/-- A refused hint changes nothing; a pull ends that is running, and a drain was asked for. -/
def step (s : PullScheduler) : Event → Option PullScheduler
  | .receiveHint node hint =>
      match s.receiveHint node hint with
      | .ok (s, _) => some s
      | .error _ => some s
  | .enqueuePull peer scope => some (s.enqueuePull peer scope)
  | .endPull key ok => if key ∈ s.running then some (s.endPull key ok) else none
  | .drain =>
      if s.pendingDrains = 0 then none
      else some (drainPullQueue { s with pendingDrains := s.pendingDrains - 1 })

/-! ## What every event keeps -/

/-- Each request is followed by a start of its key, or the key waits. -/
def Covered (log : List PullAction) (waiting : List JsString) : Prop :=
  ∀ before after key, log = before ++ .enqueued key :: after →
    .started key ∈ after ∨ key ∈ waiting

/-- The scheduler at any moment, also between two turns of a drain. -/
structure Core (s : PullScheduler) : Prop where
  queued : (Assoc.keys s.pullQueue).Nodup
  single : s.running.Nodup
  inflight : ∀ key, key ∈ s.inflightPulls ↔ key ∈ s.running
  covered : Covered s.log (Assoc.keys s.pullQueue)

/-- The scheduler between two events: what waits will be woken up. -/
structure Coherent (s : PullScheduler) : Prop extends Core s where
  awake : ∀ key ∈ Assoc.keys s.pullQueue, key ∈ s.running ∨ 0 < s.pendingDrains

theorem Covered.snoc {log : List PullAction} {waiting waiting' : List JsString}
    (h : Covered log waiting) {action : PullAction}
    (hnew : ∀ key, action = .enqueued key → key ∈ waiting')
    (hold : ∀ key ∈ waiting, action = .started key ∨ key ∈ waiting') :
    Covered (log ++ [action]) waiting' := by
  intro before after key hlog
  rcases List.eq_nil_or_concat after with rfl | ⟨after, last, rfl⟩
  · -- the last action is the request itself
    rcases List.append_inj' hlog rfl with ⟨-, hlast⟩
    exact .inr (hnew key (List.singleton_inj.mp hlast))
  · rw [List.concat_eq_append, ← List.cons_append, ← List.append_assoc] at hlog
    rcases List.append_inj' hlog rfl with ⟨hinit, hlast⟩
    rcases h before after key hinit with hstarted | hwaiting
    · rw [List.concat_eq_append]
      exact .inl (List.mem_append_left _ hstarted)
    · rcases hold key hwaiting with hstarted | hwaiting
      · rw [List.concat_eq_append, ← hlast, hstarted]
        exact .inl (List.mem_append_right _ (List.mem_singleton_self _))
      · exact .inr hwaiting

theorem Covered.mono {log : List PullAction} {waiting waiting' : List JsString}
    (h : Covered log waiting) (hsub : ∀ key ∈ waiting, key ∈ waiting') : Covered log waiting' :=
  fun before after key hlog => (h before after key hlog).imp_right (hsub key)

variable {s : PullScheduler}

theorem Core.startPull (h : Core s) {key : JsString} (hkey : key ∉ s.inflightPulls) :
    Core (s.startPull key) := by
  refine ⟨?_, ?_, fun k => ?_, ?_⟩
  · exact h.queued.sublist (List.filter_sublist.map _)
  · refine List.nodup_append.mpr ⟨h.single, List.nodup_singleton _, ?_⟩
    rintro k hk k' hk' rfl
    rw [List.mem_singleton.mp hk'] at hk
    exact hkey ((h.inflight key).mpr hk)
  · rw [PullScheduler.startPull, mem_setAdd, List.mem_append, List.mem_singleton, h.inflight]
  · refine h.covered.snoc (fun _ heq => nomatch heq) fun k hk => ?_
    by_cases heq : key = k
    · exact .inl (congrArg _ heq)
    · refine .inr ?_
      change k ∈ Assoc.keys (Assoc.erase s.pullQueue key)
      rw [Assoc.keys_erase]
      exact List.mem_filter.mpr ⟨hk, decide_eq_true (Ne.symm heq)⟩

/-- What a drain goes over is running afterwards, and nothing is added to the queue. -/
theorem Core.drainEntries {entries : List (JsString × PullItem)} (h : Core s) :
    Core (s.drainEntries entries) ∧
      (∀ key ∈ Assoc.keys (s.drainEntries entries).pullQueue, key ∈ Assoc.keys s.pullQueue) ∧
      (∀ key, key ∈ s.running ∨ key ∈ Assoc.keys entries →
        key ∈ (s.drainEntries entries).running) := by
  induction entries generalizing s with
  | nil => exact ⟨h, fun _ hkey => hkey, fun _ hkey => hkey.resolve_right List.not_mem_nil⟩
  | cons entry entries ih =>
      rcases entry with ⟨key, item⟩
      rw [PullScheduler.drainEntries]
      split_ifs with hkey
      · rcases ih h with ⟨hcore, hqueue, hrunning⟩
        refine ⟨hcore, hqueue, fun k hk => hrunning k ?_⟩
        rcases hk with hk | hk
        · exact .inl hk
        · rcases List.mem_cons.mp hk with rfl | hk
          · exact .inl ((h.inflight _).mp hkey)
          · exact .inr hk
      · rcases ih (h.startPull hkey) with ⟨hcore, hqueue, hrunning⟩
        refine ⟨hcore, fun k hk => ?_, fun k hk => hrunning k ?_⟩
        · exact (List.filter_sublist.map _).subset (hqueue k hk)
        · rcases hk with hk | hk
          · exact .inl (List.mem_append_left _ hk)
          · rcases List.mem_cons.mp hk with rfl | hk
            · exact .inl (List.mem_append_right _ (List.mem_singleton_self _))
            · exact .inr hk

/-- After a drain every key that waits is being pulled. -/
theorem Core.drainPullQueue (h : Core s) : Core s.drainPullQueue ∧
    ∀ key ∈ Assoc.keys s.drainPullQueue.pullQueue, key ∈ s.drainPullQueue.running := by
  rcases @Core.drainEntries s s.pullQueue h with ⟨hcore, hqueue, hrunning⟩
  exact ⟨hcore, fun key hkey => hrunning key (.inr (hqueue key hkey))⟩

theorem Core.coherent_drain (h : Core s) : Coherent s.drainPullQueue :=
  ⟨h.drainPullQueue.1, fun key hkey => .inl (h.drainPullQueue.2 key hkey)⟩

theorem Coherent.enqueuePull (h : Coherent s) (peer : ReplicationPeer) (scope : Option Scope) :
    Coherent (s.enqueuePull peer scope) := by
  have hmem : ∀ key, key ∈ Assoc.keys (Assoc.set s.pullQueue (pullKey peer scope) ⟨peer, scope⟩) ↔
      key ∈ Assoc.keys s.pullQueue ∨ key = pullKey peer scope := by
    intro key
    rw [Assoc.keys_set]
    split_ifs with hold
    · constructor
      · exact Or.inl
      · rintro (hkey | rfl)
        · exact hkey
        · exact hold
    · rw [List.mem_append, List.mem_singleton]
  refine Core.coherent_drain ⟨Assoc.nodup_keys_set _ _ h.queued, h.single, h.inflight, ?_⟩
  refine h.covered.snoc (fun key heq => ?_) fun key hkey => .inr ((hmem key).mpr (.inl hkey))
  cases heq
  exact (hmem _).mpr (.inr rfl)

theorem Coherent.receiveShards {node : ReplicationNode} {hint : Hint} {shards : List JsString}
    {accepted : Nat} {matchedPeer : Bool} (h : Coherent s) :
    Coherent (receiveShards node hint shards (s, accepted, matchedPeer)).1 := by
  induction shards generalizing s accepted matchedPeer with
  | nil => exact h
  | cons shard shards ih =>
      rw [PullScheduler.receiveShards]
      cases peerForHint node shard hint with
      | none => exact ih h
      | some peer =>
          dsimp only
          split_ifs
          · exact ih (h.enqueuePull peer _)
          · exact ih h

theorem Coherent.receiveHint {node : ReplicationNode} {hint : Hint} {s' : PullScheduler}
    {answer : Nat × Bool} (h : Coherent s) (heq : s.receiveHint node hint = .ok (s', answer)) :
    Coherent s' := by
  unfold PullScheduler.receiveHint at heq
  split_ifs at heq
  · cases hshards : normalizeHintScopes hint.scopes with
    | error err =>
        rw [hshards] at heq
        cases heq
    | ok shards =>
        rw [hshards] at heq
        cases heq
        have hloop := @Coherent.receiveShards s node hint shards 0 false h
        exact ⟨⟨hloop.queued, hloop.single, hloop.inflight, hloop.covered⟩, hloop.awake⟩
  · cases heq
    exact h

theorem Coherent.endPull {key : JsString} (h : Coherent s) (ok : Bool) :
    Coherent (s.endPull key ok) := by
  refine ⟨⟨h.queued, h.single.erase key, fun k => ?_, h.covered⟩, fun k hk => ?_⟩
  · change k ∈ s.inflightPulls.filter _ ↔ k ∈ s.running.erase key
    rw [List.mem_filter, decide_eq_true_iff, h.single.mem_erase_iff, h.inflight, and_comm]
  · change k ∈ s.running.erase key ∨ 0 < if _ then _ else _
    by_cases heq : k = key
    · -- the key waits, so a drain is asked for
      subst heq
      have hqueued : (Assoc.get? s.pullQueue k).isSome = true := Assoc.get?_isSome_iff.mpr hk
      rw [if_pos hqueued]
      exact .inr (Nat.succ_pos _)
    · rcases h.awake k hk with hrunning | hpending
      · exact .inl (h.single.mem_erase_iff.mpr ⟨heq, hrunning⟩)
      · refine .inr ?_
        split_ifs
        · exact Nat.succ_pos _
        · exact hpending

theorem Coherent.step (h : Coherent s) {event : Event} {s' : PullScheduler}
    (hstep : s.step event = some s') : Coherent s' := by
  cases event with
  | receiveHint node hint =>
      rw [PullScheduler.step] at hstep
      split at hstep
      · rename_i heq
        cases hstep
        exact h.receiveHint heq
      · cases hstep
        exact h
  | enqueuePull peer scope =>
      cases hstep
      exact h.enqueuePull peer scope
  | endPull key ok =>
      rw [PullScheduler.step] at hstep
      split_ifs at hstep
      cases hstep
      exact h.endPull ok
  | drain =>
      rw [PullScheduler.step] at hstep
      split_ifs at hstep
      cases hstep
      exact Core.coherent_drain ⟨h.queued, h.single, h.inflight, h.covered⟩

/-! ## The requests of a run -/

/-- The pulls that a hint is accepted for. -/
def acceptedPulls (node : ReplicationNode) (hint : Hint) (shards : List JsString) :
    List (ReplicationPeer × Scope) :=
  shards.filterMap fun shard =>
    (peerForHint node shard hint).bind fun peer =>
      if node.ownsShard shard then some (peer, syncScopeForShard shard) else none

/-- The keys that an event asks for. -/
def requested (enabled hintsEnabled : Bool) : Event → List JsString
  | .receiveHint node hint =>
      if enabled && hintsEnabled then
        match normalizeHintScopes hint.scopes with
        | .ok shards => (acceptedPulls node hint shards).map fun pull => pullKey pull.1 (some pull.2)
        | .error _ => []
      else []
  | .enqueuePull peer scope => [pullKey peer scope]
  | _ => []

/-- The keys asked for, in the order of the log. -/
def enqueuedKeys (log : List PullAction) : List JsString :=
  log.filterMap fun action => match action with
    | .enqueued key => some key
    | .started _ => none

theorem drainEntries_fields (s : PullScheduler) (entries : List (JsString × PullItem)) :
    enqueuedKeys (s.drainEntries entries).log = enqueuedKeys s.log ∧
      (s.drainEntries entries).enabled = s.enabled ∧
      (s.drainEntries entries).hintsEnabled = s.hintsEnabled := by
  induction entries generalizing s with
  | nil => exact ⟨rfl, rfl, rfl⟩
  | cons entry entries ih =>
      rcases entry with ⟨key, item⟩
      rw [PullScheduler.drainEntries]
      split_ifs
      · exact ih s
      · rcases ih (s.startPull key) with ⟨hlog, henabled, hhints⟩
        refine ⟨hlog.trans ?_, henabled, hhints⟩
        simp [enqueuedKeys, PullScheduler.startPull, List.filterMap_append]

theorem enqueuePull_fields (s : PullScheduler) (peer : ReplicationPeer) (scope : Option Scope) :
    enqueuedKeys (s.enqueuePull peer scope).log = enqueuedKeys s.log ++ [pullKey peer scope] ∧
      (s.enqueuePull peer scope).enabled = s.enabled ∧
      (s.enqueuePull peer scope).hintsEnabled = s.hintsEnabled := by
  rcases drainEntries_fields _ _ with ⟨hlog, henabled, hhints⟩
  refine ⟨Eq.trans hlog ?_, henabled, hhints⟩
  simp [enqueuedKeys, List.filterMap_append]

/-- A hint asks for the pulls it is accepted for, as many as it says. -/
theorem receiveShards_fields (node : ReplicationNode) (hint : Hint) (shards : List JsString)
    (s : PullScheduler) (accepted : Nat) (matchedPeer : Bool) :
    enqueuedKeys (receiveShards node hint shards (s, accepted, matchedPeer)).1.log =
        enqueuedKeys s.log ++
          (acceptedPulls node hint shards).map (fun pull => pullKey pull.1 (some pull.2)) ∧
      (receiveShards node hint shards (s, accepted, matchedPeer)).2.1 =
        accepted + (acceptedPulls node hint shards).length ∧
      (receiveShards node hint shards (s, accepted, matchedPeer)).1.enabled = s.enabled ∧
      (receiveShards node hint shards (s, accepted, matchedPeer)).1.hintsEnabled =
        s.hintsEnabled := by
  induction shards generalizing s accepted matchedPeer with
  | nil => exact ⟨(List.append_nil _).symm, rfl, rfl, rfl⟩
  | cons shard shards ih =>
      rw [PullScheduler.receiveShards, acceptedPulls, List.filterMap_cons]
      cases peerForHint node shard hint with
      | none => exact ih s accepted matchedPeer
      | some peer =>
          dsimp only [Option.bind_some]
          split_ifs
          · rcases enqueuePull_fields s peer (some (syncScopeForShard shard)) with
              ⟨hlog, henabled, hhints⟩
            rcases ih (s.enqueuePull peer (some (syncScopeForShard shard))) (accepted + 1) true
              with ⟨hlog', haccepted, henabled', hhints'⟩
            refine ⟨?_, ?_, henabled'.trans henabled, hhints'.trans hhints⟩
            · rw [hlog', hlog, List.append_assoc]
              rfl
            · rw [haccepted, List.length_cons, Nat.add_assoc, Nat.add_comm 1]
              rfl
          · exact ih s accepted true

/-- An event adds the keys it asks for to the log. -/
theorem step_fields {event : Event} {s s' : PullScheduler} (hstep : s.step event = some s') :
    enqueuedKeys s'.log =
        enqueuedKeys s.log ++ requested s.enabled s.hintsEnabled event ∧
      s'.enabled = s.enabled ∧ s'.hintsEnabled = s.hintsEnabled := by
  cases event with
  | receiveHint node hint =>
      rw [PullScheduler.step, PullScheduler.receiveHint] at hstep
      rw [requested]
      cases henabled : s.enabled && s.hintsEnabled with
      | false =>
          rw [henabled] at hstep
          cases hstep
          exact ⟨(List.append_nil _).symm, rfl, rfl⟩
      | true =>
          rw [henabled] at hstep
          cases hshards : normalizeHintScopes hint.scopes with
          | error err =>
              rw [hshards] at hstep
              cases hstep
              exact ⟨(List.append_nil _).symm, rfl, rfl⟩
          | ok shards =>
              rw [hshards] at hstep
              cases hstep
              rcases receiveShards_fields node hint shards s 0 false with
                ⟨hlog, -, hfirst, hsecond⟩
              exact ⟨hlog, hfirst, hsecond⟩
  | enqueuePull peer scope =>
      cases hstep
      exact enqueuePull_fields s peer scope
  | endPull key ok =>
      rw [PullScheduler.step] at hstep
      split_ifs at hstep
      cases hstep
      exact ⟨(List.append_nil _).symm, rfl, rfl⟩
  | drain =>
      rw [PullScheduler.step] at hstep
      split_ifs at hstep
      cases hstep
      rcases drainEntries_fields { s with pendingDrains := s.pendingDrains - 1 } s.pullQueue with
        ⟨hlog, henabled, hhints⟩
      exact ⟨hlog.trans (List.append_nil _).symm, henabled, hhints⟩

theorem coherent_new (enabled hintsEnabled : Bool) : Coherent (new enabled hintsEnabled) where
  queued := List.nodup_nil
  single := List.nodup_nil
  inflight := fun _ => Iff.rfl
  covered := fun before after key hlog => by
    have hmem : PullAction.enqueued key ∈ (new enabled hintsEnabled).log := by
      rw [hlog]
      exact List.mem_append_right before List.mem_cons_self
    exact absurd hmem List.not_mem_nil
  awake := fun _ hkey => nomatch hkey

/-- Over any order of events: a key is pulled once at a time; and each key asked for, by an accepted
hint or otherwise, was started since, or waits while a pull of it runs or a drain is on its way. -/
theorem pulls_spec {enabled hintsEnabled : Bool} {events : List Event} {s : PullScheduler}
    (hruns : Runs step (new enabled hintsEnabled) events s) :
    s.running.Nodup ∧ (∀ key, key ∈ s.inflightPulls ↔ key ∈ s.running) ∧
    enqueuedKeys s.log = events.flatMap (requested enabled hintsEnabled) ∧
    ∀ before after key, s.log = before ++ .enqueued key :: after →
      .started key ∈ after ∨
        (key ∈ Assoc.keys s.pullQueue ∧ (key ∈ s.running ∨ 0 < s.pendingDrains)) := by
  have hcoherent : Coherent s :=
    hruns.invariant (P := Coherent) (fun _ _ _ h hstep => h.step hstep) (coherent_new _ _)
  have hlog : enqueuedKeys s.log = ([] ++ events).flatMap (requested enabled hintsEnabled) ∧
      s.enabled = enabled ∧ s.hintsEnabled = hintsEnabled := by
    have hinit : enqueuedKeys (new enabled hintsEnabled).log =
        [].flatMap (requested enabled hintsEnabled) ∧
        (new enabled hintsEnabled).enabled = enabled ∧
        (new enabled hintsEnabled).hintsEnabled = hintsEnabled := ⟨rfl, rfl, rfl⟩
    refine hruns.history (P := fun events s =>
      enqueuedKeys s.log = events.flatMap (requested enabled hintsEnabled) ∧
        s.enabled = enabled ∧ s.hintsEnabled = hintsEnabled) ?_ hinit
    rintro before t event t' ⟨hlog, rfl, rfl⟩ hstep
    rcases step_fields hstep with ⟨hlog', henabled, hhints⟩
    refine ⟨?_, henabled, hhints⟩
    rw [hlog', hlog, List.flatMap_append, List.flatMap_singleton]
  refine ⟨hcoherent.single, hcoherent.inflight, hlog.1, fun before after key hsplit => ?_⟩
  -- a key that waits is woken by the pull that runs for it or by a drain that is due
  rcases hcoherent.covered before after key hsplit with hstarted | hwaiting
  · exact .inl hstarted
  · exact .inr ⟨hwaiting, hcoherent.awake key hwaiting⟩

/-- A second request while the first is being pulled is pulled after it. -/
theorem pulls_spec_twice : ∃ s : PullScheduler,
    Runs step (new true true)
      [.enqueuePull ⟨some (js "http://b"), none, none⟩ none,
        .enqueuePull ⟨some (js "http://b"), none, none⟩ none,
        .endPull (js "http://b|*") false, .drain] s ∧
      s.running.Nodup ∧ s.running = [js "http://b|*"] := by
  have hruns : Runs step (new true true)
      [.enqueuePull ⟨some (js "http://b"), none, none⟩ none,
        .enqueuePull ⟨some (js "http://b"), none, none⟩ none,
        .endPull (js "http://b|*") false, .drain] _ :=
    .cons rfl (.cons rfl (.cons rfl (.cons rfl (.nil _))))
  exact ⟨_, hruns, (pulls_spec hruns).1, rfl⟩

end PullScheduler

end ObjyDb
