import ObjyDb.Node.Replication

/-!
# SyncPeer — a node that catches up

`syncPeer` asks a peer again and again until it has seen the peer's last operation, and
acknowledges what it has after each answer, so the peer may cut its log in the meantime.  While the
peer logs nothing new the loop comes to an end, is never refused because of its own
acknowledgements, and leaves the node with every operation of the peer.

- `syncRound`, `syncPeer`
- `syncPeer_returns`: it comes to an end
- `System.syncPeer_brings_all`: the loop is a run of the system, and what it leaves behind
-/

namespace ObjyDb

open Js Persist

/-! ## The loop -/

/-- A peer of `localPeer`, or one that answers with JSON. -/
structure Peer where
  key : JsString
  nodeId : Option JsString

namespace Peer

/-- `_peerKey(peer)` -/
def peerKey (peer : Peer) : JsString :=
  peer.nodeId.getD peer.key

/-- `_bindPeer(peer, nodeId, previousKey)`: what the peer remembers. -/
def bind (peer : Peer) (nodeId : JsString) : Peer :=
  if nodeId = [] then peer else { peer with nodeId := some nodeId }

theorem bind_bind (peer : Peer) (nodeId : JsString) :
    (peer.bind nodeId).bind nodeId = peer.bind nodeId := by
  rw [bind, bind]
  split_ifs <;> rfl

end Peer

inductive SyncError
  /-- `replication log truncated and durable catch-up did not advance`, without a handler -/
  | logTruncated
  | apply (err : NodeError)

/-- The node, its peer, and how many operations were applied so far. -/
structure Syncing where
  node : CRDTNode
  source : Replica
  peer : Peer
  total : ℕ

/-- `this.lastSeen.get(cursorKey) || 0` -/
def Syncing.after (st : Syncing) (scope : Option Scope) : ℕ :=
  st.node.seen (peerCursorKey st.peer.peerKey scope)

/-- One round of `syncPeer(peer, scope)`: what it returns, or nothing where it goes on. -/
def syncRound (limit : ℕ) (scope : Option Scope) (st : Syncing) :
    Syncing × Option (Except SyncError ℕ) :=
  let key := st.peer.peerKey
  let after := st.after scope
  let remoteId := st.source.node.id
  let peer := st.peer.bind remoteId
  if st.source.needsSnapshot after scope then
    ({ st with node := st.node.bindPeer remoteId key, peer }, some (.error .logTruncated))
  else if remoteId = [] ∨ remoteId = st.node.id then (st, some (.ok st.total))
  else
    let ops := st.source.opsAfter after limit scope
    let lastSeq := st.source.node.seq
    let remoteKey := peerCursorKey remoteId scope
    match (st.node.bindPeer remoteId key).applyRemote ops remoteKey with
    | (n, .error err) => ({ st with node := n, peer }, some (.error (.apply err)))
    | (n, .ok applied) =>
        let seen := (ops.getLast?.map Op.seq).getD (if lastSeq = 0 then after else lastSeq)
        let next : Syncing := ⟨n.advance remoteKey seen,
          (st.source.receiveAck n.id (some (seen : ℚ)) scope).1, peer, st.total + applied⟩
        if ops = [] ∨ lastSeq ≤ seen then (next, some (.ok next.total)) else (next, none)

/-- `syncPeer(peer, scope)`, for as many rounds as there is fuel. -/
def syncPeer (limit : ℕ) (scope : Option Scope) : ℕ → Syncing → Option (Syncing × Except SyncError ℕ)
  | 0, _ => none
  | fuel + 1, st =>
      match syncRound limit scope st with
      | (st, some result) => some (st, result)
      | (st, none) => syncPeer limit scope fuel st

/-! ## Acknowledgements -/

namespace Replica

theorem watermark_concat (acks : List (JsString × Option ℚ)) (entry : JsString × Option ℚ) :
    watermark (acks ++ [entry]) =
      (match watermark acks, entry.2 with
        | watermark, none => watermark
        | none, some ack => some ack
        | some lowest, some ack => if ack < lowest then some ack else some lowest) := by
  rw [watermark, List.foldl_append]
  rfl

/-- The watermark is not above an acknowledgement. -/
theorem watermark_le {acks : List (JsString × Option ℚ)} {key : JsString} {ack : ℚ}
    (h : (key, some ack) ∈ acks) : ∃ lowest, watermark acks = some lowest ∧ lowest ≤ ack := by
  induction acks using List.reverseRecOn with
  | nil => cases h
  | append_singleton acks entry ih =>
      rw [watermark_concat]
      rcases List.mem_append.mp h with hold | hnew
      · rcases ih hold with ⟨lowest, hlowest, hle⟩
        rw [hlowest]
        cases entry.2 with
        | none => exact ⟨lowest, rfl, hle⟩
        | some newest =>
            dsimp only
            split_ifs with hlt
            · exact ⟨newest, rfl, hlt.le.trans hle⟩
            · exact ⟨lowest, rfl, hle⟩
      · rw [← List.mem_singleton.mp hnew]
        cases watermark acks with
        | none => exact ⟨ack, rfl, le_rfl⟩
        | some lowest =>
            dsimp only
            split_ifs with hlt
            · exact ⟨ack, rfl, le_rfl⟩
            · exact ⟨lowest, rfl, not_lt.mp hlt⟩

/-- An acknowledgement cuts nothing behind itself. -/
theorem receiveAck_cases (r : Replica) (peerNodeId : JsString) (seen : ℕ) (scope : Option Scope) :
    ∃ acks, (r.receiveAck peerNodeId (some (seen : ℚ)) scope).1 = { r with acks } ∨
      ∃ cut : ℚ, cut ≤ seen ∧ (r.receiveAck peerNodeId (some (seen : ℚ)) scope).1 =
        { ({ r with acks } : Replica).keepOps (fun op => decide (cut < op.seq)) with
          trimmed := cut } := by
  refine ⟨Assoc.set r.acks (peerCursorKey peerNodeId scope) (some (min (seen : ℚ) r.node.seq)), ?_⟩
  rcases watermark_le (Assoc.mem_of_get?_eq_some
    (by rw [Assoc.get?_set, if_pos rfl] :
      Assoc.get? (Assoc.set r.acks (peerCursorKey peerNodeId scope)
        (some (min (seen : ℚ) r.node.seq))) (peerCursorKey peerNodeId scope) = _))
    with ⟨lowest, hlowest, hle⟩
  have hseen : lowest ≤ (seen : ℚ) := hle.trans (min_le_left _ _)
  have hsafe : max 0 (lowest - (r.retainOps : ℚ)) ≤ (seen : ℚ) := by
    refine max_le (Nat.cast_nonneg seen) ?_
    exact (sub_le_self lowest (Nat.cast_nonneg r.retainOps)).trans hseen
  rw [receiveAck, prune]
  simp only [Option.map_some, hlowest]
  split_ifs
  · exact Or.inl rfl
  · exact Or.inl rfl
  · exact Or.inr ⟨_, (min_le_left _ _).trans hsafe, rfl⟩
  · exact Or.inl rfl

theorem mem_set_cases {entries : List (JsString × ℕ)} {key k : JsString} {value v : ℕ}
    (h : (k, v) ∈ Assoc.set entries key value) :
    (k, v) = (key, value) ∨ (k, v) ∈ entries := by
  induction entries with
  | nil => exact Or.inl (List.mem_singleton.mp h)
  | cons entry entries ih =>
      rcases entry with ⟨key', value'⟩
      rw [Assoc.set] at h
      split_ifs at h with hkey
      · subst hkey
        rcases List.mem_cons.mp h with heq | hmem
        · exact Or.inl heq
        · exact Or.inr (List.mem_cons_of_mem _ hmem)
      · rcases List.mem_cons.mp h with heq | hmem
        · exact Or.inr (heq ▸ List.mem_cons_self)
        · exact (ih hmem).imp_right (List.mem_cons_of_mem _)

/-- What is remembered of a scope was remembered before, or is the number of an operation. -/
theorem mem_foldl_rememberScopeTrim {ops : List Op} {scopeTrimmed : List (JsString × ℕ)}
    {key : JsString} {trim : ℕ}
    (h : (key, trim) ∈ ops.foldl rememberScopeTrim scopeTrimmed) :
    (key, trim) ∈ scopeTrimmed ∨ ∃ op ∈ ops, trim = op.seq := by
  induction ops generalizing scopeTrimmed with
  | nil => exact Or.inl h
  | cons op ops ih =>
      rcases ih h with hmem | ⟨op', hop', heq⟩
      · rw [rememberScopeTrim] at hmem
        split_ifs at hmem
        · exact Or.inl hmem
        · cases hshard : normalizeShard op.shard with
          | none =>
              rw [hshard] at hmem
              exact Or.inl hmem
          | some shard =>
              rw [hshard] at hmem
              rcases mem_set_cases hmem with heq | hold
              · cases hheld : Assoc.get? scopeTrimmed (scopeKey ⟨op.db, op.coll, shard⟩) with
                | none =>
                    rw [hheld] at heq
                    refine Or.inr ⟨op, List.mem_cons_self, ?_⟩
                    rw [(Prod.mk.inj heq).2]
                    exact Nat.max_eq_right (Nat.zero_le _)
                | some held =>
                    rw [hheld] at heq
                    rcases Prod.mk.inj heq with ⟨rfl, hvalue⟩
                    rcases le_total op.seq held with hle | hle
                    · rw [Option.getD_some, Nat.max_eq_left hle] at hvalue
                      rw [hvalue]
                      exact Or.inl (Assoc.mem_of_get?_eq_some hheld)
                    · rw [Option.getD_some, Nat.max_eq_right hle] at hvalue
                      exact Or.inr ⟨op, List.mem_cons_self, hvalue⟩
              · exact Or.inl hold
      · exact Or.inr ⟨op', List.mem_cons_of_mem _ hop', heq⟩

/-- A peer that was not refused is not refused after it acknowledged what it was sent. -/
theorem needsSnapshot_receiveAck {r : Replica} {after after' seen : ℕ} {scope : Option Scope}
    (h : r.needsSnapshot after scope = false) (hafter : after ≤ after') (hseen : seen ≤ after')
    (peerNodeId : JsString) :
    (r.receiveAck peerNodeId (some (seen : ℚ)) scope).1.needsSnapshot after' scope = false := by
  have hcast : (after : ℚ) ≤ after' := by exact_mod_cast hafter
  have hsame : r.needsSnapshot after' scope = false := by
    cases scope with
    | none =>
        have hle : r.trimmed ≤ (after : ℚ) := not_lt.mp (of_decide_eq_false h)
        exact decide_eq_false (not_lt.mpr (hle.trans hcast))
    | some scope =>
        refine List.any_eq_false.mpr fun entry hentry => ?_
        have hnot := List.any_eq_false.mp h entry hentry
        intro hboth
        rcases Bool.and_eq_true_iff.mp hboth with ⟨hlt, hmatch⟩
        exact hnot (Bool.and_eq_true_iff.mpr
          ⟨decide_eq_true (hcast.trans_lt (of_decide_eq_true hlt)), hmatch⟩)
  rcases r.receiveAck_cases peerNodeId seen scope with ⟨acks, heq | ⟨cut, hcut, heq⟩⟩
  · rw [heq]
    exact hsame
  · have hcut' : cut ≤ (after' : ℚ) := hcut.trans (by exact_mod_cast hseen)
    rw [heq]
    cases scope with
    | none => exact decide_eq_false (not_lt.mpr hcut')
    | some scope =>
        refine List.any_eq_false.mpr fun entry hentry => ?_
        intro hboth
        rcases Bool.and_eq_true_iff.mp hboth with ⟨hlt, hmatch⟩
        rcases mem_foldl_rememberScopeTrim hentry with hold | ⟨op, hop, htrim⟩
        · exact List.any_eq_false.mp hsame entry hold hboth
        · -- what was cut is behind the acknowledgement
          have hkept := (List.mem_filter.mp hop).2
          have hbehind : (op.seq : ℚ) ≤ cut := by simpa using hkept
          have habove := of_decide_eq_true hlt
          rw [htrim] at habove
          exact absurd (hbehind.trans hcut') (not_le.mpr habove)

theorem receiveAck_sublist (r : Replica) (peerNodeId : JsString) (seen : ℕ)
    (scope : Option Scope) :
    (r.receiveAck peerNodeId (some (seen : ℚ)) scope).1.node.log.Sublist r.node.log ∧
      (r.receiveAck peerNodeId (some (seen : ℚ)) scope).1.node.seq = r.node.seq ∧
      (r.receiveAck peerNodeId (some (seen : ℚ)) scope).1.node.id = r.node.id := by
  rcases r.receiveAck_cases peerNodeId seen scope with ⟨acks, heq | ⟨cut, _, heq⟩⟩
  · rw [heq]
    exact ⟨List.Sublist.refl _, rfl, rfl⟩
  · rw [heq]
    exact ⟨List.filter_sublist, rfl, rfl⟩

/-! ## What is left to send -/

def remaining (r : Replica) (after : ℕ) (scope : Option Scope) : ℕ :=
  (r.node.log.filter (isAfter after scope)).length

theorem mem_found {r : Replica} {after limit : ℕ} {scope : Option Scope} {op : Op}
    (h : op ∈ r.opsAfter after limit scope) : op ∈ r.node.log.filter (isAfter after scope) := by
  rw [opsAfter] at h
  split_ifs at h
  · exact h
  · exact List.mem_of_mem_take h

theorem after_lt {r : Replica} {after limit : ℕ} {scope : Option Scope} {op : Op}
    (h : op ∈ r.opsAfter after limit scope) : after < op.seq := by
  have hpassed := (Bool.and_eq_true_iff.mp (List.mem_filter.mp (mem_found h)).2).1
  simpa using hpassed

/-- A cursor that has passed an operation has less to come. -/
theorem remaining_lt {r r' : Replica} {after after' limit : ℕ} {scope : Option Scope} {last : Op}
    (hlog : r'.node.log.Sublist r.node.log)
    (hlast : last ∈ r.opsAfter after limit scope) (hafter : last.seq ≤ after') :
    r'.remaining after' scope < r.remaining after scope := by
  have hfound := mem_found hlast
  have hlt := after_lt hlast
  have hweaker : ∀ op, isAfter after' scope op = true → isAfter after scope op = true := by
    intro op hop
    rcases Bool.and_eq_true_iff.mp hop with ⟨hseq, hmatch⟩
    have hgt : after' < op.seq := by simpa using hseq
    refine Bool.and_eq_true_iff.mpr ⟨?_, hmatch⟩
    simpa using hlt.trans (hafter.trans_lt hgt)
  calc
    r'.remaining after' scope ≤ (r.node.log.filter (isAfter after' scope)).length :=
      (hlog.filter _).length_le
    _ = ((r.node.log.filter (isAfter after scope)).filter (isAfter after' scope)).length := by
      rw [List.filter_filter]
      refine congrArg List.length (List.filter_congr fun op _ => ?_)
      cases hop : isAfter after' scope op with
      | false => rfl
      | true => simp [hweaker op hop]
    _ < r.remaining after scope := by
      refine List.length_filter_lt_length_iff_exists.mpr ⟨last, hfound, ?_⟩
      simp [isAfter, hafter]

end Replica

/-! ## A round -/

namespace CRDTNode

theorem le_seen_advance (n : CRDTNode) (key : JsString) (seen : ℕ) :
    seen ≤ (n.advance key seen).seen key := by
  rw [CRDTNode.seen, advance, Assoc.get?_set, if_pos rfl]
  exact le_max_right _ _

end CRDTNode

theorem syncRound_refused (limit : ℕ) {scope : Option Scope} {st : Syncing}
    (hrefuses : st.source.needsSnapshot (st.after scope) scope = true) :
    ∃ st', syncRound limit scope st = (st', some (.error .logTruncated)) := by
  rw [syncRound]
  dsimp only
  rw [if_pos hrefuses]
  exact ⟨_, rfl⟩

/-- A round with an answer: the store throws, or the cursor moves, and the loop ends when there is
nothing more. -/
theorem syncRound_cases (limit : ℕ) {scope : Option Scope} {st : Syncing}
    (hserves : st.source.needsSnapshot (st.after scope) scope = false)
    (hid : st.source.node.id ≠ []) (hne : st.source.node.id ≠ st.node.id) :
    (∃ st' err, syncRound limit scope st = (st', some (.error (.apply err)))) ∨
    (∃ st' total, syncRound limit scope st = (st', some (.ok total)) ∧
      st.source.node.seq ≤ st'.node.seen (peerCursorKey st.source.node.id scope)) ∨
    ∃ st', syncRound limit scope st = (st', none) ∧
      st'.source.needsSnapshot (st'.after scope) scope = false ∧
      st'.source.remaining (st'.after scope) scope <
        st.source.remaining (st.after scope) scope := by
  rw [syncRound]
  dsimp only
  rw [if_neg (by rw [hserves]; decide), if_neg (by rw [not_or]; exact ⟨hid, hne⟩)]
  cases happly : (st.node.bindPeer st.source.node.id st.peer.peerKey).applyRemote
      (st.source.opsAfter (st.after scope) limit scope)
      (peerCursorKey st.source.node.id scope) with
  | mk n result =>
      cases result with
      | error err => exact Or.inl ⟨_, err, rfl⟩
      | ok applied =>
          dsimp only
          set ops := st.source.opsAfter (st.after scope) limit scope with hops
          set seen := (ops.getLast?.map Op.seq).getD
            (if st.source.node.seq = 0 then st.after scope else st.source.node.seq) with hseen
          have hcursor := n.le_seen_advance (peerCursorKey st.source.node.id scope) seen
          split_ifs with hstop
          · -- nothing came, or the last operation did
            refine Or.inr (Or.inl ⟨_, _, rfl, le_trans ?_ hcursor⟩)
            rcases hstop with hnil | hle
            · rw [hseen, hnil]
              simp only [List.getLast?_nil, Option.map_none, Option.getD_none]
              split_ifs with hzero
              · rw [hzero]
                exact Nat.zero_le _
              · exact le_rfl
            · exact hle
          · rcases Option.ne_none_iff_exists'.mp
              (mt List.getLast?_eq_none_iff.mp (not_or.mp hstop).1) with ⟨last, hlast⟩
            have hmem := List.mem_of_getLast? hlast
            have hseq : seen = last.seq := by simp [hseen, hlast]
            rcases st.source.receiveAck_sublist n.id seen scope with ⟨hlog, -, -⟩
            -- the next round asks by the id of the peer
            have hafter : seen ≤ Syncing.after ⟨n.advance (peerCursorKey st.source.node.id scope)
                seen, (st.source.receiveAck n.id (some (seen : ℚ)) scope).1,
                st.peer.bind st.source.node.id, st.total + applied⟩ scope := by
              rw [Syncing.after, Peer.peerKey, Peer.bind, if_neg hid]
              exact hcursor
            have hgrows : st.after scope ≤ seen := by
              rw [hseq]
              exact (Replica.after_lt hmem).le
            refine Or.inr (Or.inr ⟨_, rfl, ?_, ?_⟩)
            · exact Replica.needsSnapshot_receiveAck hserves (hgrows.trans hafter) hafter n.id
            · exact Replica.remaining_lt hlog hmem (hseq ▸ hafter)

/-! ## The loop as a run of the system -/

namespace CRDTNode

theorem advance_of_le {n : CRDTNode} {key : JsString} {k seen : ℕ}
    (h : Assoc.get? n.lastSeen key = some k) (hle : seen ≤ k) : n.advance key seen = n := by
  rw [advance, CRDTNode.seen, h, Option.getD_some, Nat.max_eq_left hle, Assoc.set_of_get? h]

theorem set_set (entries : List (JsString × ℕ)) (key : JsString) (a b : ℕ) :
    Assoc.set (Assoc.set entries key a) key b = Assoc.set entries key b := by
  induction entries with
  | nil => simp [Assoc.set]
  | cons entry entries ih =>
      rcases entry with ⟨key', value⟩
      by_cases hkey : key' = key
      · simp [Assoc.set, hkey]
      · simp [Assoc.set, hkey, ih]

/-- An answer without operations sets the cursor to what it is. -/
theorem applyRemote_nil (n : CRDTNode) (key : JsString) (seen : ℕ) :
    ∃ n', n.applyRemote [] key = (n', .ok 0) ∧ n'.advance key seen = n.advance key seen := by
  refine ⟨{ n with lastSeen := Assoc.set n.lastSeen key (max (n.seen key) 0) }, rfl, ?_⟩
  rw [advance, advance, CRDTNode.seen, CRDTNode.seen]
  dsimp only
  rw [Assoc.get?_set, if_pos rfl, set_set, Nat.max_zero]
  rfl

end CRDTNode

namespace System

variable {net : Network} {reader source : JsString} {s s' s'' : System}

/-- `reader` pulls from `source`: nothing is written, and no other node changes. -/
structure Synced (net : Network) (reader source : JsString) (s s' : System) : Prop where
  run : ∃ events, Runs (step net) s events s' ∧ ∀ e ∈ events, e.pulling = true
  history : ∀ id, (s'.nodes id).history = (s.nodes id).history
  discarded : ∀ id, (s'.nodes id).discarded = (s.nodes id).discarded
  rest : (s'.nodes reader).replica = { (s.nodes reader).replica with node := s'.node reader }
  others : ∀ id, id ≠ reader → id ≠ source → (s'.nodes id).replica = (s.nodes id).replica

theorem Synced.refl (s : System) : Synced net reader source s s :=
  ⟨⟨[], .nil s, by simp⟩, fun _ => rfl, fun _ => rfl, rfl, fun _ _ _ => rfl⟩

theorem Synced.trans (h : Synced net reader source s s') (h' : Synced net reader source s' s'') :
    Synced net reader source s s'' where
  run := by
    rcases h.run with ⟨events, hrun, hevents⟩
    rcases h'.run with ⟨events', hrun', hevents'⟩
    exact ⟨events ++ events', hrun.append hrun', fun e he =>
      (List.mem_append.mp he).elim (hevents e) (hevents' e)⟩
  history := fun id => (h'.history id).trans (h.history id)
  discarded := fun id => (h'.discarded id).trans (h.discarded id)
  rest := by rw [h'.rest, h.rest]
  others := fun id hreader hsource =>
    (h'.others id hreader hsource).trans (h.others id hreader hsource)

/-- The reader has a new cursor, store or clock. -/
theorem synced_withNode {events : List SystemEvent} (hrun : Runs (step net) s events s')
    (hevents : ∀ e ∈ events, e.pulling = true) {n : CRDTNode} {ops : List Op}
    (hnodes : s'.nodes = (s.withNode reader n ops).nodes) : Synced net reader source s s' where
  run := ⟨events, hrun, hevents⟩
  history := by
    intro id
    rw [hnodes, withNode_nodes]
    split_ifs with hid
    · rw [hid]
      rfl
    · rfl
  discarded := by
    intro id
    rw [hnodes, withNode_nodes]
    split_ifs with hid
    · rw [hid]
      rfl
    · rfl
  rest := by
    rw [System.node, hnodes, withNode_nodes, if_pos rfl]
    rfl
  others := by
    intro id hid _
    rw [hnodes, withNode_nodes, if_neg hid]

/-- What a later step makes of a node, it makes of the node as it was. -/
theorem withNode_again (s : System) (id : JsString) (n n' : CRDTNode) (ops : List Op)
    (pulls : List Pull) :
    (({ s.withNode id n [] with pulls } : System).withNode id n' ops).nodes =
      (s.withNode id n' ops).nodes := by
  change Function.update (Function.update s.nodes id ((s.nodes id).withNode n)) id
    ((Function.update s.nodes id ((s.nodes id).withNode n) id).withNode n') =
      Function.update s.nodes id ((s.nodes id).withNode n')
  rw [Function.update_idem, Function.update_self]
  rfl

/-- The state of the loop in a system: nodes go by their ids. -/
structure Follows (net : Network) (reader source : JsString) (s : System) (st : Syncing) : Prop where
  node : s.node reader = st.node
  replica : (s.nodes source).replica = st.source
  readerId : st.node.id = reader
  sourceId : st.source.node.id = source
  key : st.peer.peerKey ∈ net.peerKeys
  nodeAt : net.nodeAt st.peer.peerKey = source

variable {st : Syncing} {limit : ℕ} {scope : Option Scope}

/-- The peer is known by its id. -/
theorem Follows.bound (h : Follows net reader source s st) (hnonempty : source ≠ [])
    {n : CRDTNode} {r : Replica} {total : ℕ} (hnode : s'.node reader = n)
    (hreplica : (s'.nodes source).replica = r) (hid : n.id = reader) (hsource : r.node.id = source) :
    Follows net reader source s' ⟨n, r, st.peer.bind source, total⟩ := by
  have hkey : (st.peer.bind source).peerKey = source := by
    rw [Peer.peerKey, Peer.bind, if_neg hnonempty]
    rfl
  refine ⟨hnode, hreplica, hid, hsource, ?_, ?_⟩
  · change (st.peer.bind source).peerKey ∈ net.peerKeys
    rw [hkey]
    exact h.nodeAt ▸ net.nodeAt_mem _ h.key
  · change net.nodeAt (st.peer.bind source).peerKey = source
    rw [hkey, ← h.nodeAt, net.nodeAt_nodeAt _ h.key]

/-! ### The steps of a round -/

/-- A pull at the end of those under way. -/
theorem getElem?_last (pulls : List Pull) (p : Pull) : (pulls ++ [p])[pulls.length]? = some p := by
  simp

theorem set_last (pulls : List Pull) (p q : Pull) :
    (pulls ++ [p]).set pulls.length q = pulls ++ [q] := by
  simp

theorem eraseIdx_last (pulls : List Pull) (p : Pull) :
    (pulls ++ [p]).eraseIdx pulls.length = pulls := by
  simp [List.eraseIdx_append_of_length_le]

theorem finishStep_unread (s : System) (i : ℕ) (p : Pull) {a : Answer} (h : a.received = false) :
    s.finishStep net i p a =
      { s.withNode p.reader ((s.node p.reader).advance (p.cursor net)
          (if a.lastSeq = 0 then p.after else a.lastSeq)) [] with
        pulls := s.pulls.eraseIdx i } := by
  rw [finishStep, if_neg (by rw [h]; decide)]

/-- The pull of a round before it is answered. -/
def asked (reader : JsString) (limit : ℕ) (scope : Option Scope) (st : Syncing) : Pull :=
  ⟨reader, st.peer.peerKey, scope, st.after scope, limit, none, false⟩

/-- The pull of a round that was answered. -/
def answered (reader : JsString) (limit : ℕ) (scope : Option Scope) (st : Syncing) : Pull :=
  { asked reader limit scope st with
    answer := some (Answer.start st.source (st.after scope) limit scope) }

theorem Follows.ask (h : Follows net reader source s st) (hne : source ≠ reader)
    (hscope : scope ∈ net.scopes) :
    s.step net (.pull reader st.peer.peerKey scope limit) =
      some { s with pulls := s.pulls ++ [asked reader limit scope st] } := by
  have hat : net.nodeAt st.peer.peerKey ≠ reader := h.nodeAt ▸ hne
  have hafter : (s.node reader).seen (peerCursorKey st.peer.peerKey scope) = st.after scope := by
    rw [h.node]
    rfl
  rw [step, pullStep, if_pos ⟨h.key, hscope, hat⟩, hafter]
  rfl

/-- The peer of the last pull is known by its id. -/
theorem Follows.bind_last (h : Follows net reader source s st) {p : Pull}
    (hreader : p.reader = reader) (hkey : p.peerKey = st.peer.peerKey)
    (hreplied : (p.answer.isSome || p.refused) = true) :
    step net { s with pulls := s.pulls ++ [p] } (.bind s.pulls.length) =
      some { s.withNode reader (st.node.bindPeer source st.peer.peerKey) [] with
        pulls := s.pulls ++ [p] } := by
  rw [step]
  dsimp only
  rw [getElem?_last, Option.bind_some, if_pos hreplied, bindStep, hreader, hkey, h.nodeAt]
  change some (withNode _ reader ((s.node reader).bindPeer _ _) []) = _
  rw [h.node]
  rfl

/-- A round begins: the peer is asked, answers and is known by its id. -/
theorem Follows.begin (h : Follows net reader source s st) (limit : ℕ) (hne : source ≠ reader)
    (hscope : scope ∈ net.scopes)
    (hserves : st.source.needsSnapshot (st.after scope) scope = false) :
    Runs (step net) s [.pull reader st.peer.peerKey scope limit, .serve s.pulls.length,
        .bind s.pulls.length]
      { s.withNode reader (st.node.bindPeer source st.peer.peerKey) [] with
        pulls := s.pulls ++ [answered reader limit scope st] } := by
  refine .cons (h.ask hne hscope) (.cons (t := { s with
    pulls := s.pulls ++ [answered reader limit scope st] }) ?_
    (.cons (h.bind_last rfl rfl rfl) (.nil _)))
  rw [step]
  dsimp only
  rw [getElem?_last, Option.bind_some, asked]
  dsimp only [Option.isSome_none, Bool.or_self]
  rw [if_neg (by decide), serveStep]
  dsimp only
  rw [h.nodeAt, h.replica, hserves, if_neg (by decide), set_last]
  rfl

/-- A round that is refused: the peer is known by its id, too. -/
theorem Follows.refused (h : Follows net reader source s st) (limit : ℕ) (hne : source ≠ reader)
    (hscope : scope ∈ net.scopes)
    (hrefuses : st.source.needsSnapshot (st.after scope) scope = true) :
    Runs (step net) s [.pull reader st.peer.peerKey scope limit, .serve s.pulls.length,
        .bind s.pulls.length, .abandon s.pulls.length]
      (s.withNode reader (st.node.bindPeer source st.peer.peerKey) []) := by
  refine .cons (h.ask hne hscope) (.cons (t := { s with
    pulls := s.pulls ++ [{ asked reader limit scope st with refused := true }] }) ?_
    (.cons (h.bind_last rfl rfl rfl) (.cons ?_ (.nil _))))
  · rw [step]
    dsimp only
    rw [getElem?_last, Option.bind_some, asked]
    dsimp only [Option.isSome_none, Bool.or_self]
    rw [if_neg (by decide), serveStep]
    dsimp only
    rw [h.nodeAt, h.replica, hrefuses, if_pos rfl, set_last]
  · rw [step]
    dsimp only
    rw [eraseIdx_last]
    rfl

/-- The peer hears what the node has. -/
theorem ack_step (net : Network) (s : System) (hne : source ≠ reader) (seen : ℕ) (scope : Option Scope)
    (hbound : ∀ op ∈ (s.node source).log, op.seq ≤ (s.node source).seq) :
    ∃ s', Synced net reader source s s' ∧ s'.node reader = s.node reader ∧
      (s'.nodes source).replica =
        ((s.nodes source).replica.receiveAck reader (some (seen : ℚ)) scope).1 := by
  set r := (s.nodes source).replica with hr
  rcases r.receiveAck_sublist reader seen scope with ⟨hlog, -, -⟩
  -- the log is cut, so nothing is new in it
  have hlogged : CRDTNode.logged r.node (r.receiveAck reader (some (seen : ℚ)) scope).1.node = [] :=
    List.filter_eq_nil_iff.mpr fun op hop => by
      rw [decide_eq_true_eq, Nat.not_lt]
      exact hbound op (hlog.subset hop)
  set t : Traced := ⟨(r.receiveAck reader (some (seen : ℚ)) scope).1,
    (s.nodes source).history ++
      CRDTNode.logged r.node (r.receiveAck reader (some (seen : ℚ)) scope).1.node,
    (s.nodes source).discarded ++ []⟩ with ht
  have hstep : s.step net (.replica source (.receiveAck reader (some (seen : ℚ)) scope)) =
      some (s.withReplica net source t) := rfl
  have hnodes : ∀ id, (s.withReplica net source t).nodes id = if id = source then t else s.nodes id :=
    Function.update_apply s.nodes source t
  have hreader : (s.withReplica net source t).nodes reader = s.nodes reader := by
    rw [hnodes, if_neg hne.symm]
  refine ⟨s.withReplica net source t, ⟨⟨_, .cons hstep (.nil _), by simp [SystemEvent.pulling]⟩,
    ?_, ?_, ?_, ?_⟩, ?_, ?_⟩
  · intro id
    rw [hnodes]
    split_ifs with hid
    · rw [hid, ht, hlogged, List.append_nil]
    · rfl
  · intro id
    rw [hnodes]
    split_ifs with hid
    · rw [hid, ht, List.append_nil]
    · rfl
  · rw [System.node, hreader]
  · intro id _ hid
    rw [hnodes, if_neg hid]
  · rw [System.node, hreader]
    rfl
  · rw [hnodes, if_pos rfl]

/-- The reader applies the whole answer. -/
theorem receive_step (hsystem : s.node reader = st.node.bindPeer source st.peer.peerKey)
    (hnodeAt : net.nodeAt st.peer.peerKey = source) {pulls : List Pull}
    (hpulls : s.pulls = pulls ++ [answered reader limit scope st])
    (hne : st.source.opsAfter (st.after scope) limit scope ≠ []) {n : CRDTNode}
    {result : Except NodeError ℕ}
    (happly : (st.node.bindPeer source st.peer.peerKey).applyRemote
      (st.source.opsAfter (st.after scope) limit scope) (peerCursorKey source scope) =
        (n, result)) :
    ∃ s' ops, s.step net (.receive pulls.length
        (st.source.opsAfter (st.after scope) limit scope).length) = some s' ∧
      s'.nodes = (s.withNode reader n ops).nodes ∧
      ∀ count, result = .ok count → ∃ a : Answer, a.ops = [] ∧ a.received = true ∧
        s'.pulls = pulls ++ [{ answered reader limit scope st with answer := some a }] := by
  set ops := st.source.opsAfter (st.after scope) limit scope with hops
  have htake : (Answer.start st.source (st.after scope) limit scope).ops.take ops.length = ops :=
    List.take_length
  have hcursor : (answered reader limit scope st).cursor net = peerCursorKey source scope := by
    rw [Pull.cursor, answered, asked]
    dsimp only
    rw [hnodeAt]
  have hreceive : s.step net (.receive pulls.length ops.length) =
      some (s.receiveStep net pulls.length (answered reader limit scope st)
        (Answer.start st.source (st.after scope) limit scope) ops.length) := by
    rw [step, hpulls, getElem?_last, Option.bind_some, answered, Option.bind_some, htake,
      if_neg hne]
  have hresult : (s.node (answered reader limit scope st).reader).applyRemote
      ((Answer.start st.source (st.after scope) limit scope).ops.take ops.length)
      ((answered reader limit scope st).cursor net) = (n, result) := by
    rw [htake, hcursor]
    change (s.node reader).applyRemote ops _ = _
    rw [hsystem]
    exact happly
  rw [hreceive, receiveStep]
  dsimp only
  rw [hresult]
  cases result with
  | error err =>
      refine ⟨_, [], rfl, rfl, ?_⟩
      intro count hcount
      cases hcount
  | ok applied =>
      refine ⟨_, ops, rfl, ?_, ?_⟩
      · dsimp only
        rw [htake]
        rfl
      · intro count _
        refine ⟨{ Answer.start st.source (st.after scope) limit scope with
          ops := ops.drop ops.length, received := true }, List.drop_length, rfl, ?_⟩
        dsimp only
        rw [hpulls, set_last]
        rfl

/-- A round of the loop is a run of the system. -/
theorem Follows.round (h : Follows net reader source s st) (hne : source ≠ reader)
    (hnonempty : source ≠ []) (hscope : scope ∈ net.scopes)
    (hbound : ∀ op ∈ st.source.node.log, op.seq ≤ st.source.node.seq) {st' : Syncing}
    {out : Option (Except SyncError ℕ)} (hround : syncRound limit scope st = (st', out)) :
    st'.peer = st.peer.bind source ∧
      ∃ s', Synced net reader source s s' ∧ Follows net reader source s' st' := by
  have hid : st.node.id = reader := h.readerId
  have hreplica : ∀ {s₄ : System} (n : CRDTNode) (ops : List Op),
      s₄.nodes = (s.withNode reader n ops).nodes → s₄.node reader = n ∧
        (s₄.nodes source).replica = st.source := by
    intro s₄ n ops hnodes
    rw [System.node, hnodes, withNode_nodes, withNode_nodes, if_pos rfl, if_neg hne]
    exact ⟨rfl, h.replica⟩
  rw [syncRound] at hround
  dsimp only at hround
  rw [h.sourceId] at hround
  cases hserves : st.source.needsSnapshot (st.after scope) scope with
  | true =>
      rw [hserves, if_pos rfl] at hround
      cases hround
      have hsynced : Synced net reader source s _ :=
        synced_withNode (h.refused limit hne hscope hserves) (by simp [SystemEvent.pulling]) rfl
      rcases hreplica (st.node.bindPeer source st.peer.peerKey) [] rfl with
        ⟨hnode, hsame⟩
      exact ⟨rfl, _, hsynced, h.bound hnonempty hnode hsame
        ((CRDTNode.bindPeer_id _ _ _).trans hid) h.sourceId⟩
  | false =>
      have hbegin := h.begin limit hne hscope hserves
      set s₃ : System := { s.withNode reader (st.node.bindPeer source st.peer.peerKey) [] with
        pulls := s.pulls ++ [answered reader limit scope st] } with hs₃
      have hnode : s₃.node reader = st.node.bindPeer source st.peer.peerKey := by
        change (s.withNode reader _ []).node reader = _
        rw [withNode_node, if_pos rfl]
      have hlater : ∀ (n : CRDTNode) (ops : List Op),
          (s₃.withNode reader n ops).nodes = (s.withNode reader n ops).nodes := by
        intro n ops
        rw [hs₃]
        exact withNode_again s reader _ n ops _
      have hpulling : ∀ e ∈ [SystemEvent.pull reader st.peer.peerKey scope limit,
          .serve s.pulls.length, .bind s.pulls.length], e.pulling = true := by
        simp [SystemEvent.pulling]
      -- after the answer the peer hears of it, and the loop goes on by its id
      have hend : ∀ {s₄ : System} {events : List SystemEvent} {n : CRDTNode} (ops : List Op)
          (total seen : ℕ), Runs (step net) s events s₄ → (∀ e ∈ events, e.pulling = true) →
          s₄.nodes = (s.withNode reader n ops).nodes → n.id = reader →
          ∃ s', Synced net reader source s s' ∧ Follows net reader source s'
            ⟨n, (st.source.receiveAck reader (some (seen : ℚ)) scope).1, st.peer.bind source,
              total⟩ := by
        intro s₄ events n ops total seen hrun hevents hnodes hn
        rcases hreplica n ops hnodes with ⟨hnode₄, hsame⟩
        have hlog : ∀ op ∈ (s₄.node source).log, op.seq ≤ (s₄.node source).seq := by
          rw [System.node, hsame]
          exact hbound
        rcases ack_step net s₄ hne seen scope hlog with ⟨s', hack, hnode', hreplica'⟩
        rcases st.source.receiveAck_sublist reader seen scope with ⟨-, -, hsourceId⟩
        refine ⟨s', (synced_withNode hrun hevents hnodes).trans hack, h.bound hnonempty ?_ ?_ hn ?_⟩
        · rw [hnode', hnode₄]
        · rw [hreplica', hsame]
        · exact hsourceId.trans h.sourceId
      have happlyId := CRDTNode.applyRemote_id (st.node.bindPeer source st.peer.peerKey)
        (st.source.opsAfter (st.after scope) limit scope) (peerCursorKey source scope)
      rw [CRDTNode.bindPeer_id, hid] at happlyId
      rw [hserves, if_neg (by decide),
        if_neg (by rw [not_or, hid]; exact ⟨hnonempty, hne⟩)] at hround
      by_cases hnil : st.source.opsAfter (st.after scope) limit scope = []
      · -- nothing came: the cursor goes to what the answer says
        rcases CRDTNode.applyRemote_nil (st.node.bindPeer source st.peer.peerKey)
          (peerCursorKey source scope) (if st.source.node.seq = 0 then st.after scope
            else st.source.node.seq) with ⟨n, happly, hadvance⟩
        rw [hnil] at happlyId hround
        rw [happly] at happlyId hround
        dsimp only at happlyId hround
        rw [if_pos (Or.inl rfl)] at hround
        cases hround
        simp only [List.getLast?_nil, Option.map_none, Option.getD_none]
        rw [happlyId, hadvance]
        have hfinish : s₃.step net (.finish s.pulls.length) = some
            { s₃.withNode reader ((s₃.node reader).advance (peerCursorKey source scope)
              (if st.source.node.seq = 0 then st.after scope else st.source.node.seq)) [] with
              pulls := s.pulls } := by
          have hempty : (Answer.start st.source (st.after scope) limit scope).ops = [] := hnil
          rw [step]
          dsimp only
          rw [getElem?_last, Option.bind_some, answered, Option.bind_some, hempty, if_pos rfl,
            finishStep_unread _ _ _ rfl, eraseIdx_last, Pull.cursor]
          dsimp only [Answer.start, asked]
          rw [h.nodeAt]
          rfl
        refine ⟨trivial, hend [] _ _ (hbegin.append (.cons hfinish (.nil _))) ?_ ?_
          ((CRDTNode.bindPeer_id _ _ _).trans hid)⟩
        · intro e he
          rcases List.mem_append.mp he with hbefore | hlast
          · exact hpulling e hbefore
          · rw [List.mem_singleton.mp hlast]
            rfl
        · change (s₃.withNode reader ((s₃.node reader).advance _ _) []).nodes = _
          rw [hnode]
          exact hlater _ []
      · cases happly : (st.node.bindPeer source st.peer.peerKey).applyRemote
            (st.source.opsAfter (st.after scope) limit scope) (peerCursorKey source scope) with
        | mk n result =>
            rw [happly] at happlyId hround
            rcases receive_step hnode h.nodeAt rfl hnil happly with
              ⟨s₄, ops, hreceive, hnodes₄, hanswer⟩
            have hrun₄ := hbegin.append (.cons hreceive (.nil _))
            have hpulling₄ : ∀ e ∈ [SystemEvent.pull reader st.peer.peerKey scope limit,
                .serve s.pulls.length, .bind s.pulls.length] ++ [.receive s.pulls.length
                  (st.source.opsAfter (st.after scope) limit scope).length],
                e.pulling = true := by
              simp [SystemEvent.pulling]
            have hsame₄ := hnodes₄.trans (hlater n ops)
            cases result with
            | error err =>
                cases hround
                rcases hreplica n ops hsame₄ with ⟨hnode₄, hreplica₄⟩
                exact ⟨rfl, s₄, synced_withNode hrun₄ hpulling₄ hsame₄,
                  h.bound hnonempty hnode₄ hreplica₄ happlyId h.sourceId⟩
            | ok applied =>
                rcases hanswer applied rfl with ⟨a, hops, hreceived, hpulls₄⟩
                have hfinish : s₄.step net (.finish s.pulls.length) =
                    some { s₄ with pulls := s.pulls } := by
                  rw [step, hpulls₄, getElem?_last, Option.bind_some, answered, Option.bind_some,
                    hops, if_pos rfl, finishStep, if_pos hreceived, hpulls₄, eraseIdx_last]
                rcases Option.ne_none_iff_exists'.mp (mt List.getLast?_eq_none_iff.mp hnil) with
                  ⟨last, hlast⟩
                -- the cursor is at the last operation already
                have hcursor : n.advance (peerCursorKey source scope) last.seq = n := by
                  rcases CRDTNode.applyRemote_lastSeen (st.node.bindPeer source st.peer.peerKey)
                    (st.source.opsAfter (st.after scope) limit scope)
                    (peerCursorKey source scope) with ⟨err, herr, _⟩ | ⟨count, _, hseen⟩
                  · rw [happly] at herr
                    cases herr
                  · rw [happly, hlast] at hseen
                    refine CRDTNode.advance_of_le (k := max ((st.node.bindPeer source
                      st.peer.peerKey).seen (peerCursorKey source scope)) last.seq) ?_
                      (le_max_right _ _)
                    rw [hseen, CRDTNode.advance, Assoc.get?_set, if_pos rfl]
                    rfl
                dsimp only at hround happlyId
                rw [hlast] at hround
                simp only [Option.map_some, Option.getD_some] at hround
                rw [hcursor, happlyId] at hround
                rcases hend ops (st.total + applied) last.seq (hrun₄.append (.cons hfinish (.nil _)))
                  (by
                    intro e he
                    rcases List.mem_append.mp he with hbefore | hlast
                    · exact hpulling₄ e hbefore
                    · rw [List.mem_singleton.mp hlast]
                      rfl) hsame₄ happlyId with ⟨s', hsynced, hfollows⟩
                split_ifs at hround <;> cases hround <;> exact ⟨rfl, s', hsynced, hfollows⟩

/-! ### The whole loop -/

theorem Synced.sound (h : Synced net reader source s s') (hsound : s.Sound net) : s'.Sound net := by
  rcases h.run with ⟨events, hrun, -⟩
  exact hrun.invariant (fun _ _ _ hbefore hstep => hbefore.step hstep) hsound

/-- The loop comes to an end, and it is a run of the system.  It is refused only at the start; where
it returns a number, every operation of the peer has arrived. -/
theorem Follows.syncPeer (h : Follows net reader source s st) (hsound : s.Sound net)
    (hne : source ≠ reader) (hnonempty : source ≠ []) (hscope : scope ∈ net.scopes) (limit : ℕ)
    {fuel : ℕ} (hfuel : st.source.remaining (st.after scope) scope < fuel) :
    ∃ st' result s', ObjyDb.syncPeer limit scope fuel st = some (st', result) ∧
      Synced net reader source s s' ∧ Follows net reader source s' st' ∧
      st'.peer = st.peer.bind source ∧
      ((result = .error .logTruncated ∧
          st.source.needsSnapshot (st.after scope) scope = true) ∨
        (∃ err, result = .error (.apply err)) ∨
        (∃ total, result = .ok total) ∧
          ∀ op, (s.nodes source).Wanted scope op → op ∈ s'.arrived reader) := by
  induction fuel generalizing s st with
  | zero => exact absurd hfuel (Nat.not_lt_zero _)
  | succ fuel ih =>
      have hkept := hsound.kept source
      have hbound : ∀ op ∈ st.source.node.log, op.seq ≤ st.source.node.seq := by
        rw [← h.replica]
        exact fun op hop => hkept.bound op (hkept.log.subset hop)
      have hround : ∀ {st' out}, syncRound limit scope st = (st', out) →
          st'.peer = st.peer.bind source ∧
            ∃ s', Synced net reader source s s' ∧ Follows net reader source s' st' :=
        fun heq => h.round hne hnonempty hscope hbound heq
      rw [ObjyDb.syncPeer]
      cases hserves : st.source.needsSnapshot (st.after scope) scope with
      | true =>
          rcases syncRound_refused limit hserves with ⟨st', heq⟩
          rcases hround heq with ⟨hpeer, s', hsynced, hfollows⟩
          rw [heq]
          exact ⟨st', _, s', rfl, hsynced, hfollows, hpeer, Or.inl ⟨rfl, rfl⟩⟩
      | false =>
          rcases syncRound_cases limit hserves (h.sourceId ▸ hnonempty)
              (by rw [h.sourceId, h.readerId]; exact hne) with
            ⟨st', err, heq⟩ | ⟨st', total, heq, hseen⟩ | ⟨st', heq, hserves', hless⟩
          · rcases hround heq with ⟨hpeer, s', hsynced, hfollows⟩
            rw [heq]
            exact ⟨st', _, s', rfl, hsynced, hfollows, hpeer, Or.inr (Or.inl ⟨err, rfl⟩)⟩
          · rcases hround heq with ⟨hpeer, s', hsynced, hfollows⟩
            rw [heq]
            refine ⟨st', _, s', rfl, hsynced, hfollows, hpeer, Or.inr (Or.inr ⟨⟨total, rfl⟩, ?_⟩)⟩
            -- the cursor has come to the last operation of the peer
            intro op hwanted
            have hat : net.nodeAt source = source := by
              rw [← h.nodeAt]
              exact net.nodeAt_nodeAt _ h.key
            have hmem : source ∈ net.peerKeys := h.nodeAt ▸ net.nodeAt_mem _ h.key
            have hhas := (hsynced.sound hsound).has_seen reader hmem hscope
            rw [hat] at hhas
            refine hhas.2 op (hwanted.congr (hsynced.history source).symm
              (hsynced.discarded source).symm) ?_
            calc
              op.seq ≤ (s.node source).seq := hkept.bound op hwanted.1
              _ = st.source.node.seq := by rw [System.node, h.replica]
              _ ≤ st'.node.seen (peerCursorKey st.source.node.id scope) := hseen
              _ = (s'.node reader).seen (peerCursorKey source scope) := by
                rw [hfollows.node, h.sourceId]
          · rcases hround heq with ⟨hpeer, s', hsynced, hfollows⟩
            rw [heq]
            -- another round, with less left to send
            rcases ih hfollows (hsynced.sound hsound) (hless.trans_le (Nat.le_of_lt_succ hfuel))
              with ⟨st'', result, s'', hresult, hmore, hlast, hpeer', hend⟩
            refine ⟨st'', result, s'', hresult, hsynced.trans hmore, hlast, ?_, ?_⟩
            · rw [hpeer', hpeer, Peer.bind_bind]
            · rcases hend with ⟨-, hrefused⟩ | herror | ⟨hok, hall⟩
              · rw [hserves'] at hrefused
                cases hrefused
              · exact Or.inr (Or.inl herror)
              · refine Or.inr (Or.inr ⟨hok, fun op hwanted => hall op ?_⟩)
                exact hwanted.congr (hsynced.history source).symm (hsynced.discarded source).symm

theorem runs_id {config : JsString → NodeConfig} {events : List SystemEvent}
    (h : Runs (step net) (start config) events s) (id : JsString) : (s.node id).id = id :=
  h.invariant (P := fun s => ∀ id, (s.node id).id = id)
    (fun _ _ _ hid hstep id => (step_id hstep id).trans (hid id)) (fun _ => rfl) id

/-- A node with three writes, and one that asks it for two operations at a time. -/
def threeWrites : List SystemEvent :=
  [.replica (js "a") (.node (.write (js "d") (js "c") (.insert (fun _ => js "x") [none]))),
    .replica (js "a") (.node (.write (js "d") (js "c") (.insert (fun _ => js "y") [none]))),
    .replica (js "a") (.node (.write (js "d") (js "c") (.insert (fun _ => js "z") [none])))]

end System
end ObjyDb
