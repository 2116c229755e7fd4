import ObjyDb.Lib.Fallible
import ObjyDb.Node.Crdt
import ObjyDb.Store.Acceptance

/-!
# LocalWrites — the bulk writes of a client

The four bulk writes have one shape: the request is checked, the operations are drafted with
timestamps of the clock, and then all are logged, applied and told to the listeners.  Whatever
throws before the operations are committed has changed nothing but the clock and collections
without rows.

- `CRDTNode.LocalWrite`
- `CRDTNode.Drafting`, `CRDTNode.Drafted`: before the commit
- `CRDTNode.LocalWrite.apply_outcome`: a write throws first or commits all it drafted
-/

namespace ObjyDb

open Js

namespace CRDTNode

/-- A bulk write of a client. -/
inductive LocalWrite
  | insert (generated : Nat → JsString) (objects : List (Option Json))
  | replace (objects : Option (List (Option Json)))
  | update (objects : Option (List (Option Json)))
  | remove (ids : Option (List (Option Json)))

/-- The node after the write, and the operations it made. -/
def LocalWrite.apply (n : CRDTNode) (db coll : JsString) :
    LocalWrite → CRDTNode × Except NodeError Committed
  | .insert generated objects =>
      ((n.insertMany db coll generated objects).1,
        (n.insertMany db coll generated objects).2.map Prod.snd)
  | .replace objects =>
      ((n.replaceMany db coll objects).1, (n.replaceMany db coll objects).2.map Prod.snd)
  | .update objects =>
      ((n.updateMany db coll objects).1, (n.updateMany db coll objects).2.map Prod.snd)
  | .remove ids => ((n.removeMany db coll ids).1, (n.removeMany db coll ids).2.map Prod.snd)

/-! ## Before a write is committed -/

/-- Only the clock and collections without rows have changed. -/
structure Drafting (n n' : CRDTNode) : Prop where
  like : Store.Like n.db n'.db
  clock : n.clock.c ≤ n'.clock.c
  operationLog : n'.operationLog = n.operationLog
  log : n'.log = n.log
  seq : n'.seq = n.seq
  shards : n'.shards = n.shards
  changes : n'.changes = n.changes

variable {n n' n'' : CRDTNode} {db coll : JsString}

theorem Drafting.refl (n : CRDTNode) : Drafting n n :=
  ⟨.refl n.db, le_rfl, rfl, rfl, rfl, rfl, rfl⟩

theorem Drafting.trans (h : Drafting n n') (h' : Drafting n' n'') : Drafting n n'' where
  like := h.like.trans h'.like
  clock := h.clock.trans h'.clock
  operationLog := h'.operationLog.trans h.operationLog
  log := h'.log.trans h.log
  seq := h'.seq.trans h.seq
  shards := h'.shards.trans h.shards
  changes := h'.changes.trans h.changes

theorem drafting_openCollection (n : CRDTNode) (db coll : JsString) :
    Drafting n { n with db := (n.db.openCollection db coll).1 } :=
  ⟨Store.openCollection_like n.db db coll, le_rfl, rfl, rfl, rfl, rfl, rfl⟩

theorem drafting_tick (n : CRDTNode) : Drafting n { n with clock := (nextTs n.clock).1 } :=
  ⟨.refl n.db, Nat.le_succ n.clock.c, rfl, rfl, rfl, rfl, rfl⟩

theorem prepareWriteValue_drafting (n : CRDTNode) (db coll : JsString) (value : Fields) :
    Drafting n (n.prepareWriteValue db coll value).1 := by
  have hopen := drafting_openCollection n db coll
  rw [prepareWriteValue]
  cases hresult : n.db.openCollection db coll with
  | mk s result =>
      rw [hresult] at hopen
      cases result with
      | error err => exact hopen
      | ok =>
          dsimp only
          split <;> exact hopen

theorem writeOps_drafting (items : List (JsString × Fields)) (n : CRDTNode) (db coll : JsString) :
    Drafting n (n.writeOps db coll items).1 := by
  induction items generalizing n with
  | nil => exact .refl n
  | cons item items ih =>
      have hprepare := prepareWriteValue_drafting n db coll item.2
      rw [writeOps]
      cases hprepared : n.prepareWriteValue db coll item.2 with
      | mk m result =>
          rw [hprepared] at hprepare
          cases result with
          | error err => exact hprepare
          | ok prepared =>
              have hmore := (hprepare.trans (drafting_tick m)).trans (ih _)
              dsimp only
              cases hrest : writeOps { m with clock := (nextTs m.clock).1 } db coll items with
              | mk m' rest =>
                  rw [hrest] at hmore
                  cases rest <;> exact hmore

theorem preserveVectors_drafting (merge : JsString → Fields → Fields)
    (items : List (JsString × Fields)) (n : CRDTNode) (db coll : JsString) :
    Drafting n (n.preserveVectors db coll merge items).1 := by
  induction items generalizing n with
  | nil => exact .refl n
  | cons item items ih =>
      have hopen := drafting_openCollection n db coll
      rw [preserveVectors]
      cases hresult : n.db.openCollection db coll with
      | mk s result =>
          rw [hresult] at hopen
          cases result with
          | error err => exact hopen
          | ok =>
              have hmore := hopen.trans (ih { n with db := s })
              dsimp only
              cases hrest : preserveVectors { n with db := s } db coll merge items with
              | mk m rest =>
                  rw [hrest] at hmore
                  cases rest <;> exact hmore

/-! ## Drafted operations -/

/-- The put of an item, stamped by the clock of the node or a later one. -/
structure Drafted (n : CRDTNode) (db coll : JsString) (item : JsString × Fields) (op : Op) :
    Prop where
  db_eq : op.db = db
  coll_eq : op.coll = coll
  id_eq : op.id = item.1
  kind_eq : op.kind = if item.2 = [] then .touch else .putObj
  value_eq : op.value = some (stripReferenceObjects (withoutObjectId (some (.obj item.2))))
  newer : n.clock.c < op.ts.c
  vector : ValidVector (n.db.collectionOf db coll).vectorField op.storedValue

theorem Drafted.of_drafting {item : JsString × Fields} {op : Op} (hn : Drafting n n')
    (h : Drafted n' db coll item op) : Drafted n db coll item op where
  db_eq := h.db_eq
  coll_eq := h.coll_eq
  id_eq := h.id_eq
  kind_eq := h.kind_eq
  value_eq := h.value_eq
  newer := hn.clock.trans_lt h.newer
  vector := hn.like.collectionOf db coll ▸ h.vector

theorem Drafted.kind_ne {item : JsString × Fields} {op : Op} (h : Drafted n db coll item op) :
    op.kind ≠ .delObj := by
  rw [h.kind_eq]
  split_ifs <;> decide

/-- A value that can be prepared has a valid vector field. -/
theorem validVector_of_prepared {c : Collection} {value : Fields}
    {prepared : Fields × Collection.VectorUpdate} (h : c.prepareStoredValue value = .ok prepared) :
    ValidVector c.vectorField value := by
  intro field raw hfield hraw
  rw [Collection.prepareStoredValue, hfield] at h
  dsimp only at h
  rw [hraw] at h
  cases raw with
  | null => exact .inl rfl
  | _ =>
      dsimp only at h
      split at h
      · rename_i vector hvector
        exact .inr ⟨vector, hvector⟩
      · cases h

theorem validVector_nil (vectorField : Option JsString) : ValidVector vectorField [] :=
  fun _ _ _ hraw => nomatch hraw

theorem prepareWriteValue_ok {value prepared : Fields}
    (h : n.prepareWriteValue db coll value = (n', .ok prepared)) :
    prepared = stripReferenceObjects (withoutObjectId (some (.obj value))) ∧
      n'.clock = n.clock ∧ ValidVector (n.db.collectionOf db coll).vectorField prepared := by
  have hlike := Store.openCollection_like n.db db coll
  rw [prepareWriteValue] at h
  cases hresult : n.db.openCollection db coll with
  | mk s result =>
      rw [hresult] at h hlike
      cases result with
      | error err => cases h
      | ok =>
          dsimp only at h
          split at h
          · cases h
          · rename_i vector hprepared
            cases h
            refine ⟨rfl, rfl, ?_⟩
            rw [← hlike.collectionOf db coll]
            exact validVector_of_prepared hprepared

theorem writeOps_drafted {items : List (JsString × Fields)} {ops : List Op}
    (h : n.writeOps db coll items = (n', .ok ops)) :
    List.Forall₂ (Drafted n db coll) items ops ∧ ∀ op ∈ ops, op.ts.c ≤ n'.clock.c := by
  induction items generalizing n ops with
  | nil =>
      cases h
      exact ⟨.nil, fun _ hop => nomatch hop⟩
  | cons item items ih =>
      have hprepare := prepareWriteValue_drafting n db coll item.2
      rw [writeOps] at h
      cases hprepared : n.prepareWriteValue db coll item.2 with
      | mk m result =>
          rw [hprepared] at h hprepare
          cases result with
          | error err => cases h
          | ok prepared =>
              rcases prepareWriteValue_ok hprepared with ⟨hvalue, hclock, hvector⟩
              have hafter := writeOps_drafting items { m with clock := (nextTs m.clock).1 } db coll
              dsimp only at h hprepare
              cases hrest : writeOps { m with clock := (nextTs m.clock).1 } db coll items with
              | mk m' rest =>
                  rw [hrest] at h hafter
                  cases rest with
                  | error err => cases h
                  | ok more =>
                      cases h
                      rcases ih hrest with ⟨hmore, hbound⟩
                      refine ⟨.cons ?_ (hmore.imp fun _ _ hop =>
                        hop.of_drafting (hprepare.trans (drafting_tick m))), ?_⟩
                      · refine ⟨rfl, rfl, rfl, rfl, by rw [hvalue], ?_, ?_⟩
                        · exact hprepare.clock.trans_lt (Nat.lt_succ_self m.clock.c)
                        · by_cases hempty : item.2 = []
                          · simp only [Op.storedValue, hempty, if_true]
                            exact validVector_nil _
                          · simp only [Op.storedValue, hempty, if_false, reduceCtorEq]
                            exact hvector
                      · intro op hop
                        rcases List.mem_cons.mp hop with rfl | hop
                        · exact hafter.clock
                        · exact hbound op hop

/-- The deletes of a bulk remove are for the objects that are there. -/
theorem removeOps_ids (s : Store) (clock : Clock) (ids : List JsString) :
    (removeOps s db coll clock ids).2.map Op.id = ids.filter fun id => has s db coll id := by
  induction ids generalizing clock with
  | nil => rfl
  | cons id ids ih =>
      rw [removeOps]
      split_ifs with hhas
      · rw [List.filter_cons_of_pos hhas, ← ih (nextTs clock).1]
        rfl
      · rw [List.filter_cons_of_neg hhas, ih]

theorem removeOps_clock (s : Store) (clock : Clock) (ids : List JsString) :
    clock.c ≤ (removeOps s db coll clock ids).1.c := by
  induction ids generalizing clock with
  | nil => exact le_rfl
  | cons id ids ih =>
      rw [removeOps]
      split_ifs
      · exact (Nat.le_succ clock.c).trans (ih (nextTs clock).1)
      · exact ih clock

theorem removeOps_drafted (s : Store) (clock : Clock) (ids : List JsString) :
    ∀ op ∈ (removeOps s db coll clock ids).2, op.db = db ∧ op.coll = coll ∧ op.kind = .delObj ∧
      clock.c < op.ts.c ∧ op.ts.c ≤ (removeOps s db coll clock ids).1.c := by
  induction ids generalizing clock with
  | nil => exact fun _ hop => nomatch hop
  | cons id ids ih =>
      rw [removeOps]
      split_ifs
      · intro op hop
        rcases List.mem_cons.mp hop with rfl | hop
        · exact ⟨rfl, rfl, rfl, Nat.lt_succ_self clock.c, removeOps_clock s (nextTs clock).1 ids⟩
        · rcases ih (nextTs clock).1 op hop with ⟨hdb, hcoll, hkind, hlt, hle⟩
          exact ⟨hdb, hcoll, hkind, (Nat.lt_succ_self clock.c).trans hlt, hle⟩
      · exact ih clock

/-! ## Logged operations -/

/-- The operations as they are logged. -/
def numbered (n : CRDTNode) (ops : List Op) : List Op :=
  ops.mapIdx fun i op => { op with shard := some (n.shardOf op), seq := n.seq + 1 + i }

/-- The node that has logged the operations. -/
def withLogged (n : CRDTNode) (ops : List Op) : CRDTNode :=
  { n with
    seq := n.seq + ops.length
    log := if n.operationLog then n.log ++ n.numbered ops else n.log }

theorem logOps_eq (ops : List Op) (n : CRDTNode) :
    n.logOps ops = (n.withLogged ops, n.numbered ops) := by
  induction ops generalizing n with
  | nil =>
      rw [logOps]
      simp [numbered, withLogged]
  | cons op ops ih =>
      have hnumbered : (n.logOp op).1.numbered ops = ops.mapIdx fun i op =>
          { op with shard := some (n.shardOf op), seq := n.seq + 1 + (i + 1) } := by
        rw [numbered]
        refine congrArg (fun f => List.mapIdx f ops) (funext fun i => funext fun op => ?_)
        rw [logOp]
        have hseq : n.seq + 1 + 1 + i = n.seq + 1 + (i + 1) := by omega
        simp only [shardOf, hseq]
      rw [logOps]
      dsimp only
      rw [ih, hnumbered, numbered, List.mapIdx_cons, withLogged, withLogged, hnumbered, numbered,
        List.mapIdx_cons, logOp]
      cases hlog : n.operationLog with
      | false => simp [Nat.add_comm, Nat.add_left_comm]
      | true => simp [Nat.add_comm, Nat.add_left_comm]

theorem mem_numbered {ops : List Op} {op : Op} (h : op ∈ n.numbered ops) :
    ∃ drafted ∈ ops, ∃ shard seq, op = { drafted with shard := shard, seq := seq } := by
  rcases List.mem_mapIdx.mp h with ⟨i, hi, rfl⟩
  exact ⟨ops[i], List.getElem_mem hi, _, _, rfl⟩

theorem numbered_ids (ops : List Op) : (n.numbered ops).map Op.id = ops.map Op.id := by
  refine List.ext_getElem ?_ ?_
  · simp [numbered]
  · intro i _ _
    simp [numbered]

/-! ## What a local write does -/

theorem assertUniqueIds_ok {seen ids : List JsString} (h : assertUniqueIds seen ids = .ok ()) :
    ids.Nodup ∧ ∀ id ∈ ids, id ∉ seen := by
  induction ids generalizing seen with
  | nil => exact ⟨List.nodup_nil, fun _ hid => nomatch hid⟩
  | cons id ids ih =>
      rw [assertUniqueIds] at h
      split_ifs at h with hseen
      rcases ih h with ⟨hnodup, hnew⟩
      refine ⟨List.nodup_cons.mpr ⟨fun hid => hnew id hid (by simp), hnodup⟩, ?_⟩
      intro id' hid'
      rcases List.mem_cons.mp hid' with rfl | hid'
      · exact hseen
      · exact fun hmem => hnew id' hid' (List.mem_append_left _ hmem)

/-- The ids of a bulk request: no two are the same and none is empty. -/
structure GoodIds (ids : List JsString) : Prop where
  nodup : ids.Nodup
  ne : ∀ id ∈ ids, id ≠ []

theorem insertItem_ne {generated : Nat → JsString} {object : Option Json} {index : Nat}
    {item : JsString × Fields} (h : insertItem generated object index = .ok item) :
    item.1 ≠ [] := by
  rw [insertItem] at h
  split_ifs at h with hempty
  cases h
  exact hempty

theorem itemWithId_ne {object : Option Json} {index : Nat} {item : JsString × Fields}
    (h : itemWithId object index = .ok item) : item.1 ≠ [] := by
  unfold itemWithId at h
  split at h
  · split at h
    · cases h
    · cases h
    · rename_i id hne _
      cases h
      exact hne
  · cases h

theorem normalizeId_ne {rawId : Option Json} {index : Nat} {id : JsString}
    (h : normalizeId rawId index = .ok id) : id ≠ [] := by
  rw [normalizeId] at h
  split_ifs at h with hempty
  cases h
  exact hempty

theorem forall_of_mapM {α β : Type} {f : α → Except NodeError β} {P : β → Prop} {xs : List α}
    {ys : List β} (h : xs.mapM f = .ok ys) (hf : ∀ x y, f x = .ok y → P y) : ∀ y ∈ ys, P y := by
  have hall := Fallible.forall₂_mapM h
  clear h
  induction hall with
  | nil => exact fun _ hy => nomatch hy
  | cons hxy _ ih =>
      intro y hy
      rcases List.mem_cons.mp hy with rfl | hy
      · exact hf _ _ hxy
      · exact ih y hy

theorem normalizeInsertObjects_ok {generated : Nat → JsString} {objects : List (Option Json)}
    {items : List (JsString × Fields)} (h : normalizeInsertObjects generated objects = .ok items) :
    GoodIds (items.map Prod.fst) := by
  rcases Fallible.bind_eq_ok.mp h with ⟨items', hitems, h⟩
  rcases Fallible.bind_eq_ok.mp h with ⟨_, hunique, h⟩
  cases Fallible.pure_eq_ok.mp h
  refine ⟨(assertUniqueIds_ok hunique).1, ?_⟩
  exact List.forall_mem_map.mpr (forall_of_mapM hitems fun _ _ => insertItem_ne)

theorem normalizeObjectsWithIds_ok {objects : Option (List (Option Json))}
    {items : List (JsString × Fields)} (h : normalizeObjectsWithIds objects = .ok items) :
    GoodIds (items.map Prod.fst) := by
  cases objects with
  | none => cases h
  | some objects =>
      rcases Fallible.bind_eq_ok.mp h with ⟨items', hitems, h⟩
      rcases Fallible.bind_eq_ok.mp h with ⟨_, hunique, h⟩
      cases Fallible.pure_eq_ok.mp h
      refine ⟨(assertUniqueIds_ok hunique).1, ?_⟩
      exact List.forall_mem_map.mpr (forall_of_mapM hitems fun _ _ => itemWithId_ne)

theorem normalizeIds_ok {ids : Option (List (Option Json))} {normalized : List JsString}
    (h : normalizeIds ids = .ok normalized) : GoodIds normalized := by
  cases ids with
  | none => cases h
  | some ids =>
      rcases Fallible.bind_eq_ok.mp h with ⟨normalized', hids, h⟩
      rcases Fallible.bind_eq_ok.mp h with ⟨_, hunique, h⟩
      cases Fallible.pure_eq_ok.mp h
      exact ⟨(assertUniqueIds_ok hunique).1, forall_of_mapM hids fun _ _ => normalizeId_ne⟩

/-- The ids that a write asks for. -/
def LocalWrite.ids : LocalWrite → Except NodeError (List JsString)
  | .insert generated objects => (normalizeInsertObjects generated objects).map (·.map Prod.fst)
  | .replace objects => (normalizeObjectsWithIds objects).map (·.map Prod.fst)
  | .update objects => (normalizeObjectsWithIds objects).map (·.map Prod.fst)
  | .remove ids => normalizeIds ids

/-- The objects that a write changes, of those it asks for. -/
def LocalWrite.targets (s : Store) (db coll : JsString) (ids : List JsString) :
    LocalWrite → List JsString
  | .remove _ => ids.filter fun id => has s db coll id
  | _ => ids

/-- A local write throws before anything is committed, or commits puts of all its items, or
deletes of those of its ids that are there. -/
inductive Outcome (n : CRDTNode) (db coll : JsString) (w : LocalWrite) :
    CRDTNode × Except NodeError Committed → Prop
  | thrown {m err} (hdrafting : Drafting n m) : Outcome n db coll w (m, .error err)
  | puts {m items ops} (hdrafting : Drafting n m) (hcollection : ∃ c, n.db.collection db coll = .ok c)
      (hops : List.Forall₂ (Drafted n db coll) items ops) (hclock : ∀ op ∈ ops, op.ts.c ≤ m.clock.c)
      (hput : ∀ s ids, w.targets s db coll ids = ids)
      (hids : w.ids = .ok (items.map Prod.fst)) (hgood : GoodIds (items.map Prod.fst)) :
      Outcome n db coll w (m.commitLocalOps ops)
  | deletes {m ids ops} (hdrafting : Drafting n m) (hdb : m.db = n.db)
      (hops : ∀ op ∈ ops, op.db = db ∧ op.coll = coll ∧ op.kind = .delObj ∧ n.clock.c < op.ts.c ∧
        op.ts.c ≤ m.clock.c)
      (hdeleted : ops.map Op.id = ids.filter fun id => has n.db db coll id)
      (hremove : ∃ raw, w = .remove raw) (hids : w.ids = .ok ids) (hgood : GoodIds ids) :
      Outcome n db coll w (m.commitLocalOps ops)

theorem Forall₂.drafted_of_drafting {items : List (JsString × Fields)} {ops : List Op}
    (hn : Drafting n n') (h : List.Forall₂ (Drafted n' db coll) items ops) :
    List.Forall₂ (Drafted n db coll) items ops :=
  h.imp fun _ _ hop => hop.of_drafting hn

/-- The common part of the puts: the ids are those the write asks for. -/
theorem writeMany_outcome {w : LocalWrite} {m : CRDTNode} (db coll : JsString)
    (items : List (JsString × Fields))
    (hdrafting : Drafting n m) (hput : ∀ s ids, w.targets s db coll ids = ids)
    (hids : w.ids = .ok (items.map Prod.fst)) (hgood : GoodIds (items.map Prod.fst)) : Outcome n db coll w (m.writeMany db coll items) := by
  rw [writeMany]
  cases hcollection : m.db.collection db coll with
  | error err => exact .thrown hdrafting
  | ok c =>
      have hwrite := writeOps_drafting items m db coll
      dsimp only
      cases hresult : m.writeOps db coll items with
      | mk m' result =>
          rw [hresult] at hwrite
          cases result with
          | error err => exact .thrown (hdrafting.trans hwrite)
          | ok ops =>
              rcases writeOps_drafted hresult with ⟨hops, hclock⟩
              exact .puts (hdrafting.trans hwrite)
                ⟨c, (hdrafting.like.collection db coll).symm.trans hcollection⟩
                (Forall₂.drafted_of_drafting hdrafting hops) hclock hput hids hgood

theorem preserveVectors_ids {merge : JsString → Fields → Fields}
    {items values : List (JsString × Fields)}
    (h : n.preserveVectors db coll merge items = (n', .ok values)) :
    values.map Prod.fst = items.map Prod.fst := by
  induction items generalizing n values with
  | nil =>
      cases h
      rfl
  | cons item items ih =>
      rw [preserveVectors] at h
      cases hopen : n.db.openCollection db coll with
      | mk s result =>
          rw [hopen] at h
          cases result with
          | error err => cases h
          | ok =>
              dsimp only at h
              cases hrest : preserveVectors { n with db := s } db coll merge items with
              | mk m rest =>
                  rw [hrest] at h
                  cases rest with
                  | error err => cases h
                  | ok rest =>
                      cases h
                      rw [List.map_cons, List.map_cons, ih hrest]

theorem commitInsertMany_outcome (n : CRDTNode) (db coll : JsString) (generated : Nat → JsString)
    (objects : List (Option Json)) :
    Outcome n db coll (.insert generated objects)
      ((n.commitInsertMany db coll generated objects).1,
        (n.commitInsertMany db coll generated objects).2.map Prod.snd) := by
  rw [commitInsertMany]
  cases hitems : normalizeInsertObjects generated objects with
  | error err => exact .thrown (.refl n)
  | ok items =>
      have hopen := drafting_openCollection n db coll
      dsimp only
      cases hresult : n.db.openCollection db coll with
      | mk s result =>
          rw [hresult] at hopen
          cases result with
          | error err => exact .thrown hopen
          | ok =>
              dsimp only
              split
              · exact .thrown hopen
              · have hwrite := writeMany_outcome db coll items
                  (w := .insert generated objects) hopen (fun _ _ => rfl)
                  (by rw [LocalWrite.ids, hitems]; rfl) (normalizeInsertObjects_ok hitems)
                cases hmany : writeMany { n with db := s } db coll items with
                | mk m outcome =>
                    rw [hmany] at hwrite
                    cases outcome <;> exact hwrite

theorem insert_outcome (n : CRDTNode) (db coll : JsString) (generated : Nat → JsString)
    (objects : List (Option Json)) :
    Outcome n db coll (.insert generated objects)
      ((LocalWrite.insert generated objects).apply n db coll) := by
  have hcommit := commitInsertMany_outcome n db coll generated objects
  rw [LocalWrite.apply, insertMany]
  cases hresult : n.commitInsertMany db coll generated objects with
  | mk m result =>
      rw [hresult] at hcommit
      cases result <;> exact hcommit

theorem replace_outcome (n : CRDTNode) (db coll : JsString)
    (objects : Option (List (Option Json))) :
    Outcome n db coll (.replace objects) ((LocalWrite.replace objects).apply n db coll) := by
  rw [LocalWrite.apply, replaceMany]
  cases hitems : normalizeObjectsWithIds objects with
  | error err => exact .thrown (.refl n)
  | ok items =>
      have hpreserve := preserveVectors_drafting (fun _ value => value) items n db coll
      dsimp only
      cases hvalues : n.preserveVectors db coll (fun _ value => value) items with
      | mk m result =>
          rw [hvalues] at hpreserve
          cases result with
          | error err => exact .thrown hpreserve
          | ok values =>
              have hsame := preserveVectors_ids hvalues
              have hwrite := writeMany_outcome db coll values (w := .replace objects) hpreserve
                (fun _ _ => rfl) (by rw [LocalWrite.ids, hitems, hsame]; rfl)
                (hsame ▸ normalizeObjectsWithIds_ok hitems)
              dsimp only
              cases hmany : m.writeMany db coll values with
              | mk m' outcome =>
                  rw [hmany] at hwrite
                  cases outcome <;> exact hwrite

theorem update_outcome (n : CRDTNode) (db coll : JsString)
    (objects : Option (List (Option Json))) :
    Outcome n db coll (.update objects) ((LocalWrite.update objects).apply n db coll) := by
  rw [LocalWrite.apply, updateMany]
  cases hitems : normalizeObjectsWithIds objects with
  | error err => exact .thrown (.refl n)
  | ok items =>
      have hpreserve := preserveVectors_drafting (mergeOver n.db db coll) items n db coll
      dsimp only
      cases hvalues : n.preserveVectors db coll (mergeOver n.db db coll) items with
      | mk m result =>
          rw [hvalues] at hpreserve
          cases result with
          | error err => exact .thrown hpreserve
          | ok values =>
              have hsame := preserveVectors_ids hvalues
              have hwrite := writeMany_outcome db coll values (w := .update objects) hpreserve
                (fun _ _ => rfl) (by rw [LocalWrite.ids, hitems, hsame]; rfl)
                (hsame ▸ normalizeObjectsWithIds_ok hitems)
              dsimp only
              cases hmany : m.writeMany db coll values with
              | mk m' outcome =>
                  rw [hmany] at hwrite
                  cases outcome <;> exact hwrite

theorem remove_outcome (n : CRDTNode) (db coll : JsString) (ids : Option (List (Option Json))) :
    Outcome n db coll (.remove ids) ((LocalWrite.remove ids).apply n db coll) := by
  rw [LocalWrite.apply, removeMany]
  cases hids : normalizeIds ids with
  | error err => exact .thrown (.refl n)
  | ok normalized =>
      have hdrafting : Drafting n { n with
          clock := (removeOps n.db db coll n.clock normalized).1 } :=
        ⟨.refl n.db, removeOps_clock n.db n.clock normalized, rfl, rfl, rfl, rfl, rfl⟩
      have hdeletes : Outcome n db coll (.remove ids) (commitLocalOps { n with
          clock := (removeOps n.db db coll n.clock normalized).1 }
          (removeOps n.db db coll n.clock normalized).2) :=
        .deletes hdrafting rfl (removeOps_drafted n.db n.clock normalized)
          (removeOps_ids n.db n.clock normalized) ⟨ids, rfl⟩ hids (normalizeIds_ok hids)
      dsimp only
      cases hresult : commitLocalOps { n with
          clock := (removeOps n.db db coll n.clock normalized).1 }
          (removeOps n.db db coll n.clock normalized).2 with
      | mk m result =>
          rw [hresult] at hdeletes
          cases result <;> exact hdeletes

theorem LocalWrite.apply_outcome (n : CRDTNode) (db coll : JsString) (w : LocalWrite) :
    Outcome n db coll w (w.apply n db coll) := by
  cases w with
  | insert generated objects => exact insert_outcome n db coll generated objects
  | replace objects => exact replace_outcome n db coll objects
  | update objects => exact update_outcome n db coll objects
  | remove ids => exact remove_outcome n db coll ids

end CRDTNode
end ObjyDb
