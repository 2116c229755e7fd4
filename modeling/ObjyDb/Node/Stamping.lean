import ObjyDb.Node.Commits

/-!
# Stamping — the timestamps of local writes

A local write draws a new timestamp for each of its operations, one after the other, and leaves the
replication cursors of the node alone.

- `CRDTNode.Steady`: what no local write changes
- `CRDTNode.Stamps`: operations stamped between two readings of a clock
- `CRDTNode.LocalWrite.apply_committed`
-/

namespace ObjyDb

open Js

namespace CRDTNode

variable {n n' n'' : CRDTNode} {db coll : JsString}

/-! ## What a write leaves alone -/

structure Steady (n n' : CRDTNode) : Prop where
  clockName : n'.clock.n = n.clock.n
  lastSeen : n'.lastSeen = n.lastSeen
  id : n'.id = n.id

theorem Steady.refl (n : CRDTNode) : Steady n n := ⟨rfl, rfl, rfl⟩

theorem Steady.trans (h : Steady n n') (h' : Steady n' n'') : Steady n n'' where
  clockName := h'.clockName.trans h.clockName
  lastSeen := h'.lastSeen.trans h.lastSeen
  id := h'.id.trans h.id

theorem prepareWriteValue_steady (n : CRDTNode) (db coll : JsString) (value : Fields) :
    Steady n (n.prepareWriteValue db coll value).1 := by
  rw [prepareWriteValue]
  split
  · exact ⟨rfl, rfl, rfl⟩
  · split <;> exact ⟨rfl, rfl, rfl⟩

theorem steady_tick (n : CRDTNode) : Steady n { n with clock := (nextTs n.clock).1 } :=
  ⟨rfl, rfl, rfl⟩

theorem writeOps_steady (items : List (JsString × Fields)) (n : CRDTNode) (db coll : JsString) :
    Steady n (n.writeOps db coll items).1 := by
  induction items generalizing n with
  | nil => exact .refl n
  | cons item items ih =>
      have hprepare := prepareWriteValue_steady n db coll item.2
      rw [writeOps]
      cases hprepared : n.prepareWriteValue db coll item.2 with
      | mk m result =>
          rw [hprepared] at hprepare
          cases result with
          | error err => exact hprepare
          | ok prepared =>
              have hmore := (hprepare.trans (steady_tick m)).trans (ih _)
              dsimp only
              cases hrest : writeOps { m with clock := (nextTs m.clock).1 } db coll items with
              | mk m' rest =>
                  rw [hrest] at hmore
                  cases rest <;> exact hmore

theorem preserveVectors_steady (merge : JsString → Fields → Fields)
    (items : List (JsString × Fields)) (n : CRDTNode) (db coll : JsString) :
    Steady n (n.preserveVectors db coll merge items).1 := by
  induction items generalizing n with
  | nil => exact .refl n
  | cons item items ih =>
      rw [preserveVectors]
      cases hopen : n.db.openCollection db coll with
      | mk s result =>
          cases result with
          | error err => exact ⟨rfl, rfl, rfl⟩
          | ok =>
              have hmore := ih { n with db := s }
              dsimp only
              cases hrest : preserveVectors { n with db := s } db coll merge items with
              | mk m rest =>
                  rw [hrest] at hmore
                  cases rest <;> exact ⟨hmore.clockName, hmore.lastSeen, hmore.id⟩

theorem notifyOps_steady (n : CRDTNode) (ops : List Op) : Steady n (n.notifyOps ops) := by
  rw [notifyOps]
  split_ifs
  · exact .refl n
  · exact ⟨rfl, rfl, rfl⟩

theorem commitLocalOps_steady (n : CRDTNode) (ops : List Op) :
    Steady n (n.commitLocalOps ops).1 := by
  rw [commitLocalOps, logOps_eq]
  dsimp only
  cases (n.withLogged ops).applyOps (n.numbered ops) with
  | mk s result =>
      cases result with
      | error err => exact ⟨rfl, rfl, rfl⟩
      | ok applied =>
          have hnotify := notifyOps_steady { n.withLogged ops with db := s } applied
          exact ⟨hnotify.clockName, hnotify.lastSeen, hnotify.id⟩

/-! ## Timestamps -/

/-- The operations have timestamps that the clock drew one after the other. -/
structure Stamps (before after : Clock) (ops : List Op) : Prop where
  ascending : ops.Pairwise fun a b => a.ts.c < b.ts.c
  named : ∀ op ∈ ops, op.ts.n = before.n
  between : ∀ op ∈ ops, before.c < op.ts.c ∧ op.ts.c ≤ after.c

theorem stamps_nil (before after : Clock) : Stamps before after [] :=
  ⟨.nil, by simp, by simp⟩

/-- The clock is read earlier. -/
theorem Stamps.of_le {before before' after : Clock} {ops : List Op} (h : Stamps before' after ops)
    (hname : before'.n = before.n) (hle : before.c ≤ before'.c) : Stamps before after ops where
  ascending := h.ascending
  named := fun op hop => (h.named op hop).trans hname
  between := fun op hop => ⟨hle.trans_lt (h.between op hop).1, (h.between op hop).2⟩

/-- One more operation is stamped, before the others. -/
theorem Stamps.cons {clock after : Clock} {op : Op} {ops : List Op}
    (h : Stamps (nextTs clock).1 after ops) (hts : op.ts = (nextTs clock).2)
    (hle : (nextTs clock).1.c ≤ after.c) : Stamps clock after (op :: ops) where
  ascending := by
    refine List.pairwise_cons.mpr ⟨?_, h.ascending⟩
    intro other hother
    rw [hts]
    exact (h.between other hother).1
  named := by
    intro other hother
    rcases List.mem_cons.mp hother with rfl | hother
    · rw [hts]
      rfl
    · exact h.named other hother
  between := by
    intro other hother
    rcases List.mem_cons.mp hother with rfl | hother
    · rw [hts]
      exact ⟨Nat.lt_succ_self clock.c, hle⟩
    · have hbetween := h.between other hother
      exact ⟨(Nat.lt_succ_self clock.c).trans hbetween.1, hbetween.2⟩

theorem writeOps_stamps {items : List (JsString × Fields)} {ops : List Op}
    (h : n.writeOps db coll items = (n', .ok ops)) : Stamps n.clock n'.clock ops := by
  induction items generalizing n ops with
  | nil =>
      cases h
      exact stamps_nil _ _
  | cons item items ih =>
      rw [writeOps] at h
      cases hprepared : n.prepareWriteValue db coll item.2 with
      | mk m result =>
          rw [hprepared] at h
          cases result with
          | error err => cases h
          | ok prepared =>
              have hclock := (prepareWriteValue_ok hprepared).2.1
              have hafter := writeOps_drafting items { m with clock := (nextTs m.clock).1 } db coll
              dsimp only at h
              cases hrest : writeOps { m with clock := (nextTs m.clock).1 } db coll items with
              | mk m' rest =>
                  rw [hrest] at h hafter
                  cases rest with
                  | error err => cases h
                  | ok more =>
                      cases h
                      rw [← hclock]
                      exact (ih hrest).cons rfl hafter.clock

theorem removeOps_stamps (s : Store) (ids : List JsString) (clock : Clock) :
    Stamps clock (removeOps s db coll clock ids).1 (removeOps s db coll clock ids).2 := by
  induction ids generalizing clock with
  | nil => exact stamps_nil _ _
  | cons id ids ih =>
      rw [removeOps]
      split_ifs
      · exact (ih (nextTs clock).1).cons rfl (removeOps_clock s (nextTs clock).1 ids)
      · exact ih clock

theorem removeOps_clockName (s : Store) (ids : List JsString) (clock : Clock) :
    (removeOps s db coll clock ids).1.n = clock.n := by
  induction ids generalizing clock with
  | nil => rfl
  | cons id ids ih =>
      rw [removeOps]
      split_ifs
      · exact ih (nextTs clock).1
      · exact ih clock

/-- A delete has no value. -/
theorem removeOps_storedValue (s : Store) (ids : List JsString) (clock : Clock) :
    ∀ op ∈ (removeOps s db coll clock ids).2, op.storedValue = [] := by
  induction ids generalizing clock with
  | nil => simp [removeOps]
  | cons id ids ih =>
      rw [removeOps]
      split_ifs
      · intro op hop
        rcases List.mem_cons.mp hop with rfl | hop
        · rfl
        · exact ih (nextTs clock).1 op hop
      · exact ih clock

/-! ## Writes that are committed -/

/-- What is known of an operation before it is logged. -/
structure DraftedOn (n : CRDTNode) (db coll : JsString) (op : Op) : Prop where
  db_eq : op.db = db
  coll_eq : op.coll = coll
  vector : ValidVector (n.db.collectionOf db coll).vectorField op.storedValue

/-- A local write throws with nothing committed, or commits operations that it stamped. -/
inductive CommitOf (n : CRDTNode) (db coll : JsString) :
    CRDTNode × Except NodeError Committed → Prop
  | thrown {m err} (hdrafting : Drafting n m) (hsteady : Steady n m) :
      CommitOf n db coll (m, .error err)
  | committed {m ops} (hdrafting : Drafting n m) (hsteady : Steady n m)
      (hstamps : Stamps n.clock m.clock ops) (hops : ∀ op ∈ ops, DraftedOn n db coll op) :
      CommitOf n db coll (m.commitLocalOps ops)

theorem writeMany_committed {m : CRDTNode} (hdrafting : Drafting n m) (hsteady : Steady n m)
    (db coll : JsString) (items : List (JsString × Fields)) :
    CommitOf n db coll (m.writeMany db coll items) := by
  rw [writeMany]
  cases m.db.collection db coll with
  | error err => exact .thrown hdrafting hsteady
  | ok c =>
      have hwrite := writeOps_drafting items m db coll
      have hwriteSteady := writeOps_steady items m db coll
      dsimp only
      cases hresult : m.writeOps db coll items with
      | mk m' result =>
          rw [hresult] at hwrite hwriteSteady
          cases result with
          | error err => exact .thrown (hdrafting.trans hwrite) (hsteady.trans hwriteSteady)
          | ok ops =>
              refine .committed (hdrafting.trans hwrite) (hsteady.trans hwriteSteady)
                ((writeOps_stamps hresult).of_le hsteady.clockName hdrafting.clock) ?_
              intro op hop
              have hdrafted := Forall₂.drafted_of_drafting hdrafting (writeOps_drafted hresult).1
              rcases drafted_of_mem hdrafted hop with ⟨item, hitem⟩
              exact ⟨hitem.db_eq, hitem.coll_eq, hitem.vector⟩

theorem LocalWrite.apply_committed (n : CRDTNode) (db coll : JsString) (w : LocalWrite) :
    CommitOf n db coll (w.apply n db coll) := by
  cases w with
  | insert generated objects =>
      rw [LocalWrite.apply, insertMany, commitInsertMany]
      cases normalizeInsertObjects generated objects with
      | error err => exact .thrown (.refl n) (.refl n)
      | ok items =>
          -- the collection is opened before the identifiers are looked up in it
          have hopen := drafting_openCollection n db coll
          dsimp only
          cases hresult : n.db.openCollection db coll with
          | mk s result =>
              rw [hresult] at hopen
              cases result with
              | error err => exact .thrown hopen ⟨rfl, rfl, rfl⟩
              | ok =>
                  dsimp only
                  cases items.find? fun item => has s db coll item.1 with
                  | some item => exact .thrown hopen ⟨rfl, rfl, rfl⟩
                  | none =>
                      have hwrite := writeMany_committed hopen ⟨rfl, rfl, rfl⟩ db coll items
                      dsimp only at hwrite ⊢
                      cases hmany : writeMany { n with db := s } db coll items with
                      | mk m outcome =>
                          rw [hmany] at hwrite
                          cases outcome <;> exact hwrite
  | replace objects =>
      rw [LocalWrite.apply, replaceMany]
      cases normalizeObjectsWithIds objects with
      | error err => exact .thrown (.refl n) (.refl n)
      | ok items =>
          have hpreserve := preserveVectors_drafting (fun _ value => value) items n db coll
          have hsteady := preserveVectors_steady (fun _ value => value) items n db coll
          dsimp only
          cases hvalues : n.preserveVectors db coll (fun _ value => value) items with
          | mk m result =>
              rw [hvalues] at hpreserve hsteady
              cases result with
              | error err => exact .thrown hpreserve hsteady
              | ok values =>
                  have hwrite := writeMany_committed hpreserve hsteady db coll values
                  dsimp only
                  cases hmany : m.writeMany db coll values with
                  | mk m' outcome =>
                      rw [hmany] at hwrite
                      cases outcome <;> exact hwrite
  | update objects =>
      rw [LocalWrite.apply, updateMany]
      cases normalizeObjectsWithIds objects with
      | error err => exact .thrown (.refl n) (.refl n)
      | ok items =>
          -- as a replacement, of the objects merged over the stored ones
          have hpreserve := preserveVectors_drafting (mergeOver n.db db coll) items n db coll
          have hsteady := preserveVectors_steady (mergeOver n.db db coll) items n db coll
          dsimp only
          cases hvalues : n.preserveVectors db coll (mergeOver n.db db coll) items with
          | mk m result =>
              rw [hvalues] at hpreserve hsteady
              cases result with
              | error err => exact .thrown hpreserve hsteady
              | ok values =>
                  have hwrite := writeMany_committed hpreserve hsteady db coll values
                  dsimp only
                  cases hmany : m.writeMany db coll values with
                  | mk m' outcome =>
                      rw [hmany] at hwrite
                      cases outcome <;> exact hwrite
  | remove ids =>
      rw [LocalWrite.apply, removeMany]
      cases normalizeIds ids with
      | error err => exact .thrown (.refl n) (.refl n)
      | ok normalized =>
          have hdrafting : Drafting n { n with
              clock := (removeOps n.db db coll n.clock normalized).1 } :=
            ⟨.refl n.db, removeOps_clock n.db n.clock normalized, rfl, rfl, rfl, rfl, rfl⟩
          have hdeletes : CommitOf n db coll (commitLocalOps { n with
              clock := (removeOps n.db db coll n.clock normalized).1 }
              (removeOps n.db db coll n.clock normalized).2) := by
            refine .committed hdrafting ⟨removeOps_clockName n.db normalized n.clock, rfl, rfl⟩
              (removeOps_stamps n.db normalized n.clock) ?_
            intro op hop
            rcases removeOps_drafted n.db n.clock normalized op hop with ⟨hdb, hcoll, _⟩
            exact ⟨hdb, hcoll, by
              rw [removeOps_storedValue n.db normalized n.clock op hop]
              exact validVector_nil _⟩
          dsimp only
          cases hresult : commitLocalOps { n with
              clock := (removeOps n.db db coll n.clock normalized).1 }
              (removeOps n.db db coll n.clock normalized).2 with
          | mk m result =>
              rw [hresult] at hdeletes
              cases result <;> exact hdeletes

theorem LocalWrite.apply_steady (n : CRDTNode) (db coll : JsString) (w : LocalWrite) :
    Steady n (w.apply n db coll).1 := by
  have hcommit := w.apply_committed n db coll
  generalize w.apply n db coll = result at hcommit
  cases hcommit with
  | thrown _ hsteady => exact hsteady
  | committed _ hsteady _ _ => exact hsteady.trans (commitLocalOps_steady _ _)

end CRDTNode
end ObjyDb
