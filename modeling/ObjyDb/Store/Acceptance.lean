import ObjyDb.Store.Convergence
import ObjyDb.Store.Stamps
import ObjyDb.Store.Tombstones

/-!
# Acceptance — batches that are newer than everything stored

A batch of rows of different objects, each newer than what its object holds, is accepted as a
whole, and each row becomes the newest of its object.  In a store the operations of such a batch
form one run when the names of the database and the collection contain no NUL.

- `Collection.putRows_accepts`, `Collection.deleteRows_accepts`
- `Store.Like`: stores that differ in empty collections only
- `Store.applyOps_puts`, `Store.applyOps_deletes`
-/

namespace ObjyDb

open Js

namespace Collection

variable {c d : Collection} {ω : Type}

/-! ## Rows -/

/-- Whatever the object holds is older than the row. -/
def NewerThanHeld (c : Collection) (row : Row ω) : Prop :=
  ∀ m, Assoc.get? c.objects row.id = some m → Older m row.ts

theorem Older.last {m : RowMeta} {ts : Ts} (h : Older m ts) :
    ∀ last, m.deleted.or m.ts = some last → last < ts := by
  intro last hlast
  rcases Option.or_eq_some_iff.mp hlast with hdeleted | ⟨-, hts⟩
  · exact h.deleted hdeleted
  · exact h.written hts

theorem NewerThanHeld.entered {row : Row ω} (h : c.NewerThanHeld row) {m : RowMeta}
    (he : Entered c row.id d m) : Older m row.ts := by
  rcases he.fresh with hheld | ⟨-, hts, hdeleted, -⟩
  · exact h m hheld
  · exact ⟨fun hd => (nomatch hdeleted.symm.trans hd), fun ht => (nomatch hts.symm.trans ht)⟩

theorem NewerThanHeld.elsewhere {row : Row ω} (h : c.NewerThanHeld row)
    (hentry : Assoc.get? d.objects row.id = Assoc.get? c.objects row.id) : d.NewerThanHeld row := by
  intro m hm
  exact h m (hentry ▸ hm)

theorem putObject_accepts (keep : Bool) {row : Row ω} (h : c.NewerThanHeld row)
    (hvalid : ValidVector c.vectorField row.value) :
    ∃ d delta, c.putObject row keep = (d, .ok (some delta)) ∧ d.vectorField = c.vectorField ∧
      (∃ m, Assoc.get? d.objects row.id = some m ∧ m.ts = some row.ts ∧ m.deleted = none) ∧
      ∀ id, id ≠ row.id → Assoc.get? d.objects id = Assoc.get? c.objects id := by
  have he := ensureMeta_entered c row.id
  cases hensure : c.ensureMeta row.id with
  | mk d m =>
      rw [hensure] at he
      rcases prepareStoredValue_valid he.same.vectorField hvalid with ⟨vector, hprepared, -⟩
      rcases c.putObject_cases row keep hensure with
        ⟨hnot, -⟩ | ⟨-, err, herr, -⟩ | ⟨-, value, vector', after, next, -, hts, hdeleted, -,
          hcounted, -, heq⟩
      · exact absurd (h.entered he) hnot
      · cases hprepared.symm.trans herr
      · have hobjects : after.objects = Assoc.set d.objects row.id next :=
          (objects_counted hcounted).trans (objects_overwrite ..)
        refine ⟨after, _, heq, ?_, ⟨next, ?_, hts, hdeleted⟩, ?_⟩
        · calc after.vectorField = (d.overwrite row.id next (d.putBase keep value) vector').vectorField :=
                hcounted.sameDerived.vectorField
            _ = d.vectorField := (sameDerived_overwrite ..).vectorField
            _ = c.vectorField := he.same.vectorField
        · rw [hobjects, Assoc.get?_set, if_pos rfl]
        · intro id hne
          rw [hobjects, Assoc.get?_set, if_neg hne.symm]
          exact he.elsewhere hne

/-- Rows of different objects, each newer than what its object holds, are all accepted. -/
theorem putRows_accepts (keep : Bool) (rows : List (Row ω))
    (hnodup : (rows.map Row.id).Nodup) (hnewer : ∀ row ∈ rows, c.NewerThanHeld row)
    (hvalid : ∀ row ∈ rows, ValidVector c.vectorField row.value) :
    ∃ d deltas, putRows keep c rows = (d, .ok (rows, deltas)) ∧
      (∀ row ∈ rows, ∃ m, Assoc.get? d.objects row.id = some m ∧ m.ts = some row.ts ∧
        m.deleted = none) ∧
      ∀ id, id ∉ rows.map Row.id → Assoc.get? d.objects id = Assoc.get? c.objects id := by
  induction rows generalizing c with
  | nil => exact ⟨c, [], rfl, (fun _ hrow => nomatch hrow), fun _ _ => rfl⟩
  | cons row rest ih =>
      rcases List.nodup_cons.mp hnodup with ⟨hrow, hrest⟩
      rcases putObject_accepts keep (hnewer row List.mem_cons_self)
        (hvalid row List.mem_cons_self) with ⟨d, delta, hput, hfield, hhere, helsewhere⟩
      have hother : ∀ r ∈ rest, r.id ≠ row.id := fun r hr heq =>
        hrow (heq ▸ List.mem_map_of_mem hr)
      rcases ih hrest
          (fun r hr => (hnewer r (List.mem_cons_of_mem _ hr)).elsewhere
            (helsewhere r.id (hother r hr)))
          (fun r hr => hfield ▸ hvalid r (List.mem_cons_of_mem _ hr)) with
        ⟨e, deltas, hmore, hwritten, hkept⟩
      refine ⟨e, delta :: deltas, ?_, ?_, ?_⟩
      · simp only [putRows, hput, hmore]
      · intro r hr
        rcases List.mem_cons.mp hr with rfl | hr
        · rw [hkept r.id hrow]
          exact hhere
        · exact hwritten r hr
      · intro id hid
        rw [List.map_cons, List.mem_cons, not_or] at hid
        rw [hkept id hid.2, helsewhere id hid.1]

theorem deleteObject_accepts {row : Row ω} (h : c.NewerThanHeld row) :
    ∃ d delta, c.deleteObject row = (d, some delta) ∧
      (∃ m, Assoc.get? d.objects row.id = some m ∧ m.deleted = some row.ts) ∧
      ∀ id, id ≠ row.id → Assoc.get? d.objects id = Assoc.get? c.objects id := by
  have he := ensureMeta_entered c row.id
  cases hensure : c.ensureMeta row.id with
  | mk d m =>
      rw [hensure] at he
      rcases c.deleteObject_cases row hensure with
        ⟨⟨last, hlast, hle⟩, -⟩ | ⟨-, after, next, hts, hdeleted, -, hcounted, -, heq⟩
      · exact absurd ((h.entered he).last last hlast) (not_lt.mpr hle)
      · have hobjects : after.objects = Assoc.set d.objects row.id next :=
          (objects_counted hcounted).trans (objects_clear ..)
        refine ⟨after, _, heq, ⟨next, ?_, hdeleted⟩, ?_⟩
        · rw [hobjects, Assoc.get?_set, if_pos rfl]
        · intro id hne
          rw [hobjects, Assoc.get?_set, if_neg hne.symm]
          exact he.elsewhere hne

theorem deleteRows_accepts (rows : List (Row ω)) (hnodup : (rows.map Row.id).Nodup)
    (hnewer : ∀ row ∈ rows, c.NewerThanHeld row) :
    ∃ d deltas, deleteRows c rows = (d, rows, deltas) ∧
      (∀ row ∈ rows, ∃ m, Assoc.get? d.objects row.id = some m ∧ m.deleted = some row.ts) ∧
      ∀ id, id ∉ rows.map Row.id → Assoc.get? d.objects id = Assoc.get? c.objects id := by
  induction rows generalizing c with
  | nil => exact ⟨c, [], rfl, (fun _ hrow => nomatch hrow), fun _ _ => rfl⟩
  | cons row rest ih =>
      rcases List.nodup_cons.mp hnodup with ⟨hrow, hrest⟩
      rcases deleteObject_accepts (hnewer row List.mem_cons_self) with
        ⟨d, delta, hdelete, hhere, helsewhere⟩
      have hother : ∀ r ∈ rest, r.id ≠ row.id := fun r hr heq =>
        hrow (heq ▸ List.mem_map_of_mem hr)
      rcases ih hrest (fun r hr => (hnewer r (List.mem_cons_of_mem _ hr)).elsewhere
          (helsewhere r.id (hother r hr))) with ⟨e, deltas, hmore, hwritten, hkept⟩
      refine ⟨e, delta :: deltas, ?_, ?_, ?_⟩
      · simp only [deleteRows, hdelete, hmore]
      · intro r hr
        rcases List.mem_cons.mp hr with rfl | hr
        · rw [hkept r.id hrow]
          exact hhere
        · exact hwritten r hr
      · intro id hid
        rw [List.map_cons, List.mem_cons, not_or] at hid
        rw [hkept id hid.2, helsewhere id hid.1]

end Collection

/-! ## Stores -/

namespace Store

variable {s t u : Store}

/-- `t` is `s` up to collections without rows. -/
structure Like (s t : Store) : Prop where
  vectorField : t.vectorField = s.vectorField
  compression : t.compression = s.compression
  grows : Grows s t
  bulkLoadDepth : t.bulkLoadDepth = s.bulkLoadDepth
  bulkLoadDirty : t.bulkLoadDirty = s.bulkLoadDirty
  collectionOf : ∀ db coll, t.collectionOf db coll = s.collectionOf db coll

theorem Like.refl (s : Store) : Like s s := ⟨rfl, rfl, .refl s, rfl, rfl, fun _ _ => rfl⟩

theorem Like.trans (hst : Like s t) (htu : Like t u) : Like s u where
  vectorField := htu.vectorField.trans hst.vectorField
  compression := htu.compression.trans hst.compression
  grows := hst.grows.trans htu.grows
  bulkLoadDepth := htu.bulkLoadDepth.trans hst.bulkLoadDepth
  bulkLoadDirty := htu.bulkLoadDirty.trans hst.bulkLoadDirty
  collectionOf := fun db coll => (htu.collectionOf db coll).trans (hst.collectionOf db coll)

theorem openCollection_like (s : Store) (db coll : JsString) :
    Like s (s.openCollection db coll).1 := by
  rw [openCollection]
  cases hcollection : s.collection db coll with
  | error err => exact .refl s
  | ok c =>
      refine ⟨rfl, rfl, setCollection_grows (.inr (writable_of_collection hcollection)) c, rfl, rfl,
        ?_⟩
      intro db' coll'
      rw [collectionOf_setCollection]
      split_ifs with hsame
      · rw [← hsame.1, ← hsame.2]
        exact (collection_eq_ok.mp hcollection).2.2.symm
      · rfl

theorem Like.stamped {P : Ts → Prop} (h : Like s t) (hs : s.Stamped P) : t.Stamped P := by
  intro db coll c hc
  have hof : t.collectionOf db coll = c := by
    rw [Store.collectionOf, hc]
    rfl
  rw [← hof, h.collectionOf]
  exact hs.collectionOf db coll

theorem Like.collection (h : Like s t) (db coll : JsString) :
    t.collection db coll = s.collection db coll :=
  h.grows.collection (h.collectionOf db coll)

theorem openCollection_snd (s : Store) (db coll : JsString) :
    (s.openCollection db coll).2 = (s.collection db coll).map fun _ => () := by
  rw [openCollection]
  cases s.collection db coll <;> rfl

/-! ### Reads of a collection that may be missing -/

theorem read_eq (s : Store) (db coll id : JsString) :
    s.read db coll id = (s.collectionOf db coll).read id := by
  rw [read, collectionOf]
  cases s.getCollection db coll <;> rfl

theorem getVector_eq (s : Store) (db coll id : JsString) :
    s.getVector db coll id = (s.collectionOf db coll).getVector id := by
  rw [getVector, collectionOf]
  cases s.getCollection db coll <;> rfl

theorem Like.read (h : Like s t) (db coll id : JsString) :
    t.read db coll id = s.read db coll id := by
  rw [read_eq, read_eq, h.collectionOf]

theorem Like.getVector (h : Like s t) (db coll id : JsString) :
    t.getVector db coll id = s.getVector db coll id := by
  rw [getVector_eq, getVector_eq, h.collectionOf]

/-! ### A batch on one collection -/

/-- The names of a database and a collection that operations can be applied to. -/
structure PlainNames (db coll : JsString) : Prop where
  db_ne : db ≠ []
  coll_ne : coll ≠ []
  db_plain : (0 : CodeUnit) ∉ db
  coll_plain : (0 : CodeUnit) ∉ coll

theorem split_runKey_of_plain (op : Op) (h : PlainNames op.db op.coll) :
    split 0 (runKey op) = [op.db, op.coll, OpKind.runName op.kind] := by
  have hkind : (0 : CodeUnit) ∉ OpKind.runName op.kind := by
    cases op.kind <;> decide
  rw [runKey, split_append_sep h.db_plain, split_append_sep h.coll_plain, split_of_notMem hkind]

/-- Operations with one key on a collection that is not deleted form one run. -/
theorem opRuns_same (op : Op) (rest : List Op)
    (hkept : ∀ o ∈ op :: rest, (s.isDatabaseDeleted o.db || s.isCollectionDeleted o.db o.coll) = false)
    (hkey : ∀ o ∈ rest, runKey o = runKey op) :
    s.opRuns (op :: rest) = [⟨runKey op, op :: rest⟩] := by
  induction rest generalizing op with
  | nil =>
      rw [opRuns, hkept op List.mem_cons_self]
      rfl
  | cons next rest ih =>
      have hnext : runKey next = runKey op := hkey next List.mem_cons_self
      have hrest := ih next (fun o ho => hkept o (List.mem_cons_of_mem _ ho))
        (fun o ho => (hkey o (List.mem_cons_of_mem _ ho)).trans hnext.symm)
      rw [opRuns, hkept op List.mem_cons_self, hrest]
      simp [hnext]

section Batch

variable {db coll : JsString} {c : Collection} {ops : List Op}

/-- The entry of the object is the operation's. -/
def Winner (s : Store) (op : Op) : Prop :=
  ∃ c m, s.getCollection op.db op.coll = some c ∧ Assoc.get? c.objects op.id = some m ∧
    if op.kind = .delObj then m.deleted = some op.ts else m.ts = some op.ts ∧ m.deleted = none

theorem getCollection_setCollection_self (s : Store) (db coll : JsString) (c : Collection) :
    (s.setCollection db coll c).getCollection db coll = some c := by
  rw [getCollection_setCollection, if_pos ⟨rfl, rfl⟩]

theorem flushRun_of_key (hcollection : s.collection db coll = .ok c) (run : OpRun) {kind : JsString}
    (hkey : split 0 run.key = [db, coll, kind]) :
    s.flushRun run =
      if kind = js "delObj" then
        (s.setCollection db coll (c.deleteObjects (run.ops.map Op.row)).1,
          .ok ((c.deleteObjects (run.ops.map Op.row)).2.map Collection.Row.op))
      else
        match c.putObjects (run.ops.map Op.row) with
        | (c, .ok applied) => (s.setCollection db coll c, .ok (applied.map Collection.Row.op))
        | (c, .error err) => (s.setCollection db coll c, .error (.collection err)) := by
  have hdb : (split 0 run.key).getD 0 [] = db := by rw [hkey]; rfl
  have hcoll : (split 0 run.key).getD 1 [] = coll := by rw [hkey]; rfl
  have hkind : (split 0 run.key).getD 2 [] = kind := by rw [hkey]; rfl
  rw [flushRun, hdb, hcoll, hkind, hcollection] <;> rfl

theorem map_row_op (ops : List Op) : (ops.map Op.row).map Collection.Row.op = ops := by
  rw [List.map_map]
  exact List.map_id _

theorem applyOps_run {run : OpRun} {applied : List Op} (hruns : s.opRuns ops = [run])
    (hflush : s.flushRun run = (t, .ok applied)) : s.applyOps ops = (t, .ok applied) := by
  rw [applyOps, hruns]
  simp only [flushRuns, hflush, List.append_nil]

/-- Puts of different objects, newer than what is stored, are all applied. -/
theorem applyOps_puts (hnames : PlainNames db coll) (hcollection : s.collection db coll = .ok c)
    (hon : ∀ op ∈ ops, op.db = db ∧ op.coll = coll) (hkind : ∀ op ∈ ops, op.kind ≠ .delObj)
    (hnodup : (ops.map Op.id).Nodup) (hnewer : ∀ op ∈ ops, c.NewerThanHeld op.row)
    (hvalid : ∀ op ∈ ops, ValidVector c.vectorField op.storedValue) :
    ∃ t, s.applyOps ops = (t, .ok ops) ∧ ∀ op ∈ ops, t.Winner op := by
  cases ops with
  | nil => exact ⟨s, rfl, fun _ hop => nomatch hop⟩
  | cons first rest =>
      rcases hon first List.mem_cons_self with ⟨rfl, rfl⟩
      rcases collection_eq_ok.mp hcollection with ⟨hdb, hcoll, -⟩
      have hname : ∀ op ∈ first :: rest, OpKind.runName op.kind = OpKind.runName .putObj := by
        intro op hop
        have hput := hkind op hop
        cases hkind' : op.kind with
        | delObj => exact absurd hkind' hput
        | putObj => rfl
        | touch => rfl
      have hkey : ∀ op ∈ first :: rest, runKey op = runKey first := by
        intro op hop
        rw [runKey, runKey, (hon op hop).1, (hon op hop).2, hname op hop,
          hname first List.mem_cons_self]
      have hrun := opRuns_same (s := s) first rest
        (fun op hop => by rw [(hon op hop).1, (hon op hop).2, hdb, hcoll]; rfl)
        (fun op hop => hkey op (List.mem_cons_of_mem _ hop))
      have hsplit := split_runKey_of_plain first hnames
      rw [hname first List.mem_cons_self] at hsplit
      rcases Collection.putRows_accepts
          (c.shouldDeferIndexDeltasForCount ((first :: rest).map Op.row).length)
          ((first :: rest).map Op.row) (by simpa [Function.comp_def, Op.row] using hnodup)
          (by
            intro row hrow
            rcases List.mem_map.mp hrow with ⟨op, hop, rfl⟩
            exact hnewer op hop)
          (by
            intro row hrow
            rcases List.mem_map.mp hrow with ⟨op, hop, rfl⟩
            exact hvalid op hop) with ⟨d, deltas, hput, hwritten, -⟩
      have hflush : s.flushRun ⟨runKey first, first :: rest⟩ =
          (s.setCollection first.db first.coll (d.applyIndexDeltas deltas), .ok (first :: rest)) := by
        rw [flushRun_of_key hcollection ⟨runKey first, first :: rest⟩ hsplit,
          if_neg (by decide), Collection.putObjects, hput]
        dsimp only
        rw [map_row_op]
      refine ⟨_, applyOps_run hrun hflush, ?_⟩
      intro op hop
      rcases hwritten op.row (List.mem_map_of_mem hop) with ⟨m, hm, hts, hdeleted⟩
      refine ⟨d.applyIndexDeltas deltas, m, ?_, ?_, ?_⟩
      · rw [(hon op hop).1, (hon op hop).2]
        exact getCollection_setCollection_self ..
      · rw [(Collection.kept_applyIndexDeltas d deltas).objects]
        exact hm
      · rw [if_neg (hkind op hop)]
        exact ⟨hts, hdeleted⟩

/-- Deletes of different objects, newer than what is stored, are all applied. -/
theorem applyOps_deletes (hnames : PlainNames db coll) (hcollection : s.collection db coll = .ok c)
    (hon : ∀ op ∈ ops, op.db = db ∧ op.coll = coll) (hkind : ∀ op ∈ ops, op.kind = .delObj)
    (hnodup : (ops.map Op.id).Nodup) (hnewer : ∀ op ∈ ops, c.NewerThanHeld op.row) :
    ∃ t, s.applyOps ops = (t, .ok ops) ∧ ∀ op ∈ ops, t.Winner op := by
  cases ops with
  | nil => exact ⟨s, rfl, fun _ hop => nomatch hop⟩
  | cons first rest =>
      rcases hon first List.mem_cons_self with ⟨rfl, rfl⟩
      rcases collection_eq_ok.mp hcollection with ⟨hdb, hcoll, -⟩
      have hkey : ∀ op ∈ first :: rest, runKey op = runKey first := by
        intro op hop
        rw [runKey, runKey, (hon op hop).1, (hon op hop).2, hkind op hop,
          hkind first List.mem_cons_self]
      have hrun := opRuns_same (s := s) first rest
        (fun op hop => by rw [(hon op hop).1, (hon op hop).2, hdb, hcoll]; rfl)
        (fun op hop => hkey op (List.mem_cons_of_mem _ hop))
      have hsplit := split_runKey_of_plain first hnames
      rw [hkind first List.mem_cons_self] at hsplit
      rcases Collection.deleteRows_accepts (c := c) ((first :: rest).map Op.row)
          (by simpa [Function.comp_def, Op.row] using hnodup)
          (by
            intro row hrow
            rcases List.mem_map.mp hrow with ⟨op, hop, rfl⟩
            exact hnewer op hop) with ⟨d, deltas, hdelete, hwritten, -⟩
      have hflush : s.flushRun ⟨runKey first, first :: rest⟩ =
          (s.setCollection first.db first.coll (d.applyIndexDeltas deltas), .ok (first :: rest)) := by
        rw [flushRun_of_key hcollection ⟨runKey first, first :: rest⟩ hsplit,
          if_pos (by decide), Collection.deleteObjects, hdelete]
        dsimp only
        rw [map_row_op]
      refine ⟨_, applyOps_run hrun hflush, ?_⟩
      intro op hop
      rcases hwritten op.row (List.mem_map_of_mem hop) with ⟨m, hm, hdeleted⟩
      refine ⟨d.applyIndexDeltas deltas, m, ?_, ?_, ?_⟩
      · rw [(hon op hop).1, (hon op hop).2]
        exact getCollection_setCollection_self ..
      · rw [(Collection.kept_applyIndexDeltas d deltas).objects]
        exact hm
      · rw [if_pos (hkind op hop)]
        exact hdeleted

end Batch

end Store
end ObjyDb
