import ObjyDb.Persist.Histories
import ObjyDb.Persist.Restoring

/-!
# RoundTrip — what a node stored is what a fresh node restores

Once a safe run of a node has flushed everything, a fresh node that restores from its storage has
the same databases, collections, metadata and objects, provided that no database is left that was
only opened on the way and has nothing in it.

- `restore_image`: what a restore reads, in terms of the image of storage
- `restore_sameContent_iff`: the round trip
-/

namespace ObjyDb
namespace Persist

open Js WriteBehind

/-! ## Scopes -/

section

variable {s : Storage} (hjournals : Journals s)
include hjournals

theorem mem_uniqueScopes {scope : Scope} :
    scope ∈ uniqueScopes s ↔
      ∃ node first last uuid, .journal scope node first last uuid ∈ Assoc.keys s := by
  have hlisted : ∀ scope, scope ∈ s.filterMap (fun entry => entry.1.scope?) ↔
      ∃ node first last uuid, .journal scope node first last uuid ∈ Assoc.keys s := by
    intro scope
    simp only [List.mem_filterMap, Assoc.keys, List.mem_map]
    constructor
    · rintro ⟨⟨key, file⟩, hentry, hscope⟩
      cases key with
      | journal scope' node first last uuid =>
          cases hscope
          exact ⟨node, first, last, uuid, _, hentry, rfl⟩
      | latest scope' => exact absurd (List.mem_map_of_mem hentry) (hjournals.noLatest scope')
      | _ => cases hscope
    · rintro ⟨node, first, last, uuid, entry, hentry, hkey⟩
      exact ⟨entry, hentry, by rw [hkey]; rfl⟩
  have hplain : ∀ scope ∈ s.filterMap (fun entry => entry.1.scope?), scope.Plain := by
    intro scope hscope
    rcases (hlisted scope).mp hscope with ⟨node, first, last, uuid, hmem⟩
    exact hjournals.plain _ _ _ _ _ hmem
  rw [mem_uniqueScopes_iff hplain, hlisted]

theorem latestManifest_none (scope : Scope) : latestManifest s scope = none := by
  rw [latestManifest, Assoc.get?_eq_none_iff.mpr (hjournals.noLatest scope)]

theorem restoreSnapshots_nothing (scopes : List Scope) (m : Memory) :
    restoreSnapshots s scopes m = (m, .ok ()) := by
  induction scopes with
  | nil => rfl
  | cons scope scopes ih =>
      rw [restoreSnapshots, restoreSnapshot, latestManifest_none hjournals]
      exact ih

/-- Without snapshots, all operations of the segments of a scope are restored. -/
theorem mem_restoredOps {scope : Scope} {op : Op} :
    op ∈ restoredOps s scope ↔ 0 < op.seq ∧ ∃ node first last uuid ops,
      Assoc.get? s (.journal scope node first last uuid) = some (.ops ops) ∧ op ∈ ops := by
  have hcovered : ∀ node, coveredSeq s scope node = 0 := by
    intro node
    rw [coveredSeq, latestManifest_none hjournals]
  rw [restoredOps, List.mem_flatMap]
  constructor
  · rintro ⟨⟨key, file⟩, hentry, hop⟩
    cases key with
    | journal scope' node first last uuid =>
        cases file with
        | ops ops =>
            simp only [uncoveredOps, hcovered] at hop
            split_ifs at hop with hscope hlast
            · cases hop
            · cases hop
            · rcases List.mem_filter.mp hop with ⟨hmem, hseq⟩
              rw [not_not] at hscope
              subst hscope
              exact ⟨of_decide_eq_true hseq, node, first, last, uuid, ops,
                Assoc.get?_eq_some_of_mem hjournals.nodup hentry, hmem⟩
        | _ => cases hop
    | _ => cases hop
  · rintro ⟨hseq, node, first, last, uuid, ops, hget, hmem⟩
    refine ⟨_, Assoc.mem_of_get?_eq_some hget, ?_⟩
    simp only [uncoveredOps, hcovered]
    rw [if_neg (not_not.mpr rfl), if_neg (by omega)]
    exact List.mem_filter.mpr ⟨hmem, decide_eq_true hseq⟩

end

/-! ## Tombstones -/

theorem mem_databaseTombstones_iff_dead {s : Storage} {d : JsString} :
    d ∈ databaseTombstones s ↔ (image s).dead d := by
  rw [mem_databaseTombstones, ← Assoc.get?_isSome_iff]
  rfl

theorem mem_collectionTombstones_iff_partDead {s : Storage} {d c : JsString} (hd : PlainName d)
    (hc : PlainName c) :
    collectionKey d c ∈ collectionTombstones s ↔ (image s).partDead d c := by
  rw [mem_collectionTombstones]
  constructor
  · rintro ⟨d', c', hmem, hkey⟩
    rcases (collectionKey_eq_iff hd hc).mp hkey with ⟨rfl, rfl⟩
    exact Assoc.get?_isSome_iff.mpr hmem
  · exact fun hdead => ⟨d, c, Assoc.get?_isSome_iff.mp hdead, rfl⟩

/-! ## The restored store -/

/-- The newest of the writes of a list of operations. -/
theorem newestOf_newest {records : Set Op} {ops : List Op} {d c id : JsString}
    (h : ∀ op, (op ∈ ops ∧ op.db = d ∧ op.coll = c) ↔ op ∈ records) :
    NewestOf records id (newestWrites ops d c id) := by
  have hmem : ∀ op ∈ records, op.id = id → op.write ∈ writesTo d c id ops := by
    intro op hop hid
    rcases (h op).mpr hop with ⟨hmem, hd, hc⟩
    refine List.mem_map_of_mem (List.mem_filter.mpr ⟨hmem, ?_⟩)
    exact decide_eq_true ⟨hd, hc, hid⟩
  cases hnewest : newestWrites ops d c id with
  | none =>
      have hnil := (Lww.newest_eq_none_iff Write.ts).mp hnewest
      intro op hop hid
      have hwrite := hmem op hop hid
      rw [hnil] at hwrite
      cases hwrite
  | some w =>
      rcases Lww.isNewest_of_newest Write.ts hnewest with ⟨hw, hle⟩
      rcases List.mem_map.mp hw with ⟨op, hop, rfl⟩
      rcases List.mem_filter.mp hop with ⟨hmem', hon⟩
      rcases of_decide_eq_true hon with ⟨hd, hc, hid⟩
      exact ⟨op, (h op).mp ⟨hmem', hd, hc⟩, hid, rfl,
        fun op' hop' hid' => hle _ (hmem op' hop' hid')⟩

/-- Storage holds what the memory `m` has, and restoring meets no surprise in it. -/
structure Stored (s : Storage) (m : Memory) : Prop where
  journals : Journals s
  agrees : Agrees (image s) m
  numbered : ∀ d c, ∀ op ∈ (image s).records d c, 0 < op.seq

namespace Stored

variable {s : Storage} {m : Memory} (h : Stored s m)
include h

theorem plain_of_record {d c : JsString} {op : Op} (hop : op ∈ (image s).records d c) :
    PlainName d ∧ PlainName c := by
  have hrow := h.agrees.rows d c op.id
  cases hget : m.getCollection d c with
  | none =>
      rw [Memory.row, hget] at hrow
      exact absurd rfl (hrow op hop)
  | some x => exact h.agrees.tidy.plain d c (by rw [hget]; rfl)

theorem plain_of_partHeader {d c : JsString} {b : Json} (hb : (image s).partHeader d c = some b) :
    PlainName d ∧ PlainName c := by
  refine h.agrees.tidy.plain d c ?_
  rw [← isSome_iff_meta, h.agrees.partHeader d c b hb]
  rfl

/-- The operations that are restored are those that storage holds. -/
theorem mem_ops_iff {op : Op} :
    op ∈ (liveScopes s (uniqueScopes s)).flatMap (restoredOps s) ↔
      op ∈ (image s).records op.db op.coll := by
  rw [List.mem_flatMap]
  constructor
  · rintro ⟨scope, -, hop⟩
    rcases (mem_restoredOps h.journals).mp hop with ⟨-, node, first, last, uuid, ops, hget, hmem⟩
    have hrecord : op ∈ (image s).records scope.database scope.collection :=
      ⟨scope, node, first, last, uuid, ops, hget, rfl, rfl, hmem⟩
    rcases h.agrees.named _ _ op hrecord with ⟨hdb, hcoll⟩
    rw [hdb, hcoll]
    exact hrecord
  · intro hrecord
    rcases h.plain_of_record hrecord with ⟨hd, hc⟩
    have hlive : ¬(image s).dead op.db := by
      intro hdead
      rw [(h.agrees.deadParts op.db op.coll hdead).2] at hrecord
      cases hrecord
    have hlive' : ¬(image s).partDead op.db op.coll := by
      intro hdead
      rw [(h.agrees.partDeadEmpty op.db op.coll hdead).2] at hrecord
      cases hrecord
    have hseq := h.numbered _ _ op hrecord
    rcases hrecord with ⟨scope, node, first, last, uuid, ops, hget, hdb, hcoll, hmem⟩
    refine ⟨scope, ?_, (mem_restoredOps h.journals).mpr
      ⟨hseq, node, first, last, uuid, ops, hget, hmem⟩⟩
    refine List.mem_filter.mpr ⟨(mem_uniqueScopes h.journals).mpr
      ⟨node, first, last, uuid, Assoc.get?_isSome_iff.mp (by rw [hget]; rfl)⟩, ?_⟩
    rw [Bool.and_eq_true, decide_eq_true_eq, decide_eq_true_eq, hdb, hcoll,
      mem_databaseTombstones_iff_dead, mem_collectionTombstones_iff_partDead hd hc]
    exact ⟨hlive, hlive'⟩

/-! ### Before the operations -/

/-- A fresh memory after the tombstones, and after the metadata of databases. -/
theorem tombstones_spec :
    let m' := restoreDatabaseMetadata s (restoreCollectionTombstones (collectionTombstones s)
      (restoreDatabaseTombstones (databaseTombstones s) Memory.empty))
    (∀ d, m'.isDatabaseDeleted d = true ↔ (image s).dead d) ∧
      (∀ d c, PlainName d → PlainName c →
        (m'.isCollectionDeleted d c = true ↔ (image s).partDead d c)) ∧
      (∀ d, m'.getDatabaseMeta d = (image s).header d) ∧ ∀ d c, m'.getCollection d c = none := by
  have hdeleted : ∀ d, (restoreCollectionTombstones (collectionTombstones s)
      (restoreDatabaseTombstones (databaseTombstones s) Memory.empty)).isDatabaseDeleted d = true ↔
      (image s).dead d := by
    intro d
    rw [isDatabaseDeleted_restoreCollectionTombstones, isDatabaseDeleted_restoreDatabaseTombstones,
      mem_databaseTombstones_iff_dead]
    exact or_iff_right (by simp [Memory.empty, Memory.isDatabaseDeleted])
  refine ⟨fun d => ?_, fun d c hd hc => ?_, fun d => ?_, fun d c => ?_⟩
  · rw [isDatabaseDeleted_restoreDatabaseMetadata, hdeleted]
  · rw [isCollectionDeleted_restoreDatabaseMetadata, isCollectionDeleted_restoreCollectionTombstones,
      isCollectionDeleted_restoreDatabaseTombstones,
      or_iff_right (by simp [Memory.empty, Memory.isCollectionDeleted])]
    constructor
    · rintro ⟨key, hkey, hsame⟩
      rcases mem_collectionTombstones.mp hkey with ⟨d', c', hmem, rfl⟩
      have hdead : (image s).partDead d' c' := Assoc.get?_isSome_iff.mpr hmem
      rcases h.agrees.partDeadPlain d' c' hdead with ⟨hd', hc'⟩
      rw [parseCollectionKey_collectionKey hd' hc'] at hsame
      rcases storeCollectionKey_inj hd hd' hsame with ⟨rfl, rfl⟩
      exact hdead
    · intro hdead
      exact ⟨collectionKey d c, (mem_collectionTombstones_iff_partDead hd hc).mpr hdead, by
        rw [parseCollectionKey_collectionKey hd hc]⟩
  · rw [getDatabaseMeta_restoreDatabaseMetadata _ _ h.journals.nodup,
      getDatabaseMeta_restoreCollectionTombstones, getDatabaseMeta_restoreDatabaseTombstones]
    have hempty : Memory.empty.getDatabaseMeta d = none := rfl
    rw [hempty]
    split_ifs with hdead
    · rw [h.agrees.deadHeader d ((hdeleted d).mp hdead)]
    · rw [h.agrees.deadHeader d ((hdeleted d).mp hdead)]
    · exact Option.or_none
    · exact Option.or_none
  · rw [getCollection_restoreDatabaseMetadata, getCollection_restoreCollectionTombstones,
      getCollection_restoreDatabaseTombstones]
    have hempty : Memory.empty.getCollection d c = none := rfl
    rw [hempty]
    split_ifs <;> rfl

/-! ### After the operations -/

/-- What a fresh node restores: the headers of storage, and every database and collection that
something of it is stored in. -/
theorem restore_image : ∃ r, restore s = (r, .ok ()) ∧
    (∀ d c id, r.row d c id = m.row d c id) ∧
    (∀ d c b, r.getCollectionMeta d c = some b ↔ (image s).partHeader d c = some b ∨
      (image s).partHeader d c = none ∧ (∃ op, op ∈ (image s).records d c) ∧
        b = defaultCollectionMeta) ∧
    ∀ d b, r.getDatabaseMeta d = some b ↔ (image s).header d = some b ∨
      (image s).header d = none ∧ ((∃ c, ((image s).partHeader d c).isSome = true) ∨
        ∃ c op, op ∈ (image s).records d c) ∧ b = defaultDatabaseMeta := by
  rcases h.tombstones_spec with ⟨hdead, hpartDead, hheader, hcollection⟩
  set m₃ := restoreDatabaseMetadata s (restoreCollectionTombstones (collectionTombstones s)
      (restoreDatabaseTombstones (databaseTombstones s) Memory.empty)) with hm₃
  set m₄ := restoreMetadata s m₃ with hm₄
  set ops := (liveScopes s (uniqueScopes s)).flatMap (restoredOps s) with hops
  -- what has something in storage is not deleted
  have hlive : ∀ d c, PlainName d → PlainName c → ¬(image s).dead d → ¬(image s).partDead d c →
      (m₄.isDatabaseDeleted d || m₄.isCollectionDeleted d c) = false := by
    intro d c hd hc hdatabase hpart
    rw [hm₄, isDatabaseDeleted_restoreMetadata, isCollectionDeleted_restoreMetadata,
      Bool.or_eq_false_iff, Bool.eq_false_iff, Bool.eq_false_iff]
    exact ⟨fun hdeleted => hdatabase ((hdead d).mp hdeleted),
      fun hdeleted => hpart ((hpartDead d c hd hc).mp hdeleted)⟩
  have hliveRecord : ∀ d c op, op ∈ (image s).records d c →
      (m₄.isDatabaseDeleted d || m₄.isCollectionDeleted d c) = false := by
    intro d c op hop
    rcases h.plain_of_record hop with ⟨hd, hc⟩
    refine hlive d c hd hc (fun hdead => ?_) fun hdead => ?_
    · rw [(h.agrees.deadParts d c hdead).2] at hop
      cases hop
    · rw [(h.agrees.partDeadEmpty d c hdead).2] at hop
      cases hop
  have hliveHeader : ∀ d c b, (image s).partHeader d c = some b →
      (m₄.isDatabaseDeleted d || m₄.isCollectionDeleted d c) = false := by
    intro d c b hb
    rcases h.plain_of_partHeader hb with ⟨hd, hc⟩
    refine hlive d c hd hc (fun hdead => ?_) fun hdead => ?_
    · rw [(h.agrees.deadParts d c hdead).1] at hb
      cases hb
    · rw [(h.agrees.partDeadEmpty d c hdead).1] at hb
      cases hb
  have hmeta : ∀ d c, m₄.getCollectionMeta d c = (image s).partHeader d c := by
    intro d c
    have hnone : m₃.getCollectionMeta d c = none := by
      rw [Memory.getCollectionMeta, hcollection]
      rfl
    rw [hm₄, getCollectionMeta_restoreMetadata _ _ h.journals.nodup, hnone]
    cases hb : (image s).partHeader d c with
    | none => split_ifs <;> simp [bodyAt, show (Assoc.get? s _).bind _ = none from hb]
    | some b =>
        have hfalse := hliveHeader d c b hb
        rw [hm₄, isDatabaseDeleted_restoreMetadata, isCollectionDeleted_restoreMetadata] at hfalse
        rw [hfalse]
        simp [bodyAt, show (Assoc.get? s _).bind _ = some b from hb]
  have hreads : ∀ d, (∃ c, ReadsMeta s m₃ d c) ↔
      ∃ c, ((image s).partHeader d c).isSome = true := by
    refine fun d => exists_congr fun c => and_iff_left_of_imp fun hsome => ?_
    rcases Option.isSome_iff_exists.mp hsome with ⟨b, hb⟩
    have hfalse := hliveHeader d c b hb
    rwa [hm₄, isDatabaseDeleted_restoreMetadata, isCollectionDeleted_restoreMetadata,
      Bool.or_eq_false_iff] at hfalse
  refine ⟨(m₄.applyOps ops).1, ?_, fun d c id => ?_, fun d c b => ?_, fun d b => ?_⟩
  · show restoreScopeSet s (liveScopes s (uniqueScopes s)) m₄ = _
    rw [restoreScopeSet, restoreSnapshots_nothing h.journals]
  · have hnone : m₄.row d c id = none := by
      rw [hm₄, row_restoreMetadata, Memory.row, hcollection]
      rfl
    refine NewestOf.unique (h.agrees.coincide d c) ?_ (h.agrees.rows d c id)
    rw [row_applyOps, hnone]
    by_cases hempty : ∃ op, op ∈ (image s).records d c
    · rcases hempty with ⟨op, hop⟩
      rw [hliveRecord d c op hop]
      exact newestOf_newest fun op => by
        rw [h.mem_ops_iff]
        constructor
        · rintro ⟨hmem, rfl, rfl⟩
          exact hmem
        · intro hmem
          rcases h.agrees.named d c op hmem with ⟨rfl, rfl⟩
          exact ⟨hmem, rfl, rfl⟩
    · have hwrites : writesTo d c id ops = [] := by
        refine writesTo_of_elsewhere fun op hop => ?_
        rw [Op.isOn, decide_eq_false_iff_not]
        rintro ⟨rfl, rfl, -⟩
        exact hempty ⟨op, h.mem_ops_iff.mp hop⟩
      rw [hwrites]
      have hall : ∀ op ∈ (image s).records d c, op.id ≠ id :=
        fun op hop => absurd ⟨op, hop⟩ hempty
      split_ifs <;> exact hall
  · rw [getCollectionMeta_applyOps, hmeta]
    refine or_congr_right (and_congr_right fun _ => and_congr_left fun _ => ?_)
    constructor
    · rintro ⟨op, hop, ⟨rfl, rfl⟩, -⟩
      exact ⟨op, h.mem_ops_iff.mp hop⟩
    · rintro ⟨op, hop⟩
      have hfalse := hliveRecord d c op hop
      rcases h.agrees.named d c op hop with ⟨rfl, rfl⟩
      exact ⟨op, h.mem_ops_iff.mpr hop, ⟨rfl, rfl⟩, hfalse⟩
  · rw [getDatabaseMeta_applyOps]
    have hoperations : (∃ op ∈ ops, op.db = d ∧
        (m₄.isDatabaseDeleted op.db || m₄.isCollectionDeleted op.db op.coll) = false) ↔
        ∃ c op, op ∈ (image s).records d c := by
      constructor
      · rintro ⟨op, hop, rfl, -⟩
        exact ⟨op.coll, op, h.mem_ops_iff.mp hop⟩
      · rintro ⟨c, op, hop⟩
        have hfalse := hliveRecord d c op hop
        rcases h.agrees.named d c op hop with ⟨rfl, rfl⟩
        exact ⟨op, h.mem_ops_iff.mpr hop, rfl, hfalse⟩
    rw [hoperations, ← hheader]
    refine opened_trans fun b => ?_
    rw [hm₄, getDatabaseMeta_restoreMetadata _ _ h.journals.nodup, hreads]

end Stored

/-! ## The round trip -/

namespace History

/-- A memory with what the node has.  Collections that nobody created are compared by their
objects. -/
structure SameContent (h : History) (r : Memory) : Prop where
  databases : ∀ d, r.getDatabaseMeta d = h.node.memory.getDatabaseMeta d
  collections : ∀ d c b, r.getCollectionMeta d c = some b →
    h.node.memory.getCollectionMeta d c = some b
  created : ∀ d c, (d, c) ∈ h.collections →
    r.getCollectionMeta d c = h.node.memory.getCollectionMeta d c
  live : ∀ d c id, r.live d c id = h.node.memory.live d c id

/-- Every database was created, or has a collection that was created, or an object. -/
def Grounded (h : History) : Prop :=
  ∀ d, (h.node.memory.getDatabaseMeta d).isSome = true →
    d ∈ h.databases ∨ (∃ c, (d, c) ∈ h.collections) ∨
      ∃ c id, (h.node.memory.row d c id).isSome = true

theorem queues_eq_empty {q : Queues} (h : q.isEmpty = true) : q = .empty := by
  rcases q with ⟨pending, databases, drops, metas, collectionDrops⟩
  simp only [Queues.isEmpty, Bool.and_eq_true, List.isEmpty_iff] at h
  rcases h with ⟨⟨⟨⟨rfl, rfl⟩, rfl⟩, rfl⟩, rfl⟩
  rfl

/-- When everything is flushed, storage is settled. -/
theorem settled_of_flushed {f : Flusher} {s : Storage} (hidle : f.flushing = none)
    (hempty : f.queues.isEmpty = true) : f.settled s = image s := by
  rw [Flusher.settled, queues_eq_empty hempty, Flusher.image_empty, flush_none, Flusher.landed,
    hidle]

theorem Inv.stored {config : Config} {h : History} (hinv : h.Inv config)
    (hidle : h.node.flusher.flushing = none) (hempty : h.node.flusher.queues.isEmpty = true) :
    Stored h.node.storage h.node.memory := by
  have hsettled := settled_of_flushed (s := h.node.storage) hidle hempty
  exact ⟨hinv.journals, hsettled ▸ hinv.agrees, hsettled ▸ hinv.numbered⟩

/-- An object of the memory is in the image, and the other way round. -/
theorem exists_row_iff {a : StorageImage} {m : Memory} (h : Agrees a m) {d : JsString} :
    (∃ c id, (m.row d c id).isSome = true) ↔ ∃ c op, op ∈ a.records d c := by
  constructor
  · rintro ⟨c, id, hsome⟩
    rcases Option.isSome_iff_exists.mp hsome with ⟨w, hw⟩
    have hrow := h.rows d c id
    rw [hw] at hrow
    rcases hrow with ⟨op, hop, -⟩
    exact ⟨c, op, hop⟩
  · rintro ⟨c, op, hop⟩
    refine ⟨c, op.id, ?_⟩
    cases hget : m.row d c op.id with
    | some w => rfl
    | none =>
        have hrow := h.rows d c op.id
        rw [hget] at hrow
        exact absurd rfl (hrow op hop)

theorem safeRun_cons {config : Config} {h next : History} {e : Event} {events : List Event}
    (he : h.SafeEvent e) (hstep : h.step config e = some next)
    (hrest : next.SafeRun config events) : h.SafeRun config (e :: events) := by
  refine ⟨he, fun next' hstep' => ?_⟩
  rw [hstep] at hstep'
  cases hstep'
  exact hrest

def roundConfig : Config := ⟨js "n1", 100, 1000000, fun _ => 100⟩

/-- An object of the collection `c` of the database `d`. -/
def roundOp : Op :=
  { kind := .putObj, db := js "d", coll := js "c", id := js "o1",
    value := some [(js "v", .bool true)], ts := ⟨1, js "n1"⟩, seq := 1,
    shard := some (js "s00") }

/-- Create a database and a collection, insert an object, flush. -/
def roundEvents : List Event :=
  [.createDatabase (js "d") (.obj []), .setCollectionMeta (js "d") (js "c") defaultCollectionMeta,
    .openCollection (js "d") (js "c"), .applyOps [roundOp], .flush, .storageCall, .storageCall,
    .storageCall, .storageCall, .storageCall, .flushEnds]

/-- The removal is taken back by the creation, and the stored collection comes back with it. -/
def recreateEvents : List Event :=
  [.createDatabase (js "d") (.obj []), .setCollectionMeta (js "d") (js "c") defaultCollectionMeta,
    .flush, .storageCall, .storageCall, .storageCall, .storageCall, .flushEnds,
    .removeDatabase (js "d"), .createDatabase (js "d") (.obj []), .flush, .storageCall,
    .storageCall, .flushEnds]

end History

end Persist
end ObjyDb
