import ObjyDb.Persist.Restoring

/-!
# CatchUp — a restore into a running node

`restoreScope` runs the passes of a restore over the memory of a node that is in use.  Storage is
regular when its names are plain and its segments are about the collection they lie under; from a
tidy memory and regular storage the outcome is described by `CaughtUp`: what is deleted, what the
metadata are, and which write every object has.
-/

namespace ObjyDb
namespace Persist

open Js

/-! ## Regular storage -/

def StorageKey.Plain : StorageKey → Prop
  | .databaseTombstone _ => True
  | .databaseMeta _ => True
  | .collectionTombstone d c => PlainName d ∧ PlainName c
  | .collectionMeta d c => PlainName d ∧ PlainName c
  | .journal scope _ _ _ _ => scope.Plain
  | .latest scope => scope.Plain

/-- A segment holds operations on the collection it lies under. -/
def Filed : StorageKey × StorageFile → Prop
  | (.journal scope _ _ _ _, .ops ops) =>
      ∀ op ∈ ops, op.db = scope.database ∧ op.coll = scope.collection
  | _ => True

structure Regular (s : Storage) : Prop where
  nodup : (Assoc.keys s).Nodup
  plain : ∀ entry ∈ s, entry.1.Plain
  filed : ∀ entry ∈ s, Filed entry

namespace Regular

variable {s : Storage} (h : Regular s)
include h

theorem plain_of_mem {key : StorageKey} (hkey : key ∈ Assoc.keys s) : key.Plain := by
  rcases List.mem_map.mp hkey with ⟨entry, hentry, rfl⟩
  exact h.plain entry hentry

theorem scope_plain {scope : Scope} (hscope : scope ∈ s.filterMap fun entry => entry.1.scope?) :
    scope.Plain := by
  rcases List.mem_filterMap.mp hscope with ⟨⟨key, file⟩, hentry, hsome⟩
  have hplain := h.plain _ hentry
  cases key with
  | journal scope' node first last uuid => exact Option.some.inj hsome ▸ hplain
  | latest scope' => exact Option.some.inj hsome ▸ hplain
  | _ => cases hsome

theorem plain_of_uniqueScopes {scope : Scope} (hscope : scope ∈ uniqueScopes s) : scope.Plain :=
  h.scope_plain ((mem_uniqueScopes_iff fun _ => h.scope_plain).mp hscope)

end Regular

/-- The collections whose tombstones are stored, as a restore parses them. -/
theorem mem_parsed_tombstones {s : Storage} (h : Regular s) {d c : JsString} :
    (d, c) ∈ (collectionTombstones s).map parseCollectionKey ↔
      .collectionTombstone d c ∈ Assoc.keys s := by
  rw [List.mem_map]
  constructor
  · rintro ⟨key, hkey, hparse⟩
    rcases mem_collectionTombstones.mp hkey with ⟨d', c', hmem, rfl⟩
    have hplain : PlainName d' ∧ PlainName c' := h.plain_of_mem hmem
    rw [parseCollectionKey_collectionKey hplain.1 hplain.2] at hparse
    cases hparse
    exact hmem
  · intro hmem
    have hplain : PlainName d ∧ PlainName c := h.plain_of_mem hmem
    exact ⟨collectionKey d c, mem_collectionTombstones.mpr ⟨d, c, hmem, rfl⟩,
      parseCollectionKey_collectionKey hplain.1 hplain.2⟩

/-! ## The passes keep memory tidy -/

theorem tidy_restoreDatabaseTombstones (tombstones : List JsString) {m : Memory} (h : m.Tidy) :
    (restoreDatabaseTombstones tombstones m).Tidy :=
  List.foldlRecOn tombstones _ h fun _ hm d _ => tidy_deleteDatabase hm d

theorem tidy_restoreCollectionTombstones {s : Storage} (hs : Regular s) {m : Memory}
    (h : m.Tidy) : (restoreCollectionTombstones (collectionTombstones s) m).Tidy := by
  refine List.foldlRecOn _ _ h fun m hm key hkey => ?_
  rcases mem_collectionTombstones.mp hkey with ⟨d, c, hmem, rfl⟩
  have hplain : PlainName d ∧ PlainName c := hs.plain_of_mem hmem
  rw [parseCollectionKey_collectionKey hplain.1 hplain.2]
  exact tidy_deleteCollection hm hplain.1 c

theorem tidy_restoreDatabaseMetadata (s : Storage) {m : Memory} (h : m.Tidy) :
    (restoreDatabaseMetadata s m).Tidy := by
  refine List.foldlRecOn _ _ h fun m hm entry _ => ?_
  rcases restoreDatabaseMeta_cases m entry.1 entry.2 with ⟨d, b, -, -, -, heq⟩ | ⟨heq, -⟩
  · exact (congrArg Memory.Tidy heq).mpr (tidy_setDatabaseMeta hm d b)
  · exact (congrArg Memory.Tidy heq).mpr hm

theorem tidy_restoreMetadata {s : Storage} (hs : Regular s) {m : Memory} (h : m.Tidy) :
    (restoreMetadata s m).Tidy := by
  refine List.foldlRecOn _ _ h fun m hm entry hentry => ?_
  rcases restoreMeta_cases m entry.1 entry.2 with ⟨d, c, b, hkey, -, hd, hc, heq⟩ | ⟨heq, -⟩
  · have hplain : PlainName d ∧ PlainName c := by
      have hplain := hs.plain entry hentry
      rwa [hkey] at hplain
    exact (congrArg Memory.Tidy heq).mpr (tidy_setCollection hm hplain.1 hplain.2 hd hc _)
  · exact (congrArg Memory.Tidy heq).mpr hm

theorem tidy_applyOp {op : Op} (hd : PlainName op.db) (hc : PlainName op.coll) {m : Memory}
    (h : m.Tidy) : (m.applyOp op).1.Tidy := by
  by_cases hdeleted : (m.isDatabaseDeleted op.db || m.isCollectionDeleted op.db op.coll) = true
  · rw [m.applyOp_deleted hdeleted]
    exact h
  · rw [m.applyOp_live hdeleted]
    rw [Bool.or_eq_true, not_or, Bool.not_eq_true, Bool.not_eq_true] at hdeleted
    exact tidy_setCollection h hd hc hdeleted.1 hdeleted.2 _

theorem tidy_applyOps {ops : List Op} (hops : ∀ op ∈ ops, PlainName op.db ∧ PlainName op.coll)
    {m : Memory} (h : m.Tidy) : (m.applyOps ops).1.Tidy := by
  induction ops generalizing m with
  | nil => exact h
  | cons op ops ih =>
      rcases List.forall_mem_cons.mp hops with ⟨hop, hrest⟩
      exact ih hrest (tidy_applyOp hop.1 hop.2 h)

/-! ## Snapshots -/

/-- The writes to one object in the rows of a snapshot. -/
def rowWrites (id : JsString) (rows : SnapshotRows) : List Write :=
  (rows.filter fun row => decide (row.1 = id)).map Prod.snd

theorem get?_foldl_arrive (added : SnapshotRows) (rows : Rows) (id : JsString) :
    Assoc.get? (added.foldl (fun held row => (Rows.arrive held row.1 row.2).1) rows) id =
      (rowWrites id added).foldl (Lww.later Write.ts) (Assoc.get? rows id) := by
  induction added generalizing rows with
  | nil => rfl
  | cons row added ih =>
      rw [List.foldl_cons, ih, get?_arrive_later]
      by_cases hid : row.1 = id <;> simp [rowWrites, hid]

/-- What the snapshot of a scope brings to an object. -/
def snapshotWrites (s : Storage) (d c id : JsString) (scope : Scope) : List Write :=
  if scope.database = d ∧ scope.collection = c then
    match latestManifest s scope with
    | none => []
    | some manifest => rowWrites id manifest.rows
  else []

/-- The context of a manifest: its database and collection are there, and not deleted. -/
theorem context_spec {scope : Scope} (manifest : Manifest) {m : Memory} (h : m.Tidy)
    (hd : PlainName scope.database) (hc : PlainName scope.collection) :
    let m' := ensureRestoreManifestContext scope manifest m
    m'.Tidy ∧
      (∀ d, m'.isDatabaseDeleted d = true ↔ m.isDatabaseDeleted d = true ∧ d ≠ scope.database) ∧
      (∀ d c, PlainName d → (m'.isCollectionDeleted d c = true ↔
        m.isCollectionDeleted d c = true ∧ ¬(d = scope.database ∧ c = scope.collection))) ∧
      (∀ d c id, m'.row d c id = m.row d c id) ∧
      (∀ d c b, m.getCollectionMeta d c = some b → m'.getCollectionMeta d c = some b) ∧
      ∀ d, (m.getDatabaseMeta d).isSome = true → (m'.getDatabaseMeta d).isSome = true := by
  -- first the database
  set m₁ := if (m.getDatabaseMeta scope.database).isNone then
      m.setDatabaseMeta scope.database manifest.databaseMeta else m with hm₁
  have htidy₁ : m₁.Tidy := by
    rw [hm₁]
    split_ifs
    · exact tidy_setDatabaseMeta h _ _
    · exact h
  have hdeleted₁ : ∀ d, m₁.isDatabaseDeleted d = true ↔
      m.isDatabaseDeleted d = true ∧ d ≠ scope.database := by
    intro d
    rw [hm₁]
    split_ifs with hnone
    · exact Memory.isDatabaseDeleted_setDatabaseMeta m _ _ d
    · refine (and_iff_left_of_imp ?_).symm
      rintro hdeleted rfl
      rw [h.database _ hdeleted] at hnone
      exact hnone rfl
  have hcollection₁ : ∀ d c, m₁.getCollection d c = m.getCollection d c := by
    intro d c
    rw [hm₁]
    split_ifs
    · exact Memory.getCollection_setDatabaseMeta m _ _ d c
    · rfl
  have hdropped₁ : ∀ d c, m₁.isCollectionDeleted d c = m.isCollectionDeleted d c := by
    intro d c
    rw [hm₁]
    split_ifs <;> rfl
  have hdatabase₁ : ∀ d, (m.getDatabaseMeta d).isSome = true →
      (m₁.getDatabaseMeta d).isSome = true := by
    intro d hsome
    rw [hm₁]
    split_ifs
    · rw [Memory.getDatabaseMeta_setDatabaseMeta]
      split_ifs
      · rfl
      · exact hsome
    · exact hsome
  have hlive₁ : m₁.isDatabaseDeleted scope.database = false :=
    Bool.eq_false_iff.mpr fun hdeleted => ((hdeleted₁ _).mp hdeleted).2 rfl
  -- then the collection
  have hunfold : ensureRestoreManifestContext scope manifest m =
      if (m₁.getCollectionMeta scope.database scope.collection).isNone then
        (m₁.revive scope.database scope.collection).setCollection scope.database scope.collection
          { (m₁.revive scope.database scope.collection).collectionOf scope.database
              scope.collection with collectionMeta := manifest.collectionMeta }
      else m₁ := by
    rw [ensureRestoreManifestContext, ← hm₁, Memory.setCollectionMeta_live hlive₁]
  intro m'
  have hm' : m' = ensureRestoreManifestContext scope manifest m := rfl
  rw [hm', hunfold]
  split_ifs with hnone
  · have hrevived : (m₁.revive scope.database scope.collection).isCollectionDeleted
        scope.database scope.collection = false :=
      Bool.eq_false_iff.mpr fun hdeleted =>
        ((isCollectionDeleted_revive m₁ _ _ _ _).mp hdeleted).2 rfl
    refine ⟨tidy_setCollection (tidy_revive htidy₁ _ _) hd hc hlive₁ hrevived _, hdeleted₁,
      fun d c hplain => ?_, fun d c id => ?_, fun d c b hb => ?_, fun d hsome => ?_⟩
    · refine (isCollectionDeleted_revive m₁ _ _ d c).trans ?_
      rw [hdropped₁]
      refine and_congr_right fun _ => not_congr ⟨storeCollectionKey_inj hplain hd, ?_⟩
      rintro ⟨rfl, rfl⟩
      rfl
    · rw [row_setCollection]
      have hrow : (m₁.revive scope.database scope.collection).row d c id = m.row d c id :=
        congrArg (fun x : Option HeldCollection => x.bind fun held => Assoc.get? held.rows id)
          (hcollection₁ d c)
      split_ifs with hsame
      · rcases hsame with ⟨rfl, rfl⟩
        exact (Memory.get?_collectionOf ..).trans hrow
      · exact hrow
    · have hb₁ : m₁.getCollectionMeta d c = some b := by
        rw [Memory.getCollectionMeta, hcollection₁]
        exact hb
      rw [getCollectionMeta_setCollection, if_neg]
      · exact hb₁
      · rintro ⟨rfl, rfl⟩
        rw [hb₁] at hnone
        cases hnone
    · rw [Memory.getDatabaseMeta_setCollection]
      split_ifs
      · rfl
      · exact hdatabase₁ d hsome
  · have hthere : (m₁.getCollection scope.database scope.collection).isSome = true := by
      rw [← isSome_iff_meta]
      cases hget : m₁.getCollectionMeta scope.database scope.collection with
      | none => exact absurd (by rw [hget]; rfl) hnone
      | some b => rfl
    refine ⟨htidy₁, hdeleted₁, fun d c _ => ?_, fun d c id => ?_, fun d c b hb => ?_, hdatabase₁⟩
    · rw [hdropped₁]
      refine (and_iff_left_of_imp ?_).symm
      rintro hdeleted ⟨rfl, rfl⟩
      rw [htidy₁.collection _ _ ((hdropped₁ _ _).trans hdeleted)] at hthere
      cases hthere
    · exact congrArg (fun x : Option HeldCollection => x.bind fun held => Assoc.get? held.rows id)
        (hcollection₁ d c)
    · rw [Memory.getCollectionMeta, hcollection₁]
      exact hb

/-- A scope whose snapshot is read, and which it is about. -/
def SnapshotOf (s : Storage) (scope : Scope) (d c : JsString) : Prop :=
  (latestManifest s scope).isSome = true ∧ scope.database = d ∧ scope.collection = c

/-- What a pass over the snapshots of `scopes` does to `m`. -/
structure SnapshotsRead (s : Storage) (scopes : List Scope) (m m' : Memory) : Prop where
  tidy : m'.Tidy
  databaseDeleted : ∀ d, m'.isDatabaseDeleted d = true ↔
    m.isDatabaseDeleted d = true ∧ ¬∃ scope ∈ scopes, ∃ c, SnapshotOf s scope d c
  collectionDeleted : ∀ d c, PlainName d → (m'.isCollectionDeleted d c = true ↔
    m.isCollectionDeleted d c = true ∧ ¬∃ scope ∈ scopes, SnapshotOf s scope d c)
  row : ∀ d c id, m'.row d c id =
    (scopes.flatMap (snapshotWrites s d c id)).foldl (Lww.later Write.ts) (m.row d c id)
  collectionMeta : ∀ d c b, m.getCollectionMeta d c = some b → m'.getCollectionMeta d c = some b
  database : ∀ d, (m.getDatabaseMeta d).isSome = true → (m'.getDatabaseMeta d).isSome = true

section

variable {s : Storage}

theorem restoreSnapshot_spec {scope : Scope} (hscope : scope.Plain) {m : Memory} (h : m.Tidy) :
    ∃ m', restoreSnapshot s scope m = (m', .ok ()) ∧ SnapshotsRead s [scope] m m' := by
  cases hmanifest : latestManifest s scope with
  | none =>
      have hnever : ∀ d c, ¬SnapshotOf s scope d c := fun d c hof => by
        rw [SnapshotOf, hmanifest] at hof
        cases hof.1
      refine ⟨m, by rw [restoreSnapshot, hmanifest], ?_⟩
      exact
        { tidy := h
          databaseDeleted := fun d => by simp [hnever]
          collectionDeleted := fun d c _ => by simp [hnever]
          row := fun d c id => by simp [snapshotWrites, hmanifest]
          collectionMeta := fun _ _ _ hb => hb
          database := fun _ hd => hd }
  | some manifest =>
      have hof : ∀ d c, SnapshotOf s scope d c ↔ d = scope.database ∧ c = scope.collection := by
        intro d c
        rw [SnapshotOf, hmanifest]
        simp [eq_comm]
      rcases context_spec manifest h hscope.database hscope.collection with
        ⟨htidy, hdatabase, hcollection, hrow, hmeta, hthere⟩
      -- the manifest opens its own collection, so that its rows are not refused
      set m₁ := ensureRestoreManifestContext scope manifest m with hm₁
      have hlive : m₁.isDatabaseDeleted scope.database = false :=
        Bool.eq_false_iff.mpr fun hdeleted => ((hdatabase _).mp hdeleted).2 rfl
      have hlive' : m₁.isCollectionDeleted scope.database scope.collection = false :=
        Bool.eq_false_iff.mpr fun hdeleted =>
          ((hcollection _ _ hscope.database).mp hdeleted).2 ⟨rfl, rfl⟩
      have hread : restoreSnapshot s scope m =
          (m₁.setCollection scope.database scope.collection
            { m₁.collectionOf scope.database scope.collection with
              rows := manifest.rows.foldl (fun held row => (Rows.arrive held row.1 row.2).1)
                (m₁.collectionOf scope.database scope.collection).rows }, .ok ()) := by
        rw [restoreSnapshot, hmanifest]
        dsimp only
        rw [← hm₁, Memory.applySnapshotObjects, hlive, hlive']
        rfl
      refine ⟨_, hread, ?_⟩
      exact
        { tidy := tidy_setCollection htidy hscope.database hscope.collection hlive hlive' _
          databaseDeleted := fun d => by
            refine (hdatabase d).trans (and_congr_right fun _ => not_congr ?_)
            simp [hof]
          collectionDeleted := fun d c hplain => by
            refine (hcollection d c hplain).trans (and_congr_right fun _ => not_congr ?_)
            simp [hof]
          row := fun d c id => by
            rw [row_setCollection]
            by_cases hsame : scope.database = d ∧ scope.collection = c
            · rcases hsame with ⟨rfl, rfl⟩
              rw [if_pos ⟨rfl, rfl⟩, get?_foldl_arrive, Memory.get?_collectionOf, hrow]
              simp [snapshotWrites, hmanifest]
            · rw [if_neg hsame, hrow]
              simp [snapshotWrites, hsame]
          collectionMeta := fun d c b hb => by
            rw [getCollectionMeta_setCollection]
            split_ifs with hsame
            · rcases hsame with ⟨rfl, rfl⟩
              rw [Memory.collectionMeta_collectionOf, hmeta _ _ b hb]
              rfl
            · exact hmeta d c b hb
          database := fun d hd => by
            rw [Memory.getDatabaseMeta_setCollection]
            split_ifs
            · rfl
            · exact hthere d hd }

theorem restoreSnapshots_spec {scopes : List Scope} (hscopes : ∀ scope ∈ scopes, scope.Plain)
    {m : Memory} (h : m.Tidy) :
    ∃ m', restoreSnapshots s scopes m = (m', .ok ()) ∧ SnapshotsRead s scopes m m' := by
  induction scopes generalizing m with
  | nil =>
      refine ⟨m, rfl, ?_⟩
      exact
        { tidy := h
          databaseDeleted := fun d => by simp
          collectionDeleted := fun d c _ => by simp
          row := fun _ _ _ => rfl
          collectionMeta := fun _ _ _ hb => hb
          database := fun _ hd => hd }
  | cons scope scopes ih =>
      rcases List.forall_mem_cons.mp hscopes with ⟨hscope, hrest⟩
      rcases restoreSnapshot_spec (s := s) hscope h with ⟨m₁, hfirst, hone⟩
      rcases ih hrest hone.tidy with ⟨m₂, hsecond, hall⟩
      refine ⟨m₂, by rw [restoreSnapshots, hfirst]; exact hsecond, ?_⟩
      exact
        { tidy := hall.tidy
          databaseDeleted := fun d => by
            rw [hall.databaseDeleted, hone.databaseDeleted, and_assoc, ← not_or,
              List.exists_mem_cons_iff]
            simp
          collectionDeleted := fun d c hplain => by
            rw [hall.collectionDeleted d c hplain, hone.collectionDeleted d c hplain, and_assoc,
              ← not_or, List.exists_mem_cons_iff]
            simp
          row := fun d c id => by
            rw [hall.row, hone.row, List.flatMap_cons, List.foldl_append]
            simp
          collectionMeta := fun d c b hb =>
            hall.collectionMeta d c b (hone.collectionMeta d c b hb)
          database := fun d hd => hall.database d (hone.database d hd) }

end

/-! ## The outcome -/

/-- The scopes that a catch-up of `target` reads. -/
def caughtScopes (s : Storage) (target : Scope) : List Scope :=
  liveScopes s ((uniqueScopes s).filter fun scope => matchesRestoreTarget scope target)

/-- The operations that a catch-up of `target` applies. -/
def caughtOps (s : Storage) (target : Scope) : List Op :=
  (caughtScopes s target).flatMap (restoredOps s)

/-- The memory `r` after a catch-up of `m`. -/
structure CaughtUp (s : Storage) (target : Scope) (m r : Memory) : Prop where
  tidy : r.Tidy
  databaseDeleted : ∀ d, r.isDatabaseDeleted d = true ↔
    (m.isDatabaseDeleted d = true ∨ d ∈ databaseTombstones s) ∧
      ¬∃ scope ∈ caughtScopes s target, ∃ c, SnapshotOf s scope d c
  collectionDeleted : ∀ d c, PlainName d → (r.isCollectionDeleted d c = true ↔
    (m.isCollectionDeleted d c = true ∨ .collectionTombstone d c ∈ Assoc.keys s) ∧
      ¬∃ scope ∈ caughtScopes s target, SnapshotOf s scope d c)
  row : ∀ d c id, PlainName d → m.isDatabaseDeleted d = false → m.isCollectionDeleted d c = false →
    d ∉ databaseTombstones s → .collectionTombstone d c ∉ Assoc.keys s →
      r.row d c id = ((caughtScopes s target).flatMap (snapshotWrites s d c id) ++
        writesTo d c id (caughtOps s target)).foldl (Lww.later Write.ts) (m.row d c id)
  collectionMeta : ∀ d c b, PlainName d → m.getCollectionMeta d c = some b →
    d ∉ databaseTombstones s → .collectionTombstone d c ∉ Assoc.keys s →
      r.getCollectionMeta d c = some ((bodyAt s (.collectionMeta d c)).getD b)
  database : ∀ d, (m.getDatabaseMeta d).isSome = true → d ∉ databaseTombstones s →
    (r.getDatabaseMeta d).isSome = true

/-- The scopes that are read are neither deleted nor of deleted collections. -/
theorem live_of_caughtScopes {s : Storage} {target scope : Scope}
    (h : scope ∈ caughtScopes s target) :
    scope ∈ uniqueScopes s ∧ matchesRestoreTarget scope target = true ∧
      scope.database ∉ databaseTombstones s ∧
      .collectionTombstone scope.database scope.collection ∉ Assoc.keys s := by
  rcases List.mem_filter.mp h with ⟨hscope, hlive⟩
  rcases List.mem_filter.mp hscope with ⟨hunique, htarget⟩
  rw [Bool.and_eq_true, decide_eq_true_eq, decide_eq_true_eq] at hlive
  refine ⟨hunique, htarget, hlive.1, fun hmem => hlive.2 ?_⟩
  exact mem_collectionTombstones.mpr ⟨_, _, hmem, rfl⟩

theorem op_of_caughtOps {s : Storage} (hs : Regular s) {target : Scope} {op : Op}
    (hop : op ∈ caughtOps s target) : PlainName op.db ∧ PlainName op.coll := by
  rcases List.mem_flatMap.mp hop with ⟨scope, hscope, hop⟩
  have hplain := hs.plain_of_uniqueScopes (live_of_caughtScopes hscope).1
  rcases List.mem_flatMap.mp hop with ⟨⟨key, file⟩, hentry, hop⟩
  cases key with
  | journal scope' node first last uuid =>
      cases file with
      | ops ops =>
          simp only [uncoveredOps] at hop
          split_ifs at hop with hsame hcovered
          · cases hop
          · cases hop
          · rw [not_not] at hsame
            subst hsame
            rcases hs.filed _ hentry op (List.mem_of_mem_filter hop) with ⟨hdb, hcoll⟩
            exact ⟨hdb ▸ hplain.database, hcoll ▸ hplain.collection⟩
      | _ => cases hop
  | _ => cases hop

/-- What a catch-up of a running node does. -/
theorem restoreScope_spec {s : Storage} (hs : Regular s) (target : Scope) {m : Memory}
    (h : m.Tidy) : ∃ r, restoreScope s target m = (r, .ok ()) ∧ CaughtUp s target m r := by
  -- the memory after the tombstones, and after the metadata that is restored next
  set m₂ := restoreCollectionTombstones (collectionTombstones s)
    (restoreDatabaseTombstones (databaseTombstones s) m) with hm₂
  set m₄ := restoreMetadata s (restoreDatabaseMetadata s m₂) with hm₄
  have htidy₄ : m₄.Tidy := by
    refine tidy_restoreMetadata hs (tidy_restoreDatabaseMetadata s ?_)
    exact tidy_restoreCollectionTombstones hs (tidy_restoreDatabaseTombstones _ h)
  have hdatabase₂ : ∀ d, m₂.isDatabaseDeleted d = true ↔
      m.isDatabaseDeleted d = true ∨ d ∈ databaseTombstones s := by
    intro d
    rw [hm₂, isDatabaseDeleted_restoreCollectionTombstones,
      isDatabaseDeleted_restoreDatabaseTombstones]
  have hcollection₂ : ∀ d c, PlainName d → (m₂.isCollectionDeleted d c = true ↔
      m.isCollectionDeleted d c = true ∨ .collectionTombstone d c ∈ Assoc.keys s) := by
    intro d c hplain
    rw [hm₂, isCollectionDeleted_restoreCollectionTombstones,
      isCollectionDeleted_restoreDatabaseTombstones]
    refine or_congr_right ⟨?_, fun hmem => ?_⟩
    · rintro ⟨key, hkey, hsame⟩
      rcases mem_collectionTombstones.mp hkey with ⟨d', c', hmem, rfl⟩
      have hplain' : PlainName d' ∧ PlainName c' := hs.plain_of_mem hmem
      rw [parseCollectionKey_collectionKey hplain'.1 hplain'.2] at hsame
      rcases storeCollectionKey_inj hplain hplain'.1 hsame with ⟨rfl, rfl⟩
      exact hmem
    · have hplain' : PlainName d ∧ PlainName c := hs.plain_of_mem hmem
      refine ⟨collectionKey d c, mem_collectionTombstones.mpr ⟨d, c, hmem, rfl⟩, ?_⟩
      rw [parseCollectionKey_collectionKey hplain'.1 hplain'.2]
  -- metadata brings back nothing that is deleted
  have hdatabase₄ : ∀ d, m₄.isDatabaseDeleted d = m₂.isDatabaseDeleted d := fun d =>
    (isDatabaseDeleted_restoreMetadata _ _ d).trans (isDatabaseDeleted_restoreDatabaseMetadata _ _ d)
  have hcollection₄ : ∀ d c, m₄.isCollectionDeleted d c = m₂.isCollectionDeleted d c := fun d c =>
    (isCollectionDeleted_restoreMetadata _ _ d c).trans
      (isCollectionDeleted_restoreDatabaseMetadata _ _ d c)
  have hget₂ : ∀ d c, d ∉ databaseTombstones s → .collectionTombstone d c ∉ Assoc.keys s →
      m₂.getCollection d c = m.getCollection d c := by
    intro d c hd hc
    rw [hm₂, getCollection_restoreCollectionTombstones, getCollection_restoreDatabaseTombstones,
      if_neg hd, if_neg]
    exact fun hmem => hc ((mem_parsed_tombstones hs).mp hmem)
  have hget₃ : ∀ d c, d ∉ databaseTombstones s → .collectionTombstone d c ∉ Assoc.keys s →
      (restoreDatabaseMetadata s m₂).getCollection d c = m.getCollection d c := fun d c hd hc =>
    (getCollection_restoreDatabaseMetadata s m₂ d c).trans (hget₂ d c hd hc)
  have hplainScopes : ∀ scope ∈ caughtScopes s target, scope.Plain := fun scope hscope =>
    hs.plain_of_uniqueScopes (live_of_caughtScopes hscope).1
  -- the snapshots of the scopes, and after them the journals
  rcases restoreSnapshots_spec (s := s) hplainScopes htidy₄ with ⟨m₅, hsnapshots, hread⟩
  refine ⟨(m₅.applyOps (caughtOps s target)).1, ?_, ?_⟩
  · show restoreScopeSet s (caughtScopes s target) m₄ = _
    rw [restoreScopeSet, hsnapshots]
    rfl
  exact
    { tidy := tidy_applyOps (fun op hop => op_of_caughtOps hs hop) hread.tidy
      databaseDeleted := fun d => by
        rw [isDatabaseDeleted_applyOps, hread.databaseDeleted, hdatabase₄, hdatabase₂]
      collectionDeleted := fun d c hplain => by
        rw [isCollectionDeleted_applyOps, hread.collectionDeleted d c hplain, hcollection₄,
          hcollection₂ d c hplain]
      row := fun d c id hplain hdatabase hcollection hd hc => by
        have hlive : (m₅.isDatabaseDeleted d || m₅.isCollectionDeleted d c) = false := by
          rw [Bool.or_eq_false_iff, Bool.eq_false_iff, Bool.eq_false_iff, Ne, Ne,
            hread.databaseDeleted, hread.collectionDeleted d c hplain, hdatabase₄, hcollection₄,
            hdatabase₂, hcollection₂ d c hplain, hdatabase, hcollection]
          simp [hd, hc]
        have hrow : m₄.row d c id = m.row d c id := by
          rw [hm₄, row_restoreMetadata, Memory.row, hget₃ d c hd hc]
          rfl
        rw [row_applyOps, hlive, hread.row, hrow, List.foldl_append]
        rfl
      collectionMeta := fun d c b hplain hb hd hc => by
        have hb₃ : (restoreDatabaseMetadata s m₂).getCollectionMeta d c = some b := by
          rw [Memory.getCollectionMeta, hget₃ d c hd hc]
          exact hb
        have hthere : (m₂.getCollection d c).isSome = true := by
          rw [hget₂ d c hd hc, ← isSome_iff_meta, hb]
          rfl
        have htidy₂ : m₂.Tidy :=
          tidy_restoreCollectionTombstones hs (tidy_restoreDatabaseTombstones _ h)
        have hlive : (m₂.isDatabaseDeleted d || m₂.isCollectionDeleted d c) = false := by
          rw [Bool.or_eq_false_iff, Bool.eq_false_iff, Bool.eq_false_iff]
          constructor
          · intro hdeleted
            have hdatabase := htidy₂.inDatabase d c hthere
            rw [htidy₂.database d hdeleted] at hdatabase
            cases hdatabase
          · intro hdeleted
            rw [htidy₂.collection d c hdeleted] at hthere
            cases hthere
        have hb₄ : m₄.getCollectionMeta d c = some ((bodyAt s (.collectionMeta d c)).getD b) := by
          rw [hm₄, getCollectionMeta_restoreMetadata _ _ hs.nodup,
            isDatabaseDeleted_restoreDatabaseMetadata,
            isCollectionDeleted_restoreDatabaseMetadata, hlive, hb₃]
          cases bodyAt s (.collectionMeta d c) <;> rfl
        rw [getCollectionMeta_applyOps]
        exact Or.inl (hread.collectionMeta d c _ hb₄)
      database := fun d hsome hd => by
        have hsome₂ : (m₂.getDatabaseMeta d).isSome = true := by
          rw [hm₂, getDatabaseMeta_restoreCollectionTombstones,
            getDatabaseMeta_restoreDatabaseTombstones, if_neg hd]
          exact hsome
        have hsome₃ : ((restoreDatabaseMetadata s m₂).getDatabaseMeta d).isSome = true := by
          rw [getDatabaseMeta_restoreDatabaseMetadata _ _ hs.nodup]
          split_ifs
          · exact hsome₂
          · rw [Option.isSome_or, hsome₂, Bool.or_true]
        have hsome₄ : (m₄.getDatabaseMeta d).isSome = true := by
          rcases Option.isSome_iff_exists.mp hsome₃ with ⟨b, hb⟩
          rw [hm₄, (getDatabaseMeta_restoreMetadata _ _ hs.nodup).mpr (Or.inl hb)]
          rfl
        rcases Option.isSome_iff_exists.mp (hread.database d hsome₄) with ⟨b, hb⟩
        rw [(getDatabaseMeta_applyOps m₅).mpr (Or.inl hb)]
        rfl }

end Persist
end ObjyDb
