import ObjyDb.Store.Cold

/-!
# Tallies — batches keep the counters

One lemma per row operation and per batch: when no row leaves an entry for an object that was
never written, the entries stay in order, and the counters agree with them after the batch if they
did before it.  Rows of a snapshot are counted at the end of their batch.

- `Collection.Orderly`, `Collection.Advances`
- `putObjects_advances`, `deleteObjects_advances`, `applySnapshotObjects_advances`
-/

namespace ObjyDb

open Js

namespace Collection

variable {c d e : Collection} {id : JsString} {ω : Type}

/-! ## The invariant -/

/-- The entries, their row ids and the compressed parts are in order, and every entry is that of an
object that was written. -/
structure Orderly (c : Collection) : Prop where
  rids : c.RidsOk
  owned : c.RidsOwned
  cold : c.ColdOk
  phantoms : NoPhantoms c.objects

theorem orderly_new (vectorField : Option JsString) (compression : Option Compression) :
    Orderly (Collection.new vectorField compression) :=
  ⟨⟨List.nodup_nil, fun h => nomatch h⟩, fun rid id hid => by simp [Collection.new] at hid,
    coldOk_new vectorField compression, fun _ hentry => nomatch hentry⟩

/-- The object has an entry. -/
def Known (c : Collection) (id : JsString) : Prop :=
  (Assoc.get? c.objects id).isSome

/-- `d` is a state that `c` may lead to. -/
structure Advances (c d : Collection) : Prop where
  orderly : d.Orderly
  vectorField : d.vectorField = c.vectorField
  known : ∀ id, c.Known id → d.Known id

theorem Advances.refl (h : c.Orderly) : Advances c c :=
  ⟨h, rfl, fun _ hid => hid⟩

theorem Advances.trans (hcd : Advances c d) (hde : Advances d e) : Advances c e :=
  ⟨hde.orderly, hde.vectorField.trans hcd.vectorField, fun id hid => hde.known id (hcd.known id hid)⟩

theorem Reworked.advances (hcd : Reworked c d) (h : c.Orderly) : Advances c d := by
  have hkept := hcd.kept
  refine ⟨⟨?_, h.owned.kept hkept, hcd.coldOk h.owned h.cold, hkept.objects ▸ h.phantoms⟩,
    hkept.vectorField, ?_⟩
  · constructor
    · rw [hkept.objects]
      exact h.rids.nodup
    · intro id m hm
      rw [hkept.objects] at hm
      rw [hkept.idByRid]
      exact h.rids.owned hm
  · intro id hid
    rw [Known, hkept.objects]
    exact hid

/-! ## Entries -/

/-- The entries and row ids are in order, with an entry that may be new. -/
structure Entering (c : Collection) (id : JsString) (d : Collection) (m : RowMeta) : Prop where
  entered : Entered c id d m
  rids : d.RidsOk
  owned : d.RidsOwned
  cold : d.ColdOk
  tallied : c.Tallied → d.Tallied

theorem Orderly.entering (h : c.Orderly) {m : RowMeta} (hm : c.ensureMeta id = (d, m)) :
    Entering c id d m := by
  have he := ensureMeta_entered c id
  have howned := h.owned.ensureMeta id
  rw [hm] at he howned
  exact ⟨he, he.rids h.rids, howned, h.cold.entered hm, fun htallied => htallied.entered hm⟩

theorem Entering.known {m : RowMeta} (he : Entering c id d m) (id' : JsString) (h : c.Known id') :
    d.Known id' := by
  by_cases hid : id' = id
  · subst hid
    rw [Known, he.entered.here]
    rfl
  · rw [Known, he.entered.elsewhere hid]
    exact h

/-- A row that is not accepted leaves the entries in order when its object is known or its entry
holds a timestamp. -/
theorem Entering.rejected {m : RowMeta} (he : Entering c id d m) (h : c.Orderly)
    (hm : c.Known id ∨ m.ts.isSome ∨ m.deleted.isSome) : Advances c d := by
  refine ⟨⟨he.rids, he.owned, he.cold, ?_⟩, he.entered.same.vectorField, he.known⟩
  intro entry hentry
  have hget := he.rids.get?_of_mem hentry
  by_cases hid : entry.1 = id
  · rw [hid, he.entered.here] at hget
    cases hget
    rcases hm with hknown | hstamped
    · rcases he.entered.fresh with hheld | ⟨hnone, -⟩
      · exact h.phantoms (id, entry.2) (Assoc.mem_of_get?_eq_some hheld)
      · rw [Known, hnone] at hknown
        cases hknown
    · exact hstamped
  · rw [he.entered.elsewhere hid] at hget
    exact h.phantoms entry (Assoc.mem_of_get?_eq_some hget)

/-- A row that is written. -/
theorem Entering.written {m next : RowMeta} (he : Entering c id d m) (h : c.Orderly)
    (hobjects : e.objects = Assoc.set d.objects id next) (hids : e.idByRid = d.idByRid)
    (hfield : e.vectorField = d.vectorField) (hrid : next.rid = m.rid)
    (hstamped : next.ts.isSome ∨ next.deleted.isSome) (hcold : e.ColdOk) : Advances c e := by
  have hrids : e.RidsOk := by
    have hset := ridsOk_setRowMeta he.rids he.entered.here hrid
    refine ⟨by rw [hobjects]; exact hset.nodup, ?_⟩
    intro id' m' hm'
    rw [hobjects] at hm'
    rw [hids]
    exact hset.owned hm'
  refine ⟨⟨hrids, he.owned.setRow he.entered.here hrid hobjects hids, hcold, ?_⟩,
    hfield.trans he.entered.same.vectorField, ?_⟩
  · intro entry hentry
    have hget := hrids.get?_of_mem hentry
    rw [hobjects, Assoc.get?_set] at hget
    split_ifs at hget with hid
    · cases hget
      exact hstamped
    · rw [he.entered.elsewhere (Ne.symm hid)] at hget
      exact h.phantoms entry (Assoc.mem_of_get?_eq_some hget)
  · intro id' hid'
    have hknown := he.known id' hid'
    rw [Known, hobjects, Assoc.get?_set]
    split_ifs
    · rfl
    · exact hknown

theorem stamped_of_not_older {m : RowMeta} {ts : Ts} (h : ¬ Older m ts) :
    m.ts.isSome ∨ m.deleted.isSome := by
  cases hts : m.ts with
  | some t => exact .inl rfl
  | none =>
      cases hdeleted : m.deleted with
      | some t => exact .inr rfl
      | none =>
          refine absurd ⟨?_, ?_⟩ h
          · exact fun hd => nomatch hdeleted.symm.trans hd
          · exact fun ht => nomatch hts.symm.trans ht

theorem stamped_of_last {m : RowMeta} {last : Ts} (h : m.deleted.or m.ts = some last) :
    m.ts.isSome ∨ m.deleted.isSome := by
  rcases Option.or_eq_some_iff.mp h with hdeleted | ⟨-, hts⟩
  · exact .inr (by rw [hdeleted]; rfl)
  · exact .inl (by rw [hts]; rfl)

/-! ## Puts -/

theorem sameCounters_overwrite (c : Collection) (id : JsString) (m : RowMeta) (base : Fields)
    (vector : VectorUpdate) : SameCounters c (c.overwrite id m base vector) := by
  have hwrite := ((c.setRowMeta id m).kept_writeBaseValue id m.rid base).sameCounters
  rw [overwrite, applyVectorUpdate_eq]
  exact ⟨hwrite.live, hwrite.shardIds, hwrite.unsharded⟩

theorem sameCounters_clear (c : Collection) (id : JsString) (m : RowMeta) :
    SameCounters c (c.clear id m) :=
  ⟨rfl, rfl, rfl⟩

theorem idByRid_overwrite (c : Collection) (id : JsString) (m : RowMeta) (base : Fields)
    (vector : VectorUpdate) : (c.overwrite id m base vector).idByRid = c.idByRid :=
  (c.overwrite_counted id m base vector).rows_eq.2.2.2.1

/-- What `_putObject` leaves, with its counters. -/
theorem putObject_counted (c : Collection) (row : Row ω) (keep : Bool) {m : RowMeta}
    (hm : c.ensureMeta row.id = (d, m)) :
    (¬ Older m row.ts ∧ c.putObject row keep = (d, .ok none)) ∨
    (∃ err, d.prepareStoredValue row.value = .error err ∧
      c.putObject row keep = (d, .error err)) ∨
    ∃ base vector delta, ∃ next : RowMeta, next.ts = some row.ts ∧ next.deleted = none ∧
      next.rid = m.rid ∧ c.putObject row keep = ((d.overwrite row.id next base vector).countPut
        m.wasLive m.rid (if m.wasLive then m.shard else none) next.shard, .ok (some delta)) := by
  unfold putObject
  rw [hm]
  dsimp only
  by_cases hdel : (m.deleted.isSome && !gt (some row.ts) m.deleted) = true
  · left
    refine ⟨fun hold => ?_, if_pos hdel⟩
    rw [(stale_iff _ _).mpr fun _ => hold.deleted] at hdel
    cases hdel
  rw [if_neg hdel]
  by_cases hts : (m.ts.isSome && !gt (some row.ts) m.ts) = true
  · left
    refine ⟨fun hold => ?_, if_pos hts⟩
    rw [(stale_iff _ _).mpr fun _ => hold.written] at hts
    cases hts
  rw [if_neg hts]
  right
  cases hprep : d.prepareStoredValue row.value with
  | error err => exact .inl ⟨err, rfl, rfl⟩
  | ok prepared =>
      rcases prepared with ⟨value, vector⟩
      exact .inr ⟨_, _, _, { m with
        ts := some row.ts, deleted := none, shard := (normalizeShard row.shard).or m.shard },
        rfl, rfl, rfl, rfl⟩

/-- The row does not leave an entry for an object that was never written. -/
def SafeRow (c : Collection) (row : Row ω) : Prop :=
  ValidVector c.vectorField row.value ∨ c.Known row.id

theorem SafeRow.advances {row : Row ω} (h : c.SafeRow row) (hcd : Advances c d) : d.SafeRow row := by
  rcases h with hvalid | hknown
  · exact .inl (hcd.vectorField ▸ hvalid)
  · exact .inr (hcd.known row.id hknown)

theorem putObject_advances (h : c.Orderly) {row : Row ω} (hsafe : c.SafeRow row) (keep : Bool) :
    Advances c (c.putObject row keep).1 ∧
      (c.Tallied → (c.putObject row keep).1.Tallied) := by
  cases hensure : c.ensureMeta row.id with
  | mk d m =>
      have he := h.entering hensure
      rcases putObject_counted c row keep hensure with
        ⟨hnot, heq⟩ | ⟨err, herr, heq⟩ | ⟨base, vector, delta, next, hts, hdeleted, hrid, heq⟩
      · rw [heq]
        exact ⟨he.rejected h (.inr (stamped_of_not_older hnot)), he.tallied⟩
      · rw [heq]
        refine ⟨he.rejected h (.inl ?_), he.tallied⟩
        rcases hsafe with hvalid | hknown
        · rcases prepareStoredValue_valid he.entered.same.vectorField hvalid with ⟨_, hok, -⟩
          cases hok.symm.trans herr
        · exact hknown
      · have hcounted := counted_countPut (d.overwrite row.id next base vector) m.wasLive m.rid
          (if m.wasLive then m.shard else none) next.shard
        have hobjects : ((d.overwrite row.id next base vector).countPut m.wasLive m.rid
            (if m.wasLive then m.shard else none) next.shard).objects =
              Assoc.set d.objects row.id next :=
          (objects_counted hcounted).trans (objects_overwrite ..)
        rw [heq]
        constructor
        · refine he.written h hobjects ?_ ?_ hrid (.inl (by rw [hts]; rfl)) ?_
          · exact hcounted.rows_eq.2.2.2.1.trans (idByRid_overwrite ..)
          · exact hcounted.sameDerived.vectorField.trans (sameDerived_overwrite ..).vectorField
          · exact coldOk_countPut (he.cold.overwrite he.entered.here hrid hdeleted base vector) ..
        · intro htallied
          refine (he.tallied htallied).put he.rids he.entered.here (objects_overwrite ..)
            (sameCounters_overwrite ..) hrid ?_
          simp [isLiveEntry, hts, hdeleted]

theorem putRows_advances (keep : Bool) {rows : List (Row ω)} (h : c.Orderly)
    (hsafe : ∀ row ∈ rows, c.SafeRow row) :
    Advances c (putRows keep c rows).1 ∧ (c.Tallied → (putRows keep c rows).1.Tallied) := by
  induction rows generalizing c with
  | nil => exact ⟨.refl h, fun htallied => htallied⟩
  | cons row rest ih =>
      rcases putObject_advances h (hsafe row List.mem_cons_self) keep with ⟨hput, htallied⟩
      rw [putRows]
      cases hresult : c.putObject row keep with
      | mk d result =>
          rw [hresult] at hput htallied
          cases result with
          | error err => exact ⟨hput, htallied⟩
          | ok delta =>
              rcases ih hput.orderly fun r hr =>
                (hsafe r (List.mem_cons_of_mem _ hr)).advances hput with ⟨hrest, hcounted⟩
              have hboth : Advances c (putRows keep d rest).1 ∧
                  (c.Tallied → (putRows keep d rest).1.Tallied) :=
                ⟨hput.trans hrest, fun ht => hcounted (htallied ht)⟩
              dsimp only
              cases hmore : putRows keep d rest with
              | mk e more =>
                  rw [hmore] at hboth
                  cases more with
                  | error err => exact hboth
                  | ok more => cases delta <;> exact hboth

theorem putObjects_advances {rows : List (Row ω)} (h : c.Orderly)
    (hsafe : ∀ row ∈ rows, c.SafeRow row) :
    Advances c (c.putObjects rows).1 ∧ (c.Tallied → (c.putObjects rows).1.Tallied) := by
  rcases putRows_advances (c.shouldDeferIndexDeltasForCount rows.length) h hsafe with
    ⟨hput, htallied⟩
  rw [putObjects]
  cases hresult : putRows (c.shouldDeferIndexDeltasForCount rows.length) c rows with
  | mk d result =>
      rw [hresult] at hput htallied
      cases result with
      | error err => exact ⟨hput, htallied⟩
      | ok applied =>
          have hdeltas := reworked_applyIndexDeltas d applied.2
          exact ⟨hput.trans (hdeltas.advances hput.orderly),
            fun ht => (htallied ht).kept hdeltas.kept⟩

/-! ## Deletes -/

theorem deleteObject_counted (c : Collection) (row : Row ω) {m : RowMeta}
    (hm : c.ensureMeta row.id = (d, m)) :
    ((∃ last, m.deleted.or m.ts = some last) ∧ c.deleteObject row = (d, none)) ∨
    ∃ delta, ∃ next : RowMeta, next.deleted = some row.ts ∧ next.rid = m.rid ∧
      c.deleteObject row = ((d.clear row.id next).countDelete m.wasLive m.rid
        (if m.wasLive then m.shard else none), some delta) := by
  unfold deleteObject
  rw [hm]
  dsimp only
  by_cases hstale : ((m.deleted.or m.ts).isSome && !gt (some row.ts) (m.deleted.or m.ts)) = true
  · left
    refine ⟨?_, if_pos hstale⟩
    exact Option.isSome_iff_exists.mp ((Bool.and_eq_true_iff.mp hstale).1)
  · right
    rw [if_neg hstale]
    exact ⟨_, { m with deleted := some row.ts, shard := (normalizeShard row.shard).or m.shard },
      rfl, rfl, rfl⟩

theorem deleteObject_advances (h : c.Orderly) (row : Row ω) :
    Advances c (c.deleteObject row).1 ∧ (c.Tallied → (c.deleteObject row).1.Tallied) := by
  cases hensure : c.ensureMeta row.id with
  | mk d m =>
      have he := h.entering hensure
      rcases deleteObject_counted c row hensure with
        ⟨⟨last, hlast⟩, heq⟩ | ⟨delta, next, hdeleted, hrid, heq⟩
      · rw [heq]
        exact ⟨he.rejected h (.inr (stamped_of_last hlast)), he.tallied⟩
      · have hcounted := counted_countDelete (d.clear row.id next) m.wasLive m.rid
          (if m.wasLive then m.shard else none)
        have hobjects : ((d.clear row.id next).countDelete m.wasLive m.rid
            (if m.wasLive then m.shard else none)).objects = Assoc.set d.objects row.id next :=
          (objects_counted hcounted).trans (objects_clear ..)
        rw [heq]
        constructor
        · refine he.written h hobjects ?_ ?_ hrid (.inr (by rw [hdeleted]; rfl)) ?_
          · exact hcounted.rows_eq.2.2.2.1
          · exact hcounted.sameDerived.vectorField
          · exact coldOk_countDelete (he.cold.clear he.entered.here hrid) ..
        · intro htallied
          refine (he.tallied htallied).delete he.rids he.entered.here (objects_clear ..)
            (sameCounters_clear ..) ?_
          simp [isLiveEntry, hdeleted]

theorem deleteRows_advances (h : c.Orderly) (rows : List (Row ω)) :
    Advances c (deleteRows c rows).1 ∧ (c.Tallied → (deleteRows c rows).1.Tallied) := by
  induction rows generalizing c with
  | nil => exact ⟨.refl h, fun htallied => htallied⟩
  | cons row rest ih =>
      rcases deleteObject_advances h row with ⟨hdelete, htallied⟩
      rcases ih hdelete.orderly with ⟨hrest, hcounted⟩
      have hboth := And.intro (hdelete.trans hrest) fun ht => hcounted (htallied ht)
      rw [deleteRows]
      dsimp only
      cases (c.deleteObject row).2 <;> exact hboth

theorem deleteObjects_advances (h : c.Orderly) (rows : List (Row ω)) :
    Advances c (c.deleteObjects rows).1 ∧ (c.Tallied → (c.deleteObjects rows).1.Tallied) := by
  rcases deleteRows_advances h rows with ⟨hdelete, htallied⟩
  have hdeltas := reworked_applyIndexDeltas (deleteRows c rows).1 (deleteRows c rows).2.2
  exact ⟨hdelete.trans (hdeltas.advances hdelete.orderly),
    fun ht => (htallied ht).kept hdeltas.kept⟩

/-! ## Snapshot rows -/

/-- The row has a timestamp, or its object is known; a live row has a valid vector field. -/
structure SafeSnapshotRow (c : Collection) (row : SnapshotRow) : Prop where
  stamped : row.ts.isSome ∨ row.deleted.isSome ∨ c.Known row.id
  valid : row.deleted.isSome ∨ ValidVector c.vectorField row.value

theorem SafeSnapshotRow.advances {row : SnapshotRow} (h : c.SafeSnapshotRow row)
    (hcd : Advances c d) : d.SafeSnapshotRow row := by
  refine ⟨?_, ?_⟩
  · rcases h.stamped with hts | hdeleted | hknown
    · exact .inl hts
    · exact .inr (.inl hdeleted)
    · exact .inr (.inr (hcd.known row.id hknown))
  · rw [hcd.vectorField]
    exact h.valid

/-- A safe row is rejected and counts nothing, or it is applied. -/
theorem applySnapshotObject_advances (h : c.Orderly) {row : SnapshotRow}
    (hsafe : c.SafeSnapshotRow row) (deferred : Bool) :
    ∃ d applied, c.applySnapshotObject row deferred = (d, .ok applied) ∧ Advances c d ∧
      (applied = false → c.Tallied → d.Tallied) := by
  cases hensure : c.ensureMeta row.id with
  | mk d m =>
      have he := h.entering hensure
      rcases c.applySnapshotObject_cases row deferred hensure with
        ⟨hstale, heq⟩ | ⟨hlive, err, herr, -⟩ | ⟨e, after, hwrite, heq⟩
      · refine ⟨d, false, heq, he.rejected h ?_, fun _ => he.tallied⟩
        rcases hstale with ⟨ts, last, -, hlast, -⟩ | ⟨hlive, hnewer⟩
        · exact .inr (stamped_of_last hlast)
        · rcases hsafe.stamped with hts | hdeleted | hknown
          · rcases Option.isSome_iff_exists.mp hts with ⟨ts, hts⟩
            exact .inr (stamped_of_not_older (hnewer ts hts))
          · rw [hlive] at hdeleted
            cases hdeleted
          · exact .inl hknown
      · rcases hsafe.valid with hdeleted | hvalid
        · rw [hlive] at hdeleted
          cases hdeleted
        · rcases prepareStoredValue_valid he.entered.same.vectorField hvalid with ⟨_, hok, -⟩
          cases hok.symm.trans herr
      · refine ⟨_, true, heq, ?_, fun hfalse => nomatch hfalse⟩
        have hwritten : Advances c e := by
          cases hwrite with
          | deleted next _ _ _ hdeleted hrid =>
              exact he.written h (objects_clear ..) rfl rfl hrid (.inr (by rw [hdeleted]; rfl))
                (he.cold.clear he.entered.here hrid)
          | live next _ _ _ _ hts hdeleted hrid =>
              exact he.written h (objects_overwrite ..) (idByRid_overwrite ..)
                (sameDerived_overwrite ..).vectorField hrid (.inl (by rw [hts]; rfl))
                (he.cold.overwrite he.entered.here hrid hdeleted _ _)
        exact hwritten.trans ((reworked_applyIndexDeltas e _).advances hwritten.orderly)

theorem applySnapshotRows_advances (deferred : Bool) {rows : List SnapshotRow} (h : c.Orderly)
    (hsafe : ∀ row ∈ rows, c.SafeSnapshotRow row) :
    ∃ d applied, applySnapshotRows deferred c rows = (d, .ok applied) ∧ Advances c d ∧
      (applied = 0 → c.Tallied → d.Tallied) := by
  induction rows generalizing c with
  | nil => exact ⟨c, 0, rfl, .refl h, fun _ htallied => htallied⟩
  | cons row rest ih =>
      rcases applySnapshotObject_advances h (hsafe row List.mem_cons_self) deferred with
        ⟨d, applied, hrow, hadvances, htallied⟩
      rcases ih hadvances.orderly fun r hr =>
        (hsafe r (List.mem_cons_of_mem _ hr)).advances hadvances with
        ⟨e, n, hmore, hrest, hcounted⟩
      refine ⟨e, if applied then n + 1 else n, ?_, hadvances.trans hrest, ?_⟩
      · simp only [applySnapshotRows, hrow, hmore]
      · intro hzero ht
        cases applied with
        | true => cases hzero
        | false => exact hcounted hzero (htallied rfl ht)

theorem orderly_rebuildDerivedState (h : c.Orderly) : Advances c c.rebuildDerivedState := by
  have hobjects := objects_rebuildDerivedState c
  have hrest : ∀ (entries : List (JsString × RowMeta)) (s : Rebuild),
      (entries.foldl (rebuildRowState c.collectionMeta.columns) s).collection.idByRid =
        s.collection.idByRid ∧
      (entries.foldl (rebuildRowState c.collectionMeta.columns) s).collection.vectorField =
        s.collection.vectorField := by
    intro entries
    induction entries with
    | nil => exact fun _ => ⟨rfl, rfl⟩
    | cons entry entries ih =>
        intro s
        have hcounted := counted_addShardRid { s.collection with
          liveCount := s.collection.liveCount + 1 } entry.2.rid entry.2.shard
        have hrow : (rebuildRowState c.collectionMeta.columns s entry).collection.idByRid =
            s.collection.idByRid ∧
            (rebuildRowState c.collectionMeta.columns s entry).collection.vectorField =
              s.collection.vectorField := by
          unfold rebuildRowState
          dsimp only
          split_ifs
          · exact ⟨rfl, rfl⟩
          · split
            · exact ⟨hcounted.rows_eq.2.2.2.1, hcounted.sameDerived.vectorField⟩
            · have hkept := kept_rewriteBaseValueForColumns (({ s.collection with
                liveCount := s.collection.liveCount + 1 }).addShardRid entry.2.rid entry.2.shard)
              exact ⟨(hkept _ _ _).idByRid.trans hcounted.rows_eq.2.2.2.1,
                (hkept _ _ _).vectorField.trans hcounted.sameDerived.vectorField⟩
        rw [List.foldl_cons]
        exact ⟨(ih _).1.trans hrow.1, (ih _).2.trans hrow.2⟩
  rcases hrest c.objects ⟨{ c with liveCount := 0, shardIds := [], unshardedLiveCount := 0 },
    c.collectionMeta.indexes.map fun path => (path, FieldIndex.new path),
    c.collectionMeta.columns.map fun path => (path, TypedRidColumn.new path)⟩ with ⟨hids, hfield⟩
  refine ⟨⟨⟨?_, ?_⟩, h.owned.congr hobjects hids, coldOk_rebuildDerivedState h.cold h.rids,
    hobjects ▸ h.phantoms⟩, hfield, ?_⟩
  · rw [hobjects]
    exact h.rids.nodup
  · intro id m hm
    rw [hobjects] at hm
    exact hids.symm ▸ h.rids.owned hm
  · intro id hid
    rw [Known, hobjects]
    exact hid

/-- A safe batch of snapshot rows ends with the counters in order, unless counting is left to the
end of a bulk load. -/
theorem applySnapshotObjects_advances (deferred : Bool) {rows : List SnapshotRow} (h : c.Orderly)
    (hsafe : ∀ row ∈ rows, c.SafeSnapshotRow row) :
    ∃ d applied, c.applySnapshotObjects rows deferred = (d, .ok applied) ∧ Advances c d ∧
      (applied = 0 ∨ deferred = false → c.Tallied → d.Tallied) := by
  rcases applySnapshotRows_advances deferred h hsafe with
    ⟨d, applied, hrows, hadvances, htallied⟩
  refine ⟨if applied ≠ 0 ∧ deferred = false then d.rebuildDerivedState else d, applied, ?_, ?_, ?_⟩
  · simp only [applySnapshotObjects, hrows]
  · split_ifs
    · exact hadvances.trans (orderly_rebuildDerivedState hadvances.orderly)
    · exact hadvances
  · intro hcounted ht
    split_ifs with hrebuilt
    · exact tallied_rebuildDerivedState hadvances.orderly.phantoms
    · refine htallied ?_ ht
      rcases hcounted with hzero | hnow
      · exact hzero
      · by_contra hne
        exact hrebuilt ⟨hne, hnow⟩

theorem orderly_rebuildCoreState (h : c.Orderly) : Advances c c.rebuildCoreState := by
  have hobjects := objects_rebuildCoreState c
  have hrest : Counted c c.rebuildCoreState := by
    have hloop : ∀ (entries : List (JsString × RowMeta)) (d : Collection), Counted d
        (entries.foldl (fun c entry => if entry.2.deleted.isSome then c
          else ({ c with liveCount := c.liveCount + 1 }).addShardRid entry.2.rid entry.2.shard)
          d) := by
      intro entries
      induction entries with
      | nil => exact fun d => .refl d
      | cons entry entries ih =>
          intro d
          refine Counted.trans ?_ (ih _)
          dsimp only
          split_ifs
          · exact .refl d
          · exact (counted_liveCount d (d.liveCount + 1)).trans (counted_addShardRid _ _ _)
    have hcleared : Counted c { c with liveCount := 0, shardIds := [], unshardedLiveCount := 0 } :=
      ⟨_, _, _, _, rfl⟩
    exact hcleared.trans (hloop c.objects _)
  refine ⟨⟨⟨?_, ?_⟩, h.owned.congr hobjects hrest.rows_eq.2.2.2.1, coldOk_rebuildCoreState h.cold,
    hobjects ▸ h.phantoms⟩, hrest.sameDerived.vectorField, ?_⟩
  · rw [hobjects]
    exact h.rids.nodup
  · intro id m hm
    rw [hobjects] at hm
    rw [hrest.rows_eq.2.2.2.1]
    exact h.rids.owned hm
  · intro id hid
    rw [Known, hobjects]
    exact hid

end Collection
end ObjyDb
