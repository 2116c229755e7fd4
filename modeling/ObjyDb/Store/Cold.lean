import ObjyDb.Store.Counters

/-!
# Cold — the compressed parts and their totals

The totals of the compressed parts are kept up at each change of a part.  They stay the sums over
the parts that are held, and a part is held of live rows only.

- `Collection.ColdOk`
- `Reworked.coldOk`, `ColdOk.overwrite`, `ColdOk.clear`, `coldOk_rebuildDerivedState`
-/

namespace ObjyDb

open Js

/-- The totals of the compressed parts. -/
def coldTotals (cold : List (Nat × ColdEntry)) : CompressionTotals where
  objects := cold.length
  uncompressedBytes := (cold.map fun entry => (entry.2.bytes : Int)).sum
  compressedBytes := (cold.map fun entry => (entry.2.compressed.length : Int)).sum

theorem coldTotals_perm {cold cold' : List (Nat × ColdEntry)} (h : cold.Perm cold') :
    coldTotals cold = coldTotals cold' := by
  rw [coldTotals, coldTotals, h.length_eq, (h.map _).sum_eq, (h.map _).sum_eq]

theorem coldTotals_cons (rid : Nat) (entry : ColdEntry) (cold : List (Nat × ColdEntry)) :
    coldTotals ((rid, entry) :: cold) = ⟨(coldTotals cold).objects + 1,
      (coldTotals cold).uncompressedBytes + entry.bytes,
      (coldTotals cold).compressedBytes + entry.compressed.length⟩ := by
  simp only [coldTotals, List.length_cons, List.map_cons, List.sum_cons, Nat.cast_add,
    Nat.cast_one, Int.add_comm]

namespace Collection

variable {c d : Collection} {id : JsString} {rid : Nat}

/-- The row of a live object. -/
def LiveRid (c : Collection) (rid : Nat) : Prop :=
  ∃ id m, Assoc.get? c.objects id = some m ∧ m.rid = rid ∧ m.deleted = none

theorem LiveRid.congr (h : c.LiveRid rid) (hobjects : d.objects = c.objects) : d.LiveRid rid := by
  rcases h with ⟨id, m, hm, hrid, hdeleted⟩
  exact ⟨id, m, hobjects ▸ hm, hrid, hdeleted⟩

/-- A row that can be read is live. -/
theorem RidsOwned.liveRid (h : c.RidsOwned) (hread : (c.readRid rid).isSome) : c.LiveRid rid := by
  rcases (readRid_isSome_iff c rid).mp hread with ⟨id, m, hid, hm, hdeleted⟩
  rcases h rid id hid with ⟨held, hheld, hrid⟩
  rw [hm] at hheld
  cases hheld
  exact ⟨id, m, hm, hrid, hdeleted⟩

/-- The compressed parts are summed up, and no row has two. -/
structure ColdSums (c : Collection) : Prop where
  nodup : (Assoc.keys c.compressedCold).Nodup
  totals : c.compressionTotals = coldTotals c.compressedCold

/-- The compressed parts are summed up, and are those of live rows. -/
structure ColdOk (c : Collection) : Prop extends ColdSums c where
  live : ∀ rid ∈ Assoc.keys c.compressedCold, c.LiveRid rid

theorem ColdOk.congr (h : ColdOk c) (hcold : d.compressedCold = c.compressedCold)
    (htotals : d.compressionTotals = c.compressionTotals) (hobjects : d.objects = c.objects) :
    ColdOk d where
  nodup := hcold ▸ h.nodup
  totals := by rw [htotals, hcold, h.totals]
  live := fun rid hrid => (h.live rid (hcold ▸ hrid)).congr hobjects

theorem coldOk_new (vectorField : Option JsString) (compression : Option Compression) :
    ColdOk (Collection.new vectorField compression) :=
  ⟨⟨List.nodup_nil, rfl⟩, fun _ hrid => nomatch hrid⟩

/-! ## A part is set -/

theorem compressedCold_setCompressedCold (c : Collection) (rid : Nat) (entry : Option ColdEntry) :
    (c.setCompressedCold rid entry).compressedCold = nextCold c.compressedCold rid entry := by
  cases entry <;> rfl

/-- What the totals are once the part of a row is taken off. -/
theorem totals_without (h : ColdSums c) (rid : Nat) :
    (match Assoc.get? c.compressedCold rid with
      | some previous => ⟨c.compressionTotals.objects - 1,
          c.compressionTotals.uncompressedBytes - previous.bytes,
          c.compressionTotals.compressedBytes - previous.compressed.length⟩
      | none => c.compressionTotals) = coldTotals (Assoc.erase c.compressedCold rid) := by
  cases hget : Assoc.get? c.compressedCold rid with
  | none =>
      have hkeys : rid ∉ Assoc.keys c.compressedCold := Assoc.get?_eq_none_iff.mp hget
      have herase : Assoc.erase c.compressedCold rid = c.compressedCold := by
        refine List.filter_eq_self.mpr fun entry hentry => ?_
        have hne : entry.1 ≠ rid := fun heq => hkeys (heq ▸ List.mem_map_of_mem hentry)
        simpa using hne
      rw [herase]
      exact h.totals
  | some previous =>
      have hperm := coldTotals_perm (Assoc.perm_erase h.nodup hget)
      rw [coldTotals_cons, ← h.totals] at hperm
      dsimp only
      rw [hperm]
      simp

theorem ColdSums.setCompressedCold (h : ColdSums c) (rid : Nat) (entry : Option ColdEntry) :
    ColdSums (c.setCompressedCold rid entry) := by
  have hwithout := totals_without h rid
  cases entry with
  | none =>
      refine ⟨?_, hwithout⟩
      change (Assoc.keys (Assoc.erase c.compressedCold rid)).Nodup
      rw [Assoc.keys_erase]
      exact h.nodup.filter _
  | some entry =>
      refine ⟨Assoc.nodup_keys_set rid entry h.nodup, ?_⟩
      have htotals : coldTotals (Assoc.set c.compressedCold rid entry) =
          coldTotals ((rid, entry) :: Assoc.erase c.compressedCold rid) :=
        coldTotals_perm (Assoc.set_perm h.nodup rid entry)
      rw [coldTotals_cons, ← hwithout] at htotals
      exact htotals.symm

theorem mem_keys_nextCold {cold : List (Nat × ColdEntry)} {entry : Option ColdEntry} {r : Nat}
    (h : r ∈ Assoc.keys (nextCold cold rid entry)) :
    r = rid ∧ entry.isSome ∨ r ≠ rid ∧ r ∈ Assoc.keys cold := by
  rw [← Assoc.get?_isSome_iff, get?_nextCold] at h
  split_ifs at h with hrid
  · exact .inl ⟨hrid.symm, h⟩
  · exact .inr ⟨Ne.symm hrid, Assoc.get?_isSome_iff.mp h⟩

theorem ColdOk.setCompressedCold (h : ColdOk c) (hlive : c.LiveRid rid)
    (entry : Option ColdEntry) : ColdOk (c.setCompressedCold rid entry) := by
  refine ⟨h.toColdSums.setCompressedCold rid entry, ?_⟩
  have hobjects := (c.kept_setCompressedCold rid entry).objects
  intro r hr
  rw [compressedCold_setCompressedCold] at hr
  rcases mem_keys_nextCold hr with ⟨rfl, -⟩ | ⟨-, hold⟩
  · exact hlive.congr hobjects
  · exact (h.live r hold).congr hobjects

theorem ColdOk.writeBaseValue (h : ColdOk c) (hlive : c.LiveRid rid) (id : JsString)
    (value : Fields) : ColdOk (c.writeBaseValue id rid value) := by
  have hset := h.setCompressedCold hlive (tiered c.compression c.collectionMeta value).1
  unfold Collection.writeBaseValue
  rw [tierBaseValue_eq]
  exact hset.congr rfl rfl rfl

theorem ColdOk.rewriteBaseValueForColumns (h : ColdOk c) (hlive : c.LiveRid rid) (object : Fields)
    (paths : Option (List JsString)) : ColdOk (c.rewriteBaseValueForColumns rid object paths) := by
  unfold Collection.rewriteBaseValueForColumns
  split
  · exact h
  · exact h.writeBaseValue hlive _ _

theorem RidsOwned.kept (h : c.RidsOwned) (hcd : Kept c d) : d.RidsOwned :=
  h.congr hcd.objects hcd.idByRid

/-- Rework keeps the compressed parts in order. -/
theorem Reworked.coldOk (hcd : Reworked c d) (howned : c.RidsOwned) (h : ColdOk c) : ColdOk d := by
  induction hcd with
  | same hkept hcold htotals => exact h.congr hcold htotals hkept.objects
  | rewrite _ _ _ _ hread => exact h.rewriteBaseValueForColumns (howned.liveRid hread) _ _
  | trans hcd _ ihcd ihde => exact ihde (howned.kept hcd.kept) (ihcd howned h)

/-! ## Written rows -/

theorem coldOk_addShardRid (h : ColdOk c) (rid : Nat) (shard : Option JsString) :
    ColdOk (c.addShardRid rid shard) := by
  unfold addShardRid
  cases normalizeShard shard <;> exact h.congr rfl rfl rfl

theorem coldOk_removeShardRid (h : ColdOk c) (rid : Nat) (shard : Option JsString) :
    ColdOk (c.removeShardRid rid shard) := by
  unfold removeShardRid
  cases normalizeShard shard with
  | none =>
      dsimp only
      split_ifs <;> exact h.congr rfl rfl rfl
  | some shard =>
      dsimp only
      cases Assoc.get? c.shardIds shard with
      | none => exact h
      | some rids =>
          dsimp only
          split_ifs <;> exact h.congr rfl rfl rfl

theorem coldOk_countPut (h : ColdOk c) (wasLive : Bool) (rid : Nat)
    (previousShard nextShard : Option JsString) :
    ColdOk (c.countPut wasLive rid previousShard nextShard) := by
  unfold countPut
  split_ifs
  · refine coldOk_addShardRid ?_ _ _
    exact h.congr rfl rfl rfl
  · exact coldOk_addShardRid (coldOk_removeShardRid h ..) ..
  · exact h

theorem coldOk_countDelete (h : ColdOk c) (wasLive : Bool) (rid : Nat)
    (previousShard : Option JsString) : ColdOk (c.countDelete wasLive rid previousShard) := by
  unfold countDelete
  split_ifs
  · refine coldOk_removeShardRid ?_ _ _
    exact h.congr rfl rfl rfl
  · exact h

theorem ColdOk.entered (h : ColdOk c) {m : RowMeta} (hm : c.ensureMeta id = (d, m)) : ColdOk d := by
  unfold ensureMeta at hm
  cases hget : Assoc.get? c.objects id with
  | some held =>
      rw [hget] at hm
      cases hm
      exact h
  | none =>
      rw [hget] at hm
      cases hm
      refine ⟨⟨h.nodup, h.totals⟩, ?_⟩
      intro rid hrid
      rcases h.live rid hrid with ⟨id', m', hm', hrid', hdeleted⟩
      refine ⟨id', m', ?_, hrid', hdeleted⟩
      dsimp only
      rw [Assoc.get?_set, if_neg fun heq => nomatch (heq ▸ hget).symm.trans hm']
      exact hm'

/-- The entry of a row is replaced by a live one. -/
theorem ColdOk.setRowMeta (h : ColdOk c) {m next : RowMeta}
    (hm : Assoc.get? c.objects id = some m) (hrid : next.rid = m.rid)
    (hdeleted : next.deleted = none) : ColdOk (c.setRowMeta id next) := by
  refine ⟨⟨h.nodup, h.totals⟩, ?_⟩
  intro r hr
  rcases h.live r hr with ⟨id', m', hm', hrid', hdeleted'⟩
  by_cases hid : id = id'
  · subst hid
    rw [hm] at hm'
    cases hm'
    exact ⟨id, next, by rw [Collection.setRowMeta, Assoc.get?_set, if_pos rfl], hrid.trans hrid',
      hdeleted⟩
  · exact ⟨id', m', by rw [Collection.setRowMeta, Assoc.get?_set, if_neg hid]; exact hm', hrid',
      hdeleted'⟩

theorem ColdOk.overwrite (h : ColdOk c) {m next : RowMeta} (hm : Assoc.get? c.objects id = some m)
    (hrid : next.rid = m.rid) (hdeleted : next.deleted = none) (base : Fields)
    (vector : VectorUpdate) : ColdOk (c.overwrite id next base vector) := by
  have hset := h.setRowMeta hm hrid hdeleted
  have hlive : (c.setRowMeta id next).LiveRid next.rid :=
    ⟨id, next, by rw [Collection.setRowMeta, Assoc.get?_set, if_pos rfl], rfl, hdeleted⟩
  rw [Collection.overwrite, applyVectorUpdate_eq]
  exact (hset.writeBaseValue hlive id base).congr rfl rfl rfl

theorem ColdOk.clear (h : ColdOk c) {m next : RowMeta}
    (hm : Assoc.get? c.objects id = some m) (hrid : next.rid = m.rid) :
    ColdOk (c.clear id next) := by
  have hsums : ColdSums { c.setRowMeta id next with rows := Assoc.erase c.rows id } :=
    ⟨h.nodup, h.totals⟩
  have hcleared := hsums.setCompressedCold next.rid none
  refine ⟨⟨hcleared.nodup, hcleared.totals⟩, ?_⟩
  intro r hr
  have hkept : r ∈ Assoc.keys (nextCold c.compressedCold next.rid none) := hr
  rcases mem_keys_nextCold hkept with ⟨-, hsome⟩ | ⟨hne, hold⟩
  · cases hsome
  · rcases h.live r hold with ⟨id', m', hm', hrid', hdeleted⟩
    have hid : id ≠ id' := by
      rintro rfl
      rw [hm] at hm'
      cases hm'
      exact hne (hrid'.symm.trans hrid.symm)
    exact ⟨id', m', by rw [objects_clear, Assoc.get?_set, if_neg hid]; exact hm', hrid', hdeleted⟩

/-! ## Rebuilding -/

theorem coldOk_rebuildCoreState (h : ColdOk c) : ColdOk c.rebuildCoreState := by
  have hloop : ∀ (entries : List (JsString × RowMeta)) (d : Collection), ColdOk d →
      ColdOk (entries.foldl (fun c entry =>
      if entry.2.deleted.isSome then c
      else ({ c with liveCount := c.liveCount + 1 }).addShardRid entry.2.rid entry.2.shard) d) := by
    intro entries
    induction entries with
    | nil => exact fun _ hd => hd
    | cons entry entries ih =>
        intro d hd
        rw [List.foldl_cons]
        refine ih _ ?_
        split_ifs
        · exact hd
        · refine coldOk_addShardRid ?_ _ _
          exact hd.congr rfl rfl rfl
  exact hloop c.objects _ (h.congr rfl rfl rfl)

theorem objects_rebuildRowState (paths : List JsString) (s : Rebuild) (entry : JsString × RowMeta) :
    (rebuildRowState paths s entry).collection.objects = s.collection.objects := by
  unfold rebuildRowState
  dsimp only
  split_ifs
  · rfl
  · split
    · exact objects_addShardRid ..
    · exact (kept_rewriteBaseValueForColumns ..).objects.trans (objects_addShardRid ..)

theorem coldOk_rebuildRowState (paths : List JsString) {s : Rebuild} (h : ColdOk s.collection)
    {entry : JsString × RowMeta}
    (hentry : Assoc.get? s.collection.objects entry.1 = some entry.2) :
    ColdOk (rebuildRowState paths s entry).collection := by
  unfold rebuildRowState
  dsimp only
  split_ifs with hdeleted
  · exact h
  · have hcounted := coldOk_addShardRid (c := { s.collection with
      liveCount := s.collection.liveCount + 1 }) (h.congr rfl rfl rfl) entry.2.rid entry.2.shard
    split
    · exact hcounted
    · refine hcounted.rewriteBaseValueForColumns ?_ _ _
      refine ⟨entry.1, entry.2, ?_, rfl, by simpa using hdeleted⟩
      rw [objects_addShardRid]
      exact hentry

theorem coldOk_rebuildDerivedState (h : ColdOk c) (hrids : c.RidsOk) :
    ColdOk c.rebuildDerivedState := by
  have hloop : ∀ (entries : List (JsString × RowMeta)) (s : Rebuild), ColdOk s.collection →
      (∀ entry ∈ entries, Assoc.get? s.collection.objects entry.1 = some entry.2) →
      ColdOk (entries.foldl (rebuildRowState c.collectionMeta.columns) s).collection := by
    intro entries
    induction entries with
    | nil => exact fun _ hs _ => hs
    | cons entry entries ih =>
        intro s hs hentries
        rw [List.foldl_cons]
        refine ih _ (coldOk_rebuildRowState _ hs (hentries entry List.mem_cons_self)) ?_
        intro other hother
        rw [objects_rebuildRowState]
        exact hentries other (List.mem_cons_of_mem _ hother)
  have hrebuilt := hloop c.objects
    ⟨{ c with liveCount := 0, shardIds := [], unshardedLiveCount := 0 },
      c.collectionMeta.indexes.map fun path => (path, FieldIndex.new path),
      c.collectionMeta.columns.map fun path => (path, TypedRidColumn.new path)⟩
    (h.congr rfl rfl rfl) fun entry hentry => hrids.get?_of_mem hentry
  exact hrebuilt.congr rfl rfl rfl

end Collection
end ObjyDb
