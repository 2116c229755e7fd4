import ObjyDb.Store.Frames
import ObjyDb.Store.Stamps

/-!
# Counters — the live count and the shard sets

The live count, the set of row ids of each shard and the number of live rows without a shard are
kept up row by row.  They agree with a list of entries when they are what counting its live entries
gives; an entry may be added, removed or replaced.

- `Collection.TalliedBy`: the counters agree with a list of entries
- `TalliedBy.put`, `TalliedBy.delete`: a written row
- `tallied_rebuildCoreState`
-/

namespace ObjyDb

open Js

namespace Assoc

variable {α β : Type*} [DecidableEq α]

theorem erase_set (entries : List (α × β)) (key : α) (value : β) :
    erase (set entries key value) key = erase entries key := by
  induction entries with
  | nil => simp [set, erase]
  | cons entry rest ih =>
      rcases entry with ⟨k, v⟩
      rw [set]
      split_ifs with hk
      · simp [erase, hk]
      · unfold erase at ih ⊢
        rw [List.filter_cons, List.filter_cons, ih]

/-- Replacing the entry of a key, up to the order. -/
theorem set_perm {entries : List (α × β)} (hnodup : (keys entries).Nodup) (key : α) (value : β) :
    (set entries key value).Perm ((key, value) :: erase entries key) := by
  rw [← erase_set entries key value]
  refine perm_cons_erase (nodup_keys_set key value hnodup) (mem_of_get?_eq_some ?_)
  rw [get?_set, if_pos rfl]

theorem perm_erase {entries : List (α × β)} (hnodup : (keys entries).Nodup) {key : α} {value : β}
    (h : get? entries key = some value) : entries.Perm ((key, value) :: erase entries key) :=
  perm_cons_erase hnodup (mem_of_get?_eq_some h)

end Assoc

/-- The entry was that of a live row. -/
def RowMeta.wasLive (m : RowMeta) : Bool :=
  m.ts.isSome && m.deleted.isNone

namespace Collection

variable {c d e : Collection} {entries rest : List (JsString × RowMeta)}
  {entry entry' : JsString × RowMeta}

/-! ## Shard sets -/

/-- The row ids of a shard. -/
def ridsOf (c : Collection) (shard : JsString) : RidSet :=
  (Assoc.get? c.shardIds shard).getD []

/-- A live entry without a shard. -/
def isUnsharded (entry : JsString × RowMeta) : Bool :=
  isLiveEntry entry && decide (normalizeShard entry.2.shard = none)

/-- The shard sets are those of the live entries. -/
structure ShardsBy (entries : List (JsString × RowMeta)) (c : Collection) : Prop where
  unsharded : c.unshardedLiveCount = entries.countP isUnsharded
  rids : ∀ shard rid, rid ∈ c.ridsOf shard ↔ ∃ entry ∈ entries, isLiveEntry entry = true ∧
    entry.2.rid = rid ∧ normalizeShard entry.2.shard = some shard
  nonempty : ∀ shard, Assoc.get? c.shardIds shard ≠ some []

theorem ShardsBy.congr (h : ShardsBy entries c) (hids : d.shardIds = c.shardIds)
    (hunsharded : d.unshardedLiveCount = c.unshardedLiveCount) : ShardsBy entries d := by
  refine ⟨hunsharded.trans h.unsharded, ?_, ?_⟩
  · intro shard rid
    rw [ridsOf, hids]
    exact h.rids shard rid
  · intro shard
    rw [hids]
    exact h.nonempty shard

theorem ShardsBy.perm (h : ShardsBy entries c) {entries' : List (JsString × RowMeta)}
    (hperm : entries.Perm entries') : ShardsBy entries' c := by
  refine ⟨by rw [h.unsharded, hperm.countP_eq], ?_, h.nonempty⟩
  intro shard rid
  rw [h.rids]
  simp only [hperm.mem_iff]

theorem mem_ridsOf_addShardRid (c : Collection) (rid : Nat) (shard : Option JsString)
    (name : JsString) (r : Nat) : r ∈ (c.addShardRid rid shard).ridsOf name ↔
      r ∈ c.ridsOf name ∨ r = rid ∧ normalizeShard shard = some name := by
  unfold addShardRid ridsOf
  cases hshard : normalizeShard shard with
  | none => simp
  | some shard' =>
      dsimp only
      rw [Assoc.get?_set]
      by_cases hname : shard' = name
      · subst hname
        rw [if_pos rfl, Option.getD_some, mem_ridSetAdd]
        simp
      · rw [if_neg hname]
        simp [hname]

theorem mem_ridsOf_removeShardRid (c : Collection) (rid : Nat) (shard : Option JsString)
    (name : JsString) (r : Nat) : r ∈ (c.removeShardRid rid shard).ridsOf name ↔
      r ∈ c.ridsOf name ∧ ¬(r = rid ∧ normalizeShard shard = some name) := by
  unfold removeShardRid ridsOf
  cases hshard : normalizeShard shard with
  | none =>
      dsimp only
      split_ifs <;> simp
  | some shard' =>
      dsimp only
      cases hget : Assoc.get? c.shardIds shard' with
      | none =>
          dsimp only
          constructor
          · intro hr
            refine ⟨hr, ?_⟩
            rintro ⟨-, hname⟩
            rw [← Option.some.inj hname, hget] at hr
            cases hr
          · exact And.left
      | some rids =>
          dsimp only
          by_cases hname : shard' = name
          · subst hname
            have hdeleted : ∀ r, r ∈ rids ∧ ¬(r = rid ∧ some shard' = some shard') ↔
                r ∈ ridSetDelete rids rid := by
              intro r
              rw [mem_ridSetDelete]
              simp
            rw [hget, Option.getD_some, hdeleted]
            split_ifs with hempty
            · dsimp only
              rw [Assoc.get?_erase, if_pos rfl, hempty]
              rfl
            · dsimp only
              rw [Assoc.get?_set, if_pos rfl, Option.getD_some]
          · have hother : ¬(r = rid ∧ some shard' = some name) := fun h =>
              hname (Option.some.inj h.2)
            split_ifs
            · dsimp only
              rw [Assoc.get?_erase, if_neg hname]
              simp [hname]
            · dsimp only
              rw [Assoc.get?_set, if_neg hname]
              simp [hname]

theorem addShardRid_nonempty (h : ∀ shard, Assoc.get? c.shardIds shard ≠ some []) (rid : Nat)
    (shard : Option JsString) (name : JsString) :
    Assoc.get? (c.addShardRid rid shard).shardIds name ≠ some [] := by
  unfold addShardRid
  cases normalizeShard shard with
  | none => exact h name
  | some shard' =>
      dsimp only
      rw [Assoc.get?_set]
      split_ifs
      · intro hempty
        have hmem : rid ∈ ridSetAdd ((Assoc.get? c.shardIds shard').getD []) rid :=
          mem_ridSetAdd.mpr (.inr rfl)
        rw [Option.some.inj hempty] at hmem
        cases hmem
      · exact h name

theorem removeShardRid_nonempty (h : ∀ shard, Assoc.get? c.shardIds shard ≠ some []) (rid : Nat)
    (shard : Option JsString) (name : JsString) :
    Assoc.get? (c.removeShardRid rid shard).shardIds name ≠ some [] := by
  unfold removeShardRid
  cases normalizeShard shard with
  | none =>
      dsimp only
      split_ifs <;> exact h name
  | some shard' =>
      dsimp only
      cases hget : Assoc.get? c.shardIds shard' with
      | none => exact h name
      | some rids =>
          dsimp only
          split_ifs with hempty
          · dsimp only
            rw [Assoc.get?_erase]
            split_ifs
            · exact fun hnone => by cases hnone
            · exact h name
          · dsimp only
            rw [Assoc.get?_set]
            split_ifs
            · exact fun heq => hempty (Option.some.inj heq)
            · exact h name

theorem ShardsBy.skip (h : ShardsBy rest c) (hdead : isLiveEntry entry = false) :
    ShardsBy (entry :: rest) c := by
  refine ⟨?_, ?_, h.nonempty⟩
  · rw [h.unsharded, List.countP_cons_of_neg]
    simp [isUnsharded, hdead]
  · intro shard rid
    rw [h.rids]
    simp [hdead]

theorem ShardsBy.unskip (h : ShardsBy (entry :: rest) c) (hdead : isLiveEntry entry = false) :
    ShardsBy rest c := by
  refine ⟨?_, ?_, h.nonempty⟩
  · rw [h.unsharded, List.countP_cons_of_neg]
    simp [isUnsharded, hdead]
  · intro shard rid
    rw [h.rids]
    simp [hdead]

theorem ShardsBy.add (h : ShardsBy rest c) (hlive : isLiveEntry entry = true) :
    ShardsBy (entry :: rest) (c.addShardRid entry.2.rid entry.2.shard) := by
  refine ⟨?_, ?_, addShardRid_nonempty h.nonempty _ _⟩
  · rw [List.countP_cons, isUnsharded, hlive, Nat.cast_add, ← h.unsharded]
    unfold addShardRid
    cases hshard : normalizeShard entry.2.shard <;> simp
  · intro shard rid
    rw [mem_ridsOf_addShardRid, h.rids]
    constructor
    · rintro (⟨other, hmem, hother⟩ | ⟨rfl, hshard⟩)
      · exact ⟨other, List.mem_cons_of_mem _ hmem, hother⟩
      · exact ⟨entry, List.mem_cons_self, hlive, rfl, hshard⟩
    · rintro ⟨other, hmem, hother⟩
      rcases List.mem_cons.mp hmem with rfl | hmem
      · exact .inr ⟨hother.2.1.symm, hother.2.2⟩
      · exact .inl ⟨other, hmem, hother⟩

theorem ShardsBy.remove (h : ShardsBy (entry :: rest) c) (hlive : isLiveEntry entry = true)
    (hrids : ∀ other ∈ rest, other.2.rid ≠ entry.2.rid) :
    ShardsBy rest (c.removeShardRid entry.2.rid entry.2.shard) := by
  refine ⟨?_, ?_, removeShardRid_nonempty h.nonempty _ _⟩
  · have hcount := h.unsharded
    rw [List.countP_cons, isUnsharded, hlive, Nat.cast_add] at hcount
    unfold removeShardRid
    cases hshard : normalizeShard entry.2.shard with
    | none =>
        -- the entry itself is counted, so the guard of the decrement holds
        rw [hshard] at hcount
        simp only [Bool.true_and, decide_true, if_true, Nat.cast_one] at hcount
        have hpos : c.unshardedLiveCount > 0 := by omega
        dsimp only
        rw [if_pos hpos]
        dsimp only
        omega
    | some shard =>
        rw [hshard] at hcount
        simp only [reduceCtorEq, decide_false, Bool.and_false, Bool.false_eq_true, if_false,
          Nat.cast_zero, add_zero] at hcount
        dsimp only
        cases Assoc.get? c.shardIds shard with
        | none => exact hcount
        | some rids =>
            dsimp only
            split_ifs <;> exact hcount
  · intro shard rid
    rw [mem_ridsOf_removeShardRid, h.rids]
    constructor
    · rintro ⟨⟨other, hmem, hother⟩, hnot⟩
      rcases List.mem_cons.mp hmem with rfl | hmem
      · exact absurd ⟨hother.2.1.symm, hother.2.2⟩ hnot
      · exact ⟨other, hmem, hother⟩
    · rintro ⟨other, hmem, hother⟩
      refine ⟨⟨other, List.mem_cons_of_mem _ hmem, hother⟩, ?_⟩
      rintro ⟨hrid, -⟩
      exact hrids other hmem (hother.2.1.trans hrid)

/-! ## The live count -/

/-- The counters are what counting the live entries gives. -/
structure TalliedBy (entries : List (JsString × RowMeta)) (c : Collection) : Prop where
  live : c.liveCount = entries.countP isLiveEntry
  shards : ShardsBy entries c

/-- The counters agree with the entries of the collection. -/
def Tallied (c : Collection) : Prop :=
  TalliedBy c.objects c

theorem TalliedBy.perm (h : TalliedBy entries c) {entries' : List (JsString × RowMeta)}
    (hperm : entries.Perm entries') : TalliedBy entries' c :=
  ⟨by rw [h.live, hperm.countP_eq], h.shards.perm hperm⟩

/-- `d` has the counters of `c`. -/
structure SameCounters (c d : Collection) : Prop where
  live : d.liveCount = c.liveCount
  shardIds : d.shardIds = c.shardIds
  unsharded : d.unshardedLiveCount = c.unshardedLiveCount

theorem SameCounters.trans (hcd : SameCounters c d) (hde : SameCounters d e) : SameCounters c e :=
  ⟨hde.live.trans hcd.live, hde.shardIds.trans hcd.shardIds, hde.unsharded.trans hcd.unsharded⟩

theorem Kept.sameCounters (h : Kept c d) : SameCounters c d :=
  ⟨h.liveCount, h.shardIds, h.unshardedLiveCount⟩

theorem TalliedBy.congr (h : TalliedBy entries c) (hcd : SameCounters c d) :
    TalliedBy entries d :=
  ⟨hcd.live.trans h.live, h.shards.congr hcd.shardIds hcd.unsharded⟩

theorem Tallied.kept (h : Tallied c) (hcd : Kept c d) : Tallied d := by
  rw [Tallied, hcd.objects]
  exact h.congr hcd.sameCounters

theorem TalliedBy.skip (h : TalliedBy rest c) (hdead : isLiveEntry entry = false) :
    TalliedBy (entry :: rest) c :=
  ⟨by rw [h.live, List.countP_cons_of_neg (by simp [hdead])], h.shards.skip hdead⟩

theorem TalliedBy.unskip (h : TalliedBy (entry :: rest) c) (hdead : isLiveEntry entry = false) :
    TalliedBy rest c :=
  ⟨by rw [h.live, List.countP_cons_of_neg (by simp [hdead])], h.shards.unskip hdead⟩

theorem TalliedBy.add (h : TalliedBy rest c) (hlive : isLiveEntry entry = true) :
    TalliedBy (entry :: rest)
      (({ c with liveCount := c.liveCount + 1 }).addShardRid entry.2.rid entry.2.shard) := by
  refine ⟨?_, (h.shards.congr (d := { c with liveCount := c.liveCount + 1 }) rfl rfl).add hlive⟩
  rw [liveCount_addShardRid, List.countP_cons_of_pos hlive, Nat.cast_add, ← h.live]
  rfl

theorem TalliedBy.remove (h : TalliedBy (entry :: rest) c) (hlive : isLiveEntry entry = true)
    (hrids : ∀ other ∈ rest, other.2.rid ≠ entry.2.rid) :
    TalliedBy rest
      (({ c with liveCount := c.liveCount - 1 }).removeShardRid entry.2.rid entry.2.shard) := by
  refine ⟨?_, (h.shards.congr (d := { c with liveCount := c.liveCount - 1 }) rfl rfl).remove hlive
    hrids⟩
  have hcount := h.live
  rw [List.countP_cons_of_pos hlive, Nat.cast_add] at hcount
  rw [liveCount_removeShardRid]
  dsimp only
  omega

/-- A live entry that moves to another shard. -/
theorem TalliedBy.move (h : TalliedBy (entry :: rest) c) (hlive : isLiveEntry entry = true)
    (hlive' : isLiveEntry entry' = true) (hrid : entry'.2.rid = entry.2.rid)
    (hrids : ∀ other ∈ rest, other.2.rid ≠ entry.2.rid) :
    TalliedBy (entry' :: rest)
      ((c.removeShardRid entry.2.rid entry.2.shard).addShardRid entry.2.rid entry'.2.shard) := by
  constructor
  · rw [liveCount_addShardRid, liveCount_removeShardRid, h.live, List.countP_cons_of_pos hlive,
      List.countP_cons_of_pos hlive']
  · rw [← hrid]
    exact (hrid ▸ h.shards.remove hlive hrids).add hlive'

/-- A live entry that stays in its shard. -/
theorem TalliedBy.stay (h : TalliedBy (entry :: rest) c) (hlive : isLiveEntry entry = true)
    (hlive' : isLiveEntry entry' = true) (hrid : entry'.2.rid = entry.2.rid)
    (hshard : entry'.2.shard = entry.2.shard) : TalliedBy (entry' :: rest) c := by
  refine ⟨?_, ?_, ?_, h.shards.nonempty⟩
  · rw [h.live, List.countP_cons_of_pos hlive, List.countP_cons_of_pos hlive']
  · rw [h.shards.unsharded, List.countP_cons, List.countP_cons, isUnsharded, isUnsharded, hlive,
      hlive', hshard]
  · intro shard rid
    rw [h.shards.rids]
    simp only [List.mem_cons, exists_eq_or_imp, hlive, hlive', hrid, hshard]

/-! ## A written row -/

/-- The counters after a put, as `_putObject` updates them. -/
def countPut (c : Collection) (wasLive : Bool) (rid : Nat) (previousShard nextShard : Option JsString) :
    Collection :=
  if !wasLive then ({ c with liveCount := c.liveCount + 1 }).addShardRid rid nextShard
  else if previousShard ≠ nextShard then
    (c.removeShardRid rid previousShard).addShardRid rid nextShard
  else c

/-- The counters after a delete, as `_deleteObject` updates them. -/
def countDelete (c : Collection) (wasLive : Bool) (rid : Nat) (previousShard : Option JsString) :
    Collection :=
  if wasLive then ({ c with liveCount := c.liveCount - 1 }).removeShardRid rid previousShard
  else c

theorem counted_countPut (c : Collection) (wasLive : Bool) (rid : Nat)
    (previousShard nextShard : Option JsString) :
    Counted c (c.countPut wasLive rid previousShard nextShard) :=
  counted_put c wasLive rid previousShard nextShard

theorem counted_countDelete (c : Collection) (wasLive : Bool) (rid : Nat)
    (previousShard : Option JsString) : Counted c (c.countDelete wasLive rid previousShard) :=
  counted_delete c wasLive rid previousShard

theorem RidsOk.rest_ne (h : c.RidsOk) {id : JsString} {m : RowMeta}
    (hm : Assoc.get? c.objects id = some m) :
    ∀ other ∈ Assoc.erase c.objects id, other.2.rid ≠ m.rid := by
  intro other hother
  rcases List.mem_filter.mp hother with ⟨hmem, hne⟩
  exact h.rid_ne (h.get?_of_mem hmem) hm (by simpa using hne)

/-- The row of an entry is put. -/
theorem Tallied.put (h : Tallied d) (hrids : d.RidsOk) {id : JsString} {m next : RowMeta}
    (hm : Assoc.get? d.objects id = some m) (hobjects : e.objects = Assoc.set d.objects id next)
    (hcounters : SameCounters d e) (hrid : next.rid = m.rid)
    (hnext : isLiveEntry (id, next) = true) :
    Tallied (e.countPut m.wasLive m.rid (if m.wasLive then m.shard else none) next.shard) := by
  have hbefore : TalliedBy ((id, m) :: Assoc.erase d.objects id) e :=
    (h.perm (Assoc.perm_erase hrids.nodup hm)).congr hcounters
  have hafter : TalliedBy ((id, next) :: Assoc.erase d.objects id)
      (e.countPut m.wasLive m.rid (if m.wasLive then m.shard else none) next.shard) := by
    unfold countPut
    cases hlive : m.wasLive with
    | false =>
        have hadd := (hbefore.unskip hlive).add hnext
        rw [← hrid]
        exact hadd
    | true =>
        simp only [Bool.not_true, Bool.false_eq_true, if_false, if_true]
        split_ifs with hmoved
        · exact hbefore.move hlive hnext hrid
            (hrids.rest_ne hm)
        · exact hbefore.stay hlive hnext hrid
            (not_not.mp hmoved).symm
  rw [Tallied, objects_counted (counted_countPut ..), hobjects]
  exact hafter.perm (Assoc.set_perm hrids.nodup id next).symm

/-- The row of an entry is deleted. -/
theorem Tallied.delete (h : Tallied d) (hrids : d.RidsOk) {id : JsString} {m next : RowMeta}
    (hm : Assoc.get? d.objects id = some m) (hobjects : e.objects = Assoc.set d.objects id next)
    (hcounters : SameCounters d e) (hnext : isLiveEntry (id, next) = false) :
    Tallied (e.countDelete m.wasLive m.rid (if m.wasLive then m.shard else none)) := by
  have hbefore : TalliedBy ((id, m) :: Assoc.erase d.objects id) e :=
    (h.perm (Assoc.perm_erase hrids.nodup hm)).congr hcounters
  have hafter : TalliedBy ((id, next) :: Assoc.erase d.objects id)
      (e.countDelete m.wasLive m.rid (if m.wasLive then m.shard else none)) := by
    unfold countDelete
    cases hlive : m.wasLive with
    | false => exact (hbefore.unskip hlive).skip hnext
    | true => exact (hbefore.remove hlive (hrids.rest_ne hm)).skip hnext
  rw [Tallied, objects_counted (counted_countDelete ..), hobjects]
  exact hafter.perm (Assoc.set_perm hrids.nodup id next).symm

theorem Tallied.entered (h : Tallied c) {id : JsString} {m : RowMeta}
    (hm : c.ensureMeta id = (d, m)) : Tallied d := by
  unfold ensureMeta at hm
  cases hget : Assoc.get? c.objects id with
  | some held =>
      rw [hget] at hm
      cases hm
      exact h
  | none =>
      rw [hget] at hm
      cases hm
      have hnew : id ∉ Assoc.keys c.objects := Assoc.get?_eq_none_iff.mp hget
      have hcongr : TalliedBy c.objects { c with
          objects := Assoc.set c.objects id ⟨none, none, c.idByRid.length, none⟩
          idByRid := c.idByRid ++ [id] } := h.congr ⟨rfl, rfl, rfl⟩
      have hdead : isLiveEntry (id, (⟨none, none, c.idByRid.length, none⟩ : RowMeta)) = false := rfl
      have hskip := hcongr.skip hdead
      rw [Tallied, Assoc.set_of_notMem _ hnew]
      rw [Assoc.set_of_notMem _ hnew] at hskip
      exact hskip.perm (List.perm_append_singleton _ _).symm

/-! ## Recounting -/

/-- No entry stands for an object that was never written. -/
def NoPhantoms (entries : List (JsString × RowMeta)) : Prop :=
  ∀ entry ∈ entries, entry.2.ts.isSome ∨ entry.2.deleted.isSome

theorem isLiveEntry_of_noPhantoms (h : NoPhantoms entries) (hmem : entry ∈ entries) :
    isLiveEntry entry = entry.2.deleted.isNone := by
  rw [isLiveEntry]
  cases hdeleted : entry.2.deleted with
  | some t => simp
  | none =>
      have hts := h entry hmem
      rw [hdeleted] at hts
      simpa using hts

/-- Counting entry by entry, with other work that leaves the counters alone. -/
theorem tally_foldl {σ : Type} (collection : σ → Collection) (step : σ → JsString × RowMeta → σ)
    (hskip : ∀ s entry, entry.2.deleted.isSome → SameCounters (collection s)
      (collection (step s entry)))
    (hcount : ∀ s entry, entry.2.deleted.isNone → SameCounters
      (({ collection s with liveCount := (collection s).liveCount + 1 }).addShardRid entry.2.rid
        entry.2.shard) (collection (step s entry)))
    (entries : List (JsString × RowMeta)) (hphantoms : NoPhantoms entries) {done : List _} {s : σ}
    (h : TalliedBy done (collection s)) :
    TalliedBy (entries.reverse ++ done) (collection (entries.foldl step s)) := by
  induction entries generalizing done s with
  | nil => exact h
  | cons entry rest ih =>
      have hlive := isLiveEntry_of_noPhantoms hphantoms (List.mem_cons_self (a := entry) (l := rest))
      have hrest : NoPhantoms rest := fun other hother =>
        hphantoms other (List.mem_cons_of_mem _ hother)
      rw [List.foldl_cons, List.reverse_cons, List.append_assoc, List.singleton_append]
      cases hdeleted : entry.2.deleted with
      | some t =>
          refine ih hrest ((h.congr (hskip s entry (by rw [hdeleted]; rfl))).skip ?_)
          rw [hlive, hdeleted]
          rfl
      | none =>
          refine ih hrest ((h.add ?_).congr (hcount s entry (by rw [hdeleted]; rfl)))
          rw [hlive, hdeleted]
          rfl

theorem talliedBy_nil (c : Collection) : TalliedBy []
    { c with liveCount := 0, shardIds := [], unshardedLiveCount := 0 } :=
  ⟨rfl, rfl, fun _ _ => by simp [ridsOf], fun _ hget => by cases hget⟩

/-- A recount leaves the counters in order, whatever they were. -/
theorem tallied_rebuildCoreState (hphantoms : NoPhantoms c.objects) : Tallied c.rebuildCoreState := by
  have hfold := tally_foldl (fun c : Collection => c)
    (fun (c : Collection) (entry : JsString × RowMeta) => if entry.2.deleted.isSome then c
      else ({ c with liveCount := c.liveCount + 1 }).addShardRid entry.2.rid entry.2.shard)
    (fun s entry hdeleted => by rw [if_pos hdeleted]; exact ⟨rfl, rfl, rfl⟩)
    (fun s entry hdeleted => by
      rw [if_neg (by simpa using hdeleted)]
      exact ⟨rfl, rfl, rfl⟩)
    c.objects hphantoms (talliedBy_nil c)
  rw [Tallied, objects_rebuildCoreState]
  rw [List.append_nil] at hfold
  exact hfold.perm c.objects.reverse_perm

theorem tallied_rebuildDerivedState (hphantoms : NoPhantoms c.objects) :
    Tallied c.rebuildDerivedState := by
  have hfold := tally_foldl Rebuild.collection (rebuildRowState c.collectionMeta.columns)
    (fun s entry hdeleted => by
      rw [rebuildRowState, if_pos hdeleted]
      exact ⟨rfl, rfl, rfl⟩)
    (fun s entry hdeleted => by
      rw [rebuildRowState, if_neg (by simpa using hdeleted)]
      dsimp only
      split
      · exact ⟨rfl, rfl, rfl⟩
      · exact (kept_rewriteBaseValueForColumns ..).sameCounters)
    c.objects hphantoms (s := ⟨{ c with liveCount := 0, shardIds := [], unshardedLiveCount := 0 },
      c.collectionMeta.indexes.map fun path => (path, FieldIndex.new path),
      c.collectionMeta.columns.map fun path => (path, TypedRidColumn.new path)⟩) (talliedBy_nil c)
  rw [Tallied, objects_rebuildDerivedState]
  rw [List.append_nil] at hfold
  exact (hfold.perm c.objects.reverse_perm).congr ⟨rfl, rfl, rfl⟩

end Collection
end ObjyDb
