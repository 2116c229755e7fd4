import ObjyDb.Persist.Images

/-!
# Pending — what queueing a change does

Each queueing function makes one change of `WriteBehind.Pending`, and putting a failed batch back
is `Pending.requeue`.  All keep the keys of the queues in order.
-/

namespace ObjyDb
namespace Persist

open Js WriteBehind

/-! ## Operations of an entry -/

/-- Some entry whose key satisfies `P` has the operation. -/
def HasOp (P : JsString → Prop) (pending : List (JsString × List Op)) (op : Op) : Prop :=
  ∃ entry ∈ pending, P entry.1 ∧ op ∈ entry.2

theorem hasOp_set {P : JsString → Prop} {pending : List (JsString × List Op)}
    (hnodup : (Assoc.keys pending).Nodup) (key : JsString) (added : List Op) {ops : List Op}
    (hops : ∀ op, op ∈ ops ↔ op ∈ added ∨ op ∈ (Assoc.get? pending key).getD []) (op : Op) :
    HasOp P (Assoc.set pending key ops) op ↔ (P key ∧ op ∈ added) ∨ HasOp P pending op := by
  constructor
  · rintro ⟨⟨k, v⟩, hentry, hP, hop⟩
    rcases (Assoc.mem_set_iff hnodup).mp hentry with ⟨rfl, rfl⟩ | ⟨-, hentry⟩
    · rcases (hops op).mp hop with hop | hop
      · exact Or.inl ⟨hP, hop⟩
      · cases hget : Assoc.get? pending k with
        | none =>
            rw [hget] at hop
            cases hop
        | some held =>
            rw [hget] at hop
            exact Or.inr ⟨(k, held), Assoc.mem_of_get?_eq_some hget, hP, hop⟩
    · exact Or.inr ⟨(k, v), hentry, hP, hop⟩
  · rintro (⟨hP, hop⟩ | ⟨⟨k, v⟩, hentry, hP, hop⟩)
    · exact ⟨(key, ops), (Assoc.mem_set_iff hnodup).mpr (Or.inl ⟨rfl, rfl⟩), hP,
        (hops op).mpr (Or.inl hop)⟩
    · by_cases hk : k = key
      · subst hk
        refine ⟨(k, ops), (Assoc.mem_set_iff hnodup).mpr (Or.inl ⟨rfl, rfl⟩), hP,
          (hops op).mpr (Or.inr ?_)⟩
        rwa [Assoc.get?_eq_some_of_mem hnodup hentry]
      · exact ⟨(k, v), (Assoc.mem_set_iff hnodup).mpr (Or.inr ⟨hk, hentry⟩), hP, hop⟩

/-- The keys of one collection. -/
def OfCollection (d c : JsString) (key : JsString) : Prop :=
  (parseScopeKey key).database = d ∧ (parseScopeKey key).collection = c

theorem holds_iff {q : Queues} {d c : JsString} {op : Op} :
    q.Holds d c op ↔ HasOp (OfCollection d c) q.pending op :=
  exists_congr fun _ => and_congr_right fun _ => and_assoc.symm

/-! ## Databases -/

section

variable {q : Queues}

theorem nodup_keys_filter_key {β : Type*} {entries : List (JsString × β)} (keep : JsString → Bool)
    (h : (Assoc.keys entries).Nodup) :
    (Assoc.keys (entries.filter fun entry => keep entry.1)).Nodup :=
  h.sublist (List.filter_sublist.map Prod.fst)

theorem mem_keys_filter_key {β : Type*} {entries : List (JsString × β)} (keep : JsString → Bool)
    {k : JsString} (h : k ∈ Assoc.keys (entries.filter fun entry => keep entry.1)) :
    k ∈ Assoc.keys entries :=
  (List.filter_sublist.map Prod.fst).subset h

theorem keyed_queueDatabase (h : q.Keyed) (d : JsString) (m : Json) :
    (q.queueDatabase d m).Keyed := by
  unfold Queues.queueDatabase
  split_ifs
  · exact h
  · exact ⟨h.pending, Assoc.nodup_keys_set d m h.databases, h.metas, h.plain⟩

theorem image_queueDatabase {d : JsString} (hd : PlainName d) (m : Json) :
    (q.queueDatabase d m).image = q.image.create d m := by
  rw [Queues.queueDatabase, if_neg hd.nonempty]
  refine Pending.ext ?_ ?_ rfl rfl rfl
  · ext d'
    simp [Queues.image, Pending.create, and_comm]
  · funext d'
    simp only [Queues.image, Pending.create, Assoc.get?_set]
    by_cases hd' : d' = d
    · simp [hd']
    · simp [hd', Ne.symm hd']

theorem keyed_queueDatabaseDrop (h : q.Keyed) (d : JsString) : (q.queueDatabaseDrop d).Keyed := by
  unfold Queues.queueDatabaseDrop
  split_ifs
  · exact h
  · exact
      { pending := nodup_keys_filter_key
          (fun key => decide ((parseScopeKey key).database ≠ d)) h.pending
        databases := nodup_keys_filter_key (fun key => decide (key ≠ d)) h.databases
        metas := nodup_keys_filter_key (fun key => decide ((parseCollectionKey key).1 ≠ d)) h.metas
        plain := fun key hkey => h.plain key
          (mem_keys_filter_key (fun key => decide ((parseCollectionKey key).1 ≠ d)) hkey) }

theorem image_queueDatabaseDrop (h : q.Keyed) {d : JsString} (hd : PlainName d) :
    (q.queueDatabaseDrop d).image = q.image.drop d := by
  rw [Queues.queueDatabaseDrop, if_neg hd.nonempty]
  refine Pending.ext ?_ ?_ ?_ ?_ ?_
  · ext d'
    simp [Queues.image, Pending.drop, or_comm]
  · funext d'
    simp only [Queues.image, Pending.drop, Assoc.get?_erase]
    by_cases hd' : d' = d
    · simp [hd']
    · simp [hd', Ne.symm hd']
  · funext d'
    ext c
    by_cases hd' : d' = d
    · simp +contextual [Queues.image, Pending.drop, hd', Prod.ext_iff]
    · simp only [Queues.image, Pending.drop, if_neg hd', List.mem_filter, Set.mem_ofPred_eq]
      refine exists_congr fun key => and_congr_left fun hkey => ?_
      simp [hkey, hd']
  · funext d' c
    simp only [Queues.image, Pending.drop]
    rw [Assoc.get?_filter _ fun key => decide ((parseCollectionKey key).1 ≠ d)]
    by_cases hmem : collectionKey d' c ∈ Assoc.keys q.pendingMeta
    · have hparse : (parseCollectionKey (collectionKey d' c)).1 = d' :=
        congrArg Prod.fst ((h.plain _ hmem).parse_eq_iff.mpr rfl)
      simp only [hparse]
      by_cases hd' : d' = d <;> simp [hd']
    · simp [Assoc.get?_eq_none_iff.mpr hmem]
  · funext d' c
    ext op
    simp only [Queues.image, Pending.drop, Queues.Holds]
    by_cases hd' : d' = d
    · simp +contextual [hd']
    · simp only [if_neg hd', List.mem_filter, Set.mem_ofPred_eq]
      refine exists_congr fun entry => ?_
      constructor
      · exact fun hentry => ⟨hentry.1.1, hentry.2⟩
      · exact fun hentry => ⟨⟨hentry.1, by simp [hentry.2.1, hd']⟩, hentry.2⟩

/-! ## Collections -/

theorem keyed_queueMeta (h : q.Keyed) {d c : JsString} (hd : PlainName d) (hc : PlainName c)
    (m : Json) : (q.queueMeta d c m).Keyed := by
  rw [Queues.queueMeta, if_neg (by simp [hd.nonempty, hc.nonempty])]
  refine ⟨h.pending, h.databases, Assoc.nodup_keys_set _ _ h.metas, fun key hkey => ?_⟩
  rw [Assoc.keys_set] at hkey
  split_ifs at hkey with hmem
  · exact h.plain key hkey
  · rcases List.mem_append.mp hkey with hkey | hkey
    · exact h.plain key hkey
    · exact ⟨d, c, hd, hc, List.mem_singleton.mp hkey⟩

theorem image_queueMeta {d c : JsString} (hd : PlainName d) (hc : PlainName c) (m : Json) :
    (q.queueMeta d c m).image = q.image.describe d c m := by
  rw [Queues.queueMeta, if_neg (by simp [hd.nonempty, hc.nonempty])]
  refine Pending.ext rfl rfl rfl ?_ rfl
  funext d' c'
  simp only [Queues.image, Pending.describe, Assoc.get?_set, collectionKey_eq_iff hd hc,
    eq_comm (a := d), eq_comm (a := c)]

theorem keyed_queueCollectionDrop (h : q.Keyed) (d c : JsString) :
    (q.queueCollectionDrop d c).Keyed := by
  unfold Queues.queueCollectionDrop
  split_ifs
  · exact h
  · exact
      { pending := nodup_keys_filter_key (fun key => decide (¬((parseScopeKey key).database = d ∧
          (parseScopeKey key).collection = c))) h.pending
        databases := h.databases
        metas := nodup_keys_filter_key (fun key => decide (key ≠ collectionKey d c)) h.metas
        plain := fun key hkey => h.plain key
          (mem_keys_filter_key (fun key => decide (key ≠ collectionKey d c)) hkey) }

theorem image_queueCollectionDrop {d c : JsString} (hd : PlainName d) (hc : PlainName c) :
    (q.queueCollectionDrop d c).image = q.image.dropPart d c := by
  rw [Queues.queueCollectionDrop, if_neg (by simp [hd.nonempty, hc.nonempty])]
  refine Pending.ext rfl rfl ?_ ?_ ?_
  · funext d'
    ext c'
    simp only [Queues.image, Pending.dropPart, mem_setAdd, Set.mem_ofPred_eq, or_and_right,
      exists_or, exists_eq_left, parseCollectionKey_collectionKey hd hc, Prod.mk.injEq,
      eq_comm (a := d), eq_comm (a := c)]
    exact or_comm
  · funext d' c'
    simp only [Queues.image, Pending.dropPart, Assoc.get?_erase, collectionKey_eq_iff hd hc,
      eq_comm (a := d), eq_comm (a := c)]
  · funext d' c'
    ext op
    simp only [Queues.image, Pending.dropPart, Queues.Holds]
    by_cases hk : d' = d ∧ c' = c
    · rcases hk with ⟨rfl, rfl⟩
      simp only [and_self, if_true, Set.mem_empty_iff_false, iff_false, Set.mem_ofPred_eq]
      rintro ⟨entry, hentry, hdb, hcoll, -⟩
      exact of_decide_eq_true (List.mem_filter.mp hentry).2 ⟨hdb, hcoll⟩
    · simp only [if_neg hk, List.mem_filter, Set.mem_ofPred_eq]
      refine exists_congr fun entry => ?_
      constructor
      · exact fun hentry => ⟨hentry.1.1, hentry.2⟩
      · rintro ⟨hentry, rfl, rfl, hop⟩
        exact ⟨⟨hentry, decide_eq_true hk⟩, rfl, rfl, hop⟩

/-! ## Operations -/

/-- An operation as the node hands it on: its names are plain, and it has a shard. -/
structure PlainOp (op : Op) : Prop where
  scope : (opScope op).Plain
  id : op.id ≠ []

theorem PlainOp.queueable {op : Op} (h : PlainOp op) : Queues.queueable op = true := by
  simp only [Queues.queueable, decide_eq_true_eq]
  exact ⟨h.scope.database.nonempty, h.scope.collection.nonempty, h.id, h.scope.shard.nonempty⟩

theorem keyed_queueOp (h : q.Keyed) (op : Op) : (q.queueOp op).Keyed := by
  unfold Queues.queueOp
  split_ifs
  · exact ⟨Assoc.nodup_keys_set _ _ h.pending, h.databases, h.metas, h.plain⟩
  · exact h

theorem image_queueOp (h : q.Keyed) {op : Op} (hop : PlainOp op) :
    (q.queueOp op).image = q.image.record op.db op.coll op := by
  rw [Queues.queueOp, if_pos hop.queueable]
  refine Pending.ext rfl rfl rfl rfl ?_
  funext d c
  ext r
  simp only [Queues.image, Pending.record, Set.mem_ofPred_eq, holds_iff]
  rw [hasOp_set h.pending _ [op] (fun r => by simp [Queues.opsAt, or_comm]), OfCollection,
    parseScopeKey_scopeKey hop.scope]
  simp only [opScope, List.mem_singleton, eq_comm (a := op.db), eq_comm (a := op.coll), and_assoc]

/-! ## A failed batch -/

theorem mem_requeueDrops (queued batch : List JsString) (key : JsString) :
    key ∈ Queues.requeueDrops queued batch ↔ key ∈ queued ∨ key ∈ batch := by
  unfold Queues.requeueDrops
  induction batch generalizing queued with
  | nil => simp
  | cons k batch ih => rw [List.foldl_cons, ih, mem_setAdd, List.mem_cons, or_assoc]

theorem get?_requeueMissing (queued batch : List (JsString × Json)) (key : JsString) :
    Assoc.get? (Queues.requeueMissing queued batch) key =
      (Assoc.get? queued key).or (Assoc.get? batch key) := by
  unfold Queues.requeueMissing
  induction batch generalizing queued with
  | nil => simp
  | cons entry batch ih =>
      rcases entry with ⟨k, body⟩
      rw [List.foldl_cons, ih, Assoc.get?_cons]
      by_cases hk : k = key
      · subst hk
        cases hget : Assoc.get? queued k with
        | none => simp
        | some held => simp [hget]
      · split_ifs with hsome
        · rfl
        · simp [hk]

theorem nodup_requeueMissing {queued : List (JsString × Json)}
    (hnodup : (Assoc.keys queued).Nodup) (batch : List (JsString × Json)) :
    (Assoc.keys (Queues.requeueMissing queued batch)).Nodup := by
  unfold Queues.requeueMissing
  induction batch generalizing queued with
  | nil => exact hnodup
  | cons entry batch ih =>
      rw [List.foldl_cons]
      split_ifs
      · exact ih hnodup
      · exact ih (Assoc.nodup_keys_set _ _ hnodup)

theorem hasOp_cons {P : JsString → Prop} {entry : JsString × List Op}
    {pending : List (JsString × List Op)} {op : Op} :
    HasOp P (entry :: pending) op ↔ (P entry.1 ∧ op ∈ entry.2) ∨ HasOp P pending op := by
  simp [HasOp]

theorem nodup_requeueBatches {pending : List (JsString × List Op)}
    (hnodup : (Assoc.keys pending).Nodup) (batches : List (JsString × List Op)) :
    (Assoc.keys (Queues.requeueBatches pending batches)).Nodup := by
  unfold Queues.requeueBatches
  induction batches generalizing pending with
  | nil => exact hnodup
  | cons entry batches ih => exact ih (Assoc.nodup_keys_set _ _ hnodup)

theorem hasOp_requeueBatches (P : JsString → Prop) {pending : List (JsString × List Op)}
    (hnodup : (Assoc.keys pending).Nodup) (batches : List (JsString × List Op)) (op : Op) :
    HasOp P (Queues.requeueBatches pending batches) op ↔
      HasOp P pending op ∨ HasOp P batches op := by
  unfold Queues.requeueBatches
  induction batches generalizing pending with
  | nil => simp [HasOp]
  | cons entry batches ih =>
      rw [List.foldl_cons, ih (Assoc.nodup_keys_set _ _ hnodup),
        hasOp_set hnodup _ entry.2 (fun _ => List.mem_append), hasOp_cons]
      exact (or_congr_left or_comm).trans or_assoc

theorem keyed_requeue {b : Queues} (h : q.Keyed) (hb : b.Keyed) : (q.requeue b).Keyed where
  pending := nodup_requeueBatches h.pending b.pending
  databases := nodup_requeueMissing h.databases b.pendingDatabases
  metas := nodup_requeueMissing h.metas b.pendingMeta
  plain key hkey := by
    rw [← Assoc.get?_isSome_iff, Queues.requeue, get?_requeueMissing, Option.isSome_or,
      Bool.or_eq_true, Assoc.get?_isSome_iff, Assoc.get?_isSome_iff] at hkey
    rcases hkey with hkey | hkey
    · exact h.plain key hkey
    · exact hb.plain key hkey

/-- A failed batch goes back under the changes queued since. -/
theorem image_requeue {b : Queues} (h : q.Keyed) :
    (q.requeue b).image = q.image.requeue b.image := by
  refine Pending.ext ?_ ?_ ?_ ?_ ?_
  · ext d
    exact mem_requeueDrops _ _ d
  · funext d
    exact get?_requeueMissing _ _ d
  · funext d
    ext c
    simp only [Queues.image, Pending.requeue, Queues.requeue, mem_requeueDrops, or_and_right,
      exists_or]
    rfl
  · funext d c
    exact get?_requeueMissing _ _ _
  · funext d c
    ext op
    simp only [Queues.image, Pending.requeue, Set.mem_union, Set.mem_ofPred_eq, holds_iff]
    exact hasOp_requeueBatches _ h.pending b.pending op

end

end Persist
end ObjyDb
