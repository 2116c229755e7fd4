import ObjyDb.Persist.Agreement

/-!
# Restoring — what each step of a restore does to memory

A restore runs four passes over the listed keys and then reads snapshots and segments.  Each is
described by what can be looked up after it: which databases and collections are there and which
are deleted, their metadata, and the newest write of every object.

- `restoreDatabaseTombstones`, `restoreCollectionTombstones`: what is named is gone
- `restoreDatabaseMetadata`, `restoreMetadata`: what is not deleted has the metadata of its file
- `row_applyOps`: an object has the newest of its writes
-/

namespace ObjyDb
namespace Persist

open Js

/-! ## What storage lists -/

theorem mem_databaseTombstones {s : Storage} {d : JsString} :
    d ∈ databaseTombstones s ↔ .databaseTombstone d ∈ Assoc.keys s := by
  simp only [databaseTombstones, List.mem_filterMap, Assoc.keys, List.mem_map]
  constructor
  · rintro ⟨entry, hentry, hsome⟩
    refine ⟨entry, hentry, ?_⟩
    rcases entry with ⟨key, file⟩
    cases key <;> simp_all
  · rintro ⟨entry, hentry, hkey⟩
    exact ⟨entry, hentry, by rw [hkey]⟩

theorem mem_foldl_setAdd (added set : List JsString) (key : JsString) :
    key ∈ added.foldl setAdd set ↔ key ∈ set ∨ key ∈ added := by
  induction added generalizing set with
  | nil => simp
  | cons k added ih => rw [List.foldl_cons, ih, mem_setAdd, List.mem_cons, or_assoc]

theorem mem_collectionTombstones {s : Storage} {key : JsString} :
    key ∈ collectionTombstones s ↔
      ∃ d c, .collectionTombstone d c ∈ Assoc.keys s ∧ key = collectionKey d c := by
  simp only [collectionTombstones, mem_foldl_setAdd, List.not_mem_nil, false_or,
    List.mem_filterMap, Assoc.keys, List.mem_map]
  constructor
  · rintro ⟨⟨k, file⟩, hentry, hsome⟩
    cases k with
    | collectionTombstone d c => exact ⟨d, c, ⟨_, hentry, rfl⟩, (Option.some.inj hsome).symm⟩
    | _ => cases hsome
  · rintro ⟨d, c, ⟨entry, hentry, hkey⟩, rfl⟩
    exact ⟨entry, hentry, by rw [hkey]⟩

/-! ## Scopes -/

theorem scopeKey_inj {scope scope' : Scope} (h : scope.Plain) (h' : scope'.Plain)
    (hkey : scopeKey scope = scopeKey scope') : scope = scope' := by
  rw [← parseScopeKey_scopeKey h, hkey, parseScopeKey_scopeKey h']

/-- Plain scopes have different keys, so none of them is lost. -/
theorem mem_foldl_scopes {added : List Scope} (hadded : ∀ scope ∈ added, scope.Plain)
    {scopes : List (JsString × Scope)} (hnodup : (Assoc.keys scopes).Nodup)
    (hscopes : ∀ entry ∈ scopes, entry.2.Plain ∧ entry.1 = scopeKey entry.2) (scope : Scope) :
    scope ∈ (added.foldl (fun scopes scope => Assoc.set scopes (scopeKey scope) scope)
        scopes).map Prod.snd ↔ scope ∈ scopes.map Prod.snd ∨ scope ∈ added := by
  induction added generalizing scopes with
  | nil => simp
  | cons new added ih =>
      rcases List.forall_mem_cons.mp hadded with ⟨hnew, hrest⟩
      have hset : ∀ entry ∈ Assoc.set scopes (scopeKey new) new,
          entry.2.Plain ∧ entry.1 = scopeKey entry.2 := by
        rintro ⟨key, held⟩ hentry
        rcases (Assoc.mem_set_iff hnodup).mp hentry with ⟨rfl, rfl⟩ | ⟨-, hheld⟩
        · exact ⟨hnew, rfl⟩
        · exact hscopes _ hheld
      rw [List.foldl_cons, ih hrest (Assoc.nodup_keys_set _ _ hnodup) hset, List.mem_cons,
        ← or_assoc]
      refine or_congr_left ?_
      constructor
      · intro hmem
        rcases List.mem_map.mp hmem with ⟨⟨key, held⟩, hentry, rfl⟩
        rcases (Assoc.mem_set_iff hnodup).mp hentry with ⟨-, rfl⟩ | ⟨-, hheld⟩
        · exact Or.inr rfl
        · exact Or.inl (List.mem_map_of_mem hheld)
      · rintro (hmem | rfl)
        · rcases List.mem_map.mp hmem with ⟨⟨key, held⟩, hentry, rfl⟩
          rcases hscopes _ hentry with ⟨hplain, hkey⟩
          dsimp only at hplain hkey
          by_cases heq : key = scopeKey new
          · have hsame : held = new := scopeKey_inj hplain hnew (hkey.symm.trans heq)
            exact List.mem_map.mpr ⟨(scopeKey new, new),
              (Assoc.mem_set_iff hnodup).mpr (Or.inl ⟨rfl, rfl⟩), hsame.symm⟩
          · exact List.mem_map.mpr ⟨(key, held),
              (Assoc.mem_set_iff hnodup).mpr (Or.inr ⟨heq, hentry⟩), rfl⟩
        · exact List.mem_map.mpr ⟨(scopeKey scope, scope),
            (Assoc.mem_set_iff hnodup).mpr (Or.inl ⟨rfl, rfl⟩), rfl⟩

theorem mem_uniqueScopes_iff {s : Storage}
    (hplain : ∀ scope ∈ s.filterMap (fun entry => entry.1.scope?), scope.Plain) {scope : Scope} :
    scope ∈ uniqueScopes s ↔ scope ∈ s.filterMap fun entry => entry.1.scope? := by
  have hfold := @mem_foldl_scopes _ hplain [] List.nodup_nil (by simp) scope
  rw [uniqueScopes, hfold]
  simp

/-! ## Tombstones -/

section

variable (tombstones : List JsString) (m : Memory)

theorem getDatabaseMeta_restoreDatabaseTombstones (d : JsString) :
    (restoreDatabaseTombstones tombstones m).getDatabaseMeta d =
      if d ∈ tombstones then none else m.getDatabaseMeta d := by
  unfold restoreDatabaseTombstones
  induction tombstones generalizing m with
  | nil => simp
  | cons t tombstones ih =>
      rw [List.foldl_cons, ih, Memory.getDatabaseMeta_deleteDatabase]
      by_cases ht : d = t
      · simp [ht]
      · simp [ht, Ne.symm ht]

theorem getCollection_restoreDatabaseTombstones (d c : JsString) :
    (restoreDatabaseTombstones tombstones m).getCollection d c =
      if d ∈ tombstones then none else m.getCollection d c := by
  unfold restoreDatabaseTombstones
  induction tombstones generalizing m with
  | nil => simp
  | cons t tombstones ih =>
      rw [List.foldl_cons, ih, Memory.getCollection_deleteDatabase]
      by_cases ht : d = t
      · simp [ht]
      · simp [ht, Ne.symm ht]

theorem isDatabaseDeleted_restoreDatabaseTombstones (d : JsString) :
    (restoreDatabaseTombstones tombstones m).isDatabaseDeleted d = true ↔
      m.isDatabaseDeleted d = true ∨ d ∈ tombstones := by
  unfold restoreDatabaseTombstones
  induction tombstones generalizing m with
  | nil => simp
  | cons t tombstones ih =>
      rw [List.foldl_cons, ih, Memory.isDatabaseDeleted_deleteDatabase, List.mem_cons, or_assoc]

theorem isCollectionDeleted_restoreDatabaseTombstones (d c : JsString) :
    (restoreDatabaseTombstones tombstones m).isCollectionDeleted d c =
      m.isCollectionDeleted d c := by
  unfold restoreDatabaseTombstones
  induction tombstones generalizing m with
  | nil => rfl
  | cons t tombstones ih => exact ih _

theorem getDatabaseMeta_restoreCollectionTombstones (d : JsString) :
    (restoreCollectionTombstones tombstones m).getDatabaseMeta d = m.getDatabaseMeta d := by
  unfold restoreCollectionTombstones
  induction tombstones generalizing m with
  | nil => rfl
  | cons key tombstones ih =>
      exact (ih _).trans (Memory.getDatabaseMeta_deleteCollection m _ _ d)

theorem isDatabaseDeleted_restoreCollectionTombstones (d : JsString) :
    (restoreCollectionTombstones tombstones m).isDatabaseDeleted d = m.isDatabaseDeleted d := by
  unfold restoreCollectionTombstones
  induction tombstones generalizing m with
  | nil => rfl
  | cons key tombstones ih =>
      exact (ih _).trans (Memory.isDatabaseDeleted_deleteCollection m _ _ d)

theorem getCollection_restoreCollectionTombstones (d c : JsString) :
    (restoreCollectionTombstones tombstones m).getCollection d c =
      if (d, c) ∈ tombstones.map parseCollectionKey then none else m.getCollection d c := by
  unfold restoreCollectionTombstones
  induction tombstones generalizing m with
  | nil => simp
  | cons key tombstones ih =>
      rw [List.foldl_cons, ih, Memory.getCollection_deleteCollection]
      by_cases hkey : (d, c) = parseCollectionKey key
      · simp [← hkey]
      · have hne : ¬((parseCollectionKey key).1 = d ∧ (parseCollectionKey key).2 = c) :=
          fun h => hkey (Prod.ext h.1.symm h.2.symm)
        simp [hkey, hne]

theorem isCollectionDeleted_restoreCollectionTombstones (d c : JsString) :
    (restoreCollectionTombstones tombstones m).isCollectionDeleted d c = true ↔
      m.isCollectionDeleted d c = true ∨ ∃ key ∈ tombstones, storeCollectionKey d c =
        storeCollectionKey (parseCollectionKey key).1 (parseCollectionKey key).2 := by
  unfold restoreCollectionTombstones
  induction tombstones generalizing m with
  | nil => simp
  | cons key tombstones ih =>
      rw [List.foldl_cons, ih, Memory.isCollectionDeleted_deleteCollection, or_assoc]
      simp

end

/-! ## Metadata of databases -/

/-- The document of a JSON file. -/
def bodyAt (s : Storage) (key : StorageKey) : Option Json :=
  (Assoc.get? s key).bind StorageFile.json?

theorem bodyAt_cons (key : StorageKey) (file : StorageFile) (s : Storage) (k : StorageKey) :
    bodyAt ((key, file) :: s) k = if key = k then file.json? else bodyAt s k := by
  rw [bodyAt, Assoc.get?_cons]
  split_ifs <;> rfl

theorem bodyAt_of_notMem {s : Storage} {k : StorageKey} (h : k ∉ Assoc.keys s) :
    bodyAt s k = none := by
  rw [bodyAt, Assoc.get?_eq_none_iff.mpr h]
  rfl

/-- One pass over the files of a kind, each of which is about one key. -/
theorem restoreDatabaseMeta_cases (m : Memory) (key : StorageKey) (file : StorageFile) :
    (∃ d b, key = .databaseMeta d ∧ file = .json b ∧ m.isDatabaseDeleted d = false ∧
        restoreDatabaseMeta m (key, file) = m.setDatabaseMeta d b) ∨
      restoreDatabaseMeta m (key, file) = m ∧
        ∀ d, key = .databaseMeta d → m.isDatabaseDeleted d = true ∨ file.json? = none := by
  cases key with
  | databaseMeta d =>
      cases file with
      | json b =>
          by_cases hd : m.isDatabaseDeleted d = true
          · exact Or.inr ⟨if_pos hd, by rintro d' ⟨⟩; exact Or.inl hd⟩
          · exact Or.inl ⟨d, b, rfl, rfl, Bool.eq_false_iff.mpr hd, if_neg hd⟩
      | _ => exact Or.inr ⟨rfl, fun _ _ => Or.inr rfl⟩
  | _ => exact Or.inr ⟨rfl, nofun⟩

theorem isDatabaseDeleted_setDatabaseMeta_of_live {m : Memory} {d : JsString}
    (h : m.isDatabaseDeleted d = false) (b : Json) (d' : JsString) :
    (m.setDatabaseMeta d b).isDatabaseDeleted d' = m.isDatabaseDeleted d' := by
  refine Bool.eq_iff_iff.mpr ((Memory.isDatabaseDeleted_setDatabaseMeta m d b d').trans ?_)
  refine and_iff_left_of_imp ?_
  rintro hd' rfl
  exact absurd (h.symm.trans hd') (by decide)

section

variable (s : Storage) (m : Memory)

theorem isDatabaseDeleted_restoreDatabaseMetadata (d : JsString) :
    (restoreDatabaseMetadata s m).isDatabaseDeleted d = m.isDatabaseDeleted d := by
  unfold restoreDatabaseMetadata
  induction s generalizing m with
  | nil => rfl
  | cons entry s ih =>
      rw [List.foldl_cons, ih]
      rcases restoreDatabaseMeta_cases m entry.1 entry.2 with
        ⟨d', b, -, -, hlive, heq⟩ | ⟨heq, -⟩
      · exact (congrArg (·.isDatabaseDeleted d) heq).trans
          (isDatabaseDeleted_setDatabaseMeta_of_live hlive b d)
      · exact congrArg (·.isDatabaseDeleted d) heq

theorem isCollectionDeleted_restoreDatabaseMetadata (d c : JsString) :
    (restoreDatabaseMetadata s m).isCollectionDeleted d c = m.isCollectionDeleted d c := by
  unfold restoreDatabaseMetadata
  induction s generalizing m with
  | nil => rfl
  | cons entry s ih =>
      rw [List.foldl_cons, ih]
      rcases restoreDatabaseMeta_cases m entry.1 entry.2 with ⟨d', b, -, -, -, heq⟩ | ⟨heq, -⟩ <;>
        exact congrArg (·.isCollectionDeleted d c) heq

theorem getCollection_restoreDatabaseMetadata (d c : JsString) :
    (restoreDatabaseMetadata s m).getCollection d c = m.getCollection d c := by
  unfold restoreDatabaseMetadata
  induction s generalizing m with
  | nil => rfl
  | cons entry s ih =>
      rw [List.foldl_cons, ih]
      rcases restoreDatabaseMeta_cases m entry.1 entry.2 with ⟨d', b, -, -, -, heq⟩ | ⟨heq, -⟩
      · exact (congrArg (·.getCollection d c) heq).trans
          (Memory.getCollection_setDatabaseMeta m d' b d c)
      · exact congrArg (·.getCollection d c) heq

/-- The file of a database decides its metadata, unless the database is deleted. -/
theorem getDatabaseMeta_restoreDatabaseMetadata (hnodup : (Assoc.keys s).Nodup) (d : JsString) :
    (restoreDatabaseMetadata s m).getDatabaseMeta d =
      if m.isDatabaseDeleted d then m.getDatabaseMeta d
      else (bodyAt s (.databaseMeta d)).or (m.getDatabaseMeta d) := by
  unfold restoreDatabaseMetadata
  induction s generalizing m with
  | nil => simp [bodyAt, Assoc.get?]
  | cons entry s ih =>
      rcases entry with ⟨key, file⟩
      rcases List.nodup_cons.mp hnodup with ⟨hkey, hrest⟩
      rw [List.foldl_cons, ih _ hrest, bodyAt_cons]
      rcases restoreDatabaseMeta_cases m key file with
        ⟨d', b, rfl, rfl, hlive, heq⟩ | ⟨heq, hother⟩
      · rw [heq, isDatabaseDeleted_setDatabaseMeta_of_live hlive,
          Memory.getDatabaseMeta_setDatabaseMeta]
        by_cases hd : d' = d
        · subst hd
          rw [bodyAt_of_notMem hkey]
          simp [hlive, StorageFile.json?]
        · simp [hd]
      · rw [heq]
        by_cases hd : key = .databaseMeta d
        · rcases hother d hd with hdeleted | hnone
          · simp [hdeleted]
          · rw [bodyAt_of_notMem (hd ▸ hkey)]
            simp [hd, hnone]
        · rw [if_neg hd]

end

/-! ## What opening a collection does to its database -/

/-- A database that a collection of it was set in has the metadata it had, or the default. -/
theorem getDatabaseMeta_setCollection_eq_some {m : Memory} {d c : JsString} {x : HeldCollection}
    {d' : JsString} {b : Json} :
    (m.setCollection d c x).getDatabaseMeta d' = some b ↔
      m.getDatabaseMeta d' = some b ∨
        m.getDatabaseMeta d' = none ∧ d = d' ∧ b = defaultDatabaseMeta := by
  rw [Memory.getDatabaseMeta_setCollection, Memory.databaseMeta_databaseOf]
  by_cases hd : d = d'
  · subst hd
    cases m.getDatabaseMeta d <;> simp [eq_comm]
  · simp [hd]

/-- Databases that one pass after another opens. -/
theorem opened_trans {held held' : Option Json} {b : Json} {now later : Prop}
    (h : ∀ b, held' = some b ↔ held = some b ∨ held = none ∧ now ∧ b = defaultDatabaseMeta) :
    held' = some b ∨ held' = none ∧ later ∧ b = defaultDatabaseMeta ↔
      held = some b ∨ held = none ∧ (now ∨ later) ∧ b = defaultDatabaseMeta := by
  cases held with
  | some b' =>
      have hheld' : held' = some b' := (h b').mpr (Or.inl rfl)
      simp [hheld']
  | none =>
      by_cases hnow : now
      · have hheld' : held' = some defaultDatabaseMeta := (h _).mpr (Or.inr ⟨rfl, hnow, rfl⟩)
        simp [hheld', hnow, eq_comm]
      · have hheld' : held' = none := by
          refine Option.eq_none_iff_forall_ne_some.mpr fun b' hb' => ?_
          rcases (h b').mp hb' with hb | ⟨-, hn, -⟩
          · cases hb
          · exact hnow hn
        simp [hheld', hnow]

/-! ## Metadata of collections -/

theorem restoreMeta_cases (m : Memory) (key : StorageKey) (file : StorageFile) :
    (∃ d c b, key = .collectionMeta d c ∧ file = .json b ∧ m.isDatabaseDeleted d = false ∧
        m.isCollectionDeleted d c = false ∧ restoreMeta m (key, file) =
          m.setCollection d c { m.collectionOf d c with collectionMeta := b }) ∨
      restoreMeta m (key, file) = m ∧ ∀ d c, key = .collectionMeta d c →
        (m.isDatabaseDeleted d || m.isCollectionDeleted d c) = true ∨ file.json? = none := by
  cases key with
  | collectionMeta d c =>
      cases file with
      | json b =>
          by_cases hd : (m.isDatabaseDeleted d || m.isCollectionDeleted d c) = true
          · exact Or.inr ⟨if_pos hd, by rintro d' c' ⟨⟩; exact Or.inl hd⟩
          · have hlive := hd
            rw [Bool.or_eq_true, not_or, Bool.not_eq_true, Bool.not_eq_true] at hlive
            refine Or.inl ⟨d, c, b, rfl, rfl, hlive.1, hlive.2, (if_neg hd).trans ?_⟩
            rw [Memory.setCollectionMeta_live hlive.1, Memory.revive_of_live hlive.2]
      | _ => exact Or.inr ⟨rfl, fun _ _ _ => Or.inr rfl⟩
  | _ => exact Or.inr ⟨rfl, nofun⟩

/-- The file of a collection that the pass reads. -/
def ReadsMeta (s : Storage) (m : Memory) (d c : JsString) : Prop :=
  (bodyAt s (.collectionMeta d c)).isSome = true ∧ m.isDatabaseDeleted d = false ∧
    m.isCollectionDeleted d c = false

section

variable (s : Storage) (m : Memory)

theorem isDatabaseDeleted_restoreMetadata (d : JsString) :
    (restoreMetadata s m).isDatabaseDeleted d = m.isDatabaseDeleted d := by
  unfold restoreMetadata
  induction s generalizing m with
  | nil => rfl
  | cons entry s ih =>
      rw [List.foldl_cons, ih]
      rcases restoreMeta_cases m entry.1 entry.2 with ⟨_, _, _, -, -, -, -, heq⟩ | ⟨heq, -⟩ <;>
        exact congrArg (·.isDatabaseDeleted d) heq

theorem isCollectionDeleted_restoreMetadata (d c : JsString) :
    (restoreMetadata s m).isCollectionDeleted d c = m.isCollectionDeleted d c := by
  unfold restoreMetadata
  induction s generalizing m with
  | nil => rfl
  | cons entry s ih =>
      rw [List.foldl_cons, ih]
      rcases restoreMeta_cases m entry.1 entry.2 with ⟨_, _, _, -, -, -, -, heq⟩ | ⟨heq, -⟩ <;>
        exact congrArg (·.isCollectionDeleted d c) heq

theorem row_restoreMetadata (d c id : JsString) :
    (restoreMetadata s m).row d c id = m.row d c id := by
  unfold restoreMetadata
  induction s generalizing m with
  | nil => rfl
  | cons entry s ih =>
      rw [List.foldl_cons, ih]
      rcases restoreMeta_cases m entry.1 entry.2 with ⟨d', c', b, -, -, -, -, heq⟩ | ⟨heq, -⟩
      · refine (congrArg (·.row d c id) heq).trans ((row_setCollection ..).trans ?_)
        split_ifs with hsame
        · rcases hsame with ⟨rfl, rfl⟩
          exact Memory.get?_collectionOf m d' c' id
        · rfl
      · exact congrArg (·.row d c id) heq

/-- The file of a collection decides its metadata, unless it or its database is deleted. -/
theorem getCollectionMeta_restoreMetadata (hnodup : (Assoc.keys s).Nodup) (d c : JsString) :
    (restoreMetadata s m).getCollectionMeta d c =
      if m.isDatabaseDeleted d || m.isCollectionDeleted d c then m.getCollectionMeta d c
      else (bodyAt s (.collectionMeta d c)).or (m.getCollectionMeta d c) := by
  unfold restoreMetadata
  induction s generalizing m with
  | nil => simp [bodyAt, Assoc.get?]
  | cons entry s ih =>
      rcases entry with ⟨key, file⟩
      rcases List.nodup_cons.mp hnodup with ⟨hkey, hrest⟩
      rw [List.foldl_cons, ih _ hrest, bodyAt_cons]
      rcases restoreMeta_cases m key file with
        ⟨d', c', b, rfl, rfl, hdatabase, hcollection, heq⟩ | ⟨heq, hother⟩
      · rw [heq, getCollectionMeta_setCollection]
        by_cases hsame : d' = d ∧ c' = c
        · rcases hsame with ⟨rfl, rfl⟩
          rw [bodyAt_of_notMem hkey]
          have hlive : (m.setCollection d' c' { m.collectionOf d' c' with
              collectionMeta := b }).isDatabaseDeleted d' = false := hdatabase
          have hlive' : (m.setCollection d' c' { m.collectionOf d' c' with
              collectionMeta := b }).isCollectionDeleted d' c' = false := hcollection
          simp [hlive, hlive', hdatabase, hcollection, StorageFile.json?]
        · have hne : StorageKey.collectionMeta d' c' ≠ .collectionMeta d c := by
            rintro ⟨⟩
            exact hsame ⟨rfl, rfl⟩
          rw [if_neg hsame, if_neg hne]
          rfl
      · rw [heq]
        by_cases hsame : key = .collectionMeta d c
        · rcases hother d c hsame with hdeleted | hnone
          · rw [if_pos hdeleted, if_pos hdeleted]
          · rw [bodyAt_of_notMem (hsame ▸ hkey), if_pos hsame, hnone]
        · rw [if_neg hsame]

theorem getDatabaseMeta_restoreMetadata {d : JsString} {b : Json} (hnodup : (Assoc.keys s).Nodup) :
    (restoreMetadata s m).getDatabaseMeta d = some b ↔
      m.getDatabaseMeta d = some b ∨
        m.getDatabaseMeta d = none ∧ (∃ c, ReadsMeta s m d c) ∧ b = defaultDatabaseMeta := by
  unfold restoreMetadata
  induction s generalizing m with
  | nil => simp [ReadsMeta, bodyAt, Assoc.get?]
  | cons entry s ih =>
      rcases entry with ⟨key, file⟩
      rcases List.nodup_cons.mp hnodup with ⟨hkey, hrest⟩
      rw [List.foldl_cons, ih _ hrest]
      rcases restoreMeta_cases m key file with
        ⟨d', c', b', rfl, rfl, hdatabase, hcollection, heq⟩ | ⟨heq, hother⟩
      · have hreads : (∃ c, ReadsMeta ((.collectionMeta d' c', .json b') :: s) m d c) ↔
            d' = d ∨ ∃ c, ReadsMeta s m d c := by
          constructor
          · rintro ⟨c, hbody, hlive⟩
            rw [bodyAt_cons] at hbody
            split_ifs at hbody with hsame
            · cases hsame
              exact Or.inl rfl
            · exact Or.inr ⟨c, hbody, hlive⟩
          · rintro (rfl | ⟨c, hbody, hlive⟩)
            · exact ⟨c', by simp [bodyAt_cons, StorageFile.json?], hdatabase, hcollection⟩
            · refine ⟨c, ?_, hlive⟩
              rw [bodyAt_cons]
              split_ifs
              · rfl
              · exact hbody
        rw [heq, hreads]
        refine opened_trans fun b => ?_
        exact getDatabaseMeta_setCollection_eq_some
      · have hreads : ∀ c, ReadsMeta ((key, file) :: s) m d c ↔ ReadsMeta s m d c := by
          intro c
          rw [ReadsMeta, ReadsMeta, bodyAt_cons]
          split_ifs with hsame
          · rw [bodyAt_of_notMem (hsame ▸ hkey)]
            rcases hother d c hsame with hdeleted | hnone
            · rw [Bool.or_eq_true] at hdeleted
              rcases hdeleted with hdeleted | hdeleted <;> simp [hdeleted]
            · simp [hnone]
          · rfl
        rw [heq]
        simp only [hreads]

end

/-! ## Operations -/

/-- The object has the newer of the two writes. -/
theorem get?_arrive_later (rows : Rows) (id : JsString) (w : Write) (k : JsString) :
    Assoc.get? (Rows.arrive rows id w).1 k =
      if id = k then Lww.later Write.ts (Assoc.get? rows k) w else Assoc.get? rows k := by
  unfold Rows.arrive
  by_cases hid : id = k
  · subst hid
    cases hget : Assoc.get? rows id with
    | none => simp [Lww.later]
    | some held =>
        by_cases hlt : held.ts < w.ts
        · simp [Lww.later, hlt]
        · simp [Lww.later, hlt, hget]
  · cases hget : Assoc.get? rows id with
    | none => simp [hid]
    | some held => by_cases hlt : held.ts < w.ts <;> simp [hlt, hid]

section

variable (m : Memory)

theorem isDatabaseDeleted_applyOp (op : Op) (d : JsString) :
    (m.applyOp op).1.isDatabaseDeleted d = m.isDatabaseDeleted d := by
  by_cases h : (m.isDatabaseDeleted op.db || m.isCollectionDeleted op.db op.coll) = true
  · rw [m.applyOp_deleted h]
  · rw [m.applyOp_live h]
    rfl

theorem isCollectionDeleted_applyOp (op : Op) (d c : JsString) :
    (m.applyOp op).1.isCollectionDeleted d c = m.isCollectionDeleted d c := by
  by_cases h : (m.isDatabaseDeleted op.db || m.isCollectionDeleted op.db op.coll) = true
  · rw [m.applyOp_deleted h]
  · rw [m.applyOp_live h]
    rfl

theorem row_applyOp (op : Op) (d c id : JsString) :
    (m.applyOp op).1.row d c id =
      if op.isOn d c id = true ∧ (m.isDatabaseDeleted d || m.isCollectionDeleted d c) = false then
        Lww.later Write.ts (m.row d c id) op.write
      else m.row d c id := by
  by_cases h : (m.isDatabaseDeleted op.db || m.isCollectionDeleted op.db op.coll) = true
  · rw [m.applyOp_deleted h, if_neg]
    rintro ⟨hon, hlive⟩
    rw [Op.isOn, decide_eq_true_eq] at hon
    rcases hon with ⟨rfl, rfl, -⟩
    exact absurd (h.symm.trans hlive) (by decide)
  · rw [m.applyOp_live h, row_setCollection]
    by_cases hsame : op.db = d ∧ op.coll = c
    · rcases hsame with ⟨rfl, rfl⟩
      rw [if_pos ⟨rfl, rfl⟩, get?_arrive_later, Memory.get?_collectionOf]
      by_cases hid : op.id = id <;> simp [Op.isOn, hid, h]
    · rw [if_neg hsame, if_neg]
      rintro ⟨hon, -⟩
      rw [Op.isOn, decide_eq_true_eq] at hon
      exact hsame ⟨hon.1, hon.2.1⟩

theorem isDatabaseDeleted_applyOps (ops : List Op) (d : JsString) :
    (m.applyOps ops).1.isDatabaseDeleted d = m.isDatabaseDeleted d := by
  induction ops generalizing m with
  | nil => rfl
  | cons op ops ih => exact (ih _).trans (isDatabaseDeleted_applyOp m op d)

theorem isCollectionDeleted_applyOps (ops : List Op) (d c : JsString) :
    (m.applyOps ops).1.isCollectionDeleted d c = m.isCollectionDeleted d c := by
  induction ops generalizing m with
  | nil => rfl
  | cons op ops ih => exact (ih _).trans (isCollectionDeleted_applyOp m op d c)

/-- An object of a collection that is not deleted takes in the writes to it one by one. -/
theorem row_applyOps (ops : List Op) (d c id : JsString) :
    (m.applyOps ops).1.row d c id =
      if m.isDatabaseDeleted d || m.isCollectionDeleted d c then m.row d c id
      else (writesTo d c id ops).foldl (Lww.later Write.ts) (m.row d c id) := by
  induction ops generalizing m with
  | nil => simp [Memory.applyOps, writesTo]
  | cons op ops ih =>
      have hstep : (m.applyOps (op :: ops)).1 = ((m.applyOp op).1.applyOps ops).1 := rfl
      rw [hstep, ih, isDatabaseDeleted_applyOp, isCollectionDeleted_applyOp, row_applyOp]
      cases hlive : (m.isDatabaseDeleted d || m.isCollectionDeleted d c) with
      | true => simp
      | false => by_cases hon : op.isOn d c id = true <;> simp [writesTo, hon]

/-- A collection that operations open has the metadata it had, or the default. -/
theorem getCollectionMeta_applyOps {ops : List Op} {d c : JsString} {b : Json} :
    (m.applyOps ops).1.getCollectionMeta d c = some b ↔
      m.getCollectionMeta d c = some b ∨ m.getCollectionMeta d c = none ∧
        (∃ op ∈ ops, (op.db = d ∧ op.coll = c) ∧
          (m.isDatabaseDeleted d || m.isCollectionDeleted d c) = false) ∧
        b = defaultCollectionMeta := by
  induction ops generalizing m with
  | nil => simp [Memory.applyOps]
  | cons op ops ih =>
      have hstep : (m.applyOps (op :: ops)).1 = ((m.applyOp op).1.applyOps ops).1 := rfl
      rw [hstep, ih, isDatabaseDeleted_applyOp, isCollectionDeleted_applyOp]
      by_cases hdeleted :
          (m.isDatabaseDeleted op.db || m.isCollectionDeleted op.db op.coll) = true
      · have hskip : ¬((op.db = d ∧ op.coll = c) ∧
            (m.isDatabaseDeleted d || m.isCollectionDeleted d c) = false) := by
          rintro ⟨⟨rfl, rfl⟩, hlive⟩
          exact absurd (hdeleted.symm.trans hlive) (by decide)
        rw [m.applyOp_deleted hdeleted]
        simp only [List.exists_mem_cons_iff, hskip, false_or]
      · rw [m.applyOp_live hdeleted, getCollectionMeta_setCollection,
          Memory.collectionMeta_collectionOf]
        by_cases hsame : op.db = d ∧ op.coll = c
        · rcases hsame with ⟨rfl, rfl⟩
          rw [Bool.not_eq_true] at hdeleted
          cases m.getCollectionMeta op.db op.coll with
          | none => simp [hdeleted, eq_comm]
          | some b' => simp
        · simp [hsame]

theorem getDatabaseMeta_applyOps {ops : List Op} {d : JsString} {b : Json} :
    (m.applyOps ops).1.getDatabaseMeta d = some b ↔
      m.getDatabaseMeta d = some b ∨ m.getDatabaseMeta d = none ∧
        (∃ op ∈ ops, op.db = d ∧
          (m.isDatabaseDeleted op.db || m.isCollectionDeleted op.db op.coll) = false) ∧
        b = defaultDatabaseMeta := by
  induction ops generalizing m with
  | nil => simp [Memory.applyOps]
  | cons op ops ih =>
      have hstep : (m.applyOps (op :: ops)).1 = ((m.applyOp op).1.applyOps ops).1 := rfl
      rw [hstep, ih]
      simp only [isDatabaseDeleted_applyOp, isCollectionDeleted_applyOp,
        List.exists_mem_cons_iff]
      by_cases hdeleted :
          (m.isDatabaseDeleted op.db || m.isCollectionDeleted op.db op.coll) = true
      · rw [m.applyOp_deleted hdeleted]
        simp [hdeleted]
      · rw [m.applyOp_live hdeleted]
        refine opened_trans fun b => ?_
        rw [getDatabaseMeta_setCollection_eq_some]
        simp [hdeleted]

end

end Persist
end ObjyDb
