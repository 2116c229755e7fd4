import ObjyDb.Persist.Keys
import ObjyDb.Store.Stamps

/-!
# Identifiers — the strings that stand for scopes

A database, collection, shard or node is identified by four kinds of joined strings: run keys and
tombstone keys with NUL, queue keys with line feeds, storage keys with slashes between encoded
names, and replication cursors with `|` and slashes between plain names.  Storage keys are faithful
for all names; the others are for names without their separators.

- `faithful_iff_separable`: which names every one of these strings is faithful for
-/

namespace ObjyDb
namespace Persist

open Js

/-! ## Cursor keys -/

/-- `|` -/
def bar : CodeUnit := unit '|'

/-- `_cursorKey(peerKey, scope)` -/
def cursorKey (peerKey : JsString) (scope : Scope) : JsString :=
  peerKey ++ bar :: (scope.database ++ slash :: (scope.collection ++ slash :: scope.shard))

/-- The only way to read the cursor key of a node is the one it was made by. -/
structure CursorPlain (database collection shard node : JsString) : Prop where
  node : bar ∉ node.tail
  databaseBar : bar ∉ database.dropLast
  database : slash ∉ database.tail
  collection : collection = [slash] ∨ slash ∉ collection
  shard : slash ∉ shard.dropLast

/-! ## Cuts of a text -/

/-- Two ways to cut a text at a separator: the same, or one cut lies before the other. -/
theorem append_cons_cases {α : Type*} {a a' b b' : List α} {x y : α}
    (h : a ++ x :: b = a' ++ y :: b') :
    (a = a' ∧ x = y ∧ b = b') ∨ (∃ k, a = a' ++ y :: k ∧ b' = k ++ x :: b) ∨
      ∃ k, a' = a ++ x :: k ∧ b = k ++ y :: b' := by
  rcases List.append_eq_append_iff.mp h with ⟨k, ha, hb⟩ | ⟨k, ha, hb⟩
  · cases k with
    | nil => exact Or.inl ⟨by simpa using ha.symm, List.cons.inj hb⟩
    | cons z k =>
        rcases List.cons.inj hb with ⟨rfl, hrest⟩
        exact Or.inr (Or.inr ⟨k, ha, hrest⟩)
  · cases k with
    | nil =>
        rcases List.cons.inj hb with ⟨rfl, rfl⟩
        exact Or.inl ⟨by simpa using ha, rfl, rfl⟩
    | cons z k =>
        rcases List.cons.inj hb with ⟨rfl, hrest⟩
        exact Or.inr (Or.inl ⟨k, ha, hrest⟩)

theorem mem_tail_of_append {α : Type*} {a b : List α} {x : α} (h : a ≠ []) :
    x ∈ (a ++ x :: b).tail := by
  cases a with
  | nil => exact absurd rfl h
  | cons y a => simp

theorem mem_dropLast_of_append {α : Type*} {a b : List α} {x : α} (h : b ≠ []) :
    x ∈ (a ++ x :: b).dropLast := by
  rw [List.dropLast_append_of_ne_nil (by simp), List.dropLast_cons_of_ne_nil h]
  simp

theorem exists_of_mem_tail {α : Type*} {a : List α} {x : α} (h : x ∈ a.tail) :
    ∃ b c, a = b ++ x :: c ∧ b ≠ [] := by
  cases a with
  | nil => cases h
  | cons y a =>
      rcases List.append_of_mem h with ⟨b, c, hbc⟩
      exact ⟨y :: b, c, congrArg (y :: ·) hbc, by simp⟩

theorem exists_of_mem_dropLast {α : Type*} {a : List α} {x : α} (h : x ∈ a.dropLast) :
    ∃ b c, a = b ++ x :: c ∧ c ≠ [] := by
  rcases List.append_of_mem h with ⟨b, c, hbc⟩
  have hne : a ≠ [] := by
    rintro rfl
    cases h
  refine ⟨b, c ++ [a.getLast hne], ?_, by simp⟩
  conv_lhs => rw [← List.dropLast_append_getLast hne, hbc]
  simp

/-! ## Cursor keys are read in one way -/

section

variable {d c s n d' c' s' n' : JsString}

/-- A text after a slash that goes on is no shard. -/
theorem CursorPlain.shard_ne (h : CursorPlain d c s n) {k t : JsString} (ht : t ≠ []) :
    s ≠ k ++ slash :: t := by
  rintro rfl
  exact h.shard (mem_dropLast_of_append ht)

/-- A collection without a slash in it, or the collection `/`, read in front of the shard. -/
theorem CursorPlain.collection_cases (h : CursorPlain d c s n) (hc' : c' ≠ []) (hs' : s' ≠ [])
    {k : JsString} (hk : c = k ∨ ∃ m, c = m ++ slash :: k)
    (heq : k ++ slash :: s = c' ++ slash :: s') : k = c ∧ c' = c ∧ s' = s := by
  rcases append_cons_cases heq with ⟨rfl, -, rfl⟩ | ⟨m, rfl, rfl⟩ | ⟨m, rfl, rfl⟩
  · rcases hk with rfl | ⟨m, hm⟩
    · exact ⟨rfl, rfl, rfl⟩
    · rcases h.collection with hslash | hslash
      · -- the collection `/` has nothing on either side
        rw [hslash] at hm
        have hlength := congrArg List.length hm
        simp only [List.length_cons, List.length_nil, List.length_append] at hlength
        exact absurd (List.length_eq_zero_iff.mp (by omega)) hc'
      · exact absurd (by rw [hm]; simp) hslash
  · have hmem : slash ∈ c := by
      rcases hk with rfl | ⟨m', rfl⟩ <;> simp
    rcases h.collection with hslash | hslash
    · have hlength : c.length = 1 := by rw [hslash]; rfl
      have hpos : 0 < c'.length := List.length_pos_iff.mpr hc'
      rcases hk with rfl | ⟨m', rfl⟩ <;>
        simp only [List.length_append, List.length_cons] at hlength <;> omega
    · exact absurd hmem hslash
  · exact absurd rfl (h.shard_ne hs')

theorem CursorPlain.inj (h : CursorPlain d c s n) (hd' : d' ≠ []) (hc' : c' ≠ []) (hs' : s' ≠ [])
    (hn' : n' ≠ [])
    (heq : n ++ bar :: (d ++ slash :: (c ++ slash :: s)) =
      n' ++ bar :: (d' ++ slash :: (c' ++ slash :: s'))) : d' = d ∧ c' = c ∧ s' = s := by
  have hbar : bar ≠ slash := by decide
  have htail : ∀ t : JsString, t ++ slash :: s' ≠ [] := by simp
  rcases append_cons_cases heq with ⟨-, -, heq⟩ | ⟨k, rfl, -⟩ | ⟨k, -, heq⟩
  · -- the same bar: the slashes
    rcases append_cons_cases heq with ⟨rfl, -, heq⟩ | ⟨k, rfl, -⟩ | ⟨k, -, heq⟩
    · rcases h.collection_cases hc' hs' (Or.inl rfl) heq with ⟨-, rfl, rfl⟩
      exact ⟨rfl, rfl, rfl⟩
    · exact absurd (mem_tail_of_append hd') h.database
    · rcases append_cons_cases heq with ⟨-, -, rfl⟩ | ⟨m, hm, heq⟩ | ⟨m, -, rfl⟩
      · exact absurd rfl (h.shard_ne hs')
      · rcases h.collection_cases hc' hs' (Or.inr ⟨k, hm⟩) heq.symm with ⟨rfl, -, -⟩
        have hlength := congrArg List.length hm
        simp only [List.length_append, List.length_cons] at hlength
        omega
      · exact absurd rfl (h.shard_ne (htail _))
  · exact absurd (mem_tail_of_append hn') h.node
  · -- another bar, in the database, the collection or the shard
    rcases append_cons_cases heq with ⟨-, hne, -⟩ | ⟨m, rfl, hrest⟩ | ⟨m, -, hrest⟩
    · exact absurd hne.symm hbar
    · have hm : m = [] := by
        by_contra hm
        exact h.databaseBar (mem_dropLast_of_append hm)
      rw [hm] at hrest
      cases d' with
      | nil => exact absurd rfl hd'
      | cons u q =>
          have hafter := (List.cons.inj hrest).2
          rcases append_cons_cases hafter with ⟨-, -, rfl⟩ | ⟨m, hm, hshard⟩ | ⟨m, hm, hshard⟩
          · exact absurd rfl (h.shard_ne hs')
          · exact absurd hshard (h.shard_ne (htail _))
          · rcases h.collection_cases hc' hs' (Or.inr ⟨q, hm⟩) hshard.symm with ⟨rfl, -, -⟩
            have hlength := congrArg List.length hm
            simp only [List.length_append, List.length_cons] at hlength
            omega
    · rcases append_cons_cases hrest with ⟨-, hne, -⟩ | ⟨r, rfl, hafter⟩ | ⟨r, -, rfl⟩
      · exact absurd hne.symm hbar
      · have hslash : slash ∉ r := by
          rcases h.collection with hc | hc
          · have hmem : bar ∈ [slash] := by
              rw [← hc]
              simp
            exact absurd hmem (by decide)
          · exact fun hr => hc (by simp [hr])
        rcases append_cons_cases hafter with ⟨-, -, hshard⟩ | ⟨q, -, hshard⟩ | ⟨q, rfl, -⟩
        · exact absurd hshard.symm (h.shard_ne hs')
        · exact absurd hshard (h.shard_ne (htail _))
        · exact absurd (by simp) hslash
      · refine absurd ?_ h.shard
        rw [show r ++ bar :: (d' ++ slash :: (c' ++ slash :: s')) =
          (r ++ bar :: d') ++ slash :: (c' ++ slash :: s') by simp]
        exact mem_dropLast_of_append (htail _)

end

/-! ## Cursor keys that are read in another way -/

theorem KeyName.cut {a b : JsString} {u : CodeUnit} (h : KeyName (a ++ u :: b))
    (hu : u.val < 0x80) : isWellFormedText a = true ∧ isWellFormedText b = true :=
  (isWellFormedText_cut hu).mp h.wellFormed

theorem KeyName.joined {a b : JsString} {u : CodeUnit} (ha : isWellFormedText a = true)
    (hb : isWellFormedText b = true) (hu : u.val < 0x80) : KeyName (a ++ u :: b) :=
  ⟨by simp, (isWellFormedText_cut hu).mpr ⟨ha, hb⟩⟩

/-- Another scope has this cursor key at some node. -/
def CursorShared (d c s n : JsString) : Prop :=
  ∃ scope n', scope.KeyNames ∧ KeyName n' ∧ scope ≠ ⟨d, c, s⟩ ∧
    cursorKey n' scope = cursorKey n ⟨d, c, s⟩

section

variable {d c s n : JsString} (hd : KeyName d) (hc : KeyName c) (hs : KeyName s) (hn : KeyName n)

include hd hc hs hn

theorem cursorShared_of_node (h : bar ∈ n.tail) : CursorShared d c s n := by
  rcases exists_of_mem_tail h with ⟨x, y, rfl, hx⟩
  have hcut := hn.cut (by decide)
  refine ⟨⟨y ++ bar :: d, c, s⟩, x, ⟨.joined hcut.2 hd.wellFormed (by decide), hc, hs⟩,
    ⟨hx, hcut.1⟩, ?_, by simp [cursorKey]⟩
  intro heq
  have hlength := congrArg (fun scope => scope.database.length) heq
  simp only [List.length_append, List.length_cons] at hlength
  omega

theorem cursorShared_of_databaseBar (h : bar ∈ d.dropLast) : CursorShared d c s n := by
  rcases exists_of_mem_dropLast h with ⟨x, y, rfl, hy⟩
  have hcut := hd.cut (by decide)
  refine ⟨⟨y, c, s⟩, n ++ bar :: x, ⟨⟨hy, hcut.2⟩, hc, hs⟩,
    .joined hn.wellFormed hcut.1 (by decide), ?_, by simp [cursorKey]⟩
  intro heq
  have hlength := congrArg (fun scope => scope.database.length) heq
  simp only [List.length_append, List.length_cons] at hlength
  omega

theorem cursorShared_of_database (h : slash ∈ d.tail) : CursorShared d c s n := by
  rcases exists_of_mem_tail h with ⟨x, y, rfl, hx⟩
  have hcut := hd.cut (by decide)
  refine ⟨⟨x, y ++ slash :: c, s⟩, n,
    ⟨⟨hx, hcut.1⟩, .joined hcut.2 hc.wellFormed (by decide), hs⟩, hn, ?_, by simp [cursorKey]⟩
  intro heq
  have hlength := congrArg (fun scope => scope.database.length) heq
  simp only [List.length_append, List.length_cons] at hlength
  omega

theorem cursorShared_of_collection (hne : c ≠ [slash]) (h : slash ∈ c) : CursorShared d c s n := by
  rcases List.append_of_mem h with ⟨x, y, rfl⟩
  have hcut := hc.cut (by decide)
  by_cases hx : x = []
  · have hy : y ≠ [] := by
      rintro rfl
      exact hne (by rw [hx]; rfl)
    refine ⟨⟨d ++ slash :: x, y, s⟩, n,
      ⟨.joined hd.wellFormed hcut.1 (by decide), ⟨hy, hcut.2⟩, hs⟩, hn, ?_, by simp [cursorKey]⟩
    intro heq
    have hlength := congrArg (fun scope => scope.database.length) heq
    simp only [List.length_append, List.length_cons] at hlength
    omega
  · refine ⟨⟨d, x, y ++ slash :: s⟩, n,
      ⟨hd, ⟨hx, hcut.1⟩, .joined hcut.2 hs.wellFormed (by decide)⟩, hn, ?_, by simp [cursorKey]⟩
    intro heq
    have hlength := congrArg (fun scope => scope.shard.length) heq
    simp only [List.length_append, List.length_cons] at hlength
    omega

theorem cursorShared_of_shard (h : slash ∈ s.dropLast) : CursorShared d c s n := by
  rcases exists_of_mem_dropLast h with ⟨x, y, rfl, hy⟩
  have hcut := hs.cut (by decide)
  refine ⟨⟨d, c ++ slash :: x, y⟩, n,
    ⟨hd, .joined hc.wellFormed hcut.1 (by decide), ⟨hy, hcut.2⟩⟩, hn, ?_, by simp [cursorKey]⟩
  intro heq
  have hlength := congrArg (fun scope => scope.shard.length) heq
  simp only [List.length_append, List.length_cons] at hlength
  omega

/-- A cursor key stands for one scope exactly when it can be read in one way only. -/
theorem not_cursorShared_iff : ¬CursorShared d c s n ↔ CursorPlain d c s n := by
  constructor
  · intro h
    refine ⟨fun hbar => h (cursorShared_of_node hd hc hs hn hbar),
      fun hbar => h (cursorShared_of_databaseBar hd hc hs hn hbar),
      fun hslash => h (cursorShared_of_database hd hc hs hn hslash), ?_,
      fun hslash => h (cursorShared_of_shard hd hc hs hn hslash)⟩
    by_cases hne : c = [slash]
    · exact Or.inl hne
    · exact Or.inr fun hslash => h (cursorShared_of_collection hd hc hs hn hne hslash)
  · rintro h ⟨⟨d', c', s'⟩, n', hscope, hn', hne, heq⟩
    rcases h.inj hscope.database.nonempty hscope.collection.nonempty hscope.shard.nonempty
      hn'.nonempty heq.symm with ⟨rfl, rfl, rfl⟩
    exact hne rfl

end

/-! ## Operations reach their collection -/

/-- The collection that a run of operations is applied to. -/
def runTarget (run : Store.OpRun) : JsString × JsString :=
  let parts := split 0 run.key
  (parts.getD 0 [], parts.getD 1 [])

theorem getCollection_setCollection_ne (store : Store) (x : Collection) {d c d' c' : JsString}
    (h : (d', c') ≠ (d, c)) :
    (store.setCollection d c x).getCollection d' c' = store.getCollection d' c' := by
  rw [Store.setCollection, Store.getCollection, Store.getCollection, Assoc.get?_set]
  by_cases hd : d = d'
  · subst hd
    have hc : c ≠ c' := fun hc => h (by rw [hc])
    rw [if_pos rfl, Option.bind_some, Assoc.get?_set, if_neg hc]
    cases Assoc.get? store.dbs d <;> rfl
  · rw [if_neg hd]

/-- A run changes the collection it is applied to and no other. -/
theorem getCollection_flushRun (store : Store) (run : Store.OpRun) {d' c' : JsString}
    (h : (d', c') ≠ runTarget run) :
    (store.flushRun run).1.getCollection d' c' = store.getCollection d' c' := by
  rw [Store.flushRun]
  dsimp only
  cases store.collection ((split 0 run.key).getD 0 []) ((split 0 run.key).getD 1 []) with
  | error err => rfl
  | ok x =>
      dsimp only
      split_ifs
      · exact getCollection_setCollection_ne _ _ h
      · cases x.putObjects (run.ops.map Op.row) with
        | mk y result =>
            cases result with
            | ok applied => exact getCollection_setCollection_ne _ _ h
            | error err => exact getCollection_setCollection_ne _ _ h

theorem getCollection_flushRuns {runs : List Store.OpRun} {d' c' : JsString}
    (h : ∀ run ∈ runs, ∀ now : Store,
      (now.flushRun run).1.getCollection d' c' = now.getCollection d' c') (store : Store) :
    (store.flushRuns runs).1.getCollection d' c' = store.getCollection d' c' := by
  induction runs generalizing store with
  | nil => rfl
  | cons run runs ih =>
      have hfirst := h run List.mem_cons_self store
      rw [Store.flushRuns]
      cases hflush : store.flushRun run with
      | mk store' result =>
          rw [hflush] at hfirst
          cases result with
          | error err => exact hfirst
          | ok applied =>
              have hrest := ih (fun run hrun => h run (List.mem_cons_of_mem _ hrun)) store'
              dsimp only
              cases hmore : store'.flushRuns runs with
              | mk store'' result =>
                  rw [hmore] at hrest
                  cases result with
                  | error err => exact hrest.trans hfirst
                  | ok more => exact hrest.trans hfirst

/-- Names without NUL come back from the run key. -/
theorem runTarget_of_op {op : Op} {run : Store.OpRun} (hdb : (0 : CodeUnit) ∉ op.db)
    (hcoll : (0 : CodeUnit) ∉ op.coll) (hkey : Store.runKey op = run.key) :
    runTarget run = (op.db, op.coll) := by
  rw [runTarget, ← hkey, Store.runKey, split_append_sep hdb, split_append_sep hcoll]
  rfl

theorem notMem_of_mem_split {sep : CodeUnit} {text part : JsString} (h : part ∈ split sep text) :
    sep ∉ part := by
  induction text generalizing part with
  | nil =>
      rw [split, List.mem_singleton] at h
      rw [h]
      exact List.not_mem_nil
  | cons c text ih =>
      rw [split] at h
      split_ifs at h with hc
      · rcases List.mem_cons.mp h with rfl | h
        · exact List.not_mem_nil
        · exact ih h
      · cases hrest : split sep text with
        | nil => exact absurd hrest (split_ne_nil sep text)
        | cons next more =>
            rw [hrest] at h ih
            rcases List.mem_cons.mp h with rfl | h
            · have hnext := ih List.mem_cons_self
              simp only [List.mem_cons, not_or]
              exact ⟨fun heq => hc heq.symm, hnext⟩
            · exact ih (List.mem_cons_of_mem _ h)

theorem notMem_getD_split (sep : CodeUnit) (text : JsString) (i : Nat) :
    sep ∉ (split sep text).getD i [] := by
  rw [List.getD_eq_getElem?_getD]
  cases hget : (split sep text)[i]? with
  | none => exact List.not_mem_nil
  | some part => exact notMem_of_mem_split (List.mem_of_getElem? hget)

/-- A run leaves a collection where it is applied. -/
theorem getCollection_flushRun_isSome {run : Store.OpRun} {store : Store}
    (h : store.databaseTombstones = [] ∧ store.collectionTombstones = []) :
    ((store.flushRun run).1.getCollection (runTarget run).1 (runTarget run).2).isSome := by
  have hset : ∀ x : Collection, ((store.setCollection (runTarget run).1 (runTarget run).2
      x).getCollection (runTarget run).1 (runTarget run).2).isSome := by
    intro x
    rw [Store.setCollection, Store.getCollection, Assoc.get?_set, if_pos rfl, Option.bind_some,
      Assoc.get?_set, if_pos rfl]
    rfl
  have hlive : ∀ d c, store.collection d c = .ok (store.collectionOf d c) := by
    intro d c
    simp [Store.collection, Store.isDatabaseDeleted, Store.isCollectionDeleted, h.1, h.2]
  rw [Store.flushRun]
  dsimp only
  rw [hlive]
  dsimp only
  split_ifs
  · exact hset _
  · cases (store.collectionOf ((split 0 run.key).getD 0 [])
      ((split 0 run.key).getD 1 [])).putObjects (run.ops.map Op.row) with
    | mk y result =>
        cases result with
        | ok applied => exact hset _
        | error err => exact hset _

/-! ## Faithful strings -/

/-- Storage keys made of names are parsed back to them, keys of different scopes lie apart, and
deleting under a prefix deletes what is the database's or the collection's own. -/
structure StorageFaithful (d c s n : JsString) : Prop where
  scope : ∀ keyPrefix rest, parseScopeFromKey (scopeFileKey keyPrefix ⟨d, c, s⟩ rest) keyPrefix =
    some ⟨d, c, s⟩
  journal : ∀ keyPrefix now firstSeq lastSeq uuid, IsUuid uuid →
    parseJournalKey (journalKey keyPrefix ⟨d, c, s⟩ n now firstSeq lastSeq uuid) keyPrefix =
      some ⟨⟨d, c, s⟩, n, now, firstSeq, lastSeq, seqCount firstSeq lastSeq⟩
  collectionMeta : ∀ keyPrefix,
    parseMetaFromKey (collectionMetaKey keyPrefix d c) keyPrefix = some (d, c)
  databaseMeta : ∀ keyPrefix,
    parseDatabaseMetaFromKey (databaseMetaKey keyPrefix d) keyPrefix = some d
  collectionTombstone : ∀ keyPrefix,
    parseCollectionTombstoneFromKey (collectionTombstoneKey keyPrefix d c) keyPrefix = some (d, c)
  databaseTombstone : ∀ keyPrefix,
    parseDatabaseTombstoneFromKey (databaseTombstoneKey keyPrefix d) keyPrefix = some d
  apart : ∀ keyPrefix scope rest, scope.KeyNames → scope ≠ ⟨d, c, s⟩ →
    ¬scopeFileKey keyPrefix ⟨d, c, s⟩ [] <+: scopeFileKey keyPrefix scope rest
  deletes : ∀ keyPrefix now uuidText, (∀ i, IsUuid (uuidText i)) → ∀ key : StorageKey,
    key.KeyNames →
      ((StoragePrefix.database d).text keyPrefix <+: key.text keyPrefix now uuidText →
        (StoragePrefix.database d).covers key = true) ∧
      ((StoragePrefix.collection d c).text keyPrefix <+: key.text keyPrefix now uuidText →
        (StoragePrefix.collection d c).covers key = true)
  deletesBelow : ∀ keyPrefix scope rest, scope.KeyNames →
    ((StoragePrefix.database d).text keyPrefix <+: scopeFileKey keyPrefix scope rest →
      scope.database = d) ∧
    ((StoragePrefix.collection d c).text keyPrefix <+: scopeFileKey keyPrefix scope rest →
      scope.database = d ∧ scope.collection = c)

/-- What is expected of the strings that stand for a database, a collection, a shard and a node. -/
structure NameFaithful (d c s n : JsString) : Prop where
  /-- A batch on the collection changes no other collection. -/
  batch : ∀ (store : Store) (ops : List Op), (∀ op ∈ ops, op.db = d ∧ op.coll = c) →
    ∀ d' c', (d', c') ≠ (d, c) →
      (store.applyOps ops).1.getCollection d' c' = store.getCollection d' c'
  /-- Neither does the part of any batch that an operation on the collection is applied with. -/
  run : ∀ (store now : Store) (ops : List Op), ∀ run ∈ store.opRuns ops, ∀ op ∈ run.ops,
    op.db = d → op.coll = c → ∀ d' c', (d', c') ≠ (d, c) →
      (now.flushRun run).1.getCollection d' c' = now.getCollection d' c'
  scopeKey : parseScopeKey (scopeKey ⟨d, c, s⟩) = ⟨d, c, s⟩
  collectionKey : parseCollectionKey (collectionKey d c) = (d, c)
  scopeKeys : ∀ scope : Scope, scope.KeyNames → scope ≠ ⟨d, c, s⟩ →
    Persist.scopeKey scope ≠ Persist.scopeKey ⟨d, c, s⟩
  collectionKeys : ∀ d' c', KeyName d' → KeyName c' → (d', c') ≠ (d, c) →
    Persist.collectionKey d' c' ≠ Persist.collectionKey d c
  tombstoneKeys : ∀ d' c', KeyName d' → KeyName c' → (d', c') ≠ (d, c) →
    storeCollectionKey d' c' ≠ storeCollectionKey d c
  cursorKeys : ∀ scope n', Scope.KeyNames scope → KeyName n' → scope ≠ ⟨d, c, s⟩ →
    cursorKey n' scope ≠ cursorKey n ⟨d, c, s⟩
  storage : StorageFaithful d c s n

/-- Names without the separators of the strings that stand for them. -/
structure Separable (d c s n : JsString) : Prop where
  noNul : (0 : CodeUnit) ∉ d ∧ (0 : CodeUnit) ∉ c
  noLineFeed : lineFeed ∉ d ∧ lineFeed ∉ c ∧ lineFeed ∉ s
  cursor : CursorPlain d c s n

/-! ### Storage keys -/

theorem segments_of_prefix (keyPrefix : JsString) {segments segments' : List JsString}
    (h : PlainSegments segments) (h' : PlainSegments segments') {rest : JsString}
    (hunder : underPrefix keyPrefix segments ++ [slash] <+:
      underPrefix keyPrefix segments' ++ slash :: rest) :
    ∃ more, segments ++ more = segments' ++ split slash rest := by
  rw [underPrefix_eq keyPrefix h, underPrefix_eq keyPrefix h', List.append_assoc,
    List.append_assoc, List.prefix_append_right_inj] at hunder
  rcases hunder with ⟨t, ht⟩
  rw [List.append_assoc, List.singleton_append] at ht
  have hsplit := congrArg (split slash) ht
  rw [split_path_append h.nonempty h.noSlash, split_path_append h'.nonempty h'.noSlash] at hsplit
  exact ⟨_, hsplit⟩

theorem storageFaithful {d c s n : JsString} (hd : KeyName d) (hc : KeyName c) (hs : KeyName s)
    (hn : KeyName n) : StorageFaithful d c s n where
  scope keyPrefix rest := parseScopeFromKey_scopeFileKey keyPrefix ⟨hd, hc, hs⟩ rest
  journal keyPrefix now firstSeq lastSeq uuid huuid :=
    parseJournalKey_journalKey keyPrefix ⟨hd, hc, hs⟩ hn now firstSeq lastSeq huuid
  collectionMeta keyPrefix := parseMetaFromKey_collectionMetaKey keyPrefix hd hc
  databaseMeta keyPrefix := parseDatabaseMetaFromKey_databaseMetaKey keyPrefix hd
  collectionTombstone keyPrefix := parseCollectionTombstoneFromKey_key keyPrefix hd hc
  databaseTombstone keyPrefix := parseDatabaseTombstoneFromKey_key keyPrefix hd
  apart keyPrefix scope rest hscope hne hunder := by
    rcases segments_of_prefix keyPrefix (plain_scopeSegments ⟨d, c, s⟩)
      (plain_scopeSegments scope) hunder with ⟨more, hmore⟩
    simp only [scopeSegments, collectionSegments, databaseSegments, List.cons_append,
      List.nil_append, List.cons.injEq, true_and] at hmore
    rcases hmore with ⟨hdatabase, hcollection, hshard, -⟩
    apply hne
    rcases scope with ⟨d', c', s'⟩
    rw [hd.safe_inj hscope.database hdatabase, hc.safe_inj hscope.collection hcollection,
      hs.safe_inj hscope.shard hshard]
  deletes keyPrefix now uuidText huuid key hkey :=
    ⟨(@covers_iff keyPrefix now uuidText huuid (.database d) key hd hkey).mp,
      (@covers_iff keyPrefix now uuidText huuid (.collection d c) key ⟨hd, hc⟩ hkey).mp⟩
  deletesBelow keyPrefix scope rest hscope := by
    constructor
    · intro hunder
      rcases segments_of_prefix keyPrefix (plain_databaseSegments d) (plain_scopeSegments scope)
        hunder with ⟨more, hmore⟩
      simp only [scopeSegments, collectionSegments, databaseSegments, List.cons_append,
        List.nil_append, List.cons.injEq, true_and] at hmore
      exact (hd.safe_inj hscope.database hmore.1).symm
    · intro hunder
      rcases segments_of_prefix keyPrefix (plain_collectionSegments d c)
        (plain_scopeSegments scope) hunder with ⟨more, hmore⟩
      simp only [scopeSegments, collectionSegments, databaseSegments, List.cons_append,
        List.nil_append, List.cons.injEq, true_and] at hmore
      exact ⟨(hd.safe_inj hscope.database hmore.1).symm,
        (hc.safe_inj hscope.collection hmore.2.1).symm⟩

/-! ### Joined keys -/

/-- A key joined with a separator that is in neither part is joined in no other way. -/
theorem joined_inj {sep : CodeUnit} {a b a' b' : JsString} (ha : sep ∉ a) (hb : sep ∉ b)
    (h : a' ++ sep :: b' = a ++ sep :: b) : a' = a ∧ b' = b := by
  rcases append_cons_cases h with ⟨rfl, -, rfl⟩ | ⟨k, -, rfl⟩ | ⟨k, rfl, -⟩
  · exact ⟨rfl, rfl⟩
  · exact absurd (by simp) hb
  · exact absurd (by simp) ha

theorem parseScopeKey_iff {d c s : JsString} :
    parseScopeKey (scopeKey ⟨d, c, s⟩) = ⟨d, c, s⟩ ↔
      lineFeed ∉ d ∧ lineFeed ∉ c ∧ lineFeed ∉ s := by
  constructor
  · intro h
    rw [parseScopeKey, Scope.mk.injEq] at h
    rcases h with ⟨hd, hc, hs⟩
    rw [← hd, ← hc, ← hs]
    exact ⟨notMem_getD_split _ _ _, notMem_getD_split _ _ _, notMem_getD_split _ _ _⟩
  · rintro ⟨hd, hc, hs⟩
    rw [parseScopeKey, scopeKey, split_append_sep hd, split_append_sep hc, split_of_notMem hs]
    rfl

theorem eq_of_scopeKey_eq {scope : Scope} {d c s : JsString} (hd : lineFeed ∉ d) (hc : lineFeed ∉ c)
    (hs : lineFeed ∉ s) (h : scopeKey scope = scopeKey ⟨d, c, s⟩) : scope = ⟨d, c, s⟩ := by
  simp only [scopeKey] at h
  rcases append_cons_cases h with ⟨hdatabase, -, hrest⟩ | ⟨k, -, hrest⟩ | ⟨k, hdatabase, -⟩
  · rcases joined_inj hc hs hrest with ⟨hcollection, hshard⟩
    rcases scope with ⟨d', c', s'⟩
    simp only at hdatabase hcollection hshard
    rw [hdatabase, hcollection, hshard]
  · -- the scope has a separator more than the key
    rcases append_cons_cases hrest with ⟨-, -, hshard⟩ | ⟨m, hcollection, -⟩ | ⟨m, -, hshard⟩
    · exact absurd (by rw [hshard]; simp) hs
    · exact absurd (by rw [hcollection]; simp) hc
    · exact absurd (by rw [hshard]; simp) hs
  · exact absurd (by rw [hdatabase]; simp) hd

/-- The names for which all strings are faithful. -/
theorem faithful_iff_separable {d c s n : JsString} (hd : KeyName d) (hc : KeyName c)
    (hs : KeyName s) (hn : KeyName n) : NameFaithful d c s n ↔ Separable d c s n := by
  constructor
  · intro h
    refine ⟨?_, parseScopeKey_iff.mp h.scopeKey, ?_⟩
    · -- a single operation shows where its run goes
      let op : Op := ⟨.touch, d, c, [], none, ⟨0, []⟩, 0, none⟩
      let store : Store := Store.new none none
      let run : Store.OpRun := ⟨Store.runKey op, [op]⟩
      have happlied : (store.applyOps [op]).1 = (store.flushRun run).1 := by
        have hruns : store.opRuns [op] = [run] := rfl
        rw [Store.applyOps, hruns, Store.flushRuns]
        cases store.flushRun run with
        | mk store' result => cases result <;> rfl
      have hsome := @getCollection_flushRun_isSome run store ⟨rfl, rfl⟩
      have htarget : ((runTarget run).1, (runTarget run).2) = (d, c) := by
        by_contra hne
        have hsame := h.batch store [op] (by simp [op]) _ _ hne
        rw [happlied] at hsame
        rw [hsame] at hsome
        cases hsome
      rw [Prod.mk.injEq] at htarget
      rw [← htarget.1, ← htarget.2]
      exact ⟨notMem_getD_split _ _ _, notMem_getD_split _ _ _⟩
    · apply (not_cursorShared_iff hd hc hs hn).mp
      rintro ⟨scope, n', hscope, hn', hne, heq⟩
      exact h.cursorKeys scope n' hscope hn' hne heq
  · rintro ⟨⟨hdNul, hcNul⟩, ⟨hdLine, hcLine, hsLine⟩, hcursor⟩
    have hrun : ∀ (store now : Store) (ops : List Op), ∀ run ∈ store.opRuns ops, ∀ op ∈ run.ops,
        op.db = d → op.coll = c → ∀ d' c', (d', c') ≠ (d, c) →
          (now.flushRun run).1.getCollection d' c' = now.getCollection d' c' := by
      intro store now ops run hrun op hop hopDb hopColl d' c' hne
      have htarget : runTarget run = (d, c) := by
        rw [← hopDb, ← hopColl]
        exact runTarget_of_op (hopDb.symm ▸ hdNul) (hopColl.symm ▸ hcNul)
          ((Store.mem_opRuns hrun).2 op hop).2
      exact getCollection_flushRun now run (htarget.symm ▸ hne)
    -- each kind of key is split at its own separator, which the names do not have
    refine ⟨?_, hrun, parseScopeKey_iff.mpr ⟨hdLine, hcLine, hsLine⟩, ?_, ?_, ?_, ?_, ?_,
      storageFaithful hd hc hs hn⟩
    · intro store ops hops d' c' hne
      have hall : ∀ run ∈ store.opRuns ops, ∀ now : Store,
          (now.flushRun run).1.getCollection d' c' = now.getCollection d' c' := by
        intro run hmem now
        rcases Store.mem_opRuns hmem with ⟨hnonempty, hrunOps⟩
        rcases List.exists_mem_of_ne_nil _ hnonempty with ⟨op, hop⟩
        rcases hops op (hrunOps op hop).1 with ⟨hopDb, hopColl⟩
        exact hrun store now ops run hmem op hop hopDb hopColl d' c' hne
      exact getCollection_flushRuns hall store
    · rw [parseCollectionKey, Persist.collectionKey, split_append_sep hdLine,
        split_of_notMem hcLine]
      rfl
    · exact fun scope _ hne heq => hne (eq_of_scopeKey_eq hdLine hcLine hsLine heq)
    · intro d' c' _ _ hne heq
      rcases joined_inj hdLine hcLine heq with ⟨rfl, rfl⟩
      exact hne rfl
    · intro d' c' _ _ hne heq
      rcases joined_inj hdNul hcNul heq with ⟨rfl, rfl⟩
      exact hne rfl
    · intro scope n' hscope hn' hne heq
      exact (not_cursorShared_iff hd hc hs hn).mpr hcursor ⟨scope, n', hscope, hn', hne, heq⟩

theorem faithful_plain : NameFaithful (js "d") (js "c") (js "s") (js "n") := by
  have hname : ∀ name ∈ [js "d", js "c", js "s", js "n"], KeyName name := by
    intro name hmem
    constructor <;> revert name <;> decide
  apply (faithful_iff_separable (hname _ (by simp)) (hname _ (by simp)) (hname _ (by simp))
    (hname _ (by simp))).mpr
  exact ⟨by decide, by decide, ⟨by decide, by decide, by decide, by decide, by decide⟩⟩

/-- An operation on the database `a\0b` changes a collection of the database `a`. -/
theorem nul_not_faithful :
    ¬∀ d c s n, KeyName d → KeyName c → KeyName s → KeyName n → NameFaithful d c s n := by
  intro h
  have hd : KeyName (js "a\x00b") := ⟨by decide, by decide⟩
  have hc : KeyName (js "c") := ⟨by decide, by decide⟩
  have hfaithful := h (js "a\x00b") (js "c") (js "c") (js "c") hd hc hc hc
  have hsame := hfaithful.batch (Store.new none none)
    [⟨.touch, js "a\x00b", js "c", js "x", none, ⟨1, js "n"⟩, 1, none⟩]
    (by simp) (js "a") (js "b") (by decide)
  have hchanged : ((Store.new none none).applyOps
      [⟨.touch, js "a\x00b", js "c", js "x", none, ⟨1, js "n"⟩, 1, none⟩]).1.getCollection
        (js "a") (js "b") |>.isSome := by
    decide +kernel
  rw [hsame] at hchanged
  exact absurd hchanged (by decide)

end Persist
end ObjyDb
