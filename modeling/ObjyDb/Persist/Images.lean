import ObjyDb.Lib.WriteBehind
import ObjyDb.Persist.Node

/-!
# Images — storage and queues as a write-behind store

Databases are the containers of `WriteBehind`, collections their parts, metadata the headers and
journaled operations the records.  The calls of a flush do to the image of storage what
`Image.flush` says (`image_flushCalls`), and any of them, even one that fails, stays within the
batch (`within_call`).
-/

namespace ObjyDb
namespace Persist

open Js WriteBehind

abbrev StorageImage := Image JsString JsString Json Op

abbrev PendingImage := Pending JsString JsString Json Op

def StorageFile.json? : StorageFile → Option Json
  | .json body => some body
  | _ => none

/-- The journaled operations of a collection. -/
def Journaled (s : Storage) (database collection : JsString) (op : Op) : Prop :=
  ∃ scope node first last uuid ops,
    Assoc.get? s (.journal scope node first last uuid) = some (.ops ops) ∧
      scope.database = database ∧ scope.collection = collection ∧ op ∈ ops

def image (s : Storage) : StorageImage where
  dead d := (Assoc.get? s (.databaseTombstone d)).isSome
  header d := (Assoc.get? s (.databaseMeta d)).bind StorageFile.json?
  partDead d c := (Assoc.get? s (.collectionTombstone d c)).isSome
  partHeader d c := (Assoc.get? s (.collectionMeta d c)).bind StorageFile.json?
  records d c := {op | Journaled s d c op}

/-- The operations queued for a collection. -/
def Queues.Holds (q : Queues) (database collection : JsString) (op : Op) : Prop :=
  ∃ entry ∈ q.pending, (parseScopeKey entry.1).database = database ∧
    (parseScopeKey entry.1).collection = collection ∧ op ∈ entry.2

def Queues.image (q : Queues) : PendingImage where
  drops := {d | d ∈ q.pendingDatabaseDrops}
  headers := Assoc.get? q.pendingDatabases
  partDrops d := {c | ∃ key ∈ q.pendingCollectionDrops, parseCollectionKey key = (d, c)}
  partHeaders d c := Assoc.get? q.pendingMeta (collectionKey d c)
  records d c := {op | q.Holds d c op}

/-! ## What a call does to a file -/

theorem uuid_lt_freshUuid {s : Storage} {scope : Scope} {node : JsString} {first last uuid : Nat}
    (h : StorageKey.journal scope node first last uuid ∈ Assoc.keys s) : uuid < freshUuid s := by
  unfold freshUuid
  induction s with
  | nil => cases h
  | cons entry s ih =>
      rcases List.mem_cons.mp h with hentry | hrest
      · simp [← hentry]
      · exact (ih hrest).trans_le (by simp)

/-- No file lies under the key of a new journal segment. -/
theorem get?_freshJournal (s : Storage) (scope : Scope) (node : JsString) (first last : Nat) :
    Assoc.get? s (.journal scope node first last (freshUuid s)) = none := by
  refine Assoc.get?_eq_none_iff.mpr fun hmem => ?_
  exact lt_irrefl _ (uuid_lt_freshUuid hmem)

theorem get?_put (s : Storage) (key : StorageKey) (file : StorageFile) (k : StorageKey) :
    Assoc.get? (StorageCall.apply (.put key file) s) k =
      if key = k then some file else Assoc.get? s k :=
  Assoc.get?_set ..

theorem get?_delete (s : Storage) (key k : StorageKey) :
    Assoc.get? (StorageCall.apply (.delete key) s) k =
      if key = k then none else Assoc.get? s k :=
  Assoc.get?_erase ..

theorem get?_deletePrefix (s : Storage) (keys : StoragePrefix) (k : StorageKey) :
    Assoc.get? (StorageCall.apply (.deletePrefix keys) s) k =
      if keys.covers k then none else Assoc.get? s k := by
  rw [StorageCall.apply, Assoc.get?_filter s (fun key => !keys.covers key)]
  by_cases h : keys.covers k = true <;> simp [h]

/-- A failed `deletePrefix` deletes some of the files it should. -/
theorem get?_deletePrefix_partly (s : Storage) (keys : StoragePrefix) (reached : Bool)
    (survives : StorageKey → Bool) (k : StorageKey) :
    Assoc.get? (StorageCall.applyPartly (.deletePrefix keys) reached survives s) k =
      if keys.covers k ∧ survives k = false then none else Assoc.get? s k := by
  rw [StorageCall.applyPartly, Assoc.get?_filter s (fun key => !keys.covers key || survives key)]
  by_cases h : keys.covers k = true <;> by_cases hs : survives k = true <;> simp [h, hs]

theorem get?_putJournal_of_ne (s : Storage) (scope : Scope) (node : JsString) (ops : List Op)
    {k : StorageKey} (h : ∀ scope node first last uuid, k ≠ .journal scope node first last uuid) :
    Assoc.get? (StorageCall.apply (.putJournal scope node ops) s) k = Assoc.get? s k := by
  rw [StorageCall.apply, Assoc.get?_set, if_neg fun heq => h _ _ _ _ _ heq.symm]

theorem journaled_putJournal (s : Storage) (scope : Scope) (node : JsString) (ops : List Op)
    (d c : JsString) (op : Op) :
    Journaled (StorageCall.apply (.putJournal scope node ops) s) d c op ↔
      (scope.database = d ∧ scope.collection = c ∧ op ∈ ops) ∨ Journaled s d c op := by
  unfold Journaled
  simp only [StorageCall.apply, Assoc.get?_set]
  constructor
  · rintro ⟨scope', node', first, last, uuid, ops', hget, hd, hc, hop⟩
    split_ifs at hget with hkey
    · cases hkey
      cases hget
      exact Or.inl ⟨hd, hc, hop⟩
    · exact Or.inr ⟨_, _, _, _, _, _, hget, hd, hc, hop⟩
  · rintro (⟨hd, hc, hop⟩ | ⟨scope', node', first, last, uuid, ops', hget, hd, hc, hop⟩)
    · exact ⟨scope, node, _, _, _, ops, if_pos rfl, hd, hc, hop⟩
    · refine ⟨scope', node', first, last, uuid, ops', ?_, hd, hc, hop⟩
      rw [if_neg, hget]
      rintro hkey
      rw [← hkey, get?_freshJournal] at hget
      cases hget

/-! ## What the calls of a flush do -/

theorem applyCalls_append (left right : List StorageCall) (s : Storage) :
    applyCalls (left ++ right) s = applyCalls right (applyCalls left s) :=
  List.foldl_append ..

/-- The call may change the file under the key. -/
def StorageCall.touches : StorageCall → StorageKey → Bool
  | .put key _, k => decide (key = k)
  | .putJournal _ _ _, .journal _ _ _ _ _ => true
  | .putJournal _ _ _, _ => false
  | .delete key, k => decide (key = k)
  | .deletePrefix keys, k => keys.covers k

theorem get?_apply_of_untouched {call : StorageCall} {k : StorageKey} (h : call.touches k = false)
    (s : Storage) : Assoc.get? (call.apply s) k = Assoc.get? s k := by
  cases call with
  | put key file => rw [get?_put, if_neg (by simpa [StorageCall.touches] using h)]
  | putJournal scope node ops =>
      refine get?_putJournal_of_ne s scope node ops ?_
      rintro scope' node' first last uuid rfl
      cases h
  | delete key => rw [get?_delete, if_neg (by simpa [StorageCall.touches] using h)]
  | deletePrefix keys =>
      rw [get?_deletePrefix, if_neg (by simpa [StorageCall.touches] using h)]

theorem get?_applyCalls_of_untouched {calls : List StorageCall} {k : StorageKey}
    (h : ∀ call ∈ calls, call.touches k = false) (s : Storage) :
    Assoc.get? (applyCalls calls s) k = Assoc.get? s k := by
  induction calls generalizing s with
  | nil => rfl
  | cons call calls ih =>
      rw [applyCalls, List.foldl_cons]
      exact (ih (fun c hc => h c (List.mem_cons_of_mem _ hc)) _).trans
        (get?_apply_of_untouched (h call List.mem_cons_self) s)

/-- The database whose prefix the key lies under. -/
def StorageKey.database? : StorageKey → Option JsString
  | .databaseTombstone _ => none
  | .databaseMeta d => some d
  | .collectionTombstone d _ => some d
  | .collectionMeta d _ => some d
  | .journal scope _ _ _ _ => some scope.database
  | .latest scope => some scope.database

/-- The collection whose prefix the key lies under. -/
def StorageKey.collection? : StorageKey → Option (JsString × JsString)
  | .collectionMeta d c => some (d, c)
  | .journal scope _ _ _ _ => some (scope.database, scope.collection)
  | .latest scope => some (scope.database, scope.collection)
  | _ => none

theorem covers_database {d : JsString} {k : StorageKey} :
    (StoragePrefix.database d).covers k = true ↔ k.database? = some d := by
  cases k <;> simp [StoragePrefix.covers, StorageKey.database?]

theorem covers_collection {d c : JsString} {k : StorageKey} :
    (StoragePrefix.collection d c).covers k = true ↔ k.collection? = some (d, c) := by
  cases k <;> simp [StoragePrefix.covers, StorageKey.collection?]

section

variable (s : Storage)

theorem get?_deleteDatabases (drops : List JsString) {k : StorageKey} {d : JsString}
    (hk : k.database? = some d) :
    Assoc.get? (applyCalls (drops.flatMap deleteDatabaseCalls) s) k =
      if d ∈ drops then none else Assoc.get? s k := by
  induction drops generalizing s with
  | nil => simp [applyCalls]
  | cons drop drops ih =>
      have hne : StorageKey.databaseTombstone drop ≠ k := by
        rintro rfl
        cases hk
      have hcover : ((StoragePrefix.database drop).covers k = true) ↔ drop = d := by
        rw [covers_database, hk, Option.some_inj, eq_comm]
      rw [List.flatMap_cons, applyCalls_append, ih]
      simp only [deleteDatabaseCalls, applyCalls, List.foldl_cons, List.foldl_nil, get?_put,
        get?_deletePrefix, if_neg hne, hcover]
      by_cases hdrop : drop = d
      · simp [hdrop]
      · simp [hdrop, Ne.symm hdrop]

theorem get?_deleteDatabases_tombstone (drops : List JsString) (d : JsString) :
    Assoc.get? (applyCalls (drops.flatMap deleteDatabaseCalls) s) (.databaseTombstone d) =
      if d ∈ drops then some .tombstone else Assoc.get? s (.databaseTombstone d) := by
  induction drops generalizing s with
  | nil => simp [applyCalls]
  | cons drop drops ih =>
      rw [List.flatMap_cons, applyCalls_append, ih]
      simp only [deleteDatabaseCalls, applyCalls, List.foldl_cons, List.foldl_nil, get?_put,
        get?_deletePrefix, StoragePrefix.covers]
      by_cases hdrop : drop = d
      · simp [hdrop]
      · simp [hdrop, Ne.symm hdrop]

theorem get?_deleteCollections (drops : List JsString) {k : StorageKey}
    {target : JsString × JsString} (hk : k.collection? = some target) :
    Assoc.get? (applyCalls (drops.flatMap fun key =>
        deleteCollectionCalls (parseCollectionKey key)) s) k =
      if target ∈ drops.map parseCollectionKey then none else Assoc.get? s k := by
  induction drops generalizing s with
  | nil => simp [applyCalls]
  | cons drop drops ih =>
      have hne : StorageKey.collectionTombstone (parseCollectionKey drop).1
          (parseCollectionKey drop).2 ≠ k := by
        rintro rfl
        cases hk
      have hcover : ((StoragePrefix.collection (parseCollectionKey drop).1
          (parseCollectionKey drop).2).covers k = true) ↔ parseCollectionKey drop = target := by
        rw [covers_collection, hk, Option.some_inj, eq_comm]
      rw [List.flatMap_cons, applyCalls_append, ih]
      simp only [deleteCollectionCalls, applyCalls, List.foldl_cons, List.foldl_nil, get?_put,
        get?_deletePrefix, if_neg hne, hcover]
      by_cases hdrop : parseCollectionKey drop = target
      · simp [hdrop]
      · simp [hdrop, Ne.symm hdrop]

theorem get?_deleteCollections_tombstone (drops : List JsString) (d c : JsString) :
    Assoc.get? (applyCalls (drops.flatMap fun key =>
        deleteCollectionCalls (parseCollectionKey key)) s) (.collectionTombstone d c) =
      if (d, c) ∈ drops.map parseCollectionKey then some .tombstone
      else Assoc.get? s (.collectionTombstone d c) := by
  induction drops generalizing s with
  | nil => simp [applyCalls]
  | cons drop drops ih =>
      rw [List.flatMap_cons, applyCalls_append, ih]
      simp only [deleteCollectionCalls, applyCalls, List.foldl_cons, List.foldl_nil, get?_put,
        get?_deletePrefix, StoragePrefix.covers]
      by_cases hdrop : parseCollectionKey drop = (d, c)
      · simp [hdrop]
      · have hne : ¬((parseCollectionKey drop).1 = d ∧ (parseCollectionKey drop).2 = c) :=
          fun h => hdrop (Prod.ext h.1 h.2)
        simp [hne, Ne.symm hdrop]

theorem get?_writeDatabaseMetas (entries : List (JsString × Json))
    (hnodup : (Assoc.keys entries).Nodup) (d : JsString) :
    Assoc.get? (applyCalls (entries.flatMap fun entry =>
        writeDatabaseMetaCalls entry.1 entry.2) s) (.databaseMeta d) =
      ((Assoc.get? entries d).map StorageFile.json).or (Assoc.get? s (.databaseMeta d)) := by
  induction entries generalizing s with
  | nil => simp [applyCalls]
  | cons entry entries ih =>
      rcases entry with ⟨key, body⟩
      have hnodup' := List.nodup_cons.mp hnodup
      rw [List.flatMap_cons, applyCalls_append, ih _ hnodup'.2]
      simp only [writeDatabaseMetaCalls, applyCalls, List.foldl_cons, List.foldl_nil, get?_put,
        get?_delete, Assoc.get?_cons]
      by_cases hkey : key = d
      · subst hkey
        have hnone : Assoc.get? entries key = none := Assoc.get?_eq_none_iff.mpr hnodup'.1
        simp [hnone]
      · simp [hkey]

theorem get?_writeDatabaseMetas_tombstone (entries : List (JsString × Json)) (d : JsString) :
    Assoc.get? (applyCalls (entries.flatMap fun entry =>
        writeDatabaseMetaCalls entry.1 entry.2) s) (.databaseTombstone d) =
      if (Assoc.get? entries d).isSome then none else Assoc.get? s (.databaseTombstone d) := by
  induction entries generalizing s with
  | nil => simp [applyCalls]
  | cons entry entries ih =>
      rcases entry with ⟨key, body⟩
      rw [List.flatMap_cons, applyCalls_append, ih]
      simp only [writeDatabaseMetaCalls, applyCalls, List.foldl_cons, List.foldl_nil, get?_put,
        get?_delete, Assoc.get?_cons]
      by_cases hkey : key = d <;> simp [hkey]

theorem get?_writeMetas (entries : List (JsString × Json))
    (hnodup : (Assoc.keys entries).Nodup) (hplain : ∀ key ∈ Assoc.keys entries, PlainKey key)
    (d c : JsString) :
    Assoc.get? (applyCalls (entries.flatMap fun entry =>
        writeCollectionMetaCalls (parseCollectionKey entry.1) entry.2) s) (.collectionMeta d c) =
      ((Assoc.get? entries (collectionKey d c)).map StorageFile.json).or
        (Assoc.get? s (.collectionMeta d c)) := by
  induction entries generalizing s with
  | nil => simp [applyCalls]
  | cons entry entries ih =>
      rcases entry with ⟨key, body⟩
      have hnodup' := List.nodup_cons.mp hnodup
      have hkey : parseCollectionKey key = (d, c) ↔ key = collectionKey d c :=
        (hplain key List.mem_cons_self).parse_eq_iff
      rw [List.flatMap_cons, applyCalls_append, ih _ hnodup'.2
        (fun k hk => hplain k (List.mem_cons_of_mem _ hk))]
      simp only [writeCollectionMetaCalls, applyCalls, List.foldl_cons, List.foldl_nil, get?_put,
        get?_delete, Assoc.get?_cons]
      by_cases heq : key = collectionKey d c
      · have hnone : Assoc.get? entries key = none := Assoc.get?_eq_none_iff.mpr hnodup'.1
        rw [← heq, hnone]
        simp [hkey.mpr heq]
      · have hne : ¬((parseCollectionKey key).1 = d ∧ (parseCollectionKey key).2 = c) :=
          fun h => heq (hkey.mp (Prod.ext h.1 h.2))
        simp [heq, hne]

theorem get?_writeMetas_tombstone (entries : List (JsString × Json))
    (hplain : ∀ key ∈ Assoc.keys entries, PlainKey key) (d c : JsString) :
    Assoc.get? (applyCalls (entries.flatMap fun entry =>
        writeCollectionMetaCalls (parseCollectionKey entry.1) entry.2) s)
        (.collectionTombstone d c) =
      if (Assoc.get? entries (collectionKey d c)).isSome then none
      else Assoc.get? s (.collectionTombstone d c) := by
  induction entries generalizing s with
  | nil => simp [applyCalls]
  | cons entry entries ih =>
      rcases entry with ⟨key, body⟩
      have hkey : parseCollectionKey key = (d, c) ↔ key = collectionKey d c :=
        (hplain key List.mem_cons_self).parse_eq_iff
      rw [List.flatMap_cons, applyCalls_append, ih _
        (fun k hk => hplain k (List.mem_cons_of_mem _ hk))]
      simp only [writeCollectionMetaCalls, applyCalls, List.foldl_cons, List.foldl_nil, get?_put,
        get?_delete, Assoc.get?_cons]
      by_cases heq : key = collectionKey d c
      · rw [hkey.mpr heq]
        simp [heq]
      · have hne : ¬((parseCollectionKey key).1 = d ∧ (parseCollectionKey key).2 = c) :=
          fun h => heq (hkey.mp (Prod.ext h.1 h.2))
        simp [heq, hne]

/-! ### Files that a group of calls leaves alone -/

theorem get?_deleteCollections_other (drops : List JsString) {k : StorageKey}
    (hk : k.collection? = none) (hk' : ∀ d c, k ≠ .collectionTombstone d c) :
    Assoc.get? (applyCalls (drops.flatMap fun key =>
        deleteCollectionCalls (parseCollectionKey key)) s) k = Assoc.get? s k := by
  refine get?_applyCalls_of_untouched (fun call hcall => ?_) s
  rcases List.mem_flatMap.mp hcall with ⟨key, -, hcall⟩
  simp only [deleteCollectionCalls, List.mem_cons, List.not_mem_nil, or_false] at hcall
  rcases hcall with rfl | rfl
  · rw [StorageCall.touches, Bool.eq_false_iff, Ne, covers_collection, hk]
    simp
  · simp [StorageCall.touches, (hk' _ _).symm]

theorem get?_writeDatabaseMetas_other (entries : List (JsString × Json)) {k : StorageKey}
    (hk : ∀ d, k ≠ .databaseTombstone d) (hk' : ∀ d, k ≠ .databaseMeta d) :
    Assoc.get? (applyCalls (entries.flatMap fun entry =>
        writeDatabaseMetaCalls entry.1 entry.2) s) k = Assoc.get? s k := by
  refine get?_applyCalls_of_untouched (fun call hcall => ?_) s
  rcases List.mem_flatMap.mp hcall with ⟨entry, -, hcall⟩
  simp only [writeDatabaseMetaCalls, List.mem_cons, List.not_mem_nil, or_false] at hcall
  rcases hcall with rfl | rfl
  · simp [StorageCall.touches, (hk _).symm]
  · simp [StorageCall.touches, (hk' _).symm]

theorem get?_writeMetas_other (entries : List (JsString × Json)) {k : StorageKey}
    (hk : ∀ d c, k ≠ .collectionTombstone d c) (hk' : ∀ d c, k ≠ .collectionMeta d c) :
    Assoc.get? (applyCalls (entries.flatMap fun entry =>
        writeCollectionMetaCalls (parseCollectionKey entry.1) entry.2) s) k = Assoc.get? s k := by
  refine get?_applyCalls_of_untouched (fun call hcall => ?_) s
  rcases List.mem_flatMap.mp hcall with ⟨entry, -, hcall⟩
  simp only [writeCollectionMetaCalls, List.mem_cons, List.not_mem_nil, or_false] at hcall
  rcases hcall with rfl | rfl
  · simp [StorageCall.touches, (hk _ _).symm]
  · simp [StorageCall.touches, (hk' _ _).symm]

theorem get?_writeJournals_other (config : Config) (pending : List (JsString × List Op))
    {k : StorageKey} (hk : ∀ scope node first last uuid, k ≠ .journal scope node first last uuid) :
    Assoc.get? (applyCalls (pending.flatMap fun entry =>
        writeJournalBatchCalls config (parseScopeKey entry.1) entry.2) s) k = Assoc.get? s k := by
  refine get?_applyCalls_of_untouched (fun call hcall => ?_) s
  rcases List.mem_flatMap.mp hcall with ⟨entry, -, hcall⟩
  rcases List.mem_map.mp hcall with ⟨ops, -, rfl⟩
  cases k with
  | journal scope node first last uuid => exact absurd rfl (hk scope node first last uuid)
  | _ => rfl

/-! ### Journals -/

theorem journaled_writeJournalBatch (config : Config) (scope : Scope) (ops : List Op)
    (d c : JsString) (op : Op) :
    Journaled (applyCalls (writeJournalBatchCalls config scope ops) s) d c op ↔
      (scope.database = d ∧ scope.collection = c ∧ op ∈ ops) ∨ Journaled s d c op := by
  have hchunks : ∀ chunks : List (List Op), ∀ s,
      Journaled (applyCalls (chunks.map (.putJournal scope config.node)) s) d c op ↔
        (scope.database = d ∧ scope.collection = c ∧ op ∈ chunks.flatten) ∨ Journaled s d c op := by
    intro chunks
    induction chunks with
    | nil => simp [applyCalls]
    | cons chunk chunks ih =>
        intro s
        rw [List.map_cons, applyCalls, List.foldl_cons, ← applyCalls, ih, journaled_putJournal,
          List.flatten_cons, List.mem_append]
        tauto
  rw [writeJournalBatchCalls, hchunks, flatten_chunkOpsForRecord]

theorem journaled_writeJournals (config : Config) (pending : List (JsString × List Op))
    (d c : JsString) (op : Op) :
    Journaled (applyCalls (pending.flatMap fun entry =>
        writeJournalBatchCalls config (parseScopeKey entry.1) entry.2) s) d c op ↔
      (∃ entry ∈ pending, (parseScopeKey entry.1).database = d ∧
        (parseScopeKey entry.1).collection = c ∧ op ∈ entry.2) ∨ Journaled s d c op := by
  induction pending generalizing s with
  | nil => simp [applyCalls]
  | cons entry pending ih =>
      rw [List.flatMap_cons, applyCalls_append, ih, journaled_writeJournalBatch]
      simp only [List.mem_cons, exists_eq_or_imp]
      exact or_left_comm.trans or_assoc.symm

end

/-! ## The whole flush -/

/-- The keys of the queues are those that plain names give, each once. -/
structure Queues.Keyed (q : Queues) : Prop where
  pending : (Assoc.keys q.pending).Nodup
  databases : (Assoc.keys q.pendingDatabases).Nodup
  metas : (Assoc.keys q.pendingMeta).Nodup
  plain : ∀ key ∈ Assoc.keys q.pendingMeta, PlainKey key

section

variable {config : Config} {q : Queues}

/-- The image after a flush is the image with all queued changes made. -/
theorem image_flushCalls (hq : q.Keyed) (s : Storage) :
    image (applyCalls (flushCalls config q) s) = (image s).flush q.image := by
  simp only [flushCalls, applyCalls_append]
  refine Image.ext ?_ ?_ ?_ ?_ ?_
  · funext d
    simp only [image, Image.flush, Queues.image]
    rw [get?_writeJournals_other (k := .databaseTombstone d) _ _ _ (by simp),
      get?_writeMetas_other (k := .databaseTombstone d) _ _ (by simp) (by simp),
      get?_writeDatabaseMetas_tombstone,
      get?_deleteCollections_other (k := .databaseTombstone d) _ _ rfl (by simp),
      get?_deleteDatabases_tombstone]
    cases Assoc.get? q.pendingDatabases d with
    | some body => simp
    | none => by_cases hd : d ∈ q.pendingDatabaseDrops <;> simp [hd]
  · funext d
    simp only [image, Image.flush, Queues.image]
    rw [get?_writeJournals_other (k := .databaseMeta d) _ _ _ (by simp),
      get?_writeMetas_other (k := .databaseMeta d) _ _ (by simp) (by simp),
      get?_writeDatabaseMetas _ _ hq.databases,
      get?_deleteCollections_other (k := .databaseMeta d) _ _ rfl (by simp),
      get?_deleteDatabases (k := .databaseMeta d) _ _ rfl]
    cases Assoc.get? q.pendingDatabases d with
    | some body => simp [StorageFile.json?]
    | none => by_cases hd : d ∈ q.pendingDatabaseDrops <;> simp [hd]
  · funext d c
    simp only [image, Image.flush, Queues.image]
    rw [get?_writeJournals_other (k := .collectionTombstone d c) _ _ _ (by simp),
      get?_writeMetas_tombstone _ _ hq.plain,
      get?_writeDatabaseMetas_other (k := .collectionTombstone d c) _ _ (by simp) (by simp),
      get?_deleteCollections_tombstone,
      get?_deleteDatabases (k := .collectionTombstone d c) _ _ rfl]
    cases Assoc.get? q.pendingMeta (collectionKey d c) with
    | some body => simp
    | none =>
        by_cases hk : ∃ key ∈ q.pendingCollectionDrops, parseCollectionKey key = (d, c)
        · simp [hk]
        · by_cases hd : d ∈ q.pendingDatabaseDrops <;> simp [hk, hd]
  · funext d c
    simp only [image, Image.flush, Queues.image, Pending.Clears]
    rw [get?_writeJournals_other (k := .collectionMeta d c) _ _ _ (by simp),
      get?_writeMetas _ _ hq.metas hq.plain,
      get?_writeDatabaseMetas_other (k := .collectionMeta d c) _ _ (by simp) (by simp),
      get?_deleteCollections (k := .collectionMeta d c) _ _ rfl,
      get?_deleteDatabases (k := .collectionMeta d c) _ _ rfl]
    cases Assoc.get? q.pendingMeta (collectionKey d c) with
    | some body => simp [StorageFile.json?]
    | none =>
        by_cases hk : ∃ key ∈ q.pendingCollectionDrops, parseCollectionKey key = (d, c)
        · simp [hk]
        · by_cases hd : d ∈ q.pendingDatabaseDrops <;> simp [hk, hd]
  · funext d c
    ext op
    simp only [image, Image.flush, Queues.image, Pending.Clears, Set.mem_ofPred_eq]
    rw [journaled_writeJournals]
    refine or_congr Iff.rfl ?_
    -- the drops delete all segments of the collection or none
    have hget : ∀ scope node first last uuid, scope.database = d → scope.collection = c →
        Assoc.get? (applyCalls (q.pendingMeta.flatMap fun entry =>
            writeCollectionMetaCalls (parseCollectionKey entry.1) entry.2)
          (applyCalls (q.pendingDatabases.flatMap fun entry =>
              writeDatabaseMetaCalls entry.1 entry.2)
            (applyCalls (q.pendingCollectionDrops.flatMap fun key =>
                deleteCollectionCalls (parseCollectionKey key))
              (applyCalls (q.pendingDatabaseDrops.flatMap deleteDatabaseCalls) s))))
          (.journal scope node first last uuid) =
        if d ∈ q.pendingDatabaseDrops ∨
          ∃ key ∈ q.pendingCollectionDrops, parseCollectionKey key = (d, c)
        then none else Assoc.get? s (.journal scope node first last uuid) := by
      rintro scope node first last uuid rfl rfl
      rw [get?_writeMetas_other (k := .journal scope node first last uuid) _ _ (by simp) (by simp),
        get?_writeDatabaseMetas_other (k := .journal scope node first last uuid) _ _ (by simp) (by simp),
        get?_deleteCollections (k := .journal scope node first last uuid) _ _ rfl,
        get?_deleteDatabases (k := .journal scope node first last uuid) _ _ rfl]
      by_cases hk : ∃ key ∈ q.pendingCollectionDrops,
          parseCollectionKey key = (scope.database, scope.collection)
      · simp [hk]
      · simp [hk]
    by_cases hclear : d ∈ q.pendingDatabaseDrops ∨
        ∃ key ∈ q.pendingCollectionDrops, parseCollectionKey key = (d, c)
    · refine iff_of_false ?_ fun h => h.1 hclear
      rintro ⟨scope, node, first, last, uuid, ops, hseg, hd, hc, -⟩
      rw [hget _ _ _ _ _ hd hc, if_pos hclear] at hseg
      cases hseg
    · rw [and_iff_right hclear]
      refine ⟨?_, ?_⟩
      · rintro ⟨scope, node, first, last, uuid, ops, hseg, hd, hc, hop⟩
        rw [hget _ _ _ _ _ hd hc, if_neg hclear] at hseg
        exact ⟨_, _, _, _, _, _, hseg, hd, hc, hop⟩
      · rintro ⟨scope, node, first, last, uuid, ops, hseg, hd, hc, hop⟩
        refine ⟨scope, node, first, last, uuid, ops, ?_, hd, hc, hop⟩
        rw [hget _ _ _ _ _ hd hc, if_neg hclear, hseg]

end

/-! ## A flush that was made in part -/

/-- The queues decide what lies under the key after a flush. -/
def Queues.Decides (q : Queues) : StorageKey → Prop
  | .databaseTombstone d => d ∈ q.image.drops ∨ q.image.headers d ≠ none
  | .databaseMeta d => d ∈ q.image.drops ∨ q.image.headers d ≠ none
  | .collectionTombstone d c => q.image.Clears d c ∨ q.image.partHeaders d c ≠ none
  | .collectionMeta d c => q.image.Clears d c ∨ q.image.partHeaders d c ≠ none
  | .journal scope _ _ _ _ => q.image.Clears scope.database scope.collection
  | .latest scope => q.image.Clears scope.database scope.collection

section

variable {config : Config} {q : Queues}

theorem journaled_congr {s s' : Storage} {d c : JsString}
    (h : ∀ scope node first last uuid, scope.database = d → scope.collection = c →
      Assoc.get? s' (.journal scope node first last uuid) =
        Assoc.get? s (.journal scope node first last uuid)) (op : Op) :
    Journaled s' d c op ↔ Journaled s d c op := by
  constructor
  · rintro ⟨scope, node, first, last, uuid, ops, hget, hd, hc, hop⟩
    exact ⟨scope, node, first, last, uuid, ops, h _ _ _ _ _ hd hc ▸ hget, hd, hc, hop⟩
  · rintro ⟨scope, node, first, last, uuid, ops, hget, hd, hc, hop⟩
    exact ⟨scope, node, first, last, uuid, ops, (h _ _ _ _ _ hd hc).trans hget, hd, hc, hop⟩

/-- Changes to files that the queues decide stay within the batch. -/
theorem within_of_decided {s s' : Storage}
    (h : ∀ k, ¬q.Decides k → Assoc.get? s' k = Assoc.get? s k) :
    Within q.image (image s) (image s') where
  dead d hd hheader := by
    have hget := h (.databaseTombstone d) (not_or.mpr ⟨hd, not_not.mpr hheader⟩)
    simp only [image, hget]
  header d hd hheader := by
    have hget := h (.databaseMeta d) (not_or.mpr ⟨hd, not_not.mpr hheader⟩)
    simp only [image, hget]
  partDead d c hk hheader := by
    have hget := h (.collectionTombstone d c) (not_or.mpr ⟨hk, not_not.mpr hheader⟩)
    simp only [image, hget]
  partHeader d c hk hheader := by
    have hget := h (.collectionMeta d c) (not_or.mpr ⟨hk, not_not.mpr hheader⟩)
    simp only [image, hget]
  records d c hk op _ := by
    refine journaled_congr ?_ op
    rintro scope node first last uuid rfl rfl
    exact h _ hk

theorem get?_applyPartly_of_untouched {call : StorageCall} {k : StorageKey}
    (h : call.touches k = false) (reached : Bool) (survives : StorageKey → Bool) (s : Storage) :
    Assoc.get? (call.applyPartly reached survives s) k = Assoc.get? s k := by
  cases call with
  | deletePrefix keys =>
      rw [get?_deletePrefix_partly, if_neg]
      exact fun hcover => absurd (hcover.1.symm.trans h) (by decide)
  | _ =>
      cases reached with
      | true => exact get?_apply_of_untouched h s
      | false => rfl

theorem clears_of_drop {d c : JsString} (h : d ∈ q.pendingDatabaseDrops) : q.image.Clears d c :=
  Or.inl h

theorem clears_of_collectionDrop {key : JsString} (h : key ∈ q.pendingCollectionDrops) :
    q.image.Clears (parseCollectionKey key).1 (parseCollectionKey key).2 :=
  Or.inr ⟨key, h, rfl⟩

/-- A flush touches files that its batch decides, and new segments. -/
theorem decides_of_touches (hq : q.Keyed) {call : StorageCall} (hcall : call ∈ flushCalls config q)
    (hjournal : ∀ scope node ops, call ≠ .putJournal scope node ops) {k : StorageKey}
    (hk : call.touches k = true) : q.Decides k := by
  simp only [flushCalls, List.mem_append, List.mem_flatMap, deleteDatabaseCalls,
    deleteCollectionCalls, writeDatabaseMetaCalls, writeCollectionMetaCalls,
    writeJournalBatchCalls, List.mem_cons, List.not_mem_nil, or_false, List.mem_map] at hcall
  rcases hcall with ⟨d, hd, rfl | rfl⟩ | ⟨key, hkey, rfl | rfl⟩ | ⟨entry, hentry, rfl | rfl⟩ |
    ⟨entry, hentry, rfl | rfl⟩ | ⟨entry, hentry, ops, hops, rfl⟩
  · -- everything under the prefix of a dropped database
    rw [StorageCall.touches, covers_database] at hk
    cases k <;> cases hk
    · exact Or.inl hd
    · exact Or.inl (clears_of_drop hd)
    · exact Or.inl (clears_of_drop hd)
    · exact clears_of_drop hd
    · exact clears_of_drop hd
  · rw [StorageCall.touches, decide_eq_true_iff] at hk
    subst hk
    exact Or.inl hd
  · -- everything under the prefix of a dropped collection
    rw [StorageCall.touches, covers_collection] at hk
    have hclears := clears_of_collectionDrop hkey
    cases k <;> simp only [StorageKey.collection?, Option.some.injEq, Prod.ext_iff, reduceCtorEq]
      at hk
    · exact Or.inl (hk.1 ▸ hk.2 ▸ hclears)
    · rw [← hk.1, ← hk.2] at hclears
      exact hclears
    · rw [← hk.1, ← hk.2] at hclears
      exact hclears
  · rw [StorageCall.touches, decide_eq_true_iff] at hk
    subst hk
    exact Or.inl (clears_of_collectionDrop hkey)
  · rw [StorageCall.touches, decide_eq_true_iff] at hk
    subst hk
    exact Or.inr (Option.ne_none_iff_isSome.mpr
      (Assoc.get?_isSome_iff.mpr (List.mem_map_of_mem hentry)))
  · rw [StorageCall.touches, decide_eq_true_iff] at hk
    subst hk
    exact Or.inr (Option.ne_none_iff_isSome.mpr
      (Assoc.get?_isSome_iff.mpr (List.mem_map_of_mem hentry)))
  · rw [StorageCall.touches, decide_eq_true_iff] at hk
    subst hk
    refine Or.inr (Option.ne_none_iff_isSome.mpr (Assoc.get?_isSome_iff.mpr ?_))
    have hmem : entry.1 ∈ Assoc.keys q.pendingMeta := List.mem_map_of_mem hentry
    rwa [(hq.plain _ hmem).collectionKey_parse]
  · rw [StorageCall.touches, decide_eq_true_iff] at hk
    subst hk
    refine Or.inr (Option.ne_none_iff_isSome.mpr (Assoc.get?_isSome_iff.mpr ?_))
    have hmem : entry.1 ∈ Assoc.keys q.pendingMeta := List.mem_map_of_mem hentry
    rwa [(hq.plain _ hmem).collectionKey_parse]
  · exact absurd rfl (hjournal _ _ _)

/-- A journal call adds operations of the batch. -/
theorem mem_batch_of_putJournal {scope : Scope} {node : JsString} {ops : List Op}
    (hcall : .putJournal scope node ops ∈ flushCalls config q) {op : Op} (hop : op ∈ ops) :
    q.Holds scope.database scope.collection op := by
  simp only [flushCalls, List.mem_append, List.mem_flatMap, deleteDatabaseCalls,
    deleteCollectionCalls, writeDatabaseMetaCalls, writeCollectionMetaCalls,
    writeJournalBatchCalls, List.mem_cons, List.not_mem_nil, or_false, List.mem_map,
    reduceCtorEq, and_false, exists_false, or_self, false_or] at hcall
  rcases hcall with ⟨entry, hentry, chunk, hchunk, heq⟩
  cases heq
  refine ⟨entry, hentry, rfl, rfl, ?_⟩
  rw [← flatten_chunkOpsForRecord config.opBytes config.journalMaxBytes config.opBatchSize entry.2]
  exact List.mem_flatten.mpr ⟨_, hchunk, hop⟩

theorem within_putJournal {scope : Scope} {node : JsString} {ops : List Op}
    (hcall : .putJournal scope node ops ∈ flushCalls config q) (s : Storage) :
    Within q.image (image s) (image (StorageCall.apply (.putJournal scope node ops) s)) where
  dead d _ _ := by
    simp only [image, get?_putJournal_of_ne (k := .databaseTombstone d) s scope node ops (by simp)]
  header d _ _ := by
    simp only [image, get?_putJournal_of_ne (k := .databaseMeta d) s scope node ops (by simp)]
  partDead d c _ _ := by
    simp only [image, get?_putJournal_of_ne (k := .collectionTombstone d c) s scope node ops (by simp)]
  partHeader d c _ _ := by
    simp only [image, get?_putJournal_of_ne (k := .collectionMeta d c) s scope node ops (by simp)]
  records d c _ op hop := by
    refine (journaled_putJournal s scope node ops d c op).trans (or_iff_right ?_)
    rintro ⟨rfl, rfl, hmem⟩
    exact hop (mem_batch_of_putJournal hcall hmem)

/-- A call of the flush, whether it succeeds or fails, leaves the rest to the batch. -/
theorem within_call (hq : q.Keyed) {call : StorageCall} (hcall : call ∈ flushCalls config q)
    (s : Storage) :
    Within q.image (image s) (image (call.apply s)) ∧
      ∀ reached survives, Within q.image (image s) (image (call.applyPartly reached survives s)) := by
  have htouched : (∀ scope node ops, call ≠ .putJournal scope node ops) →
      ∀ k, ¬q.Decides k → call.touches k = false := fun hjournal k hk =>
    Bool.eq_false_iff.mpr fun htouch => hk (decides_of_touches hq hcall hjournal htouch)
  cases call with
  | putJournal scope node ops =>
      have hwithin := within_putJournal hcall s
      refine ⟨hwithin, fun reached survives => ?_⟩
      cases reached with
      | true => exact hwithin
      | false => exact Within.refl _ _
  | _ =>
      refine ⟨within_of_decided fun k hk => ?_, fun reached survives =>
        within_of_decided fun k hk => ?_⟩
      · exact get?_apply_of_untouched (htouched (by simp) k hk) s
      · exact get?_applyPartly_of_untouched (htouched (by simp) k hk) reached survives s

end

end Persist
end ObjyDb
