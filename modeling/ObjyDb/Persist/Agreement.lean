import ObjyDb.Persist.Settled

/-!
# Agreement — storage holds what memory has

`Agrees a m` says that the image `a` holds the databases, collections, metadata and newest writes
of the memory `m`, up to databases and collections that nobody created explicitly.  Every change of
memory, made to the image as well, keeps the agreement.
-/

namespace ObjyDb
namespace Persist

open Js WriteBehind

/-! ## Rows -/

/-- The newest write of an object among a set of operations. -/
def NewestOf (ops : Set Op) (id : JsString) : Option Write → Prop
  | none => ∀ op ∈ ops, op.id ≠ id
  | some w => ∃ op ∈ ops, op.id = id ∧ op.write = w ∧ ∀ op' ∈ ops, op'.id = id → op'.ts ≤ op.ts

/-- Operations on one object with one timestamp do the same. -/
def Coincide (ops : Set Op) : Prop :=
  ∀ op ∈ ops, ∀ op' ∈ ops, op.id = op'.id → op.ts = op'.ts → op.write = op'.write

theorem NewestOf.unique {ops : Set Op} (hops : Coincide ops) {id : JsString} {r r' : Option Write}
    (h : NewestOf ops id r) (h' : NewestOf ops id r') : r = r' := by
  cases r with
  | none =>
      cases r' with
      | none => rfl
      | some w =>
          rcases h' with ⟨op, hop, hid, -⟩
          exact absurd hid (h op hop)
  | some w =>
      cases r' with
      | none =>
          rcases h with ⟨op, hop, hid, -⟩
          exact absurd hid (h' op hop)
      | some w' =>
          rcases h with ⟨op, hop, hid, rfl, hle⟩
          rcases h' with ⟨op', hop', hid', rfl, hle'⟩
          refine congrArg some (hops op hop op' hop' (hid.trans hid'.symm) ?_)
          exact le_antisymm (hle' op hop hid) (hle op' hop' hid')

/-- Accepted: the object had no write, or an older one. -/
def Newer (held : Option Write) (w : Write) : Prop :=
  ∀ v, held = some v → v.ts < w.ts

theorem NewestOf.insert {ops : Set Op} {id : JsString} {r : Option Write}
    (h : NewestOf ops id r) {op : Op} (hid : op.id = id) (hnewer : Newer r op.write) :
    NewestOf {op' | op' = op ∨ op' ∈ ops} id (some op.write) := by
  refine ⟨op, Or.inl rfl, hid, rfl, ?_⟩
  rintro op' (rfl | hop') hid'
  · exact le_rfl
  · cases r with
    | none => exact absurd hid' (h op' hop')
    | some w =>
        rcases h with ⟨top, htop, -, rfl, hle⟩
        exact (hle op' hop' hid').trans (hnewer _ rfl).le

theorem NewestOf.insert_other {ops : Set Op} {id : JsString} {r : Option Write}
    (h : NewestOf ops id r) {op : Op} (hid : op.id ≠ id) :
    NewestOf {op' | op' = op ∨ op' ∈ ops} id r := by
  cases r with
  | none =>
      rintro op' (rfl | hop')
      · exact hid
      · exact h op' hop'
  | some w =>
      rcases h with ⟨top, htop, htopid, hw, hle⟩
      refine ⟨top, Or.inr htop, htopid, hw, ?_⟩
      rintro op' (rfl | hop') hid'
      · exact absurd hid' hid
      · exact hle op' hop' hid'

/-- An accepted operation is newer than all before, so it coincides with none. -/
theorem Coincide.insert {ops : Set Op} (h : Coincide ops) {r : Option Write} {op : Op}
    (hnewest : NewestOf ops op.id r) (hnewer : Newer r op.write) :
    Coincide {op' | op' = op ∨ op' ∈ ops} := by
  have hlt : ∀ op' ∈ ops, op'.id = op.id → op'.ts < op.ts := by
    intro op' hop' hid
    cases r with
    | none => exact absurd hid (hnewest op' hop')
    | some w =>
        rcases hnewest with ⟨top, htop, -, rfl, hle⟩
        exact (hle op' hop' hid).trans_lt (hnewer _ rfl)
  rintro left (rfl | hleft) right (rfl | hright) hid hts
  · rfl
  · exact absurd hts.symm (hlt right hright hid.symm).ne
  · exact absurd hts (hlt left hleft hid).ne
  · exact h left hleft right hright hid hts

theorem arrive_accepted {rows : Rows} {id : JsString} {w : Write} :
    (Rows.arrive rows id w).2 = true ↔ Newer (Assoc.get? rows id) w := by
  unfold Rows.arrive Newer
  cases Assoc.get? rows id with
  | none => simp
  | some held => by_cases hlt : held.ts < w.ts <;> simp [hlt]

theorem get?_arrive (rows : Rows) (id : JsString) (w : Write) (k : JsString) :
    Assoc.get? (Rows.arrive rows id w).1 k =
      if id = k ∧ (Rows.arrive rows id w).2 = true then some w else Assoc.get? rows k := by
  unfold Rows.arrive
  cases hget : Assoc.get? rows id with
  | none => simp
  | some held =>
      by_cases hlt : held.ts < w.ts
      · simp [hlt]
      · simp [hlt]

theorem arrive_rejected {rows : Rows} {id : JsString} {w : Write}
    (h : (Rows.arrive rows id w).2 = false) : (Rows.arrive rows id w).1 = rows := by
  unfold Rows.arrive at h ⊢
  cases hget : Assoc.get? rows id with
  | none => simp [hget] at h
  | some held =>
      rw [hget] at h
      by_cases hlt : held.ts < w.ts
      · simp [hlt] at h
      · simp [hlt]

/-! ## The agreement -/

/-- No database and no collection that is deleted is there. -/
structure Memory.Tidy (m : Memory) : Prop where
  database : ∀ d, m.isDatabaseDeleted d = true → m.getDatabaseMeta d = none
  inDatabase : ∀ d c, (m.getCollection d c).isSome = true → (m.getDatabaseMeta d).isSome = true
  collection : ∀ d c, m.isCollectionDeleted d c = true → m.getCollection d c = none
  plain : ∀ d c, (m.getCollection d c).isSome = true → PlainName d ∧ PlainName c

structure Agrees (a : StorageImage) (m : Memory) : Prop where
  tidy : m.Tidy
  dead : ∀ d, a.dead d → m.isDatabaseDeleted d = true
  deadHeader : ∀ d, a.dead d → a.header d = none
  deadParts : ∀ d c, a.dead d → a.partHeader d c = none ∧ a.records d c = ∅
  partDead : ∀ d c, a.partDead d c → m.isCollectionDeleted d c = true
  partDeadPlain : ∀ d c, a.partDead d c → PlainName d ∧ PlainName c
  partDeadEmpty : ∀ d c, a.partDead d c → a.partHeader d c = none ∧ a.records d c = ∅
  header : ∀ d b, a.header d = some b → m.getDatabaseMeta d = some b
  headerDefault : ∀ d, a.header d = none →
    ∀ b, m.getDatabaseMeta d = some b → b = defaultDatabaseMeta
  partHeader : ∀ d c b, a.partHeader d c = some b → m.getCollectionMeta d c = some b
  partHeaderDefault : ∀ d c, a.partHeader d c = none →
    ∀ b, m.getCollectionMeta d c = some b → b = defaultCollectionMeta
  rows : ∀ d c id, NewestOf (a.records d c) id (m.row d c id)
  coincide : ∀ d c, Coincide (a.records d c)
  named : ∀ d c, ∀ op ∈ a.records d c, op.db = d ∧ op.coll = c

theorem isSome_iff_meta {m : Memory} {d c : JsString} :
    (m.getCollectionMeta d c).isSome = true ↔ (m.getCollection d c).isSome = true := by
  rw [Memory.getCollectionMeta, Option.isSome_map]

theorem Agrees.partHeader_none {a : StorageImage} {m : Memory} (h : Agrees a m) {d c : JsString}
    (hmissing : m.getCollection d c = none) : a.partHeader d c = none := by
  cases hheader : a.partHeader d c with
  | none => rfl
  | some b =>
      have hmeta := h.partHeader d c b hheader
      rw [Memory.getCollectionMeta, hmissing] at hmeta
      cases hmeta

theorem Agrees.records_empty {a : StorageImage} {m : Memory} (h : Agrees a m) {d c : JsString}
    (hmissing : m.getCollection d c = none) : a.records d c = ∅ := by
  refine Set.eq_empty_iff_forall_notMem.mpr fun op hop => ?_
  have hrow := h.rows d c op.id
  rw [Memory.row, hmissing] at hrow
  exact hrow op hop rfl

/-! ## Databases -/

theorem tidy_setDatabaseMeta {m : Memory} (h : m.Tidy) (d : JsString) (b : Json) :
    (m.setDatabaseMeta d b).Tidy where
  database d' hd' := by
    rcases (Memory.isDatabaseDeleted_setDatabaseMeta m d b d').mp hd' with ⟨hdeleted, hne⟩
    rw [Memory.getDatabaseMeta_setDatabaseMeta, if_neg hne.symm, h.database d' hdeleted]
  inDatabase d' c hc := by
    rw [Memory.getCollection_setDatabaseMeta] at hc
    rw [Memory.getDatabaseMeta_setDatabaseMeta]
    split_ifs
    · rfl
    · exact h.inDatabase d' c hc
  collection d' c hc := (Memory.getCollection_setDatabaseMeta m d b d' c).trans (h.collection d' c hc)
  plain d' c hc := h.plain d' c (Memory.getCollection_setDatabaseMeta m d b d' c ▸ hc)

theorem row_setDatabaseMeta (m : Memory) (d : JsString) (b : Json) (d' c id : JsString) :
    (m.setDatabaseMeta d b).row d' c id = m.row d' c id := by
  rw [Memory.row, Memory.getCollection_setDatabaseMeta, Memory.row]

theorem Agrees.create {a : StorageImage} {m : Memory} (h : Agrees a m) (d : JsString) (b : Json) :
    Agrees (a.create d b) (m.setDatabaseMeta d b) where
  tidy := tidy_setDatabaseMeta h.tidy d b
  dead d' hdead :=
    (Memory.isDatabaseDeleted_setDatabaseMeta m d b d').mpr ⟨h.dead d' hdead.2, hdead.1⟩
  deadHeader d' hdead := (if_neg hdead.1).trans (h.deadHeader d' hdead.2)
  deadParts d' c hdead := h.deadParts d' c hdead.2
  partDead := h.partDead
  partDeadPlain := h.partDeadPlain
  partDeadEmpty := h.partDeadEmpty
  header d' b' hheader := by
    rw [Memory.getDatabaseMeta_setDatabaseMeta]
    by_cases hd : d' = d
    · subst hd
      simpa [Image.create] using hheader
    · rw [if_neg (Ne.symm hd)]
      exact h.header d' b' (by simpa [Image.create, hd] using hheader)
  headerDefault d' hheader b' hmeta := by
    by_cases hd : d' = d
    · simp [Image.create, hd] at hheader
    · rw [Memory.getDatabaseMeta_setDatabaseMeta, if_neg (Ne.symm hd)] at hmeta
      exact h.headerDefault d' (by simpa [Image.create, hd] using hheader) b' hmeta
  partHeader d' c b' hheader := by
    rw [Memory.getCollectionMeta, Memory.getCollection_setDatabaseMeta]
    exact h.partHeader d' c b' hheader
  partHeaderDefault d' c hheader b' hmeta := by
    rw [Memory.getCollectionMeta, Memory.getCollection_setDatabaseMeta] at hmeta
    exact h.partHeaderDefault d' c hheader b' hmeta
  rows d' c id := (row_setDatabaseMeta m d b d' c id) ▸ h.rows d' c id
  coincide := h.coincide
  named := h.named

theorem tidy_deleteDatabase {m : Memory} (h : m.Tidy) (d : JsString) :
    (m.deleteDatabase d).1.Tidy where
  database d' hd' := by
    rw [Memory.getDatabaseMeta_deleteDatabase]
    split_ifs with hd
    · rfl
    · rcases (Memory.isDatabaseDeleted_deleteDatabase m d d').mp hd' with hdeleted | rfl
      · exact h.database d' hdeleted
      · exact absurd rfl hd
  inDatabase d' c hc := by
    rw [Memory.getCollection_deleteDatabase] at hc
    rw [Memory.getDatabaseMeta_deleteDatabase]
    split_ifs at hc ⊢ with hd
    · cases hc
    · exact h.inDatabase d' c hc
  collection d' c hc := by
    rw [Memory.getCollection_deleteDatabase]
    split_ifs
    · rfl
    · exact h.collection d' c hc
  plain d' c hc := by
    rw [Memory.getCollection_deleteDatabase] at hc
    split_ifs at hc
    · cases hc
    · exact h.plain d' c hc

theorem row_deleteDatabase (m : Memory) (d d' c id : JsString) :
    (m.deleteDatabase d).1.row d' c id = if d = d' then none else m.row d' c id := by
  rw [Memory.row, Memory.getCollection_deleteDatabase]
  split_ifs <;> rfl

theorem Agrees.drop {a : StorageImage} {m : Memory} (h : Agrees a m) (d : JsString) :
    Agrees (a.drop d) (m.deleteDatabase d).1 where
  tidy := tidy_deleteDatabase h.tidy d
  dead d' hdead := (Memory.isDatabaseDeleted_deleteDatabase m d d').mpr
    (hdead.elim Or.inr fun hdead => Or.inl (h.dead d' hdead))
  deadHeader d' hdead := by
    by_cases hd : d' = d
    · simp [Image.drop, hd]
    · simpa [Image.drop, hd] using h.deadHeader d' (hdead.resolve_left hd)
  deadParts d' c hdead := by
    by_cases hd : d' = d
    · simp [Image.drop, hd]
    · simpa [Image.drop, hd] using h.deadParts d' c (hdead.resolve_left hd)
  partDead d' c hdead := h.partDead d' c hdead.2
  partDeadPlain d' c hdead := h.partDeadPlain d' c hdead.2
  partDeadEmpty d' c hdead := by
    simpa [Image.drop, hdead.1] using h.partDeadEmpty d' c hdead.2
  header d' b hheader := by
    by_cases hd : d' = d
    · simp [Image.drop, hd] at hheader
    · rw [Memory.getDatabaseMeta_deleteDatabase, if_neg (Ne.symm hd)]
      exact h.header d' b (by simpa [Image.drop, hd] using hheader)
  headerDefault d' hheader b hmeta := by
    rw [Memory.getDatabaseMeta_deleteDatabase] at hmeta
    split_ifs at hmeta with hd
    exact h.headerDefault d' (by simpa [Image.drop, Ne.symm hd] using hheader) b hmeta
  partHeader d' c b hheader := by
    by_cases hd : d' = d
    · simp [Image.drop, hd] at hheader
    · rw [Memory.getCollectionMeta, Memory.getCollection_deleteDatabase, if_neg (Ne.symm hd)]
      exact h.partHeader d' c b (by simpa [Image.drop, hd] using hheader)
  partHeaderDefault d' c hheader b hmeta := by
    rw [Memory.getCollectionMeta, Memory.getCollection_deleteDatabase] at hmeta
    by_cases hd : d = d'
    · simp [hd] at hmeta
    · rw [if_neg hd] at hmeta
      exact h.partHeaderDefault d' c (by simpa [Image.drop, Ne.symm hd] using hheader) b hmeta
  rows d' c id := by
    rw [row_deleteDatabase]
    by_cases hd : d = d'
    · simp [Image.drop, hd, NewestOf]
    · simpa [Image.drop, hd, Ne.symm hd] using h.rows d' c id
  coincide d' c := by
    by_cases hd : d' = d
    · simp [Image.drop, hd, Coincide]
    · simpa [Image.drop, hd] using h.coincide d' c
  named d' c op hop := by
    by_cases hd : d' = d
    · simp [Image.drop, hd] at hop
    · exact h.named d' c op (by simpa [Image.drop, hd] using hop)

/-! ## Collections -/

/-- The collection is there, with this metadata or rows; everything else is as it was. -/
theorem tidy_setCollection {m : Memory} (h : m.Tidy) {d c : JsString} (hd : PlainName d)
    (hc : PlainName c) (hdatabase : m.isDatabaseDeleted d = false)
    (hcollection : m.isCollectionDeleted d c = false) (x : HeldCollection) :
    (m.setCollection d c x).Tidy where
  database d' hd' := by
    have hne : d ≠ d' := by
      rintro rfl
      exact absurd (hd'.symm.trans hdatabase) (by decide)
    rw [Memory.getDatabaseMeta_setCollection, if_neg hne]
    exact h.database d' hd'
  inDatabase d' c' hc' := by
    rw [Memory.getDatabaseMeta_setCollection]
    split_ifs with heq
    · rfl
    · rw [Memory.getCollection_setCollection, if_neg fun hk => heq hk.1] at hc'
      exact h.inDatabase d' c' hc'
  collection d' c' hc' := by
    have hne : ¬(d = d' ∧ c = c') := by
      rintro ⟨rfl, rfl⟩
      exact absurd (hc'.symm.trans hcollection) (by decide)
    rw [Memory.getCollection_setCollection, if_neg hne]
    exact h.collection d' c' hc'
  plain d' c' hc' := by
    rw [Memory.getCollection_setCollection] at hc'
    split_ifs at hc' with heq
    · exact heq.1 ▸ heq.2 ▸ ⟨hd, hc⟩
    · exact h.plain d' c' hc'

theorem row_setCollection (m : Memory) (d c : JsString) (x : HeldCollection) (d' c' id : JsString) :
    (m.setCollection d c x).row d' c' id =
      if d = d' ∧ c = c' then Assoc.get? x.rows id else m.row d' c' id := by
  rw [Memory.row, Memory.getCollection_setCollection]
  split_ifs <;> rfl

theorem getCollectionMeta_setCollection (m : Memory) (d c : JsString) (x : HeldCollection)
    (d' c' : JsString) :
    (m.setCollection d c x).getCollectionMeta d' c' =
      if d = d' ∧ c = c' then some x.collectionMeta else m.getCollectionMeta d' c' := by
  rw [Memory.getCollectionMeta, Memory.getCollection_setCollection]
  split_ifs <;> rfl

/-- What a database's metadata is after a collection of it was set. -/
theorem databaseMeta_agrees {a : StorageImage} {m : Memory} (h : Agrees a m) (d c : JsString)
    (x : HeldCollection) :
    (∀ d' b, a.header d' = some b → (m.setCollection d c x).getDatabaseMeta d' = some b) ∧
      ∀ d', a.header d' = none →
        ∀ b, (m.setCollection d c x).getDatabaseMeta d' = some b → b = defaultDatabaseMeta := by
  constructor
  · intro d' b hheader
    have hmeta := h.header d' b hheader
    rw [Memory.getDatabaseMeta_setCollection]
    split_ifs with hd
    · subst hd
      rw [Memory.databaseMeta_databaseOf, hmeta]
      rfl
    · exact hmeta
  · intro d' hheader b hmeta
    rw [Memory.getDatabaseMeta_setCollection] at hmeta
    split_ifs at hmeta with hd
    · subst hd
      rw [Memory.databaseMeta_databaseOf] at hmeta
      cases hget : m.getDatabaseMeta d with
      | none =>
          rw [hget] at hmeta
          exact (Option.some.inj hmeta).symm
      | some b' =>
          rw [hget] at hmeta
          exact (Option.some.inj hmeta) ▸ h.headerDefault d hheader b' hget
    · exact h.headerDefault d' hheader b hmeta

/-- A collection that a write opens. -/
theorem Agrees.opened {a : StorageImage} {m : Memory} (h : Agrees a m) {d c : JsString}
    (hd : PlainName d) (hc : PlainName c) (hdatabase : m.isDatabaseDeleted d = false)
    (hcollection : m.isCollectionDeleted d c = false) :
    Agrees a (m.setCollection d c (m.collectionOf d c)) where
  tidy := tidy_setCollection h.tidy hd hc hdatabase hcollection _
  dead := h.dead
  deadHeader := h.deadHeader
  deadParts := h.deadParts
  partDead := h.partDead
  partDeadPlain := h.partDeadPlain
  partDeadEmpty := h.partDeadEmpty
  header := (databaseMeta_agrees h d c _).1
  headerDefault := (databaseMeta_agrees h d c _).2
  partHeader d' c' b hheader := by
    have hmeta := h.partHeader d' c' b hheader
    rw [getCollectionMeta_setCollection]
    split_ifs with heq
    · rcases heq with ⟨rfl, rfl⟩
      rw [Memory.collectionMeta_collectionOf, hmeta]
      rfl
    · exact hmeta
  partHeaderDefault d' c' hheader b hmeta := by
    rw [getCollectionMeta_setCollection] at hmeta
    split_ifs at hmeta with heq
    · rcases heq with ⟨rfl, rfl⟩
      rw [Memory.collectionMeta_collectionOf] at hmeta
      cases hget : m.getCollectionMeta d c with
      | none =>
          rw [hget] at hmeta
          exact (Option.some.inj hmeta).symm
      | some b' =>
          rw [hget] at hmeta
          exact (Option.some.inj hmeta) ▸ h.partHeaderDefault d c hheader b' hget
    · exact h.partHeaderDefault d' c' hheader b hmeta
  rows d' c' id := by
    rw [row_setCollection]
    split_ifs with heq
    · rcases heq with ⟨rfl, rfl⟩
      rw [Memory.get?_collectionOf]
      exact h.rows d c id
    · exact h.rows d' c' id
  coincide := h.coincide
  named := h.named

/-- An operation that is applied to a collection. -/
theorem Agrees.record {a : StorageImage} {m : Memory} (h : Agrees a m) {op : Op}
    (hd : PlainName op.db) (hc : PlainName op.coll) (hdatabase : m.isDatabaseDeleted op.db = false)
    (hcollection : m.isCollectionDeleted op.db op.coll = false)
    (haccepted : (Rows.arrive (m.collectionOf op.db op.coll).rows op.id op.write).2 = true) :
    Agrees (a.record op.db op.coll op)
      (m.setCollection op.db op.coll { m.collectionOf op.db op.coll with
        rows := (Rows.arrive (m.collectionOf op.db op.coll).rows op.id op.write).1 }) := by
  have hopened := h.opened hd hc hdatabase hcollection
  have hnewer := arrive_accepted.mp haccepted
  rw [Memory.get?_collectionOf] at hnewer
  -- the record is filed under its own collection, and nothing else changes
  have hrecords : ∀ d' c', ¬(d' = op.db ∧ c' = op.coll) →
      (a.record op.db op.coll op).records d' c' = a.records d' c' := by
    intro d' c' hne
    ext r
    simp only [Image.record, Set.mem_ofPred_eq, ← and_assoc, hne, false_and, false_or]
  have hrecordsHere : (a.record op.db op.coll op).records op.db op.coll =
      {op' | op' = op ∨ op' ∈ a.records op.db op.coll} := by
    ext r
    simp [Image.record]
  exact
    { tidy := tidy_setCollection h.tidy hd hc hdatabase hcollection _
      dead := h.dead
      deadHeader := h.deadHeader
      deadParts := fun d' c' hdead => by
        have hne : ¬(d' = op.db ∧ c' = op.coll) := by
          rintro ⟨rfl, rfl⟩
          exact absurd ((h.dead _ hdead).symm.trans hdatabase) (by decide)
        rw [hrecords d' c' hne]
        exact h.deadParts d' c' hdead
      partDead := h.partDead
      partDeadPlain := h.partDeadPlain
      partDeadEmpty := fun d' c' hdead => by
        have hne : ¬(d' = op.db ∧ c' = op.coll) := by
          rintro ⟨rfl, rfl⟩
          exact absurd ((h.partDead _ _ hdead).symm.trans hcollection) (by decide)
        rw [hrecords d' c' hne]
        exact h.partDeadEmpty d' c' hdead
      header := (databaseMeta_agrees h op.db op.coll _).1
      headerDefault := (databaseMeta_agrees h op.db op.coll _).2
      partHeader := fun d' c' b hheader => by
        rw [getCollectionMeta_setCollection, ← getCollectionMeta_setCollection m op.db op.coll
          (m.collectionOf op.db op.coll)]
        exact hopened.partHeader d' c' b hheader
      partHeaderDefault := fun d' c' hheader b hmeta => by
        rw [getCollectionMeta_setCollection, ← getCollectionMeta_setCollection m op.db op.coll
          (m.collectionOf op.db op.coll)] at hmeta
        exact hopened.partHeaderDefault d' c' hheader b hmeta
      rows := fun d' c' id => by
        rw [row_setCollection]
        by_cases heq : op.db = d' ∧ op.coll = c'
        · rcases heq with ⟨rfl, rfl⟩
          rw [if_pos ⟨rfl, rfl⟩, hrecordsHere, get?_arrive, haccepted, Memory.get?_collectionOf]
          have hrow := h.rows op.db op.coll id
          by_cases hid : op.id = id
          · subst hid
            rw [if_pos ⟨rfl, rfl⟩]
            exact hrow.insert rfl hnewer
          · rw [if_neg fun hk => hid hk.1]
            exact hrow.insert_other hid
        · rw [if_neg heq, hrecords d' c' (by rintro ⟨rfl, rfl⟩; exact heq ⟨rfl, rfl⟩)]
          exact h.rows d' c' id
      coincide := fun d' c' => by
        by_cases heq : d' = op.db ∧ c' = op.coll
        · rcases heq with ⟨rfl, rfl⟩
          rw [hrecordsHere]
          exact (h.coincide _ _).insert (h.rows _ _ _) hnewer
        · rw [hrecords d' c' heq]
          exact h.coincide d' c'
      named := fun d' c' r hr => by
        rcases hr with ⟨rfl, rfl, rfl⟩ | hr
        · exact ⟨rfl, rfl⟩
        · exact h.named d' c' r hr }

/-! ## Creating and dropping collections -/

/-- The memory without the tombstone of a collection. -/
def Memory.revive (m : Memory) (d c : JsString) : Memory :=
  { m with
    collectionTombstones := m.collectionTombstones.filter (· ≠ storeCollectionKey d c) }

theorem isCollectionDeleted_revive (m : Memory) (d c d' c' : JsString) :
    (m.revive d c).isCollectionDeleted d' c' = true ↔
      m.isCollectionDeleted d' c' = true ∧ storeCollectionKey d' c' ≠ storeCollectionKey d c := by
  simp [Memory.revive, Memory.isCollectionDeleted]

theorem Memory.revive_of_live {m : Memory} {d c : JsString}
    (h : m.isCollectionDeleted d c = false) : m.revive d c = m := by
  have hkeep : m.collectionTombstones.filter (· ≠ storeCollectionKey d c) =
      m.collectionTombstones := by
    refine List.filter_eq_self.mpr fun key hkey => decide_eq_true ?_
    rintro rfl
    exact of_decide_eq_false h hkey
  rw [Memory.revive, hkeep]

/-- Metadata set in a database that is not deleted; the tombstone of the collection is taken. -/
theorem Memory.setCollectionMeta_live {m : Memory} {d : JsString}
    (h : m.isDatabaseDeleted d = false) (c : JsString) (b : Json) :
    m.setCollectionMeta d c b = ((m.revive d c).setCollection d c
      { (m.revive d c).collectionOf d c with collectionMeta := b }, .ok ()) :=
  if_neg (Bool.eq_false_iff.mp h)

theorem Memory.setCollectionMeta_deleted {m : Memory} {d : JsString}
    (h : m.isDatabaseDeleted d = true) (c : JsString) (b : Json) :
    m.setCollectionMeta d c b = (m.revive d c, .error .databaseDeleted) :=
  if_pos h

/-- The image without the mark of a dropped collection. -/
def reviveImage (a : StorageImage) (d c : JsString) : StorageImage :=
  { a with partDead := fun d' c' => ¬(d' = d ∧ c' = c) ∧ a.partDead d' c' }

theorem tidy_revive {m : Memory} (h : m.Tidy) (d c : JsString) : (m.revive d c).Tidy where
  database := h.database
  inDatabase := h.inDatabase
  collection d' c' hc' := h.collection d' c' ((isCollectionDeleted_revive m d c d' c').mp hc').1
  plain := h.plain

theorem Agrees.revive {a : StorageImage} {m : Memory} (h : Agrees a m) {d c : JsString}
    (hd : PlainName d) : Agrees (reviveImage a d c) (m.revive d c) where
  tidy := tidy_revive h.tidy d c
  dead := h.dead
  deadHeader := h.deadHeader
  deadParts := h.deadParts
  partDead d' c' hdead := by
    refine (isCollectionDeleted_revive m d c d' c').mpr ⟨h.partDead d' c' hdead.2, fun hkey => ?_⟩
    exact hdead.1 (storeCollectionKey_inj (h.partDeadPlain d' c' hdead.2).1 hd hkey)
  partDeadPlain d' c' hdead := h.partDeadPlain d' c' hdead.2
  partDeadEmpty d' c' hdead := h.partDeadEmpty d' c' hdead.2
  header := h.header
  headerDefault := h.headerDefault
  partHeader := h.partHeader
  partHeaderDefault := h.partHeaderDefault
  rows := h.rows
  coincide := h.coincide
  named := h.named

theorem reviveImage_of_not_partDead {a : StorageImage} {d c : JsString} (h : ¬a.partDead d c) :
    reviveImage a d c = a := by
  refine Image.ext rfl rfl ?_ rfl rfl
  funext d' c'
  refine propext (and_iff_right_of_imp ?_)
  rintro hdead ⟨rfl, rfl⟩
  exact h hdead

theorem Agrees.describe {a : StorageImage} {m : Memory} (h : Agrees a m) {d c : JsString}
    (hd : PlainName d) (hc : PlainName c) (hdatabase : m.isDatabaseDeleted d = false) (b : Json) :
    Agrees (a.describe d c b) ((m.revive d c).setCollection d c
      { (m.revive d c).collectionOf d c with collectionMeta := b }) := by
  have hrevived := h.revive (c := c) hd
  have hlive : (m.revive d c).isCollectionDeleted d c = false :=
    Bool.eq_false_iff.mpr fun hdeleted =>
      ((isCollectionDeleted_revive m d c d c).mp hdeleted).2 rfl
  have hopened := hrevived.opened hd hc hdatabase hlive
  exact
    { tidy := tidy_setCollection hrevived.tidy hd hc hdatabase hlive _
      dead := h.dead
      deadHeader := h.deadHeader
      deadParts := fun d' c' hdead => by
        have hne : ¬(d' = d ∧ c' = c) := by
          rintro ⟨rfl, -⟩
          exact absurd ((h.dead _ hdead).symm.trans hdatabase) (by decide)
        simpa only [Image.describe, if_neg hne] using h.deadParts d' c' hdead
      partDead := hrevived.partDead
      partDeadPlain := hrevived.partDeadPlain
      partDeadEmpty := fun d' c' hdead => by
        simpa only [Image.describe, if_neg hdead.1] using h.partDeadEmpty d' c' hdead.2
      header := (databaseMeta_agrees hrevived d c _).1
      headerDefault := (databaseMeta_agrees hrevived d c _).2
      partHeader := fun d' c' b' hheader => by
        rw [getCollectionMeta_setCollection]
        by_cases heq : d' = d ∧ c' = c
        · rcases heq with ⟨rfl, rfl⟩
          simpa [Image.describe] using hheader
        · rw [if_neg (by rintro ⟨rfl, rfl⟩; exact heq ⟨rfl, rfl⟩)]
          exact h.partHeader d' c' b' (by simpa only [Image.describe, if_neg heq] using hheader)
      partHeaderDefault := fun d' c' hheader b' hmeta => by
        by_cases heq : d' = d ∧ c' = c
        · simp [Image.describe, heq] at hheader
        · rw [getCollectionMeta_setCollection,
            if_neg (by rintro ⟨rfl, rfl⟩; exact heq ⟨rfl, rfl⟩)] at hmeta
          exact h.partHeaderDefault d' c'
            (by simpa only [Image.describe, if_neg heq] using hheader) b' hmeta
      rows := fun d' c' id => by
        rw [row_setCollection, ← row_setCollection (m.revive d c) d c
          ((m.revive d c).collectionOf d c)]
        exact hopened.rows d' c' id
      coincide := h.coincide
      named := h.named }

theorem row_deleteCollection (m : Memory) (d c d' c' id : JsString) :
    (m.deleteCollection d c).1.row d' c' id =
      if d = d' ∧ c = c' then none else m.row d' c' id := by
  rw [Memory.row, Memory.getCollection_deleteCollection]
  split_ifs <;> rfl

theorem tidy_deleteCollection {m : Memory} (h : m.Tidy) {d : JsString} (hd : PlainName d)
    (c : JsString) : (m.deleteCollection d c).1.Tidy where
  database d' hd' := by
    rw [Memory.isDatabaseDeleted_deleteCollection] at hd'
    rw [Memory.getDatabaseMeta_deleteCollection, h.database d' hd']
  inDatabase d' c' hc' := by
    rw [Memory.getCollection_deleteCollection] at hc'
    rw [Memory.getDatabaseMeta_deleteCollection]
    split_ifs at hc'
    · cases hc'
    · exact h.inDatabase d' c' hc'
  collection d' c' hc' := by
    rw [Memory.getCollection_deleteCollection]
    split_ifs with heq
    · rfl
    · rcases (Memory.isCollectionDeleted_deleteCollection m d c d' c').mp hc' with
        hdeleted | hkey
      · exact h.collection d' c' hdeleted
      · -- only an impossible name has the key of another collection
        cases hget : m.getCollection d' c' with
        | none => rfl
        | some x =>
            have hplain := h.plain d' c' (by rw [hget]; rfl)
            have hsame := storeCollectionKey_inj hplain.1 hd hkey
            exact absurd ⟨hsame.1.symm, hsame.2.symm⟩ heq
  plain d' c' hc' := by
    rw [Memory.getCollection_deleteCollection] at hc'
    split_ifs at hc'
    · cases hc'
    · exact h.plain d' c' hc'

theorem Agrees.dropPart {a : StorageImage} {m : Memory} (h : Agrees a m) {d c : JsString}
    (hd : PlainName d) (hc : PlainName c) :
    Agrees (a.dropPart d c) (m.deleteCollection d c).1 where
  tidy := tidy_deleteCollection h.tidy hd c
  dead d' hdead := by
    rw [Memory.isDatabaseDeleted_deleteCollection]
    exact h.dead d' hdead
  deadHeader := h.deadHeader
  deadParts d' c' hdead := by
    by_cases heq : d' = d ∧ c' = c
    · simp [Image.dropPart, heq]
    · simpa only [Image.dropPart, if_neg heq] using h.deadParts d' c' hdead
  partDead d' c' hdead := by
    refine (Memory.isCollectionDeleted_deleteCollection m d c d' c').mpr ?_
    rcases hdead with ⟨rfl, rfl⟩ | hdead
    · exact Or.inr rfl
    · exact Or.inl (h.partDead d' c' hdead)
  partDeadPlain d' c' hdead := by
    rcases hdead with ⟨rfl, rfl⟩ | hdead
    · exact ⟨hd, hc⟩
    · exact h.partDeadPlain d' c' hdead
  partDeadEmpty d' c' hdead := by
    by_cases heq : d' = d ∧ c' = c
    · simp [Image.dropPart, heq]
    · simpa only [Image.dropPart, if_neg heq] using
        h.partDeadEmpty d' c' (hdead.resolve_left heq)
  header d' b hheader := by
    rw [Memory.getDatabaseMeta_deleteCollection]
    exact h.header d' b hheader
  headerDefault d' hheader b hmeta := by
    rw [Memory.getDatabaseMeta_deleteCollection] at hmeta
    exact h.headerDefault d' hheader b hmeta
  partHeader d' c' b hheader := by
    by_cases heq : d' = d ∧ c' = c
    · simp [Image.dropPart, heq] at hheader
    · rw [Memory.getCollectionMeta, Memory.getCollection_deleteCollection,
        if_neg (by rintro ⟨rfl, rfl⟩; exact heq ⟨rfl, rfl⟩)]
      exact h.partHeader d' c' b (by simpa only [Image.dropPart, if_neg heq] using hheader)
  partHeaderDefault d' c' hheader b hmeta := by
    rw [Memory.getCollectionMeta, Memory.getCollection_deleteCollection] at hmeta
    by_cases heq : d = d' ∧ c = c'
    · simp [heq] at hmeta
    · rw [if_neg heq] at hmeta
      have hne : ¬(d' = d ∧ c' = c) := by
        rintro ⟨rfl, rfl⟩
        exact heq ⟨rfl, rfl⟩
      exact h.partHeaderDefault d' c'
        (by simpa only [Image.dropPart, if_neg hne] using hheader) b hmeta
  rows d' c' id := by
    rw [row_deleteCollection]
    by_cases heq : d = d' ∧ c = c'
    · simp [Image.dropPart, heq, NewestOf]
    · have hne : ¬(d' = d ∧ c' = c) := by
        rintro ⟨rfl, rfl⟩
        exact heq ⟨rfl, rfl⟩
      simpa only [Image.dropPart, if_neg heq, if_neg hne] using h.rows d' c' id
  coincide d' c' := by
    by_cases heq : d' = d ∧ c' = c
    · simp [Image.dropPart, heq, Coincide]
    · simpa only [Image.dropPart, if_neg heq] using h.coincide d' c'
  named d' c' op hop := by
    by_cases heq : d' = d ∧ c' = c
    · simp [Image.dropPart, heq] at hop
    · exact h.named d' c' op (by simpa only [Image.dropPart, if_neg heq] using hop)

end Persist
end ObjyDb
