import ObjyDb.Cluster.ShardMap

/-!
# Names — the keys of the pending queues

The persistence manager keeps its queues in maps whose keys are names joined with a line feed, and
splits a key again when it needs the names.  Names without a line feed come back as they were.
-/

namespace ObjyDb
namespace Persist

open Js

/-- One shard of one collection. -/
structure Scope where
  database : JsString
  collection : JsString
  shard : JsString
  deriving DecidableEq

/-- `set.add(key)` -/
def setAdd (set : List JsString) (key : JsString) : List JsString :=
  if key ∈ set then set else set ++ [key]

@[simp]
theorem mem_setAdd {set : List JsString} {key k : JsString} :
    k ∈ setAdd set key ↔ k ∈ set ∨ k = key := by
  unfold setAdd
  split_ifs with h
  · constructor
    · exact Or.inl
    · rintro (hk | rfl)
      · exact hk
      · exact h
  · simp

/-! ## Keys -/

/-- `\n` -/
def lineFeed : CodeUnit := unit '\n'

/-- `${scope.database}\n${scope.collection}\n${scope.shard}` -/
def scopeKey (scope : Scope) : JsString :=
  scope.database ++ lineFeed :: (scope.collection ++ lineFeed :: scope.shard)

/-- `${database}\n${collection}` -/
def collectionKey (database collection : JsString) : JsString :=
  database ++ lineFeed :: collection

/-- `const [database, collection, shard] = key.split("\n")` -/
def parseScopeKey (key : JsString) : Scope :=
  let parts := split lineFeed key
  ⟨parts.getD 0 [], parts.getD 1 [], parts.getD 2 []⟩

/-- `const [database, collection] = key.split("\n")` -/
def parseCollectionKey (key : JsString) : JsString × JsString :=
  let parts := split lineFeed key
  (parts.getD 0 [], parts.getD 1 [])

/-! ## Plain names -/

/-- A name as the queues can hold it: not empty, without a line feed, and without a NUL, which the
store joins its own keys with. -/
structure PlainName (name : JsString) : Prop where
  nonempty : name ≠ []
  noLineFeed : lineFeed ∉ name
  noNul : (0 : CodeUnit) ∉ name

structure Scope.Plain (scope : Scope) : Prop where
  database : PlainName scope.database
  collection : PlainName scope.collection
  shard : PlainName scope.shard

theorem parseScopeKey_scopeKey {scope : Scope} (h : scope.Plain) :
    parseScopeKey (scopeKey scope) = scope := by
  rw [parseScopeKey, scopeKey, split_append_sep h.database.noLineFeed, split_append_sep h.collection.noLineFeed,
    split_of_notMem h.shard.noLineFeed]
  rfl

theorem parseCollectionKey_collectionKey {database collection : JsString}
    (hdatabase : PlainName database) (hcollection : PlainName collection) :
    parseCollectionKey (collectionKey database collection) = (database, collection) := by
  rw [parseCollectionKey, collectionKey, split_append_sep hdatabase.noLineFeed,
    split_of_notMem hcollection.noLineFeed]
  rfl

/-- A key made of plain names is made of no other names. -/
theorem collectionKey_eq_iff {d c : JsString} (hd : PlainName d) (hc : PlainName c)
    {d' c' : JsString} : collectionKey d c = collectionKey d' c' ↔ d = d' ∧ c = c' := by
  constructor
  · intro h
    -- the key has one line feed, which is between the names on both sides
    have hcount := congrArg (List.count lineFeed) h
    simp only [collectionKey, List.count_append, List.count_cons_self,
      List.count_eq_zero.mpr hd.noLineFeed, List.count_eq_zero.mpr hc.noLineFeed] at hcount
    have hd' : lineFeed ∉ d' := List.count_eq_zero.mp (by omega)
    have hc' : lineFeed ∉ c' := List.count_eq_zero.mp (by omega)
    have hsplit := congrArg (split lineFeed) h
    rw [collectionKey, collectionKey, split_append_sep hd.noLineFeed,
      split_of_notMem hc.noLineFeed, split_append_sep hd', split_of_notMem hc'] at hsplit
    simpa using hsplit
  · rintro ⟨rfl, rfl⟩
    rfl

/-- A collection key of plain names. -/
def PlainKey (key : JsString) : Prop :=
  ∃ d c, PlainName d ∧ PlainName c ∧ key = collectionKey d c

theorem PlainKey.parse_eq_iff {key : JsString} (h : PlainKey key) {d c : JsString} :
    parseCollectionKey key = (d, c) ↔ key = collectionKey d c := by
  rcases h with ⟨d', c', hd', hc', rfl⟩
  rw [parseCollectionKey_collectionKey hd' hc', collectionKey_eq_iff hd' hc', Prod.mk.injEq]

theorem PlainKey.collectionKey_parse {key : JsString} (h : PlainKey key) :
    collectionKey (parseCollectionKey key).1 (parseCollectionKey key).2 = key :=
  (h.parse_eq_iff.mp rfl).symm

end Persist
end ObjyDb
