import ObjyDb.Js.Uri
import ObjyDb.Persist.Storage
import ObjyDb.Cluster.Publishing
import ObjyDb.Js.Conversions

/-!
# Keys — the keys of object storage as texts

A key is a path below the configured prefix; its segments are the names, percent-encoded.  Restoring
parses the keys it lists.

- `parseScopeFromKey_scopePrefix` … `parseDatabaseTombstoneFromKey_key`: every key that is written
  is parsed to the names it was built from
- `covers_iff`: what lies under the prefix of a database or a collection is what
  `StoragePrefix.covers` says
-/

namespace ObjyDb
namespace Persist

open Js

/-! ## Building keys -/

/-- `/` -/
def slash : CodeUnit := unit '/'

/-- `text.replace(/^\/+/, "")` -/
def dropSlashes (text : JsString) : JsString :=
  text.dropWhile (· = slash)

/-- `normalizePrefix(prefix)` -/
def normalizePrefix (keyPrefix : JsString) : JsString :=
  (dropSlashes (dropSlashes keyPrefix).reverse).reverse

/-- `safe(name)` -/
def safe (name : JsString) : JsString :=
  encodeURIComponent name

/-- `a/b/…` -/
def path (segments : List JsString) : JsString :=
  join slash segments

/-- `${normalizePrefix(prefix)}/…` without leading slashes. -/
def underPrefix (keyPrefix : JsString) (segments : List JsString) : JsString :=
  dropSlashes (normalizePrefix keyPrefix ++ slash :: path segments)

def databaseSegments (database : JsString) : List JsString :=
  [js "db", safe database]

def collectionSegments (database collection : JsString) : List JsString :=
  databaseSegments database ++ [js "collection", safe collection]

def scopeSegments (scope : Scope) : List JsString :=
  collectionSegments scope.database scope.collection ++ [js "shard", safe scope.shard]

section

variable (keyPrefix : JsString)

def databasePrefix (database : JsString) : JsString :=
  underPrefix keyPrefix (databaseSegments database)

def collectionPrefix (database collection : JsString) : JsString :=
  underPrefix keyPrefix (collectionSegments database collection)

def scopePrefix (scope : Scope) : JsString :=
  underPrefix keyPrefix (scopeSegments scope)

def databaseTombstoneKey (database : JsString) : JsString :=
  underPrefix keyPrefix [js "database-tombstones", safe database ++ js ".json"]

def collectionTombstoneKey (database collection : JsString) : JsString :=
  databasePrefix keyPrefix database ++
    slash :: path [js "collection-tombstones", safe collection ++ js ".json"]

/-- `${databasePrefix}/meta.json` -/
def databaseMetaKey (database : JsString) : JsString :=
  databasePrefix keyPrefix database ++ slash :: js "meta.json"

/-- `${collectionPrefix}/meta.json` -/
def collectionMetaKey (database collection : JsString) : JsString :=
  collectionPrefix keyPrefix database collection ++ slash :: js "meta.json"

/-- `String(Math.max(0, value)).padStart(16, "0")` -/
def pad (value : Nat) : JsString :=
  List.replicate (16 - (countText value).length) (unit '0') ++ countText value

/-- `${now}-${pad(firstSeq)}-${pad(lastSeq)}-${uuid}.jsonl` -/
def journalFile (now firstSeq lastSeq : Nat) (uuid : JsString) : JsString :=
  countText now ++ unit '-' :: (pad firstSeq ++ unit '-' :: (pad lastSeq ++
    unit '-' :: (uuid ++ js ".jsonl")))

/-- The key of `_writeJournalSegment`. -/
def journalKey (scope : Scope) (node : JsString) (now firstSeq lastSeq : Nat) (uuid : JsString) :
    JsString :=
  scopePrefix keyPrefix scope ++
    slash :: path [js "journal", safe node, journalFile now firstSeq lastSeq uuid]

/-- A key below a scope: `latest.json`, or a file of a snapshot. -/
def scopeFileKey (scope : Scope) (rest : JsString) : JsString :=
  scopePrefix keyPrefix scope ++ slash :: rest

end

/-! ## Parsing keys -/

/-- The segments after the prefix; `none` when the key has another prefix. -/
def segmentsOf (key keyPrefix : JsString) : Option (List JsString) :=
  let root := normalizePrefix keyPrefix
  let expected := if root = [] then [] else root ++ [slash]
  if expected <+: key then some (split slash (key.drop expected.length)) else none

/-- `parts[i]`, empty when there is none. -/
def part (parts : List JsString) (i : Nat) : JsString :=
  parts.getD i []

def scopeOfParts (parts : List JsString) : Option Scope :=
  if part parts 0 ≠ js "db" ∨ part parts 2 ≠ js "collection" ∨ part parts 4 ≠ js "shard" then none
  else if part parts 1 = [] ∨ part parts 3 = [] ∨ part parts 5 = [] then none
  else do
    return ⟨← decodeURIComponent (part parts 1), ← decodeURIComponent (part parts 3),
      ← decodeURIComponent (part parts 5)⟩

def parseScopeFromKey (key keyPrefix : JsString) : Option Scope :=
  (segmentsOf key keyPrefix).bind scopeOfParts

/-- What is read of a journal key. -/
structure JournalInfo where
  scope : Scope
  node : JsString
  createdAtMs : Nat
  firstSeq : Nat
  lastSeq : Nat
  count : Nat
  deriving DecidableEq

/-- The digits at the front, which a `-` ends, and the rest after it. -/
def takeNumber (text : JsString) : Option (Nat × JsString) :=
  match takeDigits text with
  | ([], _) => none
  | (digits, c :: rest) => if c = unit '-' then some (digitsValue digits, rest) else none
  | _ => none

/-- A line terminator, which `.` does not match. -/
def isLineTerminator (c : CodeUnit) : Bool :=
  c.val ∈ [0x0a, 0x0d, 0x2028, 0x2029]

/-- `/^(\d+)-(\d+)-(\d+)-.+\.jsonl$/`: the three numbers. -/
def matchJournalFile (file : JsString) : Option (Nat × Nat × Nat) := do
  let (createdAtMs, rest) ← takeNumber file
  let (firstSeq, rest) ← takeNumber rest
  let (lastSeq, rest) ← takeNumber rest
  let name := rest.take (rest.length - 6)
  if js ".jsonl" <:+ rest ∧ name ≠ [] ∧ name.all (fun c => !isLineTerminator c) then
    return (createdAtMs, firstSeq, lastSeq)
  else none

def seqCount (firstSeq lastSeq : Nat) : Nat :=
  if firstSeq ≤ lastSeq ∧ 0 < firstSeq then lastSeq - firstSeq + 1 else 0

def parseJournalKey (key keyPrefix : JsString) : Option JournalInfo := do
  let scope ← parseScopeFromKey key keyPrefix
  let parts ← segmentsOf key keyPrefix
  if part parts 6 ≠ js "journal" ∨ part parts 7 = [] ∨ part parts 8 = [] then none
  else
    let (createdAtMs, firstSeq, lastSeq) := (matchJournalFile (part parts 8)).getD (0, 0, 0)
    return ⟨scope, ← decodeURIComponent (part parts 7), createdAtMs, firstSeq, lastSeq,
      seqCount firstSeq lastSeq⟩

def parseMetaFromKey (key keyPrefix : JsString) : Option (JsString × JsString) := do
  let parts ← segmentsOf key keyPrefix
  if part parts 0 ≠ js "db" ∨ part parts 2 ≠ js "collection" ∨ part parts 4 ≠ js "meta.json" then
    none
  else if part parts 1 = [] ∨ part parts 3 = [] then none
  else return (← decodeURIComponent (part parts 1), ← decodeURIComponent (part parts 3))

/-- `text.slice(0, -5)` of a text that ends in `.json` -/
def withoutJson (text : JsString) : Option JsString :=
  if js ".json" <:+ text then some (text.take (text.length - 5)) else none

def parseCollectionTombstoneFromKey (key keyPrefix : JsString) : Option (JsString × JsString) := do
  let parts ← segmentsOf key keyPrefix
  if part parts 0 ≠ js "db" ∨ part parts 2 ≠ js "collection-tombstones" ∨ part parts 1 = [] then
    none
  else
    let name ← withoutJson (part parts 3)
    return (← decodeURIComponent (part parts 1), ← decodeURIComponent name)

def parseDatabaseMetaFromKey (key keyPrefix : JsString) : Option JsString := do
  let parts ← segmentsOf key keyPrefix
  if part parts 0 ≠ js "db" ∨ part parts 2 ≠ js "meta.json" ∨ part parts 1 = [] then none
  else decodeURIComponent (part parts 1)

def parseDatabaseTombstoneFromKey (key keyPrefix : JsString) : Option JsString := do
  let parts ← segmentsOf key keyPrefix
  if part parts 0 ≠ js "database-tombstones" then none
  else decodeURIComponent (← withoutJson (part parts 1))

/-! ## Segments -/

/-- The text before the segments of every key. -/
def root (keyPrefix : JsString) : JsString :=
  if normalizePrefix keyPrefix = [] then [] else normalizePrefix keyPrefix ++ [slash]

theorem dropSlashes_of_head {text : JsString} (h : text.head? ≠ some slash) :
    dropSlashes text = text := by
  cases text with
  | nil => rfl
  | cons c rest =>
      have hc : c ≠ slash := fun hc => h (congrArg some hc)
      rw [dropSlashes, List.dropWhile_cons_of_neg (by simpa using hc)]

theorem head?_dropSlashes (text : JsString) : (dropSlashes text).head? ≠ some slash := by
  intro h
  have hnot := List.head?_dropWhile_not (fun c => decide (c = slash)) text
  rw [dropSlashes] at h
  rw [h] at hnot
  simp at hnot

theorem head?_normalizePrefix (keyPrefix : JsString) :
    (normalizePrefix keyPrefix).head? ≠ some slash := by
  -- what is left begins as the text did without its leading slashes
  have hfront : normalizePrefix keyPrefix <+: dropSlashes keyPrefix := by
    rw [normalizePrefix, ← List.reverse_suffix, List.reverse_reverse]
    exact List.dropWhile_suffix _
  rcases hfront with ⟨rest, hrest⟩
  cases hroot : normalizePrefix keyPrefix with
  | nil => simp
  | cons c more =>
      have hhead := head?_dropSlashes keyPrefix
      rw [← hrest, hroot] at hhead
      simpa using hhead

/-- Segments as keys have them. -/
structure PlainSegments (segments : List JsString) : Prop where
  nonempty : segments ≠ []
  noSlash : ∀ segment ∈ segments, slash ∉ segment
  head : ∀ segment ∈ segments.head?, segment ≠ []

theorem PlainSegments.head?_path {segments : List JsString} (h : PlainSegments segments) :
    (path segments).head? ≠ some slash := by
  rcases segments with _ | ⟨segment, rest⟩
  · exact absurd rfl h.nonempty
  · have hne : segment ≠ [] := h.head segment rfl
    have hslash := h.noSlash segment List.mem_cons_self
    cases segment with
    | nil => exact absurd rfl hne
    | cons c more =>
        have hc : c ≠ slash := fun hc => hslash (hc ▸ List.mem_cons_self)
        cases rest with
        | nil => simpa [path, join] using hc
        | cons next rest => simpa [path, join] using hc

theorem underPrefix_eq (keyPrefix : JsString) {segments : List JsString}
    (h : PlainSegments segments) :
    underPrefix keyPrefix segments = root keyPrefix ++ path segments := by
  rw [underPrefix, root]
  split_ifs with hroot
  · rw [hroot, List.nil_append, dropSlashes, List.dropWhile_cons_of_pos (by simp)]
    exact dropSlashes_of_head h.head?_path
  · rw [dropSlashes_of_head, List.append_assoc, List.singleton_append]
    have hhead := head?_normalizePrefix keyPrefix
    cases hnorm : normalizePrefix keyPrefix with
    | nil => exact absurd hnorm hroot
    | cons c rest =>
        rw [hnorm] at hhead
        simpa using hhead

theorem path_cons_cons (segment next : JsString) (rest : List JsString) :
    path (segment :: next :: rest) = segment ++ slash :: path (next :: rest) := rfl

theorem split_path_append {segments : List JsString} (hne : segments ≠ [])
    (h : ∀ segment ∈ segments, slash ∉ segment) (rest : JsString) :
    split slash (path segments ++ slash :: rest) = segments ++ split slash rest := by
  induction segments with
  | nil => exact absurd rfl hne
  | cons segment segments ih =>
      have hsegment := h segment List.mem_cons_self
      cases segments with
      | nil =>
          rw [path, join, split_append_sep hsegment]
          rfl
      | cons next segments =>
          have hmore := ih (by simp) fun s hs => h s (List.mem_cons_of_mem _ hs)
          rw [path_cons_cons, List.append_assoc, List.cons_append, split_append_sep hsegment]
          exact congrArg (segment :: ·) hmore

theorem split_path {segments : List JsString} (hne : segments ≠ [])
    (h : ∀ segment ∈ segments, slash ∉ segment) : split slash (path segments) = segments := by
  induction segments with
  | nil => exact absurd rfl hne
  | cons segment segments ih =>
      have hsegment := h segment List.mem_cons_self
      cases segments with
      | nil => exact split_of_notMem hsegment
      | cons next segments =>
          have hmore := ih (by simp) fun s hs => h s (List.mem_cons_of_mem _ hs)
          rw [path_cons_cons, split_append_sep hsegment]
          exact congrArg (segment :: ·) hmore

theorem path_append {left right : List JsString} (hleft : left ≠ []) (hright : right ≠ []) :
    path left ++ slash :: path right = path (left ++ right) := by
  induction left with
  | nil => exact absurd rfl hleft
  | cons segment left ih =>
      cases left with
      | nil =>
          cases right with
          | nil => exact absurd rfl hright
          | cons next right => rfl
      | cons next left =>
          have hmore := ih (by simp)
          rw [path_cons_cons, List.append_assoc, List.cons_append, hmore]
          rfl

/-- The segments of a key are read back. -/
theorem segmentsOf_underPrefix (keyPrefix : JsString) {segments : List JsString}
    (h : PlainSegments segments) :
    segmentsOf (underPrefix keyPrefix segments) keyPrefix = some segments := by
  rw [underPrefix_eq keyPrefix h]
  have hdrop : (root keyPrefix ++ path segments).drop (root keyPrefix).length = path segments :=
    List.drop_left
  rw [root] at hdrop ⊢
  rw [segmentsOf, if_pos (List.prefix_append _ _), hdrop, split_path h.nonempty h.noSlash]

theorem segmentsOf_append (keyPrefix : JsString) {segments : List JsString}
    (h : PlainSegments segments) (rest : JsString) :
    segmentsOf (underPrefix keyPrefix segments ++ slash :: rest) keyPrefix =
      some (segments ++ split slash rest) := by
  rw [underPrefix_eq keyPrefix h, List.append_assoc]
  have hdrop : (root keyPrefix ++ (path segments ++ slash :: rest)).drop (root keyPrefix).length =
      path segments ++ slash :: rest :=
    List.drop_left
  rw [root] at hdrop ⊢
  rw [segmentsOf, if_pos (List.prefix_append _ _), hdrop, split_path_append h.nonempty h.noSlash]

/-! ## Names in keys -/

/-- A name that a key can be made of: not empty, and without lone surrogates. -/
structure KeyName (name : JsString) : Prop where
  nonempty : name ≠ []
  wellFormed : isWellFormedText name = true

structure Scope.KeyNames (scope : Scope) : Prop where
  database : KeyName scope.database
  collection : KeyName scope.collection
  shard : KeyName scope.shard

theorem KeyName.decode {name : JsString} (h : KeyName name) :
    decodeURIComponent (safe name) = some name :=
  decodeURIComponent_encode h.wellFormed

theorem KeyName.safe_ne_nil {name : JsString} (h : KeyName name) : safe name ≠ [] :=
  encodeURIComponent_ne_nil h.nonempty

theorem slash_notMem_safe (name : JsString) : slash ∉ safe name :=
  slash_notMem_encodeURIComponent name

theorem KeyName.safe_inj {left right : JsString} (hleft : KeyName left) (hright : KeyName right)
    (h : safe left = safe right) : left = right :=
  encodeURIComponent_injective hleft.wellFormed hright.wellFormed h

section

variable (database collection : JsString) (scope : Scope)

theorem plainSegments_of {segments : List JsString} (hne : segments ≠ [])
    (h : ∀ segment ∈ segments, slash ∉ segment)
    (hhead : segments.head? = some (js "db") ∨
      segments.head? = some (js "database-tombstones")) : PlainSegments segments := by
  refine ⟨hne, h, ?_⟩
  intro segment hsegment
  rcases hhead with hhead | hhead <;> rw [hhead] at hsegment <;> cases hsegment <;> decide

theorem plain_databaseSegments : PlainSegments (databaseSegments database) := by
  apply plainSegments_of (by simp [databaseSegments]) _ (Or.inl rfl)
  simp [databaseSegments, slash_notMem_safe, show slash ∉ js "db" by decide]

theorem plain_collectionSegments : PlainSegments (collectionSegments database collection) := by
  apply plainSegments_of (by simp [collectionSegments]) _ (Or.inl rfl)
  simp [collectionSegments, databaseSegments, slash_notMem_safe, show slash ∉ js "db" by decide,
    show slash ∉ js "collection" by decide]

theorem plain_scopeSegments : PlainSegments (scopeSegments scope) := by
  apply plainSegments_of (by simp [scopeSegments]) _ (Or.inl rfl)
  simp [scopeSegments, collectionSegments, databaseSegments, slash_notMem_safe,
    show slash ∉ js "db" by decide, show slash ∉ js "collection" by decide,
    show slash ∉ js "shard" by decide]

end

/-! ## Keys are parsed back -/

section

variable (keyPrefix : JsString)

theorem scopeOfParts_append {scope : Scope} (h : scope.KeyNames) (rest : List JsString) :
    scopeOfParts (scopeSegments scope ++ rest) = some scope := by
  simp only [scopeOfParts, part, scopeSegments, collectionSegments, databaseSegments,
    List.cons_append, List.nil_append, List.getD_cons_zero, List.getD_cons_succ, ne_eq,
    not_true_eq_false, or_self, if_false, h.database.safe_ne_nil, h.collection.safe_ne_nil,
    h.shard.safe_ne_nil, h.database.decode, h.collection.decode, h.shard.decode]
  rfl

/-- Every key below a scope is parsed to the scope. -/
theorem parseScopeFromKey_scopeFileKey {scope : Scope} (h : scope.KeyNames) (rest : JsString) :
    parseScopeFromKey (scopeFileKey keyPrefix scope rest) keyPrefix = some scope := by
  rw [parseScopeFromKey, scopeFileKey, scopePrefix,
    segmentsOf_append keyPrefix (plain_scopeSegments scope), Option.bind_some]
  exact scopeOfParts_append h _

theorem parseMetaFromKey_collectionMetaKey {database collection : JsString}
    (hdatabase : KeyName database) (hcollection : KeyName collection) :
    parseMetaFromKey (collectionMetaKey keyPrefix database collection) keyPrefix =
      some (database, collection) := by
  have hsplit : split slash (js "meta.json") = [js "meta.json"] :=
    split_of_notMem (by decide)
  rw [parseMetaFromKey, collectionMetaKey, collectionPrefix,
    segmentsOf_append keyPrefix (plain_collectionSegments database collection), hsplit]
  simp only [Option.bind_eq_bind, Option.bind_some, part, collectionSegments, databaseSegments,
    List.cons_append, List.nil_append, List.getD_cons_zero, List.getD_cons_succ, ne_eq,
    not_true_eq_false, or_self, if_false, hdatabase.safe_ne_nil, hcollection.safe_ne_nil,
    hdatabase.decode, hcollection.decode]
  rfl

theorem parseDatabaseMetaFromKey_databaseMetaKey {database : JsString}
    (hdatabase : KeyName database) :
    parseDatabaseMetaFromKey (databaseMetaKey keyPrefix database) keyPrefix = some database := by
  have hsplit : split slash (js "meta.json") = [js "meta.json"] :=
    split_of_notMem (by decide)
  rw [parseDatabaseMetaFromKey, databaseMetaKey, databasePrefix,
    segmentsOf_append keyPrefix (plain_databaseSegments database), hsplit]
  simp only [Option.bind_eq_bind, Option.bind_some, part, databaseSegments,
    List.cons_append, List.nil_append, List.getD_cons_zero, List.getD_cons_succ, ne_eq,
    not_true_eq_false, or_self, if_false, hdatabase.safe_ne_nil, hdatabase.decode]

theorem withoutJson_append (text : JsString) : withoutJson (text ++ js ".json") = some text := by
  have hlength : (js ".json").length = 5 := by decide
  rw [withoutJson, if_pos (List.suffix_append _ _)]
  simp [hlength]

theorem parseCollectionTombstoneFromKey_key {database collection : JsString}
    (hdatabase : KeyName database) (hcollection : KeyName collection) :
    parseCollectionTombstoneFromKey (collectionTombstoneKey keyPrefix database collection)
      keyPrefix = some (database, collection) := by
  have hsplit : split slash (path [js "collection-tombstones", safe collection ++ js ".json"]) =
      [js "collection-tombstones", safe collection ++ js ".json"] := by
    apply split_path (by simp)
    simp [slash_notMem_safe, show slash ∉ js "collection-tombstones" by decide,
      show slash ∉ js ".json" by decide]
  rw [parseCollectionTombstoneFromKey, collectionTombstoneKey, databasePrefix,
    segmentsOf_append keyPrefix (plain_databaseSegments database), hsplit]
  simp only [Option.bind_eq_bind, Option.bind_some, part, databaseSegments,
    List.cons_append, List.nil_append, List.getD_cons_zero, List.getD_cons_succ, ne_eq,
    not_true_eq_false, or_self, if_false, hdatabase.safe_ne_nil, hdatabase.decode,
    withoutJson_append, hcollection.decode]
  rfl

theorem parseDatabaseTombstoneFromKey_key {database : JsString} (hdatabase : KeyName database) :
    parseDatabaseTombstoneFromKey (databaseTombstoneKey keyPrefix database) keyPrefix =
      some database := by
  have hplain : PlainSegments [js "database-tombstones", safe database ++ js ".json"] := by
    apply plainSegments_of (by simp) _ (Or.inr rfl)
    simp [slash_notMem_safe, show slash ∉ js "database-tombstones" by decide,
      show slash ∉ js ".json" by decide]
  rw [parseDatabaseTombstoneFromKey, databaseTombstoneKey, segmentsOf_underPrefix keyPrefix hplain]
  simp only [Option.bind_eq_bind, Option.bind_some, part, List.getD_cons_zero,
    List.getD_cons_succ, ne_eq, not_true_eq_false, if_false, withoutJson_append, hdatabase.decode]

/-! ### Journal files -/

/-- What `randomUUID()` gives: hexadecimal digits and hyphens. -/
structure IsUuid (uuid : JsString) : Prop where
  nonempty : uuid ≠ []
  units : ∀ c ∈ uuid, (hexDigit? c).isSome ∨ c = unit '-'

theorem digit?_digitUnit (d : Fin 10) : digit? (JsNumber.digitUnit d) = some d := by
  revert d
  decide

theorem takeDigits_digits (digits : List (Fin 10)) {c : CodeUnit} (hc : digit? c = none)
    (rest : JsString) :
    takeDigits (digits.map JsNumber.digitUnit ++ c :: rest) = (digits, c :: rest) := by
  induction digits with
  | nil => simp [takeDigits, hc]
  | cons d digits ih => simp [takeDigits, digit?_digitUnit, ih]

theorem takeNumber_digits {digits : List (Fin 10)} (hne : digits ≠ []) (rest : JsString) :
    takeNumber (digits.map JsNumber.digitUnit ++ unit '-' :: rest) =
      some (digitsValue digits, rest) := by
  rw [takeNumber, takeDigits_digits digits (by decide)]
  cases digits with
  | nil => exact absurd rfl hne
  | cons d digits => simp

theorem expDigits_ne_nil (n : Nat) : JsNumber.expDigits n ≠ [] := by
  unfold JsNumber.expDigits
  split_ifs with h
  · simp
  · intro hnil
    have hvalue := digitsValue_decimalDigits n
    rw [hnil] at hvalue
    exact h hvalue.symm

theorem takeNumber_countText (n : Nat) (rest : JsString) :
    takeNumber (countText n ++ unit '-' :: rest) = some (n, rest) := by
  rw [countText, takeNumber_digits (expDigits_ne_nil n), digitsValue_expDigits]

theorem takeNumber_pad (n : Nat) (rest : JsString) :
    takeNumber (pad n ++ unit '-' :: rest) = some (n, rest) := by
  have hpad : pad n = (List.replicate (16 - (countText n).length) 0 ++
      JsNumber.expDigits n).map JsNumber.digitUnit := by
    rw [List.map_append, List.map_replicate]
    rfl
  rw [hpad, takeNumber_digits (by simp [expDigits_ne_nil]), digitsValue_append_list,
    digitsValue_zeros, digitsValue_expDigits]
  simp

theorem IsUuid.notMem {uuid : JsString} (h : IsUuid uuid) {c : CodeUnit} (hhex : hexDigit? c = none)
    (hc : c ≠ unit '-') : c ∉ uuid := by
  intro hmem
  rcases h.units c hmem with hsome | heq
  · rw [hhex] at hsome
    cases hsome
  · exact hc heq

theorem matchJournalFile_journalFile (now firstSeq lastSeq : Nat) {uuid : JsString}
    (h : IsUuid uuid) :
    matchJournalFile (journalFile now firstSeq lastSeq uuid) = some (now, firstSeq, lastSeq) := by
  have hlength : (js ".jsonl").length = 6 := by decide
  have hterminator : uuid.all (fun c => !isLineTerminator c) = true := by
    rw [List.all_eq_true]
    intro c hmem
    simp only [isLineTerminator, List.mem_cons, List.not_mem_nil, or_false, Bool.not_eq_true',
      decide_eq_false_iff_not]
    rcases h.units c hmem with hsome | rfl
    · intro hval
      rw [hexDigit?] at hsome
      split_ifs at hsome <;> first | omega | cases hsome
    · decide
  rw [matchJournalFile, journalFile, takeNumber_countText]
  simp only [Option.bind_eq_bind, Option.bind_some, takeNumber_pad]
  have htake : (uuid ++ js ".jsonl").take ((uuid ++ js ".jsonl").length - 6) = uuid := by
    simp [hlength]
  rw [htake, if_pos ⟨List.suffix_append _ _, h.nonempty, hterminator⟩]
  rfl

theorem slash_notMem_digits (digits : List (Fin 10)) : slash ∉ digits.map JsNumber.digitUnit := by
  have hdigit : ∀ d : Fin 10, JsNumber.digitUnit d ≠ slash := by decide
  simp [hdigit]

theorem slash_notMem_countText (n : Nat) : slash ∉ countText n :=
  slash_notMem_digits _

theorem slash_notMem_pad (n : Nat) : slash ∉ pad n := by
  rw [pad, List.mem_append]
  rintro (h | h)
  · exact absurd (List.eq_of_mem_replicate h) (by decide)
  · exact slash_notMem_countText n h

theorem slash_notMem_journalFile (now firstSeq lastSeq : Nat) {uuid : JsString} (h : IsUuid uuid) :
    slash ∉ journalFile now firstSeq lastSeq uuid := by
  have huuid : slash ∉ uuid := h.notMem (by decide) (by decide)
  have hdash : slash ≠ unit '-' := by decide
  simp [journalFile, slash_notMem_countText, slash_notMem_pad, huuid, hdash,
    show slash ∉ js ".jsonl" by decide]

/-- A journal key is parsed to its scope, its node and the numbers in its file name. -/
theorem parseJournalKey_journalKey {scope : Scope} (h : scope.KeyNames) {node : JsString}
    (hnode : KeyName node) (now firstSeq lastSeq : Nat) {uuid : JsString} (huuid : IsUuid uuid) :
    parseJournalKey (journalKey keyPrefix scope node now firstSeq lastSeq uuid) keyPrefix =
      some ⟨scope, node, now, firstSeq, lastSeq, seqCount firstSeq lastSeq⟩ := by
  have hfile := slash_notMem_journalFile now firstSeq lastSeq huuid
  have hne : journalFile now firstSeq lastSeq uuid ≠ [] := by
    simp [journalFile]
  have hsplit : split slash (path [js "journal", safe node,
      journalFile now firstSeq lastSeq uuid]) =
        [js "journal", safe node, journalFile now firstSeq lastSeq uuid] := by
    apply split_path (by simp)
    simp [slash_notMem_safe, hfile, show slash ∉ js "journal" by decide]
  rw [parseJournalKey, parseScopeFromKey, journalKey, scopePrefix,
    segmentsOf_append keyPrefix (plain_scopeSegments scope), hsplit, Option.bind_some,
    scopeOfParts_append h]
  simp only [Option.bind_eq_bind, Option.bind_some, part, scopeSegments, collectionSegments,
    databaseSegments, List.cons_append, List.nil_append, List.getD_cons_zero, List.getD_cons_succ,
    ne_eq, not_true_eq_false, or_self, if_false, hnode.safe_ne_nil, hne, hnode.decode,
    matchJournalFile_journalFile now firstSeq lastSeq huuid, Option.getD_some]
  rfl

/-! ## What lies under a prefix -/

theorem underPrefix_append {segments rest : List JsString} (h : PlainSegments segments)
    (hrest : rest ≠ []) (hmore : PlainSegments (segments ++ rest)) :
    underPrefix keyPrefix segments ++ slash :: path rest =
      underPrefix keyPrefix (segments ++ rest) := by
  rw [underPrefix_eq keyPrefix h, underPrefix_eq keyPrefix hmore, List.append_assoc,
    path_append h.nonempty hrest]

/-- A key lies under a prefix when its segments begin with those of the prefix. -/
theorem underPrefix_prefix_iff {segments segments' : List JsString} (h : PlainSegments segments)
    (h' : PlainSegments segments') :
    underPrefix keyPrefix segments ++ [slash] <+: underPrefix keyPrefix segments' ↔
      ∃ rest, rest ≠ [] ∧ segments' = segments ++ rest := by
  rw [underPrefix_eq keyPrefix h, underPrefix_eq keyPrefix h', List.append_assoc,
    List.prefix_append_right_inj]
  constructor
  · rintro ⟨rest, hrest⟩
    rw [List.append_assoc, List.singleton_append] at hrest
    have hsplit := congrArg (split slash) hrest
    rw [split_path_append h.nonempty h.noSlash, split_path h'.nonempty h'.noSlash] at hsplit
    exact ⟨_, split_ne_nil _ _, hsplit.symm⟩
  · rintro ⟨rest, hrest, rfl⟩
    rw [← path_append h.nonempty hrest]
    exact ⟨path rest, by simp⟩

/-- The segments of a key; `now` and `uuidText` are what its file name is made of. -/
def StorageKey.segments (now : Nat) (uuidText : Nat → JsString) : StorageKey → List JsString
  | .databaseTombstone database => [js "database-tombstones", safe database ++ js ".json"]
  | .databaseMeta database => databaseSegments database ++ [js "meta.json"]
  | .collectionTombstone database collection =>
      databaseSegments database ++ [js "collection-tombstones", safe collection ++ js ".json"]
  | .collectionMeta database collection =>
      collectionSegments database collection ++ [js "meta.json"]
  | .journal scope node firstSeq lastSeq uuid =>
      scopeSegments scope ++
        [js "journal", safe node, journalFile now firstSeq lastSeq (uuidText uuid)]
  | .latest scope => scopeSegments scope ++ [js "latest.json"]

/-- The key as the storage has it. -/
def StorageKey.text (now : Nat) (uuidText : Nat → JsString) : StorageKey → JsString
  | .databaseTombstone database => databaseTombstoneKey keyPrefix database
  | .databaseMeta database => databaseMetaKey keyPrefix database
  | .collectionTombstone database collection =>
      collectionTombstoneKey keyPrefix database collection
  | .collectionMeta database collection => collectionMetaKey keyPrefix database collection
  | .journal scope node firstSeq lastSeq uuid =>
      journalKey keyPrefix scope node now firstSeq lastSeq (uuidText uuid)
  | .latest scope => scopeFileKey keyPrefix scope (js "latest.json")

/-- The argument of `deletePrefix`. -/
def StoragePrefix.text : StoragePrefix → JsString
  | .database d => databasePrefix keyPrefix d ++ [slash]
  | .collection d c => collectionPrefix keyPrefix d c ++ [slash]

def StorageKey.KeyNames : StorageKey → Prop
  | .databaseTombstone database => KeyName database
  | .databaseMeta database => KeyName database
  | .collectionTombstone database collection => KeyName database ∧ KeyName collection
  | .collectionMeta database collection => KeyName database ∧ KeyName collection
  | .journal scope node _ _ _ => scope.KeyNames ∧ KeyName node
  | .latest scope => scope.KeyNames

def StoragePrefix.KeyNames : StoragePrefix → Prop
  | .database d => KeyName d
  | .collection d c => KeyName d ∧ KeyName c

section

variable (now : Nat) {uuidText : Nat → JsString} (huuid : ∀ n, IsUuid (uuidText n))

include huuid

theorem plain_segments (key : StorageKey) : PlainSegments (key.segments now uuidText) := by
  have hdb : slash ∉ js "db" := by decide
  have hcollection : slash ∉ js "collection" := by decide
  have hshard : slash ∉ js "shard" := by decide
  have hmeta : slash ∉ js "meta.json" := by decide
  have hjson : slash ∉ js ".json" := by decide
  cases key with
  | databaseTombstone database =>
      apply plainSegments_of (by simp [StorageKey.segments]) _ (Or.inr rfl)
      simp [StorageKey.segments, slash_notMem_safe, hjson,
        show slash ∉ js "database-tombstones" by decide]
  | databaseMeta database =>
      apply plainSegments_of (by simp [StorageKey.segments]) _ (Or.inl rfl)
      simp [StorageKey.segments, databaseSegments, slash_notMem_safe, hdb, hmeta]
  | collectionTombstone database collection =>
      apply plainSegments_of (by simp [StorageKey.segments]) _ (Or.inl rfl)
      simp [StorageKey.segments, databaseSegments, slash_notMem_safe, hdb, hjson,
        show slash ∉ js "collection-tombstones" by decide]
  | collectionMeta database collection =>
      apply plainSegments_of (by simp [StorageKey.segments]) _ (Or.inl rfl)
      simp [StorageKey.segments, collectionSegments, databaseSegments, slash_notMem_safe, hdb,
        hcollection, hmeta]
  | journal scope node firstSeq lastSeq uuid =>
      apply plainSegments_of (by simp [StorageKey.segments]) _ (Or.inl rfl)
      simp [StorageKey.segments, scopeSegments, collectionSegments, databaseSegments,
        slash_notMem_safe, hdb, hcollection, hshard, slash_notMem_journalFile now _ _ (huuid uuid),
        show slash ∉ js "journal" by decide]
  | latest scope =>
      apply plainSegments_of (by simp [StorageKey.segments]) _ (Or.inl rfl)
      simp [StorageKey.segments, scopeSegments, collectionSegments, databaseSegments,
        slash_notMem_safe, hdb, hcollection, hshard, show slash ∉ js "latest.json" by decide]

theorem text_eq_underPrefix (key : StorageKey) :
    key.text keyPrefix now uuidText = underPrefix keyPrefix (key.segments now uuidText) := by
  have hplain := plain_segments now huuid key
  cases key with
  | databaseTombstone database => rfl
  | databaseMeta database =>
      exact underPrefix_append keyPrefix (plain_databaseSegments database) (by simp) hplain
  | collectionTombstone database collection =>
      exact underPrefix_append keyPrefix (plain_databaseSegments database) (by simp) hplain
  | collectionMeta database collection =>
      exact underPrefix_append keyPrefix (plain_collectionSegments database collection) (by simp)
        hplain
  | journal scope node firstSeq lastSeq uuid =>
      exact underPrefix_append keyPrefix (plain_scopeSegments scope) (by simp) hplain
  | latest scope =>
      exact underPrefix_append keyPrefix (plain_scopeSegments scope) (by simp) hplain

/-- `deletePrefix` of a database or a collection covers the keys that are its own. -/
theorem covers_iff {keys : StoragePrefix} {key : StorageKey} (hkeys : keys.KeyNames)
    (hkey : key.KeyNames) :
    keys.text keyPrefix <+: key.text keyPrefix now uuidText ↔ keys.covers key = true := by
  rw [text_eq_underPrefix keyPrefix now huuid]
  have hplain := plain_segments now huuid key
  have htombstones : js "database-tombstones" ≠ js "db" := by decide
  have hmeta : js "meta.json" ≠ js "collection" := by decide
  have hcollections : js "collection-tombstones" ≠ js "collection" := by decide
  cases keys with
  | database d =>
      have hd : KeyName d := hkeys
      -- only the second segment tells databases apart
      have hsafe : ∀ d', KeyName d' → (safe d' = safe d ↔ d' = d) :=
        fun d' hd' => ⟨hd'.safe_inj hd, congrArg safe⟩
      rw [StoragePrefix.text, databasePrefix,
        underPrefix_prefix_iff keyPrefix (plain_databaseSegments d) hplain]
      cases key with
      | databaseTombstone d' =>
          simp [StorageKey.segments, databaseSegments, StoragePrefix.covers, htombstones]
      | databaseMeta d' =>
          simp [StorageKey.segments, databaseSegments, StoragePrefix.covers, hsafe d' hkey]
      | collectionTombstone d' c' =>
          simp [StorageKey.segments, databaseSegments, StoragePrefix.covers, hsafe d' hkey.1]
      | collectionMeta d' c' =>
          simp [StorageKey.segments, collectionSegments, databaseSegments, StoragePrefix.covers,
            hsafe d' hkey.1]
      | journal scope node firstSeq lastSeq uuid =>
          simp [StorageKey.segments, scopeSegments, collectionSegments, databaseSegments,
            StoragePrefix.covers, hsafe _ hkey.1.database]
      | latest scope =>
          simp [StorageKey.segments, scopeSegments, collectionSegments, databaseSegments,
            StoragePrefix.covers, hsafe _ hkey.database]
  | collection d c =>
      have hsafe : ∀ d' c', KeyName d' → KeyName c' →
          (safe d' = safe d ∧ safe c' = safe c ↔ d' = d ∧ c' = c) := by
        intro d' c' hd' hc'
        constructor
        · exact fun h => ⟨hd'.safe_inj hkeys.1 h.1, hc'.safe_inj hkeys.2 h.2⟩
        · exact fun h => ⟨congrArg safe h.1, congrArg safe h.2⟩
      rw [StoragePrefix.text, collectionPrefix,
        underPrefix_prefix_iff keyPrefix (plain_collectionSegments d c) hplain]
      cases key with
      | databaseTombstone d' =>
          simp [StorageKey.segments, collectionSegments, databaseSegments, StoragePrefix.covers,
            htombstones]
      | databaseMeta d' =>
          simp [StorageKey.segments, collectionSegments, databaseSegments, StoragePrefix.covers]
      | collectionTombstone d' c' =>
          simp [StorageKey.segments, collectionSegments, databaseSegments, StoragePrefix.covers,
            hcollections]
      | collectionMeta d' c' =>
          simp [StorageKey.segments, collectionSegments, databaseSegments, StoragePrefix.covers,
            hsafe d' c' hkey.1 hkey.2]
      | journal scope node firstSeq lastSeq uuid =>
          simp [StorageKey.segments, scopeSegments, collectionSegments, databaseSegments,
            StoragePrefix.covers, hsafe _ _ hkey.1.database hkey.1.collection]
      | latest scope =>
          simp [StorageKey.segments, scopeSegments, collectionSegments, databaseSegments,
            StoragePrefix.covers, hsafe _ _ hkey.database hkey.collection]

end

end

end Persist
end ObjyDb
