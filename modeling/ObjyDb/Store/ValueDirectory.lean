import ObjyDb.Query.Keys

/-!
# ValueDirectory — values shared between rows

`ValueDirectory` keeps one copy of a value that was seen often enough under a path.  Every place of
a row that shows the copy holds a reference; values seen less often are counted as candidates, of
which the oldest are dropped when there are too many.
-/

namespace ObjyDb

open Js

structure ValueDirectoryConfig where
  enabled : Bool
  minRefs : Nat
  maxEntries : Nat
  maxCandidates : Nat
  maxCandidatesPerPath : Nat
  maxPaths : Nat
  maxStringLength : Nat
  maxKeyBytes : Nat
  poolStructuredValues : Bool
  maxNestedContainerEntries : Nat

def defaultValueDirectory : ValueDirectoryConfig where
  enabled := true
  minRefs := 2
  maxEntries := 100000
  maxCandidates := 4096
  maxCandidatesPerPath := 256
  maxPaths := 1024
  maxStringLength := 256
  maxKeyBytes := 512
  poolStructuredValues := false
  maxNestedContainerEntries := 64

def estimateValue : Json → Nat
  | .null => 0
  | .num _ => 8
  | .bool _ => 1
  | .str s => s.length * 2
  | .arr items => 24 + estimateItems items
  | .obj fields => 32 + estimateFields fields
where
  estimateItems : List Json → Nat
    | [] => 0
    | item :: items => 8 + estimateValue item + estimateItems items
  estimateFields : Fields → Nat
    | [] => 0
    | (key, value) :: fields => key.length * 2 + 8 + estimateValue value + estimateFields fields

/-- A pooled value with the number of references to it. -/
structure PoolEntry where
  value : Json
  refs : Int
  bytes : Nat

/-- The candidates of each path, the oldest first, with how often they were seen. -/
abbrev PathCandidates := List (JsString × List (JsString × Nat))

structure ValueDirectory where
  config : ValueDirectoryConfig
  pool : List (JsString × PoolEntry)
  pathCandidates : PathCandidates
  candidateCount : Int

namespace ValueDirectory

def new (config : ValueDirectoryConfig) : ValueDirectory := ⟨config, [], [], 0⟩

/-! ## Candidates -/

/-- `path || "$"` -/
def normalized (path : JsString) : JsString :=
  if path = [] then js "$" else path

def candidatesAt (d : ValueDirectory) (path : JsString) : List (JsString × Nat) :=
  (Assoc.get? d.pathCandidates path).getD []

/-- `candidatesForPath(path)` for a normalized path, and whether there are candidates. -/
def candidatesForPath (d : ValueDirectory) (path : JsString) : ValueDirectory × Bool :=
  if (Assoc.get? d.pathCandidates path).isSome then (d, true)
  else if d.config.maxPaths ≤ d.pathCandidates.length then (d, false)
  else ({ d with pathCandidates := Assoc.set d.pathCandidates path [] }, true)

/-- The first path that has candidates loses the oldest. -/
def dropOldest : PathCandidates → Option PathCandidates
  | [] => none
  | (path, []) :: rest => (dropOldest rest).map ((path, []) :: ·)
  | (path, _ :: candidates) :: rest => some ((path, candidates) :: rest)

/-- How many candidates there are. -/
def candidateTotal (maps : PathCandidates) : Nat :=
  (maps.map fun entry => entry.2.length).sum

theorem candidateTotal_dropOldest {maps maps' : PathCandidates} (h : dropOldest maps = some maps') :
    candidateTotal maps = candidateTotal maps' + 1 := by
  induction maps generalizing maps' with
  | nil => cases h
  | cons entry rest ih =>
      rcases entry with ⟨path, candidates⟩
      cases candidates with
      | nil =>
          rcases Option.map_eq_some_iff.mp h with ⟨rest', hrest, rfl⟩
          have hsum := ih hrest
          simp only [candidateTotal, List.map_cons, List.length_nil, List.sum_cons] at hsum ⊢
          omega
      | cons oldest candidates =>
          cases h
          simp only [candidateTotal, List.map_cons, List.length_cons, List.sum_cons]
          omega

/-- `while (this.candidateCount >= this.maxCandidates && this.dropOldestCandidate()) {}` -/
def makeRoom (d : ValueDirectory) : ValueDirectory :=
  if (d.config.maxCandidates : Int) ≤ d.candidateCount then
    match _hdrop : dropOldest d.pathCandidates with
    | some maps => makeRoom { d with pathCandidates := maps, candidateCount := d.candidateCount - 1 }
    | none => d
  else d
termination_by candidateTotal d.pathCandidates
decreasing_by
  have htotal := candidateTotal_dropOldest _hdrop
  omega

def setCandidates (d : ValueDirectory) (path : JsString) (candidates : List (JsString × Nat))
    (candidateCount : Int) : ValueDirectory :=
  { d with
    pathCandidates := Assoc.set d.pathCandidates path candidates
    candidateCount := candidateCount }

/-- The oldest candidate of a path that has as many as it may have is dropped. -/
def dropOldestOf (d : ValueDirectory) (path : JsString) : ValueDirectory :=
  if d.config.maxCandidatesPerPath ≤ (d.candidatesAt path).length then
    match d.candidatesAt path with
    | [] => d
    | _ :: candidates => d.setCandidates path candidates (d.candidateCount - 1)
  else d

def rememberCandidate (d : ValueDirectory) (path key : JsString) (count : Nat) : ValueDirectory :=
  if d.config.maxCandidates = 0 ∨ d.config.maxCandidatesPerPath = 0 then d
  else if (Assoc.get? (d.candidatesAt path) key).isSome then
    d.setCandidates path (Assoc.set (d.candidatesAt path) key count) d.candidateCount
  else
    let room := d.makeRoom
    if (d.config.maxCandidates : Int) ≤ room.candidateCount then room
    else
      let left := room.dropOldestOf path
      if left.candidateCount < d.config.maxCandidates ∧
          (left.candidatesAt path).length < d.config.maxCandidatesPerPath then
        left.setCandidates path (Assoc.set (left.candidatesAt path) key count)
          (left.candidateCount + 1)
      else left

def deleteCandidate (d : ValueDirectory) (path key : JsString) : ValueDirectory :=
  match Assoc.get? d.pathCandidates path with
  | some candidates =>
      if (Assoc.get? candidates key).isSome then
        d.setCandidates path (Assoc.erase candidates key) (d.candidateCount - 1)
      else d
  | none => d

/-- `shouldPromote(path, key)` for a normalized path -/
def shouldPromote (d : ValueDirectory) (path key : JsString) : ValueDirectory × Bool :=
  if d.config.maxEntries ≤ d.pool.length then (d, false)
  else
    let opened := d.candidatesForPath path
    if opened.2 then
      let count := (Assoc.get? (opened.1.candidatesAt path) key).getD 0 + 1
      if d.config.minRefs ≤ count then (opened.1, true)
      else (opened.1.rememberCandidate path key count, false)
    else (opened.1, false)

/-! ## Storing and releasing -/

section

variable (collation : Collation)

def structuredKey (config : ValueDirectoryConfig) (tag : JsString) (value : Json) :
    Option JsString :=
  if config.poolStructuredValues then
    let key := stableKey collation value
    if key = [] ∨ config.maxKeyBytes < key.length then none else some (tag ++ key)
  else none

def keyFor (config : ValueDirectoryConfig) (value : Json) : Option JsString :=
  match value with
  | .str s => if config.maxStringLength < s.length then none else some (js "string:" ++ s)
  | .arr items => structuredKey collation config (js "array:") (.arr items)
  | .obj fields => structuredKey collation config (js "object:") (.obj fields)
  | _ => none

/-- One more reference to a pooled value. -/
def share (d : ValueDirectory) (key : JsString) (pooled : PoolEntry) : ValueDirectory :=
  { d with pool := Assoc.set d.pool key { pooled with refs := pooled.refs + 1 } }

/-- A candidate becomes a pooled value. -/
def promote (d : ValueDirectory) (path key : JsString) (value : Json) : ValueDirectory :=
  ({ d with pool := Assoc.set d.pool key ⟨value, 1, estimateValue value⟩ }).deleteCandidate path key

/-- The part of `store` that consults the pool: the key and the value of the entry that is
referred to, if any. -/
def pooled (d : ValueDirectory) (path : JsString) (value : Json) :
    ValueDirectory × Option (JsString × Json) :=
  match keyFor collation d.config value with
  | none => (d, none)
  | some key =>
      match Assoc.get? d.pool key with
      | some entry => (d.share key entry, some (key, entry.value))
      | none =>
          let seen := d.shouldPromote (normalized path) key
          if seen.2 then (seen.1.promote (normalized path) key value, some (key, value))
          else (seen.1, none)

/-- What storing a value leaves: the references pushed, the value for the row, and whether that is
a pooled, frozen one. -/
structure Stored (α : Type) where
  directory : ValueDirectory
  refs : List JsString
  value : α
  frozen : Bool

/-- `store(value, refs, path)`, where `nested` is what `cloneWithNestedPooling` does with the
members of a container of `size` entries. -/
def storeWith (d : ValueDirectory) (refs : List JsString) (path : JsString) (trusted : Bool)
    (value : Json) (size : Nat) (nested : ValueDirectory → Stored Json) : Stored Json :=
  if d.config.enabled then
    match d.pooled collation path value with
    | (directory, some (key, shared)) => ⟨directory, refs ++ [key], shared, true⟩
    | (directory, none) =>
        if trusted ∧ ¬d.config.poolStructuredValues then ⟨directory, refs, value, false⟩
        else if d.config.maxNestedContainerEntries < size then ⟨directory, refs, value, false⟩
        else nested directory
  else ⟨d, refs, value, false⟩

/-- `store(value, refs, path, { trusted })`; JSON values are their own clones. -/
def store (d : ValueDirectory) (refs : List JsString) (path : JsString) (trusted : Bool) :
    Json → Stored Json
  | .arr items => d.storeWith collation refs path trusted (.arr items) items.length fun directory =>
      let stored := storeItems directory refs (path ++ js "[]") trusted items
      ⟨stored.directory, stored.refs, .arr stored.value, false⟩
  | .obj fields => d.storeWith collation refs path trusted (.obj fields) fields.length fun directory =>
      let stored := storeFields directory refs path trusted fields
      ⟨stored.directory, stored.refs, .obj stored.value, false⟩
  | .null => d.storeWith collation refs path trusted .null 0 fun directory =>
      ⟨directory, refs, .null, false⟩
  | .bool b => d.storeWith collation refs path trusted (.bool b) 0 fun directory =>
      ⟨directory, refs, .bool b, false⟩
  | .num x => d.storeWith collation refs path trusted (.num x) 0 fun directory =>
      ⟨directory, refs, .num x, false⟩
  | .str s => d.storeWith collation refs path trusted (.str s) 0 fun directory =>
      ⟨directory, refs, .str s, false⟩
where
  storeItems (d : ValueDirectory) (refs : List JsString) (path : JsString) (trusted : Bool) :
      List Json → Stored (List Json)
    | [] => ⟨d, refs, [], false⟩
    | item :: items =>
        let first := store d refs path trusted item
        let rest := storeItems first.directory first.refs path trusted items
        ⟨rest.directory, rest.refs, first.value :: rest.value, false⟩
  storeFields (d : ValueDirectory) (refs : List JsString) (path : JsString) (trusted : Bool) :
      Fields → Stored Fields
    | [] => ⟨d, refs, [], false⟩
    | (key, value) :: fields =>
        let first := store d refs (path ++ js "." ++ key) trusted value
        let rest := storeFields first.directory first.refs path trusted fields
        ⟨rest.directory, rest.refs, (key, first.value) :: rest.value, false⟩

end

def release (d : ValueDirectory) (key : JsString) : ValueDirectory :=
  match Assoc.get? d.pool key with
  | none => d
  | some entry =>
      if entry.refs - 1 ≤ 0 then { d with pool := Assoc.erase d.pool key }
      else { d with pool := Assoc.set d.pool key { entry with refs := entry.refs - 1 } }

def releaseAll (d : ValueDirectory) (refs : List JsString) : ValueDirectory :=
  refs.foldl release d

def clear (d : ValueDirectory) : ValueDirectory :=
  { d with pool := [], pathCandidates := [], candidateCount := 0 }

end ValueDirectory

/-! ## `ObjectRowStore` -/

structure ObjectRow where
  value : Fields
  refs : List JsString

structure ObjectRowStore where
  rows : List (JsString × ObjectRow)
  valueDirectory : ValueDirectory

namespace ObjectRowStore

/-- A row while it is built.  `proto` is the prototype of the object when it is a frozen one. -/
structure Draft where
  directory : ValueDirectory
  refs : List JsString
  value : Fields
  proto : Option Json

/-- The decimal text of an array index. -/
def indexText (i : Nat) : JsString :=
  (JsNumber.ofNat i).toText

/-- Whether a frozen value has an own property that assignments through it cannot change. -/
def hasOwn (value : Json) (key : JsString) : Bool :=
  match value with
  | .obj fields => decide (key ∈ Assoc.keys fields)
  | .arr items => decide (key = js "length") || (List.range items.length).any (indexText · = key)
  | _ => false

/-- `value[key] = item`; `none` where the assignment throws.  Assigning `__proto__` sets the
prototype, and a property of a frozen prototype cannot be assigned. -/
def assignField (value : Fields) (proto : Option Json) (key : JsString) (item : Json)
    (frozen : Bool) : Option (Fields × Option Json) :=
  if key = js "__proto__" then some (value, if frozen then some item else none)
  else if proto.any (hasOwn · key) ∧ key ∉ Assoc.keys value then none
  else some (Assoc.set value key item, proto)

/-- The loop of `rebuild`, and whether it ran to its end. -/
def buildRow (collation : Collation) (trusted : Bool) : Draft → Fields → Draft × Bool
  | draft, [] => (draft, true)
  | draft, (key, item) :: live =>
      let stored := draft.directory.store collation draft.refs key trusted item
      match assignField draft.value draft.proto key stored.value stored.frozen with
      | none => ({ draft with directory := stored.directory, refs := stored.refs }, false)
      | some (value, proto) =>
          buildRow collation trusted ⟨stored.directory, stored.refs, value, proto⟩ live

def releaseRow (s : ObjectRowStore) (id : JsString) : ObjectRowStore where
  rows := Assoc.erase s.rows id
  valueDirectory :=
    match Assoc.get? s.rows id with
    | some old => s.valueDirectory.releaseAll old.refs
    | none => s.valueDirectory

/-- `rebuild(id, live, { trusted })`, also where it throws. -/
def rebuild (collation : Collation) (s : ObjectRowStore) (id : JsString) (live : Fields)
    (trusted : Bool) : ObjectRowStore :=
  let released := s.releaseRow id
  if live = [] then released
  else
    let built := buildRow collation trusted ⟨released.valueDirectory, [], [], none⟩ live
    if built.2 then
      ⟨Assoc.set released.rows id ⟨built.1.value, built.1.refs⟩, built.1.directory⟩
    else ⟨released.rows, built.1.directory⟩

def removeObject (s : ObjectRowStore) (id : JsString) : ObjectRowStore :=
  if (Assoc.get? s.rows id).isSome then s.releaseRow id else s

def clear (s : ObjectRowStore) : ObjectRowStore :=
  ⟨[], s.valueDirectory.clear⟩

def read (s : ObjectRowStore) (id : JsString) : Option Fields :=
  (Assoc.get? s.rows id).map ObjectRow.value

end ObjectRowStore

end ObjyDb
