import Mathlib.Data.List.Sort
import ObjyDb.Js.Conversions
import ObjyDb.Lib.Assoc
import ObjyDb.Lib.BeamSearch

/-!
# Hnsw — the index of vectors

`src/hnsw.js`: layers of a graph over the vectors of a collection.  A node is linked to near nodes
on each of its layers; a search goes down from the entry point of the highest layer.

`angularDistance` is a parameter, whose values are in a linear order, and so is the level that a
node gets, which the source draws at random.
-/

namespace ObjyDb

open Js

/-- `M` and `efConstruction`, after `positiveInt`. -/
structure HNSWConfig where
  M : ℕ
  ef : ℕ
  M_pos : 0 < M
  ef_pos : 0 < ef

/-- `M0` on the lowest layer and `M` on the others. -/
def HNSWConfig.maxNeighbors (config : HNSWConfig) (layer : ℕ) : ℕ :=
  if layer = 0 then config.M * 2 else config.M

/-- The `neighbors` of a node, by layer; a hole of the array is an empty list. -/
abbrev Links := List (List JsString)

structure HNSWIndex where
  nodes : List (JsString × Links)
  /-- `entryPoint` with `maxLayer`, which is -1 where there is no entry point. -/
  entryPoint : Option (JsString × ℕ)

namespace HNSWIndex

def empty : HNSWIndex :=
  ⟨[], none⟩

def ids (index : HNSWIndex) : List JsString :=
  Assoc.keys index.nodes

/-- `node.neighbors[layer] || []` -/
def linksOf (index : HNSWIndex) (layer : ℕ) (id : JsString) : List JsString :=
  match Assoc.get? index.nodes id with
  | none => []
  | some links => links[layer]?.getD []

/-- All links of a layer, which bound the steps of a search. -/
def allLinks (index : HNSWIndex) (layer : ℕ) : List JsString :=
  index.nodes.flatMap fun node => node.2[layer]?.getD []

/-- `links[layer] = ids`, which can make the array longer. -/
def setAt (links : Links) (layer : ℕ) (ids : List JsString) : Links :=
  (links ++ List.replicate (layer + 1 - links.length) []).set layer ids

def setLinks (index : HNSWIndex) (id : JsString) (layer : ℕ) (ids : List JsString) : HNSWIndex :=
  match Assoc.get? index.nodes id with
  | none => index
  | some links => { index with nodes := Assoc.set index.nodes id (setAt links layer ids) }

/-! ## Removing a node -/

/-- The highest layer so far, and the first node that has it. -/
def higher (best : Option (JsString × ℕ)) (node : JsString × Links) : Option (JsString × ℕ) :=
  match node.2.length with
  | 0 => best
  | layer + 1 => if best.all (fun b => decide (b.2 < layer)) then some (node.1, layer) else best

/-- `_resetEntryPoint` -/
def resetEntryPoint (nodes : List (JsString × Links)) : Option (JsString × ℕ) :=
  nodes.foldl higher none

/-- A neighbour forgets its link to `id`. -/
def unlinkFrom (id : JsString) (layer : ℕ) (index : HNSWIndex) (neighborId : JsString) :
    HNSWIndex :=
  match Assoc.get? index.nodes neighborId with
  | none => index
  | some links =>
      match links[layer]? with
      | none => index
      | some ids => setLinks index neighborId layer (ids.filter fun entry => decide (entry ≠ id))

/-- The loop of `_unlinkExisting` over the layers of the node, from `layer` on. -/
def unlinkLayers (id : JsString) (index : HNSWIndex) : ℕ → Links → HNSWIndex
  | _, [] => index
  | layer, ids :: rest =>
      unlinkLayers id (ids.foldl (unlinkFrom id layer) index) (layer + 1) rest

/-- `_unlinkExisting` -/
def unlinkExisting (index : HNSWIndex) (id : JsString) (old : Links) : HNSWIndex :=
  let nodes := Assoc.erase (unlinkLayers id index 0 old).nodes id
  { nodes
    entryPoint :=
      if index.entryPoint.any (fun entry => decide (entry.1 = id)) then resetEntryPoint nodes
      else index.entryPoint }

def remove (index : HNSWIndex) (id : JsString) : HNSWIndex :=
  match Assoc.get? index.nodes id with
  | none => index
  | some old => unlinkExisting index id old

/-! ## Searching -/

section

variable {V δ : Type} [LinearOrder δ]
variable (config : HNSWConfig) (distance : V → V → δ) (getVec : JsString → Option V)

/-- The distance of a node, if it has a vector. -/
def scoreOf (vec : V) (id : JsString) : Option δ :=
  (getVec id).map (distance vec)

def searchLayer (index : HNSWIndex) (entryPoints : List (Found JsString δ)) (vec : V)
    (ef layer : ℕ) : List (Found JsString δ) :=
  BeamSearch.search (index.linksOf layer) (scoreOf distance getVec vec) ef
    (entryPoints.length + (index.allLinks layer).length + 1) entryPoints

/-- The entry point as the first node of a search, if it has a vector. -/
def entryFor (index : HNSWIndex) (vec : V) : List (Found JsString δ) :=
  match index.entryPoint with
  | none => []
  | some (id, _) =>
      match scoreOf distance getVec vec id with
      | none => []
      | some dist => [⟨id, dist⟩]

/-- Going down through `count` layers above `lowest`, with one node kept. -/
def descend (index : HNSWIndex) (vec : V) (lowest : ℕ) :
    ℕ → List (Found JsString δ) → List (Found JsString δ)
  | 0, entry => entry
  | count + 1, entry =>
      let found := searchLayer distance getVec index entry vec 1 (lowest + count + 1)
      descend index vec lowest count (if found = [] then entry else found.take 1)

/-- `search(queryVec, k, ef)` -/
def search (index : HNSWIndex) (queryVec : V) (k : ℕ) (ef : Option ℕ) : List (Found JsString δ) :=
  match index.entryPoint with
  | none => []
  | some (id, maxLayer) =>
      -- the empty identifier reads as no entry point
      if id = [] then []
      else
        match entryFor distance getVec index queryVec with
        | [] => []
        | entry =>
            let ef := ef.getD (max k 20)
            let entry := descend distance getVec index queryVec 0 maxLayer entry
            (searchLayer distance getVec index entry queryVec
              (max (if 0 < ef then ef else 20) k) 0).take k

/-! ## Inserting a node -/

/-- The loop of `_selectNeighbors` over the candidates, which stops when enough are selected. -/
def selectLoop (maxNeighbors : ℕ) : List (Found JsString δ) → List (Found JsString δ) →
    List (Found JsString δ) → List (Found JsString δ) × List (Found JsString δ)
  | [], selected, discarded => (selected, discarded)
  | candidate :: rest, selected, discarded =>
      if maxNeighbors ≤ selected.length then (selected, discarded)
      else
        match getVec candidate.id with
        | none => selectLoop maxNeighbors rest selected discarded
        | some candidateVec =>
            -- nearer to a selected node than to the new one
            if selected.any (fun current =>
                (scoreOf distance getVec candidateVec current.id).any fun dist =>
                  decide (dist < candidate.dist)) then
              selectLoop maxNeighbors rest selected (discarded ++ [candidate])
            else selectLoop maxNeighbors rest (selected ++ [candidate]) discarded

def selectNeighbors (maxNeighbors : ℕ) (candidates : List (Found JsString δ)) :
    List (Found JsString δ) :=
  let (selected, discarded) := selectLoop distance getVec maxNeighbors candidates [] []
  selected ++ discarded.take (maxNeighbors - selected.length)

/-- The links of a node that has too many, the nearest first. -/
def pruneLinks (maxNeighbors : ℕ) (otherVec : V) (links : List JsString) : List JsString :=
  let pruned := links.filterMap fun id =>
    (scoreOf distance getVec otherVec id).map fun dist => (⟨id, dist⟩ : Found JsString δ)
  (selectNeighbors distance getVec maxNeighbors
    (pruned.mergeSort fun left right => decide (left.dist ≤ right.dist))).map Found.id

/-- A neighbour of the new node is linked to it. -/
def linkBack (key : JsString) (layer : ℕ) (index : HNSWIndex) (neighbor : Found JsString δ) :
    HNSWIndex :=
  let links := index.linksOf layer neighbor.id ++ [key]
  if config.maxNeighbors layer < links.length then
    match getVec neighbor.id with
    | none => setLinks index neighbor.id layer links
    | some otherVec =>
        setLinks index neighbor.id layer
          (pruneLinks distance getVec (config.maxNeighbors layer) otherVec links)
  else setLinks index neighbor.id layer links

/-- The layers below `count`, from the highest to the lowest. -/
def connectLayers (key : JsString) (vec : V) :
    ℕ → List (Found JsString δ) → HNSWIndex → HNSWIndex
  | 0, _, index => index
  | layer + 1, entry, index =>
      let candidates := searchLayer distance getVec index entry vec config.ef layer
      let neighbors := selectNeighbors distance getVec (config.maxNeighbors layer) candidates
      -- all that was found is where the next layer starts, not only what was chosen
      let linked := setLinks index key layer (neighbors.map Found.id)
      connectLayers key vec layer candidates
        (neighbors.foldl (linkBack config distance getVec key layer) linked)

/-- `insert(id, vec)` at a level. -/
def insert (index : HNSWIndex) (key : JsString) (vec : V) (level : ℕ) : HNSWIndex :=
  -- a node that is there already is unlinked first
  let index := index.remove key
  let index := { index with nodes := Assoc.set index.nodes key (List.replicate (level + 1) []) }
  match index.entryPoint with
  | none => { index with entryPoint := some (key, level) }
  | some (_, maxLayer) =>
      let entry := descend distance getVec index vec level (maxLayer - level)
        (entryFor distance getVec index vec)
      let connected :=
        connectLayers config distance getVec key vec (min level maxLayer + 1) entry index
      if maxLayer < level then { connected with entryPoint := some (key, level) } else connected

end

end HNSWIndex

/-! ## The vectors of a collection with an index -/

/-- The vectors of a collection and one of its indexes. -/
structure IndexedVectors (V : Type) where
  vectors : List (JsString × V)
  index : HNSWIndex

inductive VectorEvent (V : Type) where
  /-- `_setVector` -/
  | set (id : JsString) (vector : V) (level : ℕ)
  /-- `_removeVector` -/
  | remove (id : JsString)
  /-- One vector of `_runVectorIndexBuild`. -/
  | build (id : JsString) (level : ℕ)

namespace IndexedVectors

variable {V δ : Type} [LinearOrder δ]
variable (config : HNSWConfig) (distance : V → V → δ) (includeId : JsString → Bool)

def getVec (s : IndexedVectors V) (id : JsString) : Option V :=
  Assoc.get? s.vectors id

/-- `_setVector` -/
def setVector (s : IndexedVectors V) (id : JsString) (vector : V) (level : ℕ) : IndexedVectors V :=
  let s := { s with vectors := Assoc.set s.vectors id vector }
  if includeId id = true then
    { s with index := s.index.insert config distance s.getVec id vector level }
  else s

/-- `_removeVector` -/
def removeVector (s : IndexedVectors V) (id : JsString) : IndexedVectors V :=
  { vectors := Assoc.erase s.vectors id
    index := s.index.remove id }

def buildVector (s : IndexedVectors V) (id : JsString) (level : ℕ) : IndexedVectors V :=
  match s.getVec id with
  | none => s
  | some vector =>
      if includeId id = true then
        { s with index := s.index.insert config distance s.getVec id vector level }
      else s

def step (s : IndexedVectors V) : VectorEvent V → IndexedVectors V
  | .set id vector level => s.setVector config distance includeId id vector level
  | .remove id => s.removeVector id
  | .build id level => s.buildVector config distance includeId id level

/-- A run from vectors that no index has yet. -/
def run (vectors : List (JsString × V)) (events : List (VectorEvent V)) : IndexedVectors V :=
  events.foldl (step config distance includeId) ⟨vectors, .empty⟩

end IndexedVectors

/-- The identifiers that a run has set, or built into the index. -/
def enteredIds {V : Type} (events : List (VectorEvent V)) : List JsString :=
  events.filterMap fun
    | .set id _ _ => some id
    | .remove _ => none
    | .build id _ => some id

end ObjyDb
