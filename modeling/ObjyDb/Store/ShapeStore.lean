import ObjyDb.Query.Keys
import ObjyDb.Store.ColumnCells

/-!
# ShapeStore — rows stored by the columns of their layout

The engine groups rows by the sorted names of their fields.  A shape has one `ValueColumn` for each
name; a column keeps every distinct value once, under a code.  A layout is found by a 32-bit hash of
its names.
-/

namespace ObjyDb

open Js

/-- `valueKind(value)`; `none` is `undefined`. -/
def valueKind : Option Json → JsString
  | none => js "undefined"
  | some .null => js "null"
  | some (.arr _) => js "array"
  | some (.bool _) => js "boolean"
  | some (.num _) => js "number"
  | some (.str _) => js "string"
  | some (.obj _) => js "object"

/-- `stableKey(value)`, with the kind in front. -/
def columnKey (collation : Collation) (value : Option Json) : JsString :=
  valueKind value ++ unit ':' ::
    (match value with
      | none => js "undefined"
      | some v => stableKey collation v)

/-! ## `ValueColumn` -/

structure ValueColumn where
  codes : List Nat
  keyToCode : List (JsString × Nat)
  values : List (Option Json)
  refs : List Nat
  freeCodes : List Nat

namespace ValueColumn

def new : ValueColumn where
  codes := List.replicate 8 0
  keyToCode := []
  values := [none]
  refs := [0]
  freeCodes := []

/-- `ensure(row)`; a hole reads as no code. -/
def ensure (c : ValueColumn) (row : Nat) : ValueColumn :=
  if row < c.codes.length then c
  else
    let cap := Arrays.TypedRidColumn.grownLength row
      (if c.codes.length = 0 then 8 else c.codes.length)
    { c with codes := Arrays.TypedRidColumn.growTypedArray c.codes 0 cap }

def codeAt (c : ValueColumn) (row : Nat) : Nat :=
  c.codes.getD row 0

/-- `getForQuery(row)` -/
def getForQuery (c : ValueColumn) (row : Nat) : Option Json :=
  c.values.getD (c.codeAt row) none

section

variable (collation : Collation)

/-- `_codeFor(value)` -/
def codeFor (c : ValueColumn) (value : Option Json) : ValueColumn × Nat :=
  match Assoc.get? c.keyToCode (columnKey collation value) with
  | some existing => (c, existing)
  | none =>
      -- `this.freeCodes.pop() || this.values.length`
      let code := c.freeCodes.headD c.values.length
      ({ c with
          keyToCode := Assoc.set c.keyToCode (columnKey collation value) code
          values := StringTable.assign c.values none code value
          refs := StringTable.assign c.refs 0 code 0
          freeCodes := c.freeCodes.tail }, code)

/-- `_release(code)` -/
def release (c : ValueColumn) (code : Nat) : ValueColumn :=
  let refs := c.refs.getD code 0 - 1
  if refs = 0 then
    { c with
      keyToCode := Assoc.erase c.keyToCode (columnKey collation (c.values.getD code none))
      values := c.values.set code none
      refs := c.refs.set code 0
      freeCodes := code :: c.freeCodes }
  else { c with refs := c.refs.set code refs }

/-- `this.refs[code]++` -/
def hold (c : ValueColumn) (code : Nat) : ValueColumn :=
  { c with refs := c.refs.set code (c.refs.getD code 0 + 1) }

def set (c : ValueColumn) (row : Nat) (value : Option Json) : ValueColumn :=
  let c := c.ensure row
  let c := if c.codeAt row ≠ 0 then c.release collation (c.codeAt row) else c
  let next := c.codeFor collation value
  { next.1.hold next.2 with codes := next.1.codes.set row next.2 }

def clear (c : ValueColumn) (row : Nat) : ValueColumn :=
  if c.codeAt row = 0 then c
  else { c.release collation (c.codeAt row) with codes := c.codes.set row 0 }

end

end ValueColumn

/-! ## `Shape` -/

/-- The names of a layout, sorted and distinct. -/
abbrev Layout := List JsString

/-- `layoutOf(entries)` -/
def layoutOf (live : Fields) : Layout :=
  (Assoc.keys live).dedup.mergeSort fun a b => decide (a ≤ b)

/-- `JSON.stringify(layout)` for the layout `[{ name }, …]`. -/
def layoutText (layout : Layout) : JsString :=
  stringify (.arr (layout.map fun name => .obj [(js "name", .str name)]))

/-- `h ^= unit; h = Math.imul(h, 0x01000193)` -/
def hashStep (h : BitVec 32) (u : CodeUnit) : BitVec 32 :=
  (h ^^^ BitVec.ofNat 32 u.val) * 0x01000193#32

/-- `(h >>> 0).toString(16).padStart(8, "0")` -/
def hashText (h : BitVec 32) : JsString :=
  [7, 6, 5, 4, 3, 2, 1, 0].map fun i => hexUnit (h.toNat / 16 ^ i % 16)

/-- `shapeId(fields)` -/
def shapeId (layout : Layout) : JsString :=
  hashText ((layoutText layout).foldl hashStep 0x811c9dc5#32)

structure Shape where
  id : JsString
  fields : Layout
  columns : List (JsString × ValueColumn)
  rows : List (JsString × Nat)
  free : List Nat
  length : Nat

namespace Shape

def new (layout : Layout) : Shape where
  id := shapeId layout
  fields := layout
  columns := layout.map fun name => (name, .new)
  rows := []
  free := []
  length := 0

/-- `this.columns[name]` for a field of the layout. -/
def column (s : Shape) (name : JsString) : ValueColumn :=
  (Assoc.get? s.columns name).getD .new

def onColumn (s : Shape) (f : ValueColumn → ValueColumn) (name : JsString) : Shape :=
  { s with columns := Assoc.set s.columns name (f (s.column name)) }

/-- A step on the column of every field. -/
def onColumns (s : Shape) (f : JsString → ValueColumn → ValueColumn) : Shape :=
  s.fields.foldl (fun s name => s.onColumn (f name) name) s

section

variable (collation : Collation)

/-- `push(id, values)` -/
def push (s : Shape) (id : JsString) (values : Fields) : Shape :=
  let row := s.free.headD s.length
  let s := { s with
    free := s.free.tail
    length := if s.free = [] then s.length + 1 else s.length }
  let s := s.onColumns fun _ column => column.ensure row
  let s := { s with rows := Assoc.set s.rows id row }
  s.onColumns fun name column => column.set collation row (Assoc.get? values name)

/-- `set(id, name, value)` for a field of the layout. -/
def set (s : Shape) (id name : JsString) (value : Json) : Shape :=
  match Assoc.get? s.rows id with
  | some row =>
      if name ∈ s.fields then s.onColumn (fun column => column.set collation row (some value)) name
      else s
  | none => s

def remove (s : Shape) (id : JsString) : Shape :=
  match Assoc.get? s.rows id with
  | some row =>
      let s := s.onColumns fun _ column => column.clear collation row
      { s with rows := Assoc.erase s.rows id, free := row :: s.free }
  | none => s

end

/-- `out[name] = value`; `__proto__` is the prototype, not a field, and an undefined field does
not show. -/
def assignRead (out : Fields) (name : JsString) (value : Option Json) : Fields :=
  match value with
  | some v => if name = js "__proto__" then out else Assoc.set out name v
  | none => out

/-- `read(id)` -/
def read (s : Shape) (id : JsString) : Option Fields :=
  (Assoc.get? s.rows id).map fun row =>
    s.fields.foldl (fun out name => assignRead out name ((s.column name).getForQuery row)) []

end Shape

/-! ## `ShapeStore` -/

structure ShapeStore where
  shapes : List (JsString × Shape)
  loc : List (JsString × JsString)

namespace ShapeStore

def new : ShapeStore := ⟨[], []⟩

/-- `ensureShape(layout)` -/
def ensureShape (s : ShapeStore) (layout : Layout) : Shape :=
  (Assoc.get? s.shapes (shapeId layout)).getD (.new layout)

section

variable (collation : Collation)

/-- `removeObject(id)` -/
def removeObject (s : ShapeStore) (id : JsString) : ShapeStore :=
  match Assoc.get? s.loc id with
  | none => s
  | some old =>
      match Assoc.get? s.shapes old with
      | none => s
      | some shape =>
          let shape := shape.remove collation id
          { shapes := if shape.rows = [] then Assoc.erase s.shapes old
              else Assoc.set s.shapes old shape
            loc := Assoc.erase s.loc id }

/-- `rebuild(id, live)` -/
def rebuild (s : ShapeStore) (id : JsString) (live : Fields) : ShapeStore :=
  let s := s.removeObject collation id
  if live = [] then s
  else
    let shape := (s.ensureShape (layoutOf live)).push collation id live
    { shapes := Assoc.set s.shapes (shapeId (layoutOf live)) shape
      loc := Assoc.set s.loc id shape.id }

/-- `writeField(id, field, value, live)` -/
def writeField (s : ShapeStore) (id field : JsString) (value : Json) (live : Fields) :
    ShapeStore :=
  match Assoc.get? s.loc id with
  | none => s.rebuild collation id live
  | some old =>
      match Assoc.get? s.shapes old with
      | none => s
      | some shape =>
          if field ∈ shape.fields then
            { s with shapes := Assoc.set s.shapes old (shape.set collation id field value) }
          else s.rebuild collation id live

end

def read (s : ShapeStore) (id : JsString) : Option Fields :=
  (Assoc.get? s.loc id).bind fun old => (Assoc.get? s.shapes old).bind fun shape => shape.read id

end ShapeStore

end ObjyDb
