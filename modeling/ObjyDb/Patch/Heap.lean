import ObjyDb.Patch.Tree

/-!
# Heap — JavaScript objects by reference

A heap is a list of cells, addressed by their position; nothing is ever freed.  Properties are
found along the prototype chain, and `__proto__` is the accessor of `Object.prototype`.

`Holds h v value fp` says that the value reads as the JSON tree `v`, and `fp` lists the cells it is
made of.  A tree whose cells are all different may be written in place, one part at a time
(`holdsFields_split`), and is not touched by writes elsewhere (`holds_congr`).
-/

namespace ObjyDb
namespace Patch

open Js

/-! ## Values and cells -/

abbrev Addr := Nat

inductive Value
  | undefined
  | null
  | bool (b : Bool)
  | num (n : JsNumber)
  | str (s : JsString)
  /-- A function, of which nothing but its type matters. -/
  | function
  | ref (a : Addr)
  deriving DecidableEq

inductive Cell
  | object (proto : Option Addr) (props : List (JsString × Value))
  | array (items : List Value)
  deriving DecidableEq

abbrev Heap := List Cell

def objectPrototype : Addr := 0

def arrayPrototype : Addr := 1

/-- The prototype of a cell. -/
def Cell.proto : Cell → Option Addr
  | object proto _ => proto
  | array _ => some arrayPrototype

/-- The own properties of a cell; `length` is left out. -/
def Cell.props : Cell → List (JsString × Value)
  | object _ props => props
  | array items => items.mapIdx fun i v => (indexText i, v)

def protoKey : JsString := js "__proto__"

/-- `Object.prototype` as the language has it, without its accessor `__proto__`. -/
def prototypeCell : Cell :=
  .object none
    [(js "constructor", .function), (js "__defineGetter__", .function),
      (js "__defineSetter__", .function), (js "hasOwnProperty", .function),
      (js "__lookupGetter__", .function), (js "__lookupSetter__", .function),
      (js "isPrototypeOf", .function), (js "propertyIsEnumerable", .function),
      (js "toString", .function), (js "valueOf", .function), (js "toLocaleString", .function)]

/-- Nobody has changed `Object.prototype`. -/
def Intact (h : Heap) : Prop :=
  h[objectPrototype]? = some prototypeCell

instance (h : Heap) : Decidable (Intact h) :=
  inferInstanceAs (Decidable (_ = _))

/-! ## Properties -/

inductive Found
  | data (v : Value)
  /-- The accessor `__proto__`. -/
  | accessor
  | missing
  deriving DecidableEq

/-- The property found along the prototype chain, of at most `fuel` cells. -/
def findProperty (h : Heap) (key : JsString) : Nat → Addr → Found
  | 0, _ => .missing
  | fuel + 1, a =>
      match h[a]? with
      | none => .missing
      | some cell =>
          match Assoc.get? cell.props key with
          | some v => .data v
          | none =>
              if a = objectPrototype ∧ key = protoKey then .accessor
              else
                match cell.proto with
                | some next => findProperty h key fuel next
                | none => .missing

/-- No chain is longer than the heap. -/
def Heap.find (h : Heap) (a : Addr) (key : JsString) : Found :=
  findProperty h key (h.length + 1) a

/-- What the accessor `__proto__` gives. -/
def prototypeOf (h : Heap) (a : Addr) : Value :=
  match (h[a]?).bind Cell.proto with
  | some proto => .ref proto
  | none => .null

/-- `a[key]` -/
def getProperty (h : Heap) (a : Addr) (key : JsString) : Value :=
  match h.find a key with
  | .data v => v
  | .accessor => prototypeOf h a
  | .missing => .undefined

/-- `a.__proto__ = v`: only an object or `null` has an effect. -/
def setPrototype (h : Heap) (a : Addr) (v : Value) : Except PatchError Heap :=
  match h[a]?, v with
  | some (.object _ props), .ref proto =>
      if a = objectPrototype then .error .immutablePrototype
      else .ok (h.set a (.object (some proto) props))
  | some (.object _ props), .null =>
      if a = objectPrototype then .ok h else .ok (h.set a (.object none props))
  | _, _ => .ok h

/-- `a[key] = v` for an object `a`. -/
def setProperty (h : Heap) (a : Addr) (key : JsString) (v : Value) : Except PatchError Heap :=
  match h.find a key with
  | .accessor => setPrototype h a v
  | _ =>
      match h[a]? with
      | some (.object proto props) => .ok (h.set a (.object proto (Assoc.set props key v)))
      | _ => .ok h

/-- `delete a[key]` for an object `a`. -/
def deleteProperty (h : Heap) (a : Addr) (key : JsString) : Heap :=
  match h[a]? with
  | some (.object proto props) => h.set a (.object proto (Assoc.erase props key))
  | _ => h

def isPlainObject (h : Heap) : Value → Bool
  | .ref a =>
      match h[a]? with
      | some (.object _ _) => true
      | _ => false
  | _ => false

/-- A new cell. -/
def Heap.alloc (h : Heap) (cell : Cell) : Heap × Addr :=
  (h ++ [cell], h.length)

/-! ## Cloning -/

/-- `map` over the values of a cell, one after another. -/
def cloneEach (clone : Heap → Value → Option (Heap × Value)) :
    Heap → List Value → Option (Heap × List Value)
  | h, [] => some (h, [])
  | h, v :: vs => do
      let (h, v) ← clone h v
      let (h, vs) ← cloneEach clone h vs
      return (h, v :: vs)

/-- `clonePatchValue(value)`, to a depth of `fuel`. -/
def clonePatchValue : Nat → Heap → Value → Option (Heap × Value)
  | 0, _, _ => none
  | fuel + 1, h, .ref a =>
      match h[a]? with
      | some (.array items) => do
          let (h, items) ← cloneEach (clonePatchValue fuel) h items
          let (h, b) := h.alloc (.array items)
          return (h, .ref b)
      | some (.object _ props) => do
          let (h, values) ← cloneEach (clonePatchValue fuel) h (props.map Prod.snd)
          let (h, b) := h.alloc (.object (some objectPrototype) ((Assoc.keys props).zip values))
          return (h, .ref b)
      | none => none
  | _ + 1, h, v => some (h, v)

/-! ## Trees in the heap -/

/-- The value reads as a JSON tree, made of the cells `fp`. -/
def Holds (h : Heap) : Json → Value → List Addr → Prop
  | .null, value, fp => value = .null ∧ fp = []
  | .bool b, value, fp => value = .bool b ∧ fp = []
  | .num n, value, fp => value = .num n ∧ fp = []
  | .str s, value, fp => value = .str s ∧ fp = []
  | .arr items, value, fp => ∃ a values rest, value = .ref a ∧ fp = a :: rest ∧
      h[a]? = some (.array values) ∧ holdsItems items values rest
  | .obj fields, value, fp => ∃ a props rest, value = .ref a ∧ fp = a :: rest ∧
      h[a]? = some (.object (some objectPrototype) props) ∧ holdsFields fields props rest
where
  holdsItems : List Json → List Value → List Addr → Prop
    | [], values, fp => values = [] ∧ fp = []
    | v :: items, values, fp => ∃ value rest left right, values = value :: rest ∧
        fp = left ++ right ∧ Holds h v value left ∧ holdsItems items rest right
  holdsFields : Fields → List (JsString × Value) → List Addr → Prop
    | [], props, fp => props = [] ∧ fp = []
    | (key, v) :: fields, props, fp => ∃ value rest left right, props = (key, value) :: rest ∧
        fp = left ++ right ∧ Holds h v value left ∧ holdsFields fields rest right

/-- Fields are keys and items. -/
theorem holdsFields_iff {h : Heap} {fields : Fields} {props : List (JsString × Value)}
    {fp : List Addr} : Holds.holdsFields h fields props fp ↔
      Assoc.keys props = Assoc.keys fields ∧
        Holds.holdsItems h (fields.map Prod.snd) (props.map Prod.snd) fp := by
  induction fields generalizing props fp with
  | nil =>
      constructor
      · rintro ⟨rfl, rfl⟩
        exact ⟨rfl, rfl, rfl⟩
      · rintro ⟨hkeys, -, hfp⟩
        exact ⟨List.map_eq_nil_iff.mp hkeys, hfp⟩
  | cons f fields ih =>
      obtain ⟨key, v⟩ := f
      constructor
      · rintro ⟨value, rest, left, right, rfl, rfl, hleft, hright⟩
        rcases ih.mp hright with ⟨hkeys, hitems⟩
        refine ⟨?_, value, rest.map Prod.snd, left, right, rfl, rfl, hleft, hitems⟩
        simp only [Assoc.keys, List.map_cons] at hkeys ⊢
        rw [hkeys]
      · rintro ⟨hkeys, value, rest, left, right, hvalues, rfl, hleft, hright⟩
        cases props with
        | nil => cases hkeys
        | cons prop props =>
            obtain ⟨k, w⟩ := prop
            rcases List.cons.inj hkeys with ⟨rfl, htail⟩
            rcases List.cons.inj hvalues with ⟨rfl, rfl⟩
            exact ⟨w, props, left, right, rfl, rfl, hleft, ih.mpr ⟨htail, hright⟩⟩

theorem holdsItems_lt {h : Heap} (items : List Json)
    (ih : ∀ v ∈ items, ∀ {value : Value} {fp : List Addr}, Holds h v value fp →
      ∀ a ∈ fp, a < h.length) {values : List Value} {fp : List Addr}
    (hitems : Holds.holdsItems h items values fp) : ∀ a ∈ fp, a < h.length := by
  induction items generalizing values fp with
  | nil => simp [hitems.2]
  | cons v items ihitems =>
      rcases hitems with ⟨value, values', left, right, rfl, rfl, hleft, hright⟩
      intro b hb
      rcases List.mem_append.mp hb with hb | hb
      · exact ih v List.mem_cons_self hleft b hb
      · exact ihitems (fun w hw => ih w (List.mem_cons_of_mem _ hw)) hright b hb

/-- The cells of a tree exist. -/
theorem holds_lt {h : Heap} (v : Json) {value : Value} {fp : List Addr} (hv : Holds h v value fp) :
    ∀ a ∈ fp, a < h.length := by
  induction v using Json.induct generalizing value fp with
  | null => simp [hv.2]
  | bool b => simp [hv.2]
  | num n => simp [hv.2]
  | str s => simp [hv.2]
  | arr items ih =>
      rcases hv with ⟨a, values, rest, rfl, rfl, hcell, hitems⟩
      intro b hb
      rcases List.mem_cons.mp hb with rfl | hb
      · exact (List.getElem?_eq_some_iff.mp hcell).1
      · exact holdsItems_lt items (fun v hv _ _ h1 => ih v hv h1) hitems b hb
  | obj fields ih =>
      rcases hv with ⟨a, props, rest, rfl, rfl, hcell, hfields⟩
      intro b hb
      rcases List.mem_cons.mp hb with rfl | hb
      · exact (List.getElem?_eq_some_iff.mp hcell).1
      · refine holdsItems_lt _ ?_ (holdsFields_iff.mp hfields).2 b hb
        intro v hv value fp h1
        rcases List.mem_map.mp hv with ⟨f, hf, rfl⟩
        exact ih f hf h1

/-- The heaps agree on these cells. -/
def Agree (h h' : Heap) (fp : List Addr) : Prop :=
  ∀ a ∈ fp, h'[a]? = h[a]?

theorem Agree.mono {h h' : Heap} {fp fp' : List Addr} (hagree : Agree h h' fp)
    (hsub : ∀ a ∈ fp', a ∈ fp) : Agree h h' fp' :=
  fun a ha => hagree a (hsub a ha)

theorem Agree.trans {h h' h'' : Heap} {fp : List Addr} (hagree : Agree h h' fp)
    (hagree' : Agree h' h'' fp) : Agree h h'' fp :=
  fun a ha => (hagree' a ha).trans (hagree a ha)

theorem holdsItems_congr {h h' : Heap} (items : List Json)
    (ih : ∀ v ∈ items, ∀ {value : Value} {fp : List Addr}, Holds h v value fp → Agree h h' fp →
      Holds h' v value fp) {values : List Value} {fp : List Addr}
    (hitems : Holds.holdsItems h items values fp) (hagree : Agree h h' fp) :
    Holds.holdsItems h' items values fp := by
  induction items generalizing values fp with
  | nil => exact hitems
  | cons v items ihitems =>
      rcases hitems with ⟨value, rest, left, right, rfl, rfl, hleft, hright⟩
      refine ⟨value, rest, left, right, rfl, rfl, ?_, ?_⟩
      · exact ih v List.mem_cons_self hleft (hagree.mono fun a ha => List.mem_append_left _ ha)
      · exact ihitems (fun w hw => ih w (List.mem_cons_of_mem _ hw)) hright
          (hagree.mono fun a ha => List.mem_append_right _ ha)

/-- A tree is not touched by writes to other cells. -/
theorem holds_congr {h h' : Heap} (v : Json) {value : Value} {fp : List Addr}
    (hv : Holds h v value fp) (hagree : Agree h h' fp) : Holds h' v value fp := by
  induction v using Json.induct generalizing value fp with
  | null => exact hv
  | bool b => exact hv
  | num n => exact hv
  | str s => exact hv
  | arr items ih =>
      rcases hv with ⟨a, values, rest, rfl, rfl, hcell, hitems⟩
      refine ⟨a, values, rest, rfl, rfl, ?_, ?_⟩
      · rw [hagree a List.mem_cons_self, hcell]
      · exact holdsItems_congr items (fun v hv _ _ h1 h2 => ih v hv h1 h2) hitems
          (hagree.mono fun b hb => List.mem_cons_of_mem _ hb)
  | obj fields ih =>
      rcases hv with ⟨a, props, rest, rfl, rfl, hcell, hfields⟩
      refine ⟨a, props, rest, rfl, rfl, ?_, ?_⟩
      · rw [hagree a List.mem_cons_self, hcell]
      · rcases holdsFields_iff.mp hfields with ⟨hkeys, hitems⟩
        refine holdsFields_iff.mpr ⟨hkeys, holdsItems_congr _ ?_ hitems
          (hagree.mono fun b hb => List.mem_cons_of_mem _ hb)⟩
        intro v hv value fp h1 h2
        rcases List.mem_map.mp hv with ⟨f, hf, rfl⟩
        exact ih f hf h1 h2

theorem holdsFields_congr {h h' : Heap} {fields : Fields} {props : List (JsString × Value)}
    {fp : List Addr} (hfields : Holds.holdsFields h fields props fp) (hagree : Agree h h' fp) :
    Holds.holdsFields h' fields props fp :=
  holdsFields_iff.mpr ⟨(holdsFields_iff.mp hfields).1,
    holdsItems_congr _ (fun v _ _ _ hv ha => holds_congr v hv ha) (holdsFields_iff.mp hfields).2
      hagree⟩

/-! ## One field of an object -/

/-- The cells of one field may be exchanged for those of a new value; without such a field the new
ones come last. -/
theorem holdsFields_split {h : Heap} {fields : Fields} {props : List (JsString × Value)}
    {fp : List Addr} (key : JsString) (hfields : Holds.holdsFields h fields props fp) :
    ∃ before old after, fp = before ++ old ++ after ∧
      ((Assoc.get? fields key = none ∧ Assoc.get? props key = none ∧ old = []) ∨
        ∃ v value, Assoc.get? fields key = some v ∧ Assoc.get? props key = some value ∧
          Holds h v value old) ∧
      ∀ (h' : Heap) v value new, Agree h h' (before ++ after) → Holds h' v value new →
        Holds.holdsFields h' (Assoc.set fields key v) (Assoc.set props key value)
          (before ++ new ++ after) := by
  induction fields generalizing props fp with
  | nil =>
      rcases hfields with ⟨rfl, rfl⟩
      refine ⟨[], [], [], rfl, Or.inl ⟨rfl, rfl, rfl⟩, fun h' v value new _ hnew => ?_⟩
      exact ⟨value, [], new, [], rfl, by simp, hnew, rfl, rfl⟩
  | cons f fields ih =>
      obtain ⟨k, w⟩ := f
      rcases hfields with ⟨first, rest, left, right, rfl, rfl, hleft, hright⟩
      by_cases hk : k = key
      · subst hk
        refine ⟨[], left, right, rfl, Or.inr ⟨w, first, ?_, ?_, hleft⟩, ?_⟩
        · rw [Assoc.get?_cons, if_pos rfl]
        · rw [Assoc.get?_cons, if_pos rfl]
        · intro h' v value new hagree hnew
          rw [Assoc.set, if_pos rfl, Assoc.set, if_pos rfl]
          exact ⟨value, rest, new, right, rfl, rfl, hnew, holdsFields_congr hright hagree⟩
      · rcases ih hright with ⟨before, old, after, rfl, hold, hset⟩
        refine ⟨left ++ before, old, after, by simp, ?_, ?_⟩
        · rw [Assoc.get?_cons, if_neg hk, Assoc.get?_cons, if_neg hk]
          exact hold
        · intro h' v value new hagree hnew
          rw [Assoc.set, if_neg hk, Assoc.set, if_neg hk]
          refine ⟨first, _, left, before ++ new ++ after, rfl, by simp, ?_, ?_⟩
          · exact holds_congr w hleft (hagree.mono fun a ha => by simp [ha])
          · apply hset h' v value new _ hnew
            exact hagree.mono fun a ha => by
              rcases List.mem_append.mp ha with ha | ha <;> simp [ha]

theorem holdsFields_erase {h : Heap} {fields : Fields} {props : List (JsString × Value)}
    {fp : List Addr} (key : JsString) (hfields : Holds.holdsFields h fields props fp) :
    ∃ fp', fp'.Sublist fp ∧
      Holds.holdsFields h (Assoc.erase fields key) (Assoc.erase props key) fp' := by
  induction fields generalizing props fp with
  | nil =>
      rcases hfields with ⟨rfl, rfl⟩
      exact ⟨[], .slnil, rfl, rfl⟩
  | cons f fields ih =>
      obtain ⟨k, w⟩ := f
      rcases hfields with ⟨first, rest, left, right, rfl, rfl, hleft, hright⟩
      rcases ih hright with ⟨fp', hsub, hrest⟩
      by_cases hk : k = key
      · refine ⟨fp', hsub.trans (List.sublist_append_right left right), ?_⟩
        simpa [Assoc.erase, hk] using hrest
      · refine ⟨left ++ fp', List.Sublist.append_left hsub left, ?_⟩
        have hcons : ∀ {γ : Type} (x : γ) (xs : List (JsString × γ)),
            Assoc.erase ((k, x) :: xs) key = (k, x) :: Assoc.erase xs key := by
          intro γ x xs
          simp [Assoc.erase, hk]
        rw [hcons, hcons]
        exact ⟨first, _, left, fp', rfl, rfl, hleft, hrest⟩

/-! ## Properties of a tree -/

/-- What an object that has no such property of its own inherits. -/
def inherited (key : JsString) : Found :=
  if (Assoc.get? prototypeCell.props key).isSome then .data .function else .missing

/-- On an object of a tree, `__proto__` apart, what is found is its own property or a function. -/
theorem find_object {h : Heap} (hintact : Intact h) {a : Addr} (ha : a ≠ objectPrototype)
    {props : List (JsString × Value)} (hcell : h[a]? = some (.object (some objectPrototype) props))
    {key : JsString} (hkey : key ≠ protoKey) :
    (∃ v, Assoc.get? props key = some v ∧ h.find a key = .data v) ∨
      (Assoc.get? props key = none ∧ h.find a key = inherited key) := by
  have hpos : 0 < h.length := Nat.zero_lt_of_lt (List.getElem?_eq_some_iff.mp hcell).1
  obtain ⟨n, hn⟩ : ∃ n, h.length = n + 1 := ⟨h.length - 1, by omega⟩
  have hroot : ∀ m, findProperty h key (m + 1) objectPrototype = inherited key := by
    intro m
    have hfunctions : ∀ entry ∈ prototypeCell.props, entry.2 = Value.function := by
      decide
    rw [findProperty, hintact, inherited]
    simp only
    cases hget : Assoc.get? prototypeCell.props key with
    | some v =>
        have hv : v = .function := hfunctions _ (Assoc.mem_of_get?_eq_some hget)
        rw [hv]
        rfl
    | none =>
        simp only [hkey, and_false, if_false]
        rfl
  rw [Heap.find, hn, findProperty, hcell]
  simp only [Cell.props, Cell.proto]
  cases hget : Assoc.get? props key with
  | some v => exact Or.inl ⟨v, rfl, rfl⟩
  | none =>
      right
      simp only [ha, false_and, if_false]
      exact ⟨trivial, hroot n⟩

/-- The objects of a tree are not `Object.prototype`. -/
theorem ne_objectPrototype {h : Heap} (hintact : Intact h) {a : Addr}
    {props : List (JsString × Value)}
    (hcell : h[a]? = some (.object (some objectPrototype) props)) : a ≠ objectPrototype := by
  rintro rfl
  rw [Intact, hcell] at hintact
  cases hintact

/-- A property of an object of a tree that every object does not inherit. -/
theorem getProperty_field {h : Heap} (hintact : Intact h) {fields : Fields} {a : Addr}
    {fp : List Addr} (hobj : Holds h (.obj fields) (.ref a) fp) {key : JsString}
    (hkey : key ≠ protoKey) (hmissing : inherited key = .missing) :
    (Assoc.get? fields key = none ∧ getProperty h a key = .undefined) ∨
      ∃ v fp', Assoc.get? fields key = some v ∧ Holds h v (getProperty h a key) fp' ∧
        ∀ b ∈ fp', b ∈ fp := by
  rcases hobj with ⟨b, props, rest, hab, rfl, hcell, hfields⟩
  cases hab
  have haroot := ne_objectPrototype hintact hcell
  rcases holdsFields_split key hfields with ⟨before, old, after, rfl, hold, -⟩
  unfold getProperty
  rcases find_object hintact haroot hcell hkey with ⟨w, hw, hfind⟩ | ⟨hnone, hfind⟩
  · rcases hold with ⟨-, hprops, -⟩ | ⟨v, value, hget, hprops, hv⟩
    · rw [hw] at hprops
      cases hprops
    · rw [hw] at hprops
      cases hprops
      right
      refine ⟨v, old, hget, ?_, ?_⟩
      · rw [hfind]
        exact hv
      · intro b hb
        simp [hb]
  · rcases hold with ⟨hget, -, -⟩ | ⟨v, value, -, hprops, -⟩
    · left
      rw [hfind, hmissing]
      exact ⟨hget, rfl⟩
    · rw [hnone] at hprops
      cases hprops

/-! ## Clones -/

theorem agree_append {h : Heap} {fp : List Addr} (hfp : ∀ a ∈ fp, a < h.length) (new : Heap) :
    Agree h (h ++ new) fp :=
  fun a ha => List.getElem?_append_left (hfp a ha)

theorem holdsItems_lt' {h : Heap} {items : List Json} {values : List Value} {fp : List Addr}
    (hitems : Holds.holdsItems h items values fp) : ∀ a ∈ fp, a < h.length :=
  holdsItems_lt items (fun v _ _ _ hv => holds_lt v hv) hitems

/-- A clone at this depth succeeds and is made of new, different cells. -/
def Clones (v : Json) (n : Nat) : Prop :=
  ∀ (h : Heap) value fp, Holds h v value fp → ∃ new value' fp',
    clonePatchValue n h value = some (h ++ new, value') ∧ Holds (h ++ new) v value' fp' ∧
      fp'.Nodup ∧ ∀ a ∈ fp', h.length ≤ a

theorem cloneEach_holds {items : List Json} {n : Nat} (hitems : ∀ v ∈ items, Clones v n)
    (h : Heap) (values : List Value) (fp : List Addr)
    (hvalues : Holds.holdsItems h items values fp) : ∃ new values' fp',
      cloneEach (clonePatchValue n) h values = some (h ++ new, values') ∧
        values'.length = values.length ∧ Holds.holdsItems (h ++ new) items values' fp' ∧
          fp'.Nodup ∧ ∀ a ∈ fp', h.length ≤ a := by
  induction items generalizing h values fp with
  | nil =>
      rcases hvalues with ⟨rfl, rfl⟩
      exact ⟨[], [], [], by simp [cloneEach], rfl, ⟨rfl, rfl⟩, List.nodup_nil, by simp⟩
  | cons v items ih =>
      rcases hvalues with ⟨value, rest, left, right, rfl, rfl, hleft, hright⟩
      rcases hitems v List.mem_cons_self h value left hleft with
        ⟨new₁, value', fp₁, hclone, hfirst, hnodup₁, hge₁⟩
      have hright' : Holds.holdsItems (h ++ new₁) items rest right :=
        holdsItems_congr items (fun w _ _ _ hw ha => holds_congr w hw ha) hright
          (agree_append (holdsItems_lt' hright) new₁)
      rcases ih (fun w hw => hitems w (List.mem_cons_of_mem _ hw)) (h ++ new₁) rest right hright'
        with ⟨new₂, values', fp₂, heach, hlength, hrest, hnodup₂, hge₂⟩
      have hlt₁ := holds_lt v hfirst
      refine ⟨new₁ ++ new₂, value' :: values', fp₁ ++ fp₂, ?_, ?_, ?_, ?_, ?_⟩
      · rw [cloneEach, hclone]
        simp only [Option.bind_eq_bind, Option.bind_some, heach, List.append_assoc]
        rfl
      · simp [hlength]
      · rw [← List.append_assoc]
        exact ⟨value', values', fp₁, fp₂, rfl, rfl,
          holds_congr v hfirst (agree_append hlt₁ new₂), hrest⟩
      · rw [List.nodup_append]
        refine ⟨hnodup₁, hnodup₂, fun a ha b hb hab => ?_⟩
        have h1 := hlt₁ a ha
        have h2 := hge₂ b hb
        rw [hab] at h1
        exact absurd h1 (not_lt.mpr h2)
      · intro a ha
        rcases List.mem_append.mp ha with ha | ha
        · exact hge₁ a ha
        · have h2 := hge₂ a ha
          rw [List.length_append] at h2
          omega

/-- The new cell of a clone comes after those of its parts. -/
theorem holds_alloc {h new : Heap} {fp : List Addr} (hlt : ∀ a ∈ fp, a < (h ++ new).length)
    (hnodup : fp.Nodup) (hge : ∀ a ∈ fp, h.length ≤ a) (cell : Cell) :
    h ++ new ++ [cell] = h ++ (new ++ [cell]) ∧
      (h ++ (new ++ [cell]))[(h ++ new).length]? = some cell ∧
      Agree (h ++ new) (h ++ (new ++ [cell])) fp ∧ ((h ++ new).length :: fp).Nodup ∧
        ∀ a ∈ (h ++ new).length :: fp, h.length ≤ a := by
  refine ⟨List.append_assoc .., ?_, ?_, ?_, ?_⟩
  · rw [← List.append_assoc, List.getElem?_concat_length]
  · rw [← List.append_assoc]
    exact agree_append hlt [cell]
  · rw [List.nodup_cons]
    exact ⟨fun hmem => lt_irrefl _ (hlt _ hmem), hnodup⟩
  · intro a ha
    rcases List.mem_cons.mp ha with rfl | ha
    · rw [List.length_append]
      omega
    · exact hge a ha

theorem clones_arr {items : List Json} {n : Nat} (hitems : ∀ v ∈ items, Clones v n) :
    Clones (.arr items) (n + 1) := by
  rintro h value fp ⟨a, values, rest, rfl, rfl, hcell, hvalues⟩
  rcases cloneEach_holds hitems h values rest hvalues with
    ⟨new, values', fp', heach, -, hholds, hnodup, hge⟩
  have hnew := holds_alloc (holdsItems_lt' hholds) hnodup hge (.array values')
  refine ⟨new ++ [.array values'], .ref (h ++ new).length, (h ++ new).length :: fp', ?_, ?_,
    hnew.2.2.2⟩
  · rw [clonePatchValue, hcell]
    simp only [heach, Option.bind_eq_bind, Option.bind_some, Heap.alloc, List.append_assoc]
    rfl
  · exact ⟨_, values', fp', rfl, rfl, hnew.2.1,
      holdsItems_congr items (fun w _ _ _ hw ha => holds_congr w hw ha) hholds hnew.2.2.1⟩

theorem clones_obj {fields : Fields} {n : Nat} (hfields : ∀ f ∈ fields, Clones f.2 n) :
    Clones (.obj fields) (n + 1) := by
  rintro h value fp ⟨a, props, rest, rfl, rfl, hcell, hprops⟩
  rcases holdsFields_iff.mp hprops with ⟨hkeys, hvalues⟩
  have hitems : ∀ v ∈ fields.map Prod.snd, Clones v n := by
    intro v hv
    rcases List.mem_map.mp hv with ⟨f, hf, rfl⟩
    exact hfields f hf
  rcases cloneEach_holds hitems h _ rest hvalues with
    ⟨new, values', fp', heach, hlength, hholds, hnodup, hge⟩
  have hnew := holds_alloc (holdsItems_lt' hholds) hnodup hge
    (.object (some objectPrototype) ((Assoc.keys props).zip values'))
  refine ⟨new ++ [.object (some objectPrototype) ((Assoc.keys props).zip values')],
    .ref (h ++ new).length, (h ++ new).length :: fp', ?_, ?_, hnew.2.2.2⟩
  · rw [clonePatchValue, hcell]
    simp only [heach, Option.bind_eq_bind, Option.bind_some, Heap.alloc, List.append_assoc]
    rfl
  · refine ⟨_, _, fp', rfl, rfl, hnew.2.1, ?_⟩
    have hlen : (Assoc.keys props).length = values'.length := by
      rw [hlength, Assoc.keys, List.length_map, List.length_map]
    refine holdsFields_congr (holdsFields_iff.mpr ⟨?_, ?_⟩) hnew.2.2.1
    · rw [← hkeys, Assoc.keys, List.map_fst_zip hlen.le]
    · rwa [List.map_snd_zip hlen.ge]

/-- Some depth is enough for all of them. -/
theorem exists_common {α : Type} (P : α → Nat → Prop) (items : List α)
    (h : ∀ v ∈ items, ∃ n₀, ∀ n, n₀ ≤ n → P v n) : ∃ n₀, ∀ v ∈ items, ∀ n, n₀ ≤ n → P v n := by
  induction items with
  | nil => exact ⟨0, by simp⟩
  | cons v items ih =>
      rcases h v List.mem_cons_self with ⟨n₁, h₁⟩
      rcases ih fun w hw => h w (List.mem_cons_of_mem _ hw) with ⟨n₂, h₂⟩
      refine ⟨max n₁ n₂, fun w hw n hn => ?_⟩
      rcases List.mem_cons.mp hw with rfl | hw
      · exact h₁ n ((le_max_left _ _).trans hn)
      · exact h₂ w hw n ((le_max_right _ _).trans hn)

/-- Enough depth clones a tree. -/
theorem clones (v : Json) : ∃ n₀, ∀ n, n₀ ≤ n → Clones v n := by
  have hscalar : ∀ (v : Json) (value : Value), (∀ n h, clonePatchValue (n + 1) h value =
      some (h, value)) → (∀ h fp w, Holds h v w fp → w = value ∧ fp = []) →
      ∃ n₀, ∀ n, n₀ ≤ n → Clones v n := by
    intro v value hclone hholds
    refine ⟨1, fun n hn h w fp hw => ?_⟩
    obtain ⟨m, rfl⟩ : ∃ m, n = m + 1 := ⟨n - 1, by omega⟩
    rcases hholds h fp w hw with ⟨rfl, rfl⟩
    exact ⟨[], _, [], by rw [hclone, List.append_nil], by rwa [List.append_nil], List.nodup_nil,
      by simp⟩
  induction v using Json.induct with
  | null => exact hscalar .null .null (fun _ _ => rfl) (fun _ _ _ hw => hw)
  | bool b => exact hscalar (.bool b) (.bool b) (fun _ _ => rfl) (fun _ _ _ hw => hw)
  | num x => exact hscalar (.num x) (.num x) (fun _ _ => rfl) (fun _ _ _ hw => hw)
  | str s => exact hscalar (.str s) (.str s) (fun _ _ => rfl) (fun _ _ _ hw => hw)
  | arr items ih =>
      rcases exists_common Clones items ih with ⟨n₀, hn₀⟩
      refine ⟨n₀ + 1, fun n hn => ?_⟩
      obtain ⟨m, rfl⟩ : ∃ m, n = m + 1 := ⟨n - 1, by omega⟩
      exact clones_arr fun v hv => hn₀ v hv m (by omega)
  | obj fields ih =>
      rcases exists_common Clones (fields.map Prod.snd) (by
        intro v hv
        rcases List.mem_map.mp hv with ⟨f, hf, rfl⟩
        exact ih f hf) with ⟨n₀, hn₀⟩
      refine ⟨n₀ + 1, fun n hn => ?_⟩
      obtain ⟨m, rfl⟩ : ∃ m, n = m + 1 := ⟨n - 1, by omega⟩
      exact clones_obj fun f hf => hn₀ f.2 (List.mem_map_of_mem hf) m (by omega)

end Patch
end ObjyDb
