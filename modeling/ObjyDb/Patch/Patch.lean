import ObjyDb.Patch.Heap

/-!
# Patch — `applyPatchToObject`

The patch is applied to a clone of the object, path after path, by walking the clone from its root
and writing its cells in place.

* `setParts_holds`, `unsetParts_holds` — on a tree whose cells are all different, a walk does what
  `setTree` and `unsetTree` do, and writes no other cell;
* `applyPatchToObject_spec` — without `__proto__` in its paths, a patch changes no cell that existed
  before, and gives the tree of `patchTree` or its error;
* `applyPatchToObject_frame` — what it sets, what it removes, and that it leaves the rest alone.
-/

namespace ObjyDb
namespace Patch

open Js

/-! ## Walking a path -/

/-- `setPath` once the path is split. -/
def setParts (h : Heap) (cursor : Addr) (value : Value) : Path → Heap × Option PatchError
  | [] => (h, none)
  | [last] =>
      match setProperty h cursor last value with
      | .ok h => (h, none)
      | .error err => (h, some err)
  | part :: next :: rest =>
      let entered :=
        if isPlainObject h (getProperty h cursor part) then .ok h
        else
          let (h, a) := h.alloc (.object (some objectPrototype) [])
          setProperty h cursor part (.ref a)
      match entered with
      | .error err => (h, some err)
      | .ok h =>
          match getProperty h cursor part with
          | .ref a => setParts h a value (next :: rest)
          -- not reached: the part holds an object now
          | _ => (h, none)

def setPath (h : Heap) (target : Addr) (path : JsString) (value : Value) (field : JsString) :
    Heap × Option PatchError :=
  match assertPatchPath (some path) field with
  | .error err => (h, some err)
  | .ok parts => setParts h target value parts

/-- `unsetPath` once the path is split. -/
def unsetParts (h : Heap) (cursor : Addr) : Path → Heap
  | [] => h
  | [last] => deleteProperty h cursor last
  | part :: next :: rest =>
      match getProperty h cursor part with
      | .ref a => if isPlainObject h (.ref a) then unsetParts h a (next :: rest) else h
      | _ => h

def stringValue : Value → Option JsString
  | .str s => some s
  | _ => none

def unsetPath (h : Heap) (target : Addr) (path : Value) (field : JsString) :
    Heap × Option PatchError :=
  match assertPatchPath (stringValue path) field with
  | .error err => (h, some err)
  | .ok parts => (unsetParts h target parts, none)

/-! ## `applyPatchToObject` -/

/-- The loop over `Object.entries(set)`. -/
def setLoop (fuel : Nat) (h : Heap) (next : Addr) :
    List (JsString × Value) → Option (Heap × Option PatchError)
  | [] => some (h, none)
  | (path, value) :: entries => do
      let (h, clone) ← clonePatchValue fuel h value
      match setPath h next path clone (setField path) with
      | (h, some err) => return (h, some err)
      | (h, none) => setLoop fuel h next entries

/-- The loop over `unsetPaths(patch.$unset)`. -/
def unsetLoop (h : Heap) (next : Addr) : List Value → Heap × Option PatchError
  | [] => (h, none)
  | path :: paths =>
      match unsetPath h next path unsetField with
      | (h, some err) => (h, some err)
      | (h, none) => unsetLoop h next paths

/-- The entries of `patch.$set ?? {}`, which must be a plain object. -/
def setEntriesOf (h : Heap) : Value → Except PatchError (List (JsString × Value))
  | .undefined | .null => .ok []
  | .ref a =>
      match h[a]? with
      | some (.object _ props) => .ok props
      | _ => .error .setNotObject
  | _ => .error .setNotObject

/-- `unsetPaths(value)` -/
def unsetPathsOf (h : Heap) : Value → Except PatchError (List Value)
  | .undefined => .ok []
  | .ref a =>
      match h[a]? with
      | some (.array items) => .ok items
      | some (.object _ props) => .ok ((Assoc.keys props).map .str)
      | none => .error .unsetShape
  | _ => .error .unsetShape

def isTruthy : Value → Bool
  | .undefined | .null => false
  | .bool b => b
  | .num n => decide (n ≠ JsNumber.zero)
  | .str s => decide (s ≠ [])
  | .function | .ref _ => true

/-- `current || {}` -/
def orEmpty (h : Heap) (current : Value) : Heap × Value :=
  if isTruthy current then (h, current)
  else
    let (h, a) := h.alloc (.object (some objectPrototype) [])
    (h, .ref a)

/-- The steps on the clone `next` of the object, for the patch at `p`. -/
def patchClone (fuel : Nat) (h : Heap) (next p : Addr) :
    Option (Heap × Except PatchError Value) := do
  let h := deleteProperty h next idKey
  match setEntriesOf h (getProperty h p (js "$set")) with
  | .error err => return (h, .error err)
  | .ok entries =>
      match ← setLoop fuel h next entries with
      | (h, some err) => return (h, .error err)
      | (h, none) =>
          match unsetPathsOf h (getProperty h p (js "$unset")) with
          | .error err => return (h, .error err)
          | .ok paths =>
              match unsetLoop h next paths with
              | (h, some err) => return (h, .error err)
              | (h, none) => return (h, .ok (.ref next))

/-- `applyPatchToObject(current, patch)` for an object `current`, or a falsy value in its place: the
heap afterwards, and the object returned or the error thrown. -/
def applyPatchToObject (fuel : Nat) (h : Heap) (current patch : Value) :
    Option (Heap × Except PatchError Value) :=
  match patch with
  | .ref p =>
      match h[p]? with
      | some (.object _ props) =>
          match (Assoc.keys props).find? (fun key => !isSupportedKey key) with
          | some key => some (h, .error (.unsupportedKey key))
          | none => do
              let (h, source) := orEmpty h current
              let (h, clone) ← clonePatchValue fuel h source
              match clone with
              | .ref next => patchClone fuel h next p
              | _ => none
      | _ => some (h, .error .bodyNotObject)
  | _ => some (h, .error .bodyNotObject)

/-! ## Writing a tree in place -/

theorem setProperty_object {h : Heap} (hintact : Intact h) {a : Addr} (ha : a ≠ objectPrototype)
    {props : List (JsString × Value)} (hcell : h[a]? = some (.object (some objectPrototype) props))
    {key : JsString} (hkey : key ≠ protoKey) (value : Value) :
    setProperty h a key value =
      .ok (h.set a (.object (some objectPrototype) (Assoc.set props key value))) := by
  unfold setProperty
  rcases find_object hintact ha hcell hkey with ⟨v, -, hfind⟩ | ⟨-, hfind⟩
  · rw [hfind]
    simp only [hcell]
  · rw [hfind, inherited]
    split_ifs <;> simp only [hcell]

theorem getElem?_set_other {h : Heap} {a b : Addr} (hne : b ≠ a) (cell : Cell) :
    (h.set a cell)[b]? = h[b]? :=
  List.getElem?_set_ne (Ne.symm hne)

theorem intact_of_old {h h' : Heap} (hintact : Intact h) {fp : List Addr}
    (hroot : objectPrototype ∉ fp) (hold : ∀ b < h.length, b ∉ fp → h'[b]? = h[b]?) :
    Intact h' := by
  have hlt : objectPrototype < h.length := (List.getElem?_eq_some_iff.mp hintact).1
  rw [Intact, hold _ hlt hroot]
  exact hintact

/-- What a walk leaves behind: the tree of the cells, and every other cell as it was. -/
structure Written (h h' : Heap) (fields : Fields) (a : Addr) (fp fpv : List Addr) : Prop where
  le : h.length ≤ h'.length
  holds : ∃ fp', Holds h' (.obj fields) (.ref a) fp' ∧ fp'.Nodup ∧
    ∀ b ∈ fp', b ∈ fp ∨ b ∈ fpv ∨ h.length ≤ b
  old : ∀ b < h.length, b ∉ fp → h'[b]? = h[b]?

/-- One field of the object at `a` is written, with cells of the old value, of the new one, or new
ones. -/
theorem written_field {h h' : Heap} {a : Addr} {fields : Fields} {props : List (JsString × Value)}
    {before old after new fpv : List Addr} {part : JsString} {w : Json} (value : Value)
    (hset : ∀ (h' : Heap) v value new, Agree h h' (before ++ after) → Holds h' v value new →
      Holds.holdsFields h' (Assoc.set fields part v) (Assoc.set props part value)
        (before ++ new ++ after))
    (hlt : ∀ b ∈ a :: (before ++ old ++ after), b < h.length)
    (hnodup : (a :: (before ++ old ++ after)).Nodup)
    (hdisjoint : ∀ b ∈ fpv, b ∉ a :: (before ++ old ++ after)) (hle : h.length ≤ h'.length)
    (hcell : h'[a]? = some (.object (some objectPrototype) (Assoc.set props part value)))
    (hold : ∀ b < h.length, b ∉ a :: old → h'[b]? = h[b]?)
    (hw : Holds h' w value new) (hnew : new.Nodup)
    (hfrom : ∀ b ∈ new, b ∈ old ∨ b ∈ fpv ∨ h.length ≤ b) :
    Written h h' (Assoc.set fields part w) a (a :: (before ++ old ++ after)) fpv := by
  -- the other cells of the tree are neither `a`, nor of the old value, nor of the new one
  have hother : ∀ b ∈ before ++ after, b ∈ a :: (before ++ old ++ after) ∧ b ∉ a :: old := by
    intro b hb
    rcases List.nodup_cons.mp hnodup with ⟨ha, hrest⟩
    rw [List.append_assoc, List.nodup_append, List.nodup_append] at hrest
    have hmem : b ∈ before ++ old ++ after := by
      rcases List.mem_append.mp hb with hb | hb <;> simp [hb]
    refine ⟨List.mem_cons_of_mem _ hmem, fun hmem' => ?_⟩
    rcases List.mem_cons.mp hmem' with rfl | hbold
    · exact ha hmem
    · rcases List.mem_append.mp hb with hb | hb
      · exact hrest.2.2 b hb b (List.mem_append_left _ hbold) rfl
      · exact hrest.2.1.2.2 b hbold b hb rfl
  have hapart : ∀ b ∈ a :: (before ++ after), b ∉ new := by
    intro b hb hbnew
    have hmem : b ∈ a :: (before ++ old ++ after) := by
      rcases List.mem_cons.mp hb with rfl | hb
      · exact List.mem_cons_self
      · exact (hother b hb).1
    rcases hfrom b hbnew with hbold | hbv | hge
    · rcases List.mem_cons.mp hb with rfl | hb
      · exact (List.nodup_cons.mp hnodup).1 (by simp [hbold])
      · exact (hother b hb).2 (List.mem_cons_of_mem _ hbold)
    · exact hdisjoint b hbv hmem
    · exact absurd (hlt b hmem) (not_lt.mpr hge)
  refine ⟨hle, ⟨a :: (before ++ new ++ after), ?_, ?_, ?_⟩, ?_⟩
  · refine ⟨a, _, _, rfl, rfl, hcell, hset h' w value new ?_ hw⟩
    exact fun b hb => hold b (hlt b (hother b hb).1) (hother b hb).2
  · rw [List.nodup_cons, List.append_assoc, List.nodup_append, List.nodup_append] at hnodup ⊢
    refine ⟨?_, hnodup.2.1, ⟨hnew, hnodup.2.2.1.2.1, ?_⟩, ?_⟩
    · intro hmem
      simp only [List.mem_append] at hmem
      rcases hmem with hmem | hmem | hmem
      · exact hnodup.1 (by simp [hmem])
      · exact hapart a List.mem_cons_self hmem
      · exact hnodup.1 (by simp [hmem])
    · rintro b hb c hc rfl
      exact hapart b (by simp [hc]) hb
    · rintro b hb c hc rfl
      rcases List.mem_append.mp hc with hc | hc
      · exact hapart b (by simp [hb]) hc
      · exact hnodup.2.2.2 b hb b (List.mem_append_right _ hc) rfl
  · intro b hb
    rcases List.mem_cons.mp hb with rfl | hb
    · exact Or.inl List.mem_cons_self
    · simp only [List.mem_append] at hb
      rcases hb with (hb | hb) | hb
      · exact Or.inl (by simp [hb])
      · rcases hfrom b hb with hbold | hrest
        · exact Or.inl (by simp [hbold])
        · exact Or.inr hrest
      · exact Or.inl (by simp [hb])
  · intro b hb hmem
    apply hold b hb
    intro hmem'
    apply hmem
    rcases List.mem_cons.mp hmem' with rfl | hbold
    · exact List.mem_cons_self
    · simp [hbold]

/-- A part of a path leads to an object of the tree, or to no plain object. -/
theorem part_cases {h : Heap} (hintact : Intact h) {a : Addr} (ha : a ≠ objectPrototype)
    {fields : Fields} {props : List (JsString × Value)}
    (hcell : h[a]? = some (.object (some objectPrototype) props)) {part : JsString}
    (hkey : part ≠ protoKey) {old : List Addr}
    (hold : (Assoc.get? fields part = none ∧ Assoc.get? props part = none ∧ old = []) ∨
      ∃ v value, Assoc.get? fields part = some v ∧ Assoc.get? props part = some value ∧
        Holds h v value old) :
    (∃ sub c, Assoc.get? fields part = some (.obj sub) ∧ Assoc.get? props part = some (.ref c) ∧
      getProperty h a part = .ref c ∧ Holds h (.obj sub) (.ref c) old) ∨
      ((∀ sub, Assoc.get? fields part ≠ some (.obj sub)) ∧
        isPlainObject h (getProperty h a part) = false) := by
  unfold getProperty
  rcases hold with ⟨hfields, hprops, -⟩ | ⟨v, value, hfields, hprops, hv⟩
  · right
    refine ⟨by simp [hfields], ?_⟩
    rcases find_object hintact ha hcell hkey with ⟨w, hw, -⟩ | ⟨-, hfind⟩
    · rw [hprops] at hw
      cases hw
    · rw [hfind, inherited]
      split_ifs <;> rfl
  · rcases find_object hintact ha hcell hkey with ⟨w, hw, hfind⟩ | ⟨hnone, -⟩
    · rw [hprops] at hw
      cases hw
      rw [hfind]
      cases v with
      | obj sub =>
          have hv' := hv
          rcases hv' with ⟨c, props', rest, rfl, -, -, -⟩
          exact Or.inl ⟨sub, c, hfields, hprops, rfl, hv⟩
      | arr items =>
          rcases hv with ⟨c, values, rest, rfl, -, harray, -⟩
          refine Or.inr ⟨by simp [hfields], ?_⟩
          simp only [isPlainObject, harray]
      | null => exact Or.inr ⟨by simp [hfields], by rw [hv.1]; rfl⟩
      | bool b => exact Or.inr ⟨by simp [hfields], by rw [hv.1]; rfl⟩
      | num n => exact Or.inr ⟨by simp [hfields], by rw [hv.1]; rfl⟩
      | str t => exact Or.inr ⟨by simp [hfields], by rw [hv.1]; rfl⟩
    · rw [hprops] at hnone
      cases hnone

theorem isPlainObject_of_holds {h : Heap} {fields : Fields} {c : Addr} {fp : List Addr}
    (hobj : Holds h (.obj fields) (.ref c) fp) : isPlainObject h (.ref c) = true := by
  rcases hobj with ⟨b, props, rest, hb, -, hcell, -⟩
  cases hb
  simp only [isPlainObject, hcell]

theorem setParts_holds {parts : Path} (hne : parts ≠ []) (hproto : protoKey ∉ parts) {h : Heap}
    {a : Addr} {fields : Fields} {fp fpv : List Addr} {v : Json} {value : Value}
    (hintact : Intact h) (hroot : objectPrototype ∉ fp)
    (hobj : Holds h (.obj fields) (.ref a) fp) (hnodup : fp.Nodup) (hv : Holds h v value fpv)
    (hnodupv : fpv.Nodup) (hdisjoint : ∀ b ∈ fpv, b ∉ fp) :
    ∃ h', setParts h a value parts = (h', none) ∧
      Written h h' (setTree fields parts v) a fp fpv := by
  induction parts generalizing h a fields fp with
  | nil => exact absurd rfl hne
  | cons part parts ih =>
      have hlt := holds_lt _ hobj
      have hltv := holds_lt _ hv
      rcases hobj with ⟨b, props, rest, hab, rfl, hcell, hfields⟩
      cases hab
      have hkey : part ≠ protoKey := fun heq => hproto (heq ▸ List.mem_cons_self)
      have haroot : a ≠ objectPrototype := fun heq => hroot (heq ▸ List.mem_cons_self)
      have halt : a < h.length := hlt a List.mem_cons_self
      have hav : a ∉ fpv := fun hmem => hdisjoint a hmem List.mem_cons_self
      rcases holdsFields_split part hfields with ⟨before, old, after, rfl, hold, hset⟩
      cases parts with
      | nil =>
          -- the last part: one cell changes
          refine ⟨h.set a (.object (some objectPrototype) (Assoc.set props part value)), ?_, ?_⟩
          · rw [setParts, setProperty_object hintact haroot hcell hkey]
          · refine written_field value hset hlt hnodup hdisjoint (by simp) ?_ ?_ ?_ hnodupv ?_
            · rw [List.getElem?_set_self halt]
            · intro b _ hb
              exact getElem?_set_other (fun heq => hb (by simp [heq])) _
            · exact holds_congr v hv fun b hb =>
                getElem?_set_other (fun heq => hav (by rwa [← heq])) _
            · exact fun b hb => Or.inr (Or.inl hb)
      | cons next rest =>
          have hproto' : protoKey ∉ next :: rest := fun hmem => hproto (List.mem_cons_of_mem _ hmem)
          rcases part_cases hintact haroot hcell hkey hold with
            ⟨sub, c, hsub, hprop, hget, hchild⟩ | ⟨hnone, hplain⟩
          · -- the walk goes on in the object that stands there
            have hrest := (List.nodup_cons.mp hnodup).2
            rw [List.append_assoc, List.nodup_append, List.nodup_append] at hrest
            rcases ih (by simp) hproto' hintact (fun hmem => hroot (by simp [hmem])) hchild
              hrest.2.1.1 hv (fun b hb hmem => hdisjoint b hb (by simp [hmem])) with
              ⟨h', hwalk, hwritten⟩
            rcases hwritten.holds with ⟨new, hnew, hnodupnew, hfrom⟩
            have haold : a ∉ old := fun hmem => (List.nodup_cons.mp hnodup).1 (by simp [hmem])
            refine ⟨h', ?_, ?_⟩
            · rw [setParts]
              simp only [hget, isPlainObject_of_holds hchild, if_true]
              exact hwalk
            · have htree : setTree fields (part :: next :: rest) v =
                  Assoc.set fields part (.obj (setTree sub (next :: rest) v)) := by
                simp only [setTree, subFields, hsub]
              rw [htree]
              refine written_field (.ref c) hset hlt hnodup hdisjoint hwritten.le ?_ ?_ hnew
                hnodupnew hfrom
              · rw [hwritten.old a halt haold, hcell, Assoc.set_of_get? hprop]
              · exact fun b hb hmem =>
                  hwritten.old b hb fun hmem' => hmem (List.mem_cons_of_mem _ hmem')
          · -- a new object takes the place of what stands there
            set h₁ := h ++ [.object (some objectPrototype) []] with hh₁
            set h₂ := h₁.set a (.object (some objectPrototype)
              (Assoc.set props part (.ref h.length))) with hh₂
            have hlen₂ : h₂.length = h.length + 1 := by simp [hh₂, hh₁]
            have hlen₁ : a < h₁.length := by
              rw [hh₁, List.length_append]
              exact Nat.lt_succ_of_lt halt
            have hnew : h.length ≠ a := Nat.ne_of_gt halt
            have hone : ∀ b < h.length, h₁[b]? = h[b]? := fun b hb =>
              List.getElem?_append_left hb
            have htwo : ∀ b < h.length, b ≠ a → h₂[b]? = h[b]? := fun b hb hba =>
              (getElem?_set_other hba _).trans (hone b hb)
            have hintact₁ : Intact h₁ :=
              (hone _ (List.getElem?_eq_some_iff.mp hintact).1).trans hintact
            have hintact₂ : Intact h₂ := by
              rw [Intact, hh₂, getElem?_set_other haroot.symm]
              exact hintact₁
            have hcell₂ : h₂[a]? = some (.object (some objectPrototype)
                (Assoc.set props part (.ref h.length))) :=
              List.getElem?_set_self hlen₁
            have hcell₁ : h₁[a]? = some (.object (some objectPrototype) props) :=
              (hone a halt).trans hcell
            have hchild : Holds h₂ (.obj []) (.ref h.length) [h.length] := by
              refine ⟨h.length, [], [], rfl, rfl, ?_, rfl, rfl⟩
              rw [hh₂, getElem?_set_other hnew, hh₁, List.getElem?_concat_length]
            have hget : getProperty h₂ a part = .ref h.length := by
              unfold getProperty
              rcases find_object hintact₂ haroot hcell₂ hkey with ⟨w, hw, hfind⟩ | ⟨hw, -⟩
              · rw [Assoc.get?_set, if_pos rfl] at hw
                cases hw
                rw [hfind]
              · rw [Assoc.get?_set, if_pos rfl] at hw
                cases hw
            -- neither the allocation nor the new property touches the value
            have hv₂ : Holds h₂ v value fpv := holds_congr v hv fun b hb =>
              htwo b (hltv b hb) (fun heq => hav (by rwa [← heq]))
            have hroot₂ : objectPrototype ∉ [h.length] := by
              rw [List.mem_singleton]
              exact Nat.ne_of_lt (Nat.zero_lt_of_lt halt)
            rcases ih (by simp) hproto' hintact₂ hroot₂ hchild (List.nodup_singleton _) hv₂
              (fun b hb hmem => absurd (hltv b hb) (by simp [List.mem_singleton.mp hmem])) with
              ⟨h₃, hwalk, hwritten⟩
            rcases hwritten.holds with ⟨new, hholds, hnodupnew, hfrom⟩
            refine ⟨h₃, ?_, ?_⟩
            · rw [setParts]
              simp only [hplain, Heap.alloc, Bool.false_eq_true, if_false, ← hh₁,
                setProperty_object hintact₁ haroot hcell₁ hkey, ← hh₂, hget]
              exact hwalk
            · have htree : setTree fields (part :: next :: rest) v =
                  Assoc.set fields part (.obj (setTree [] (next :: rest) v)) := by
                have hsub : subFields fields part = [] := by
                  unfold subFields
                  split
                  · rename_i sub hsub
                    exact absurd hsub (hnone sub)
                  · rfl
                simp only [setTree, hsub]
              rw [htree]
              refine written_field (.ref h.length) hset hlt hnodup hdisjoint ?_ ?_ ?_ hholds
                hnodupnew ?_
              · exact le_trans (by omega) hwritten.le
              · rw [hwritten.old a (hlen₂ ▸ Nat.lt_succ_of_lt halt) (by simp [hnew.symm]), hcell₂]
              · intro b hb hmem
                rw [hwritten.old b (hlen₂ ▸ Nat.lt_succ_of_lt hb) (by simp [Nat.ne_of_lt hb])]
                exact htwo b hb (fun heq => hmem (by simp [heq]))
              · intro b hb
                rcases hfrom b hb with hb | hb | hb
                · exact Or.inr (Or.inr (List.mem_singleton.mp hb).ge)
                · exact Or.inr (Or.inl hb)
                · exact Or.inr (Or.inr (by omega))

/-- Deleting a property of the object at `a`. -/
theorem deleteProperty_holds {h : Heap} {a : Addr} {fields : Fields} {fp : List Addr}
    (key : JsString) (hobj : Holds h (.obj fields) (.ref a) fp) (hnodup : fp.Nodup) :
    Written h (deleteProperty h a key) (Assoc.erase fields key) a fp [] := by
  have hlt := holds_lt _ hobj
  rcases hobj with ⟨b, props, rest, hab, rfl, hcell, hfields⟩
  cases hab
  rcases List.nodup_cons.mp hnodup with ⟨harest, hnoduprest⟩
  rcases holdsFields_erase key hfields with ⟨fp', hsub, hholds⟩
  have hdelete : deleteProperty h a key =
      h.set a (.object (some objectPrototype) (Assoc.erase props key)) := by
    simp only [deleteProperty, hcell]
  have hagree : Agree h (h.set a (.object (some objectPrototype) (Assoc.erase props key))) fp' :=
    fun b hb => getElem?_set_other (fun heq => harest (hsub.subset (by rwa [← heq]))) _
  rw [hdelete]
  refine ⟨by simp, ⟨a :: fp', ⟨a, _, fp', rfl, rfl, ?_, holdsFields_congr hholds hagree⟩, ?_, ?_⟩, ?_⟩
  · exact List.getElem?_set_self (hlt a List.mem_cons_self)
  · exact List.nodup_cons.mpr ⟨fun hmem => harest (hsub.subset hmem), hsub.nodup hnoduprest⟩
  · intro b hb
    left
    rcases List.mem_cons.mp hb with rfl | hb
    · exact List.mem_cons_self
    · exact List.mem_cons_of_mem _ (hsub.subset hb)
  · intro b _ hmem
    exact getElem?_set_other (fun heq => hmem (by simp [heq])) _

theorem unsetParts_holds {parts : Path} (hne : parts ≠ []) (hproto : protoKey ∉ parts) {h : Heap}
    {a : Addr} {fields : Fields} {fp : List Addr} (hintact : Intact h)
    (hroot : objectPrototype ∉ fp) (hobj : Holds h (.obj fields) (.ref a) fp)
    (hnodup : fp.Nodup) :
    Written h (unsetParts h a parts) (unsetTree fields parts) a fp [] := by
  induction parts generalizing h a fields fp with
  | nil => exact absurd rfl hne
  | cons part parts ih =>
      cases parts with
      | nil => exact deleteProperty_holds part hobj hnodup
      | cons next rest =>
          have hwhole := hobj
          have hlt := holds_lt _ hobj
          rcases hobj with ⟨b, props, cells, hab, rfl, hcell, hfields⟩
          cases hab
          have hkey : part ≠ protoKey := fun heq => hproto (heq ▸ List.mem_cons_self)
          have haroot : a ≠ objectPrototype := fun heq => hroot (heq ▸ List.mem_cons_self)
          rcases holdsFields_split part hfields with ⟨before, old, after, rfl, hold, hset⟩
          rcases part_cases hintact haroot hcell hkey hold with
            ⟨sub, c, hsub, hprop, hget, hchild⟩ | ⟨hnone, hplain⟩
          · have hrest := (List.nodup_cons.mp hnodup).2
            rw [List.append_assoc, List.nodup_append, List.nodup_append] at hrest
            have hwritten := ih (by simp) (fun hmem => hproto (List.mem_cons_of_mem _ hmem)) hintact
              (fun hmem => hroot (by simp [hmem])) hchild hrest.2.1.1
            rcases hwritten.holds with ⟨new, hnew, hnodupnew, hfrom⟩
            have haold : a ∉ old := fun hmem => (List.nodup_cons.mp hnodup).1 (by simp [hmem])
            have hwalk : unsetParts h a (part :: next :: rest) = unsetParts h c (next :: rest) := by
              rw [unsetParts]
              simp only [hget, isPlainObject_of_holds hchild, if_true]
            have htree : unsetTree fields (part :: next :: rest) =
                Assoc.set fields part (.obj (unsetTree sub (next :: rest))) := by
              simp only [unsetTree, hsub]
            rw [hwalk, htree]
            refine written_field (.ref c) hset hlt hnodup (by simp) hwritten.le ?_ ?_ hnew
              hnodupnew hfrom
            · rw [hwritten.old a (hlt a List.mem_cons_self) haold, hcell, Assoc.set_of_get? hprop]
            · exact fun b hb hmem =>
                hwritten.old b hb fun hmem' => hmem (List.mem_cons_of_mem _ hmem')
          · -- nothing is removed below a value that is no object
            have hwalk : unsetParts h a (part :: next :: rest) = h := by
              rw [unsetParts]
              cases hvalue : getProperty h a part with
              | ref c =>
                  rw [hvalue] at hplain
                  simp only [hplain, Bool.false_eq_true, if_false]
              | _ => rfl
            have htree : unsetTree fields (part :: next :: rest) = fields := by
              rw [unsetTree]
              split
              · rename_i sub hsub
                exact absurd hsub (hnone sub)
              · rfl
            rw [hwalk, htree]
            exact ⟨le_rfl, ⟨_, hwhole, hnodup, fun b hb => Or.inl hb⟩, fun b _ _ => rfl⟩

/-! ## The whole patch -/

/-- The object at `a` is a tree of cells that are newer than the heap `h₀`, of which nothing is
changed. -/
structure Copy (h₀ h : Heap) (a : Addr) (fields : Fields) : Prop where
  le : h₀.length ≤ h.length
  old : ∀ b < h₀.length, h[b]? = h₀[b]?
  holds : ∃ fp, Holds h (.obj fields) (.ref a) fp ∧ fp.Nodup ∧ ∀ b ∈ fp, h₀.length ≤ b

section Whole

variable {h₀ h : Heap} {a : Addr} {fields : Fields}

theorem Copy.intact (hcopy : Copy h₀ h a fields) (hintact : Intact h₀) : Intact h := by
  rw [Intact, hcopy.old _ (List.getElem?_eq_some_iff.mp hintact).1]
  exact hintact

theorem Copy.agree (hcopy : Copy h₀ h a fields) {fp : List Addr} (hlt : ∀ b ∈ fp, b < h₀.length) :
    Agree h₀ h fp :=
  fun b hb => hcopy.old b (hlt b hb)

theorem Copy.of_written {h' : Heap} {fields' : Fields} {fp fpv : List Addr}
    (hcopy : Copy h₀ h a fields) (hfp : ∀ b ∈ fp, h₀.length ≤ b) (hfpv : ∀ b ∈ fpv, h₀.length ≤ b)
    (hwritten : Written h h' fields' a fp fpv) : Copy h₀ h' a fields' := by
  rcases hwritten.holds with ⟨fp', hholds, hnodup, hfrom⟩
  refine ⟨hcopy.le.trans hwritten.le, fun b hb => ?_, fp', hholds, hnodup, fun b hb => ?_⟩
  · rw [hwritten.old b (Nat.lt_of_lt_of_le hb hcopy.le)
      fun hmem => absurd (hfp b hmem) (not_le.mpr hb), hcopy.old b hb]
  · rcases hfrom b hb with hb | hb | hb
    · exact hfp b hb
    · exact hfpv b hb
    · exact hcopy.le.trans hb

theorem root_notMem_new (hintact : Intact h₀) {fp : List Addr}
    (hfp : ∀ b ∈ fp, h₀.length ≤ b) : objectPrototype ∉ fp := fun hmem =>
  absurd (List.getElem?_eq_some_iff.mp hintact).1 (not_lt.mpr (hfp _ hmem))

theorem setAll_cons (fields : Fields) (path : JsString) (v : Json) (entries : Fields) :
    setAll fields ((path, v) :: entries) =
      assertPatchPath (some path) (setField path) >>= fun parts =>
        setAll (setTree fields parts v) entries := by
  rw [setAll, List.foldlM_cons]
  cases assertPatchPath (some path) (setField path) <;> rfl

theorem unsetAll_cons (fields : Fields) (path : Option JsString) (paths : List (Option JsString)) :
    unsetAll fields (path :: paths) =
      assertPatchPath path unsetField >>= fun parts => unsetAll (unsetTree fields parts) paths := by
  rw [unsetAll, List.foldlM_cons]
  cases assertPatchPath path unsetField <;> rfl

/-- The loop stops at the error of the loop on trees, or writes the tree it gives. -/
theorem setLoop_spec (hintact : Intact h₀) (hcopy : Copy h₀ h a fields) {fuel : Nat}
    {entries : Fields} {props : List (JsString × Value)} {fp : List Addr}
    (hfuel : ∀ f ∈ entries, Clones f.2 fuel)
    (hentries : Holds.holdsFields h₀ entries props fp)
    (hproto : ∀ f ∈ entries, protoKey ∉ split (unit '.') f.1) :
    ∃ h' result, setLoop fuel h a props = some (h', result) ∧
      (∀ b < h₀.length, h'[b]? = h₀[b]?) ∧
      match setAll fields entries with
      | .ok next => result = none ∧ Copy h₀ h' a next
      | .error err => result = some err := by
  induction entries generalizing h fields props fp with
  | nil =>
      rcases hentries with ⟨rfl, rfl⟩
      exact ⟨h, none, rfl, hcopy.old, rfl, hcopy⟩
  | cons f entries ih =>
      obtain ⟨path, v⟩ := f
      rcases hentries with ⟨value, rest, left, right, rfl, rfl, hleft, hright⟩
      have hvalue : Holds h v value left := holds_congr v hleft (hcopy.agree (holds_lt v hleft))
      rcases hfuel (path, v) List.mem_cons_self h value left hvalue with
        ⟨new, clone, fpv, hclone, hv, hnodupv, hgev⟩
      rcases hcopy.holds with ⟨fpc, hobj, hnodup, hge⟩
      have hlt := holds_lt _ hobj
      have hcopy₁ : Copy h₀ (h ++ new) a fields := by
        refine ⟨hcopy.le.trans (by simp), fun b hb => ?_, fpc, ?_, hnodup, hge⟩
        · rw [List.getElem?_append_left (Nat.lt_of_lt_of_le hb hcopy.le), hcopy.old b hb]
        · exact holds_congr _ hobj (agree_append hlt new)
      rw [setLoop, hclone, setAll_cons]
      simp only [Option.bind_eq_bind, Option.bind_some, setPath]
      cases hparts : assertPatchPath (some path) (setField path) with
      | error err => exact ⟨h ++ new, some err, rfl, hcopy₁.old, rfl⟩
      | ok parts =>
          rcases assertPatchPath_ne_nil hparts with ⟨hne, -, text, htext, rfl⟩
          cases htext
          rcases setParts_holds hne (hproto (path, v) List.mem_cons_self) (hcopy₁.intact hintact)
            (root_notMem_new hintact hge) (holds_congr _ hobj (agree_append hlt new)) hnodup hv
            hnodupv (fun b hb hmem => absurd (hlt b hmem) (not_lt.mpr (hgev b hb))) with
            ⟨h', hwalk, hwritten⟩
          have hcopy₂ := hcopy₁.of_written hge (fun b hb => hcopy.le.trans (hgev b hb)) hwritten
          simp only [hwalk]
          exact ih hcopy₂ (fun g hg => hfuel g (List.mem_cons_of_mem _ hg)) hright
            (fun g hg => hproto g (List.mem_cons_of_mem _ hg))

theorem unsetLoop_spec (hintact : Intact h₀) (hcopy : Copy h₀ h a fields) {paths : List Value}
    (hproto : ∀ p ∈ paths, ∀ text, stringValue p = some text →
      protoKey ∉ split (unit '.') text) :
    ∃ h' result, unsetLoop h a paths = (h', result) ∧ (∀ b < h₀.length, h'[b]? = h₀[b]?) ∧
      match unsetAll fields (paths.map stringValue) with
      | .ok next => result = none ∧ Copy h₀ h' a next
      | .error err => result = some err := by
  induction paths generalizing h fields with
  | nil => exact ⟨h, none, rfl, hcopy.old, rfl, hcopy⟩
  | cons path paths ih =>
      rw [unsetLoop, List.map_cons, unsetAll_cons, unsetPath]
      cases hparts : assertPatchPath (stringValue path) unsetField with
      | error err => exact ⟨h, some err, rfl, hcopy.old, rfl⟩
      | ok parts =>
          rcases assertPatchPath_ne_nil hparts with ⟨hne, -, text, htext, rfl⟩
          rcases hcopy.holds with ⟨fpc, hobj, hnodup, hge⟩
          have hwritten := unsetParts_holds hne (hproto path List.mem_cons_self text htext)
            (hcopy.intact hintact) (root_notMem_new hintact hge) hobj hnodup
          exact ih (hcopy.of_written hge (by simp) hwritten)
            (fun p hp => hproto p (List.mem_cons_of_mem _ hp))

end Whole

/-! ## Patches without `__proto__` -/

/-- The paths that the patch names, accepted or not. -/
def patchPaths (patch : Json) : List JsString :=
  match patch with
  | .obj fields =>
      (match Assoc.get? fields (js "$set") with
        | some (.obj entries) => Assoc.keys entries
        | _ => []) ++
      (match Assoc.get? fields (js "$unset") with
        | some (.obj paths) => Assoc.keys paths
        | some (.arr items) => items.filterMap stringOf
        | _ => [])
  | _ => []

/-- No part of a path is `__proto__`. -/
def avoidsProto (patch : Json) : Bool :=
  (patchPaths patch).all fun path => decide (protoKey ∉ split (unit '.') path)

/-- `$set` read from the heap is `$set` of the tree. -/
theorem setEntriesOf_spec {h : Heap} (hintact : Intact h) {patch : Fields} {p : Addr}
    {fp : List Addr} (hpatch : Holds h (.obj patch) (.ref p) fp) :
    match setEntries patch with
    | .ok entries => ∃ props fp', setEntriesOf h (getProperty h p (js "$set")) = .ok props ∧
        Holds.holdsFields h entries props fp' ∧ ∀ b ∈ fp', b ∈ fp
    | .error err => setEntriesOf h (getProperty h p (js "$set")) = .error err := by
  rcases getProperty_field hintact hpatch (by decide : js "$set" ≠ protoKey) (by decide) with
    ⟨hget, hvalue⟩ | ⟨v, fp', hget, hv, hsub⟩
  · rw [setEntries, hget, hvalue]
    exact ⟨[], [], rfl, ⟨rfl, rfl⟩, by simp⟩
  · rw [setEntries, hget]
    cases v with
    | null =>
        rw [hv.1]
        exact ⟨[], [], rfl, ⟨rfl, rfl⟩, by simp⟩
    | bool b => rw [hv.1]; rfl
    | num n => rw [hv.1]; rfl
    | str s => rw [hv.1]; rfl
    | arr items =>
        rcases hv with ⟨a, values, rest, hvalue, -, hcell, -⟩
        rw [hvalue]
        simp only [setEntriesOf, hcell]
    | obj entries =>
        rcases hv with ⟨a, props, rest, hvalue, rfl, hcell, hentries⟩
        rw [hvalue]
        exact ⟨props, rest, by simp only [setEntriesOf, hcell], hentries,
          fun b hb => hsub b (List.mem_cons_of_mem _ hb)⟩

theorem map_stringValue {h : Heap} {items : List Json} {values : List Value} {fp : List Addr}
    (hitems : Holds.holdsItems h items values fp) :
    values.map stringValue = items.map stringOf := by
  induction items generalizing values fp with
  | nil => rw [hitems.1]; rfl
  | cons v items ih =>
      rcases hitems with ⟨value, rest, left, right, rfl, rfl, hleft, hright⟩
      have hv : stringValue value = stringOf v := by
        cases v with
        | arr items => rcases hleft with ⟨a, _, _, rfl, -⟩; rfl
        | obj fields => rcases hleft with ⟨a, _, _, rfl, -⟩; rfl
        | _ => rw [hleft.1]; rfl
      rw [List.map_cons, List.map_cons, hv, ih hright]

/-- `$unset` read from the heap is `$unset` of the tree. -/
theorem unsetPathsOf_spec {h : Heap} (hintact : Intact h) {patch : Fields} {p : Addr}
    {fp : List Addr} (hpatch : Holds h (.obj patch) (.ref p) fp) :
    match unsetPaths patch with
    | .ok paths => ∃ values, unsetPathsOf h (getProperty h p (js "$unset")) = .ok values ∧
        values.map stringValue = paths
    | .error err => unsetPathsOf h (getProperty h p (js "$unset")) = .error err := by
  rcases getProperty_field hintact hpatch (by decide : js "$unset" ≠ protoKey) (by decide) with
    ⟨hget, hvalue⟩ | ⟨v, fp', hget, hv, hsub⟩
  · rw [unsetPaths, hget, hvalue]
    exact ⟨[], rfl, rfl⟩
  · rw [unsetPaths, hget]
    cases v with
    | null => rw [hv.1]; rfl
    | bool b => rw [hv.1]; rfl
    | num n => rw [hv.1]; rfl
    | str s => rw [hv.1]; rfl
    | arr items =>
        rcases hv with ⟨a, values, rest, hvalue, -, hcell, hitems⟩
        rw [hvalue]
        exact ⟨values, by simp only [unsetPathsOf, hcell], map_stringValue hitems⟩
    | obj paths =>
        rcases hv with ⟨a, props, rest, hvalue, -, hcell, hpaths⟩
        rw [hvalue]
        refine ⟨(Assoc.keys props).map .str, by simp only [unsetPathsOf, hcell], ?_⟩
        rw [List.map_map, (holdsFields_iff.mp hpaths).1]
        rfl

/-- The paths of an accepted `$set` and `$unset` are paths of the patch. -/
theorem avoids_sets {fields entries : Fields} (havoids : avoidsProto (.obj fields) = true)
    (hentries : setEntries fields = .ok entries) :
    ∀ f ∈ entries, protoKey ∉ split (unit '.') f.1 := by
  intro f hf
  have hget : Assoc.get? fields (js "$set") = some (.obj entries) := by
    unfold setEntries at hentries
    split at hentries
    · cases hentries
      cases hf
    · cases hentries
      cases hf
    · rename_i hget
      cases hentries
      exact hget
    · cases hentries
  have hall := List.all_eq_true.mp havoids f.1
  rw [patchPaths, hget] at hall
  simpa using hall (List.mem_append_left _ (List.mem_map_of_mem hf))

theorem avoids_unsets {fields : Fields} {paths : List (Option JsString)}
    (havoids : avoidsProto (.obj fields) = true) (hpaths : unsetPaths fields = .ok paths) :
    ∀ text, some text ∈ paths → protoKey ∉ split (unit '.') text := by
  intro text htext
  have hall := List.all_eq_true.mp havoids text
  rw [patchPaths] at hall
  have hmem : text ∈ (match Assoc.get? fields (js "$unset") with
      | some (.obj paths) => Assoc.keys paths
      | some (.arr items) => items.filterMap stringOf
      | _ => []) := by
    unfold unsetPaths at hpaths
    split at hpaths
    · cases hpaths
      cases htext
    · rename_i items hget
      cases hpaths
      rw [hget]
      rcases List.mem_map.mp htext with ⟨v, hv, hstring⟩
      exact List.mem_filterMap.mpr ⟨v, hv, hstring⟩
    · rename_i keys hget
      cases hpaths
      rw [hget]
      simpa using htext
    · cases hpaths
  simpa using hall (List.mem_append_right _ hmem)

/-- Depth enough to clone the object and the values that are set. -/
theorem exists_fuel (current patch : Fields) :
    ∃ n₀, ∀ n, n₀ ≤ n → Clones (.obj current) n ∧
      ∀ entries, setEntries patch = .ok entries → ∀ f ∈ entries, Clones f.2 n := by
  rcases clones (.obj current) with ⟨n₁, h₁⟩
  cases hentries : setEntries patch with
  | error err => exact ⟨n₁, fun n hn => ⟨h₁ n hn, by simp⟩⟩
  | ok entries =>
      rcases exists_common Clones (entries.map Prod.snd) (fun v _ => clones v) with
        ⟨n₂, h₂⟩
      refine ⟨max n₁ n₂, fun n hn => ⟨h₁ n ((le_max_left _ _).trans hn), ?_⟩⟩
      rintro entries' heq f hf
      cases heq
      exact h₂ f.2 (List.mem_map_of_mem hf) n ((le_max_right _ _).trans hn)

/-- The steps on a copy of the object. -/
theorem patchClone_spec {h₀ h : Heap} (hintact : Intact h₀) {a p : Addr} {current patch : Fields}
    (hcopy : Copy h₀ h a current) {fpp : List Addr}
    (hpatch : Holds h₀ (.obj patch) (.ref p) fpp) (havoids : avoidsProto (.obj patch) = true)
    {n : Nat} (hvalues : ∀ entries, setEntries patch = .ok entries → ∀ f ∈ entries, Clones f.2 n) :
    ∃ h' result, patchClone n h a p = some (h', result) ∧ (∀ b < h₀.length, h'[b]? = h₀[b]?) ∧
      match (do
        let entries ← setEntries patch
        let next ← setAll (Assoc.erase current idKey) entries
        let paths ← unsetPaths patch
        unsetAll next paths) with
      | .ok next => ∃ a, result = .ok (.ref a) ∧ Copy h₀ h' a next
      | .error err => result = .error err := by
  have hltp := holds_lt _ hpatch
  -- in each heap on the way the patch reads as before
  have hread : ∀ {h' : Heap} {fields : Fields}, Copy h₀ h' a fields →
      Holds h' (.obj patch) (.ref p) fpp :=
    fun hcopy' => holds_congr _ hpatch (hcopy'.agree hltp)
  rcases hcopy.holds with ⟨fp, hholds, hnodup, hge⟩
  have hcopy₁ : Copy h₀ (deleteProperty h a idKey) a (Assoc.erase current idKey) :=
    hcopy.of_written hge (by simp) (deleteProperty_holds idKey hholds hnodup)
  have hsets := setEntriesOf_spec (hcopy₁.intact hintact) (hread hcopy₁)
  rw [patchClone]
  cases hentries : setEntries patch with
  | error err =>
      rw [hentries] at hsets
      exact ⟨_, _, by simp only [hsets]; rfl, hcopy₁.old, rfl⟩
  | ok entries =>
      rw [hentries] at hsets
      rcases hsets with ⟨props, fps, hprops, hholdsSets, hsub⟩
      have hold : Holds.holdsFields h₀ entries props fps :=
        holdsFields_congr hholdsSets fun b hb => (hcopy₁.old b (hltp b (hsub b hb))).symm
      rcases setLoop_spec hintact hcopy₁ (hvalues entries hentries) hold
        (avoids_sets havoids hentries) with ⟨h₂, result, hloop, hold₂, hafter⟩
      simp only [hprops, hloop, Option.bind_eq_bind, Option.bind_some]
      cases hset : setAll (Assoc.erase current idKey) entries with
      | error err =>
          rw [hset] at hafter
          subst hafter
          exact ⟨h₂, _, rfl, hold₂, by simp only [bind, Except.bind, hset]⟩
      | ok next =>
          rw [hset] at hafter
          rcases hafter with ⟨rfl, hcopy₂⟩
          have hunsets := unsetPathsOf_spec (hcopy₂.intact hintact) (hread hcopy₂)
          cases hpaths : unsetPaths patch with
          | error err =>
              rw [hpaths] at hunsets
              exact ⟨h₂, _, by simp only [hunsets]; rfl, hold₂,
                by simp only [bind, Except.bind, hset]⟩
          | ok paths =>
              rw [hpaths] at hunsets
              rcases hunsets with ⟨values, hunset, hstrings⟩
              have hproto : ∀ v ∈ values, ∀ text, stringValue v = some text →
                  protoKey ∉ split (unit '.') text := by
                intro v hv text htext
                apply avoids_unsets havoids hpaths
                rw [← hstrings]
                exact List.mem_map.mpr ⟨v, hv, htext⟩
              rcases unsetLoop_spec hintact hcopy₂ hproto with
                ⟨h₃, result, hloop, hold₃, hafter⟩
              rw [hstrings] at hafter
              simp only [hunset, hloop, bind, Except.bind, hset]
              cases hnext : unsetAll next paths with
              | error err =>
                  rw [hnext] at hafter
                  subst hafter
                  exact ⟨h₃, _, rfl, hold₃, rfl⟩
              | ok last =>
                  rw [hnext] at hafter
                  rcases hafter with ⟨rfl, hcopy₃⟩
                  exact ⟨h₃, _, rfl, hold₃, a, rfl, hcopy₃⟩

/-- Without `__proto__` in its paths, a patch of the object at `c` changes no cell that exists: it
throws the error of `patchTree`, or returns an object of new cells that reads as its tree. -/
theorem applyPatchToObject_spec {h : Heap} (hintact : Intact h) {current : Fields} {patch : Json}
    {c p : Value} {fpc fpp : List Addr} (hcurrent : Holds h (.obj current) c fpc)
    (hpatch : Holds h patch p fpp) (havoids : avoidsProto patch = true) :
    ∃ n₀, ∀ n, n₀ ≤ n → ∃ h' result, applyPatchToObject n h c p = some (h', result) ∧
      (∀ b < h.length, h'[b]? = h[b]?) ∧
      match patchTree current patch with
      | .ok next => ∃ a, result = .ok (.ref a) ∧ Copy h h' a next
      | .error err => result = .error err := by
  have hnoBody : ∀ {v : Value}, (∀ n, applyPatchToObject n h c v =
      some (h, .error .bodyNotObject)) → ∃ n₀, ∀ n, n₀ ≤ n → ∃ h' result,
      applyPatchToObject n h c v = some (h', result) ∧ (∀ b < h.length, h'[b]? = h[b]?) ∧
        result = .error .bodyNotObject :=
    fun hrun => ⟨0, fun n _ => ⟨h, _, hrun n, fun _ _ => rfl, rfl⟩⟩
  cases patch with
  | null => exact hnoBody fun n => by rw [hpatch.1]; rfl
  | bool b => exact hnoBody fun n => by rw [hpatch.1]; rfl
  | num x => exact hnoBody fun n => by rw [hpatch.1]; rfl
  | str s => exact hnoBody fun n => by rw [hpatch.1]; rfl
  | arr items =>
      rcases hpatch with ⟨a, values, rest, rfl, -, hcell, -⟩
      exact hnoBody fun n => by simp only [applyPatchToObject, hcell]
  | obj fields =>
      have hlt := holds_lt _ hpatch
      have hwhole := hpatch
      rcases hpatch with ⟨pa, props, rest, rfl, rfl, hcell, hfields⟩
      have hkeys := (holdsFields_iff.mp hfields).1
      rcases exists_fuel current fields with ⟨n₀, hn₀⟩
      refine ⟨n₀, fun n hn => ?_⟩
      rcases hn₀ n hn with ⟨hclone, hvalues⟩
      rw [applyPatchToObject, patchTree]
      simp only [hcell, hkeys]
      cases hunsupported : (Assoc.keys fields).find? fun key => !isSupportedKey key with
      | some key => exact ⟨h, _, rfl, fun _ _ => rfl, rfl⟩
      | none =>
          have hobject : orEmpty h c = (h, c) := by
            rcases hcurrent with ⟨a, _, _, rfl, -⟩
            rfl
          rcases hclone h c fpc hcurrent with ⟨new, clone, fp, hrun, hholds, hnodup, hge⟩
          have hclone' := hholds
          rcases hclone' with ⟨a, cells, rest, rfl, -, -, -⟩
          have hcopy : Copy h (h ++ new) a current :=
            ⟨by simp, fun b hb => List.getElem?_append_left hb, fp, hholds, hnodup, hge⟩
          have hpatched := patchClone_spec hintact hcopy hwhole havoids hvalues
          rcases hpatched with ⟨h', result, hpatched, hrest⟩
          refine ⟨h', result, ?_, hrest⟩
          simp only [hobject, hrun, Option.bind_eq_bind, Option.bind_some]
          exact hpatched

/-- Without `__proto__` in its paths, a patch changes no cell that existed before, accepted or
rejected.  An accepted one returns an object of new cells, with its values set, its paths removed,
and every other path as it was. -/
theorem applyPatchToObject_frame {h : Heap} (hintact : Intact h) {current : Fields} {patch : Json}
    {c p : Value} {fpc fpp : List Addr} (hcurrent : Holds h (.obj current) c fpc)
    (hpatch : Holds h patch p fpp) (havoids : avoidsProto patch = true) :
    ∃ n₀, ∀ n, n₀ ≤ n → ∃ h' result, applyPatchToObject n h c p = some (h', result) ∧
      (∀ b < h.length, h'[b]? = h[b]?) ∧
      ∀ value, result = .ok value → ∃ a next sets unsets, value = .ref a ∧ Copy h h' a next ∧
        Accepted patch sets unsets ∧ Patched current sets unsets next := by
  rcases applyPatchToObject_spec hintact hcurrent hpatch havoids with ⟨n₀, hn₀⟩
  refine ⟨n₀, fun n hn => ?_⟩
  rcases hn₀ n hn with ⟨h', result, hrun, hold, hresult⟩
  refine ⟨h', result, hrun, hold, ?_⟩
  rintro value rfl
  cases hnext : patchTree current patch with
  | error err =>
      rw [hnext] at hresult
      cases hresult
  | ok next =>
      rw [hnext] at hresult
      rcases hresult with ⟨a, hvalue, hcopy⟩
      cases hvalue
      rcases patchTree_spec hnext with ⟨sets, unsets, haccepted, hpatched⟩
      exact ⟨a, next, sets, unsets, rfl, hcopy, haccepted, hpatched⟩

/-- `{ _id: "7", tags: ["x", "y"] }` -/
def taggedTree : Fields :=
  [(idKey, .str (js "7")), (js "tags", .arr [.str (js "x"), .str (js "y")])]

/-- `{ $set: { "tags.0": "z" } }` -/
def firstTagPatch : Json :=
  .obj [(js "$set", .obj [(js "tags.0", .str (js "z"))])]

/-- The object at 2, and its patch at 4. -/
def taggedHeap : Heap :=
  [prototypeCell, .object (some objectPrototype) [],
    .object (some objectPrototype) [(idKey, .str (js "7")), (js "tags", .ref 3)],
    .array [.str (js "x"), .str (js "y")],
    .object (some objectPrototype) [(js "$set", .ref 5)],
    .object (some objectPrototype) [(js "tags.0", .str (js "z"))]]

theorem taggedHeap_object : Holds taggedHeap (.obj taggedTree) (.ref 2) [2, 3] := by
  refine ⟨2, [(idKey, .str (js "7")), (js "tags", .ref 3)], [3], rfl, rfl, rfl, ?_⟩
  refine ⟨.str (js "7"), [(js "tags", .ref 3)], [], [3], rfl, rfl, ⟨rfl, rfl⟩, ?_⟩
  refine ⟨.ref 3, [], [3], [], rfl, rfl, ?_, rfl, rfl⟩
  refine ⟨3, [.str (js "x"), .str (js "y")], [], rfl, rfl, rfl, ?_⟩
  refine ⟨.str (js "x"), [.str (js "y")], [], [], rfl, rfl, ⟨rfl, rfl⟩, ?_⟩
  exact ⟨.str (js "y"), [], [], [], rfl, rfl, ⟨rfl, rfl⟩, rfl, rfl⟩

theorem taggedHeap_patch : Holds taggedHeap firstTagPatch (.ref 4) [4, 5] := by
  refine ⟨4, [(js "$set", .ref 5)], [5], rfl, rfl, rfl, ?_⟩
  refine ⟨.ref 5, [], [5], [], rfl, rfl, ?_, rfl, rfl⟩
  refine ⟨5, [(js "tags.0", .str (js "z"))], [], rfl, rfl, rfl, ?_⟩
  exact ⟨.str (js "z"), [], [], [], rfl, rfl, ⟨rfl, rfl⟩, rfl, rfl⟩

theorem applyPatchToObject_frame_tagged : ∃ n₀, ∀ n, n₀ ≤ n → ∃ h' result,
    applyPatchToObject n taggedHeap (.ref 2) (.ref 4) = some (h', result) ∧
      (∀ b < taggedHeap.length, h'[b]? = taggedHeap[b]?) ∧
      ∀ value, result = .ok value → ∃ a next sets unsets, value = .ref a ∧
        Copy taggedHeap h' a next ∧ Accepted firstTagPatch sets unsets ∧
          Patched taggedTree sets unsets next :=
  applyPatchToObject_frame (by decide) taggedHeap_object taggedHeap_patch (by decide)

/-- Setting `tags.0` is accepted, and loses `tags.1` and `_id`: an array on the way is replaced by an
object, and an identifier is never kept. -/
theorem firstTag_loses_others :
    ¬Overlap [js "tags", indexText 0] [js "tags", indexText 1] ∧
    ¬Overlap [js "tags", indexText 0] [idKey] ∧
    valueAt (.obj taggedTree) [js "tags", indexText 1] = some (.str (js "y")) ∧
    valueAt (.obj taggedTree) [idKey] = some (.str (js "7")) ∧
    patchTree taggedTree firstTagPatch =
      .ok [(js "tags", .obj [(indexText 0, .str (js "z"))])] ∧
    ∃ h', applyPatchToObject 4 taggedHeap (.ref 2) (.ref 4) = some (h', .ok (.ref 7)) ∧
      Holds h' (.obj [(js "tags", .obj [(indexText 0, .str (js "z"))])]) (.ref 7) [7, 8] := by
  refine ⟨by decide, by decide, by decide, by decide, by rfl, taggedHeap ++
    [.array [.str (js "x"), .str (js "y")], .object (some objectPrototype) [(js "tags", .ref 8)],
      .object (some objectPrototype) [(indexText 0, .str (js "z"))]], by rfl, ?_⟩
  refine ⟨7, [(js "tags", .ref 8)], [8], rfl, rfl, rfl, ?_⟩
  refine ⟨.ref 8, [], [8], [], rfl, rfl, ?_, rfl, rfl⟩
  refine ⟨8, [(indexText 0, .str (js "z"))], [], rfl, rfl, rfl, ?_⟩
  exact ⟨.str (js "z"), [], [], [], rfl, rfl, ⟨rfl, rfl⟩, rfl, rfl⟩

end Patch
end ObjyDb
