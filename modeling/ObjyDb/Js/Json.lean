import ObjyDb.Js.Number
import ObjyDb.Lib.Assoc

/-!
# Json — JSON values

Objects are insertion-ordered association lists of own properties.  This file gives decidable
equality, the induction principle over a JSON tree, and `WellFormed`: no object of the tree
repeats a key.
-/

namespace ObjyDb
namespace Js

inductive Json where
  | null
  | bool (b : Bool)
  | num (n : JsNumber)
  | str (s : JsString)
  | arr (items : List Json)
  | obj (fields : List (JsString × Json))

/-- The own properties of a JSON object. -/
abbrev Fields := List (JsString × Json)

instance : Inhabited Json := ⟨.null⟩

namespace Json

/-! ## Induction -/

/-- Induction over the tree: the parts of an array or object satisfy the motive. -/
@[elab_as_elim]
theorem induct {motive : Json → Prop} (null : motive .null) (bool : ∀ b, motive (.bool b))
    (num : ∀ n, motive (.num n)) (str : ∀ s, motive (.str s))
    (arr : ∀ items, (∀ item ∈ items, motive item) → motive (.arr items))
    (obj : ∀ fields : Fields, (∀ field ∈ fields, motive field.2) → motive (.obj fields))
    (v : Json) : motive v :=
  Json.rec (motive_1 := motive) (motive_2 := fun items => ∀ item ∈ items, motive item)
    (motive_3 := fun fields => ∀ field ∈ fields, motive field.2)
    (motive_4 := fun field => motive field.2)
    null bool num str arr obj
    (by simp)
    (fun _ _ hhead htail => by simpa using ⟨hhead, htail⟩)
    (by simp)
    (fun _ _ hhead htail => by
      intro field hfield
      rcases List.mem_cons.mp hfield with rfl | hmem
      · exact hhead
      · exact htail field hmem)
    (fun _ _ h => h)
    v

/-! ## Decidable equality -/

def beq : Json → Json → Bool
  | .null, .null => true
  | .bool a, .bool b => decide (a = b)
  | .num a, .num b => decide (a = b)
  | .str a, .str b => decide (a = b)
  | .arr xs, .arr ys => beqItems xs ys
  | .obj fs, .obj gs => beqFields fs gs
  | _, _ => false
where
  beqItems : List Json → List Json → Bool
    | [], [] => true
    | x :: xs, y :: ys => beq x y && beqItems xs ys
    | _, _ => false
  beqFields : Fields → Fields → Bool
    | [], [] => true
    | (k, x) :: fs, (l, y) :: gs => decide (k = l) && (beq x y && beqFields fs gs)
    | _, _ => false

theorem beqItems_iff (xs : List Json) (h : ∀ x ∈ xs, ∀ y, beq x y = true ↔ x = y)
    (ys : List Json) : beq.beqItems xs ys = true ↔ xs = ys := by
  induction xs generalizing ys with
  | nil => cases ys <;> simp [beq.beqItems]
  | cons x xs ih =>
      cases ys with
      | nil => simp [beq.beqItems]
      | cons y ys =>
          have hx := h x List.mem_cons_self y
          have hxs := ih (fun z hz => h z (List.mem_cons_of_mem _ hz)) ys
          simp [beq.beqItems, hx, hxs]

theorem beqFields_iff (fs : Fields) (h : ∀ f ∈ fs, ∀ y, beq f.2 y = true ↔ f.2 = y)
    (gs : Fields) : beq.beqFields fs gs = true ↔ fs = gs := by
  induction fs generalizing gs with
  | nil => cases gs <;> simp [beq.beqFields]
  | cons f fs ih =>
      obtain ⟨k, x⟩ := f
      cases gs with
      | nil => simp [beq.beqFields]
      | cons g gs =>
          obtain ⟨l, y⟩ := g
          have hx := h (k, x) List.mem_cons_self y
          have hfs := ih (fun z hz => h z (List.mem_cons_of_mem _ hz)) gs
          simp only at hx
          simp [beq.beqFields, hx, hfs, and_assoc]

theorem beq_iff (a b : Json) : beq a b = true ↔ a = b := by
  induction a using Json.induct generalizing b with
  | null => cases b <;> simp [beq]
  | bool x => cases b <;> simp [beq]
  | num n => cases b <;> simp [beq]
  | str s => cases b <;> simp [beq]
  | arr items ih =>
      cases b with
      | arr ys => simpa [beq] using beqItems_iff items ih ys
      | _ => simp [beq]
  | obj fields ih =>
      cases b with
      | obj gs => simpa [beq] using beqFields_iff fields ih gs
      | _ => simp [beq]

instance : DecidableEq Json := fun a b => decidable_of_iff _ (beq_iff a b)

/-! ## Well-formed trees -/

/-- No object of the tree repeats a key. -/
def wellFormed : Json → Bool
  | .arr items => wfItems items
  | .obj fields => decide (Assoc.keys fields).Nodup && wfFields fields
  | _ => true
where
  wfItems : List Json → Bool
    | [] => true
    | x :: xs => wellFormed x && wfItems xs
  wfFields : Fields → Bool
    | [] => true
    | (_, x) :: fs => wellFormed x && wfFields fs

def WellFormed (v : Json) : Prop :=
  v.wellFormed = true

instance (v : Json) : Decidable v.WellFormed :=
  inferInstanceAs (Decidable (v.wellFormed = true))

theorem wellFormed_arr_iff {items : List Json} :
    (Json.arr items).WellFormed ↔ ∀ item ∈ items, item.WellFormed := by
  unfold WellFormed
  rw [wellFormed]
  induction items with
  | nil => simp [wellFormed.wfItems]
  | cons x xs ih => simp [wellFormed.wfItems, ih]

theorem wellFormed_obj_iff {fields : Fields} :
    (Json.obj fields).WellFormed ↔
      (Assoc.keys fields).Nodup ∧ ∀ field ∈ fields, field.2.WellFormed := by
  have hfields : wellFormed.wfFields fields = true ↔
      ∀ field ∈ fields, field.2.wellFormed = true := by
    induction fields with
    | nil => simp [wellFormed.wfFields]
    | cons f fs ih =>
        obtain ⟨k, x⟩ := f
        rw [wellFormed.wfFields, Bool.and_eq_true, ih]
        constructor
        · rintro ⟨hx, hfs⟩ field hfield
          rcases List.mem_cons.mp hfield with rfl | hmem
          · exact hx
          · exact hfs field hmem
        · intro hall
          exact ⟨hall (k, x) List.mem_cons_self, fun f hf => hall f (List.mem_cons_of_mem _ hf)⟩
  unfold WellFormed
  rw [wellFormed, Bool.and_eq_true, hfields, decide_eq_true_iff]

/-! ## Kinds of values -/

/-- `Boolean(value)` of a JSON value. -/
def truthy : Json → Bool
  | .null => false
  | .bool b => b
  | .num n => decide (n ≠ JsNumber.zero)
  | .str s => decide (s ≠ [])
  | .arr _ => true
  | .obj _ => true

def isNumber : Json → Bool
  | .num _ => true
  | _ => false

end Json

end Js
end ObjyDb
