import Mathlib.Data.Set.Basic
import Mathlib.Tactic

/-!
# WriteBehind — a store behind a queue of changes

A store has containers, the containers have parts, and the parts have records; containers and
parts carry a header and can be dropped, which leaves a mark.  Changes are collected in a pending
set and flushed as a batch: dropped containers first, then dropped parts, headers, and records.

- `flush_create` … `flush_record`: a queued change has the effect of the change itself
- `flush_within`: a batch that was written in part, and is written again, has its whole effect
- `flush_requeue`: a failed batch may be merged under the changes that came later, if none of them
  drops what the batch holds
-/

namespace ObjyDb
namespace WriteBehind

/-! ## Definitions -/

/-- What a store holds. -/
@[ext]
structure Image (δ κ μ ω : Type*) where
  dead : δ → Prop
  header : δ → Option μ
  partDead : δ → κ → Prop
  partHeader : δ → κ → Option μ
  records : δ → κ → Set ω

/-- The changes that a flush has to make. -/
@[ext]
structure Pending (δ κ μ ω : Type*) where
  drops : Set δ
  headers : δ → Option μ
  partDrops : δ → Set κ
  partHeaders : δ → κ → Option μ
  records : δ → κ → Set ω

section

variable {δ κ μ ω : Type*}

/-- No change. -/
def Pending.none : Pending δ κ μ ω :=
  ⟨∅, fun _ => Option.none, fun _ => ∅, fun _ _ => Option.none, fun _ _ => ∅⟩

/-- The part is dropped, or its container is. -/
def Pending.Clears (p : Pending δ κ μ ω) (d : δ) (k : κ) : Prop :=
  d ∈ p.drops ∨ k ∈ p.partDrops d

open Classical in
/-- The header that is left where everything is dropped if `c` holds. -/
noncomputable def leftOf (c : Prop) (header : Option μ) : Option μ :=
  if c then none else header

@[simp]
theorem leftOf_true (header : Option μ) : leftOf True header = none := by simp [leftOf]

@[simp]
theorem leftOf_false (header : Option μ) : leftOf False header = header := by simp [leftOf]

@[simp]
theorem leftOf_none (c : Prop) : leftOf c (none : Option μ) = none := by simp [leftOf]

@[simp]
theorem leftOf_leftOf (c c' : Prop) (header : Option μ) :
    leftOf c (leftOf c' header) = leftOf (c ∨ c') header := by
  by_cases hc : c <;> simp [hc]

/-- The store after all changes were made. -/
noncomputable def Image.flush (a : Image δ κ μ ω) (p : Pending δ κ μ ω) : Image δ κ μ ω where
  dead d := p.headers d = Option.none ∧ (d ∈ p.drops ∨ a.dead d)
  header d := (p.headers d).or (leftOf (d ∈ p.drops) (a.header d))
  partDead d k :=
    p.partHeaders d k = Option.none ∧ (k ∈ p.partDrops d ∨ d ∉ p.drops ∧ a.partDead d k)
  partHeader d k := (p.partHeaders d k).or (leftOf (p.Clears d k) (a.partHeader d k))
  records d k := {r | r ∈ p.records d k ∨ ¬p.Clears d k ∧ r ∈ a.records d k}

/-- The changes `b`, with the later changes `p` over them. -/
def Pending.requeue (p b : Pending δ κ μ ω) : Pending δ κ μ ω where
  drops := p.drops ∪ b.drops
  headers d := (p.headers d).or (b.headers d)
  partDrops d := p.partDrops d ∪ b.partDrops d
  partHeaders d k := (p.partHeaders d k).or (b.partHeaders d k)
  records d k := p.records d k ∪ b.records d k

/-- The changes `p` drop nothing that the changes `b` are about. -/
structure Pending.Spares (p b : Pending δ κ μ ω) : Prop where
  header : ∀ d ∈ p.drops, b.headers d = Option.none
  partDrop : ∀ d ∈ p.drops, b.partDrops d = ∅
  partHeader : ∀ d k, p.Clears d k → b.partHeaders d k = Option.none
  records : ∀ d k, p.Clears d k → b.records d k = ∅

/-- The store `a'` differs from `a` only where the changes `p` decide. -/
structure Within (p : Pending δ κ μ ω) (a a' : Image δ κ μ ω) : Prop where
  dead : ∀ d, d ∉ p.drops → p.headers d = Option.none → (a'.dead d ↔ a.dead d)
  header : ∀ d, d ∉ p.drops → p.headers d = Option.none → a'.header d = a.header d
  partDead : ∀ d k, ¬p.Clears d k → p.partHeaders d k = Option.none →
    (a'.partDead d k ↔ a.partDead d k)
  partHeader : ∀ d k, ¬p.Clears d k → p.partHeaders d k = Option.none →
    a'.partHeader d k = a.partHeader d k
  records : ∀ d k, ¬p.Clears d k → ∀ r ∉ p.records d k, r ∈ a'.records d k ↔ r ∈ a.records d k

/-! ## Merged changes -/

section

variable (p b : Pending δ κ μ ω) (d : δ) (k : κ)

@[simp]
theorem mem_drops_requeue : d ∈ (p.requeue b).drops ↔ d ∈ p.drops ∨ d ∈ b.drops := Iff.rfl

@[simp]
theorem headers_requeue : (p.requeue b).headers d = (p.headers d).or (b.headers d) := rfl

@[simp]
theorem mem_partDrops_requeue :
    k ∈ (p.requeue b).partDrops d ↔ k ∈ p.partDrops d ∨ k ∈ b.partDrops d := Iff.rfl

@[simp]
theorem partHeaders_requeue :
    (p.requeue b).partHeaders d k = (p.partHeaders d k).or (b.partHeaders d k) := rfl

@[simp]
theorem mem_records_requeue (r : ω) :
    r ∈ (p.requeue b).records d k ↔ r ∈ p.records d k ∨ r ∈ b.records d k := Iff.rfl

@[simp]
theorem clears_requeue : (p.requeue b).Clears d k ↔ p.Clears d k ∨ b.Clears d k := by
  simp only [Pending.Clears, mem_drops_requeue, mem_partDrops_requeue]
  tauto

end

/-! ## Laws -/

@[simp]
theorem flush_none (a : Image δ κ μ ω) : a.flush .none = a := by
  ext <;> simp [Image.flush, Pending.none, Pending.Clears]

theorem Within.refl (p : Pending δ κ μ ω) (a : Image δ κ μ ω) : Within p a a :=
  ⟨fun _ _ _ => Iff.rfl, fun _ _ _ => rfl, fun _ _ _ _ => Iff.rfl, fun _ _ _ _ => rfl,
    fun _ _ _ _ _ => Iff.rfl⟩

/-- Making all changes overrules the part of them that was made before. -/
theorem flush_within {p : Pending δ κ μ ω} {a a' : Image δ κ μ ω} (h : Within p a a') :
    a'.flush p = a.flush p := by
  ext d k
  · by_cases hd : d ∈ p.drops
    · simp [Image.flush, hd]
    · by_cases hheader : p.headers d = Option.none
      · simp [Image.flush, hd, h.dead d hd hheader]
      · simp [Image.flush, hheader]
  · by_cases hd : d ∈ p.drops
    · simp [Image.flush, hd]
    · cases hheader : p.headers d with
      | none => simp [Image.flush, hd, hheader, h.header d hd hheader]
      | some m => simp [Image.flush, hheader]
  · by_cases hk : p.Clears d k
    · rcases hk with hk | hk <;> simp [Image.flush, hk]
    · by_cases hheader : p.partHeaders d k = Option.none
      · simp [Image.flush, h.partDead d k hk hheader]
      · simp [Image.flush, hheader]
  · by_cases hk : p.Clears d k
    · simp [Image.flush, hk]
    · cases hheader : p.partHeaders d k with
      | none => simp [Image.flush, hk, hheader, h.partHeader d k hk hheader]
      | some m => simp [Image.flush, hheader]
  · rename_i r
    by_cases hk : p.Clears d k
    · simp [Image.flush, hk]
    · by_cases hr : r ∈ p.records d k
      · simp [Image.flush, hr]
      · simp [Image.flush, hr, hk, h.records d k hk r hr]

/-- A batch that is merged under later changes has the effect of the batch and then the changes. -/
theorem flush_requeue {p b : Pending δ κ μ ω} (h : p.Spares b) (a : Image δ κ μ ω) :
    a.flush (p.requeue b) = (a.flush b).flush p := by
  ext d k
  · by_cases hd : d ∈ p.drops
    · simp [Image.flush, hd, h.header d hd]
    · simp [Image.flush, hd, and_assoc]
  · by_cases hd : d ∈ p.drops
    · simp [Image.flush, hd, h.header d hd]
    · simp [Image.flush, hd, Option.or_assoc]
  · by_cases hd : d ∈ p.drops
    · simp [Image.flush, hd, h.partHeader d k (Or.inl hd), h.partDrop d hd]
    · by_cases hk : k ∈ p.partDrops d
      · simp [Image.flush, hk, h.partHeader d k (Or.inr hk)]
      · simp [Image.flush, hd, hk, and_assoc]
  · by_cases hk : p.Clears d k
    · simp [Image.flush, hk, h.partHeader d k hk]
    · simp [Image.flush, hk, Option.or_assoc]
  · rename_i r
    by_cases hk : p.Clears d k
    · simp [Image.flush, hk, h.records d k hk]
    · simp [Image.flush, hk, or_assoc]

/-! ## Single changes -/

/-- The store holds nothing of the container's parts. -/
structure Image.Bare (a : Image δ κ μ ω) (d : δ) : Prop where
  partDead : ∀ k, ¬a.partDead d k
  partHeader : ∀ k, a.partHeader d k = Option.none
  records : ∀ k, a.records d k = ∅

/-! ### Records -/

def Image.record (a : Image δ κ μ ω) (d : δ) (k : κ) (r : ω) : Image δ κ μ ω :=
  { a with
    records := fun d' k' => {r' | d' = d ∧ k' = k ∧ r' = r ∨ r' ∈ a.records d' k'} }

def Pending.record (p : Pending δ κ μ ω) (d : δ) (k : κ) (r : ω) : Pending δ κ μ ω :=
  { p with
    records := fun d' k' => {r' | d' = d ∧ k' = k ∧ r' = r ∨ r' ∈ p.records d' k'} }

theorem flush_record (a : Image δ κ μ ω) (p : Pending δ κ μ ω) (d : δ) (k : κ) (r : ω) :
    a.flush (p.record d k r) = (a.flush p).record d k r := by
  ext d' k' <;> simp [Image.flush, Image.record, Pending.record, Pending.Clears, or_assoc]

/-! ### Containers -/

section

variable [DecidableEq δ]

/-- The container is created, or its header changes. -/
def Image.create (a : Image δ κ μ ω) (d : δ) (m : μ) : Image δ κ μ ω :=
  { a with
    dead := fun d' => d' ≠ d ∧ a.dead d'
    header := fun d' => if d' = d then some m else a.header d' }

/-- A created container no longer has to be dropped. -/
def Pending.create (p : Pending δ κ μ ω) (d : δ) (m : μ) : Pending δ κ μ ω :=
  { p with
    drops := {d' | d' ≠ d ∧ d' ∈ p.drops}
    headers := fun d' => if d' = d then some m else p.headers d' }

def Image.drop (a : Image δ κ μ ω) (d : δ) : Image δ κ μ ω where
  dead d' := d' = d ∨ a.dead d'
  header d' := if d' = d then none else a.header d'
  partDead d' k := d' ≠ d ∧ a.partDead d' k
  partHeader d' k := if d' = d then none else a.partHeader d' k
  records d' k := if d' = d then ∅ else a.records d' k

def Pending.drop (p : Pending δ κ μ ω) (d : δ) : Pending δ κ μ ω where
  drops := {d' | d' = d ∨ d' ∈ p.drops}
  headers d' := if d' = d then Option.none else p.headers d'
  partDrops d' := if d' = d then ∅ else p.partDrops d'
  partHeaders d' k := if d' = d then Option.none else p.partHeaders d' k
  records d' k := if d' = d then ∅ else p.records d' k

variable (a : Image δ κ μ ω) (p : Pending δ κ μ ω)

/-- Creating a container takes back its drop, so nothing may be left of what was to be dropped. -/
theorem flush_create {d : δ} (m : μ) (h : d ∈ p.drops → a.Bare d) :
    a.flush (p.create d m) = (a.flush p).create d m := by
  ext d' k
  · by_cases hd : d' = d <;> simp [Image.flush, Image.create, Pending.create, hd]
  · by_cases hd : d' = d <;> simp [Image.flush, Image.create, Pending.create, hd]
  · by_cases hd : d' = d
    · subst hd
      by_cases hdrop : d' ∈ p.drops
      · simp [Image.flush, Image.create, Pending.create, hdrop, (h hdrop).partDead]
      · simp [Image.flush, Image.create, Pending.create, hdrop]
    · simp [Image.flush, Image.create, Pending.create, hd]
  · by_cases hd : d' = d
    · subst hd
      by_cases hdrop : d' ∈ p.drops
      · simp [Image.flush, Image.create, Pending.create, Pending.Clears, hdrop,
          (h hdrop).partHeader]
      · simp [Image.flush, Image.create, Pending.create, Pending.Clears, hdrop]
    · simp [Image.flush, Image.create, Pending.create, Pending.Clears, hd]
  · rename_i r
    by_cases hd : d' = d
    · subst hd
      by_cases hdrop : d' ∈ p.drops
      · simp [Image.flush, Image.create, Pending.create, Pending.Clears, hdrop, (h hdrop).records]
      · simp [Image.flush, Image.create, Pending.create, Pending.Clears, hdrop]
    · simp [Image.flush, Image.create, Pending.create, Pending.Clears, hd]

theorem flush_drop (d : δ) : a.flush (p.drop d) = (a.flush p).drop d := by
  ext d' k <;> by_cases hd : d' = d <;>
    simp [Image.flush, Image.drop, Pending.drop, Pending.Clears, hd]

end

/-! ### Parts -/

section

variable [DecidableEq δ] [DecidableEq κ]

/-- The part is created, or its header changes. -/
def Image.describe (a : Image δ κ μ ω) (d : δ) (k : κ) (m : μ) : Image δ κ μ ω :=
  { a with
    partDead := fun d' k' => ¬(d' = d ∧ k' = k) ∧ a.partDead d' k'
    partHeader := fun d' k' => if d' = d ∧ k' = k then some m else a.partHeader d' k' }

def Pending.describe (p : Pending δ κ μ ω) (d : δ) (k : κ) (m : μ) : Pending δ κ μ ω :=
  { p with
    partHeaders := fun d' k' => if d' = d ∧ k' = k then some m else p.partHeaders d' k' }

def Image.dropPart (a : Image δ κ μ ω) (d : δ) (k : κ) : Image δ κ μ ω :=
  { a with
    partDead := fun d' k' => d' = d ∧ k' = k ∨ a.partDead d' k'
    partHeader := fun d' k' => if d' = d ∧ k' = k then none else a.partHeader d' k'
    records := fun d' k' => if d' = d ∧ k' = k then ∅ else a.records d' k' }

def Pending.dropPart (p : Pending δ κ μ ω) (d : δ) (k : κ) : Pending δ κ μ ω :=
  { p with
    partDrops := fun d' => {k' | d' = d ∧ k' = k ∨ k' ∈ p.partDrops d'}
    partHeaders := fun d' k' => if d' = d ∧ k' = k then Option.none else p.partHeaders d' k'
    records := fun d' k' => if d' = d ∧ k' = k then ∅ else p.records d' k' }

variable (a : Image δ κ μ ω) (p : Pending δ κ μ ω)

theorem flush_describe (d : δ) (k : κ) (m : μ) :
    a.flush (p.describe d k m) = (a.flush p).describe d k m := by
  refine Image.ext rfl rfl ?_ ?_ rfl <;> funext d' k' <;> by_cases hk : d' = d ∧ k' = k <;>
    simp only [Image.flush, Image.describe, Pending.describe, Pending.Clears, hk] <;> simp

theorem flush_dropPart (d : δ) (k : κ) : a.flush (p.dropPart d k) = (a.flush p).dropPart d k := by
  refine Image.ext rfl rfl ?_ ?_ ?_ <;> funext d' k' <;> by_cases hk : d' = d ∧ k' = k <;>
    simp only [Image.flush, Image.dropPart, Pending.dropPart, Pending.Clears, Set.mem_ofPred_eq,
      hk] <;> simp

end

end

end WriteBehind
end ObjyDb
