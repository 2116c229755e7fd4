import ObjyDb.References.Expand

/-!
# Stripping — what stripping leaves of a value

On values without a `__proto__` of their own, `stripReferenceObjects` computes `stripped`: the value
without the `object` of its references.

* `strips`, `stripReferenceObjects_eq` — the code computes it;
* `stripped_idem` — stripping twice is stripping once;
* `Alike` — replacing `object` and rewriting the other fields keeps what a reference names.
-/

namespace ObjyDb
namespace References

open Js

/-! ## Sound values -/

def protoKey : JsString := js "__proto__"

/-- The object has no field `__proto__`, and no `String(value)` throws that its reading as a
reference takes. -/
def isPlain (fields : Fields) : Bool :=
  decide (protoKey ∉ Assoc.keys fields) &&
    (match isReference fields with
      | none => false
      | some false => true
      | some true => (referenceDatabase fields none).isSome)

/-- So have all the objects of the value. -/
def plain : Json → Bool
  | .arr items => plainItems items
  | .obj fields => isPlain fields && plainFields fields
  | _ => true
where
  plainItems : List Json → Bool
    | [] => true
    | item :: items => plain item && plainItems items
  plainFields : Fields → Bool
    | [] => true
    | (_, item) :: fields => plain item && plainFields fields

def Plain (v : Json) : Prop :=
  plain v = true

instance (v : Json) : Decidable (Plain v) :=
  inferInstanceAs (Decidable (_ = _))

theorem plain_arr_iff {items : List Json} :
    Plain (.arr items) ↔ ∀ item ∈ items, Plain item := by
  unfold Plain
  rw [plain]
  induction items with
  | nil => simp [plain.plainItems]
  | cons item items ih => simp [plain.plainItems, ih]

theorem plain_obj_iff {fields : Fields} :
    Plain (.obj fields) ↔ isPlain fields = true ∧ ∀ f ∈ fields, Plain f.2 := by
  have hfields : plain.plainFields fields = true ↔ ∀ f ∈ fields, plain f.2 = true := by
    induction fields with
    | nil => simp [plain.plainFields]
    | cons f fields ih =>
        obtain ⟨key, item⟩ := f
        simp [plain.plainFields, ih]
  unfold Plain
  rw [plain, Bool.and_eq_true, hfields]

/-- A JSON value that the code reads and writes without surprises. -/
structure Sound (v : Json) : Prop where
  wellFormed : v.WellFormed
  plain : Plain v

theorem sound_arr_iff {items : List Json} : Sound (.arr items) ↔ ∀ item ∈ items, Sound item := by
  constructor
  · intro h item hitem
    exact ⟨Json.wellFormed_arr_iff.mp h.wellFormed item hitem,
      plain_arr_iff.mp h.plain item hitem⟩
  · intro h
    exact ⟨Json.wellFormed_arr_iff.mpr fun item hitem => (h item hitem).wellFormed,
      plain_arr_iff.mpr fun item hitem => (h item hitem).plain⟩

theorem sound_obj_iff {fields : Fields} :
    Sound (.obj fields) ↔
      (Assoc.keys fields).Nodup ∧ isPlain fields = true ∧ ∀ f ∈ fields, Sound f.2 := by
  constructor
  · intro h
    rcases Json.wellFormed_obj_iff.mp h.wellFormed with ⟨hnodup, hwf⟩
    rcases plain_obj_iff.mp h.plain with ⟨hplain, hall⟩
    exact ⟨hnodup, hplain, fun f hf => ⟨hwf f hf, hall f hf⟩⟩
  · rintro ⟨hnodup, hplain, hall⟩
    exact ⟨Json.wellFormed_obj_iff.mpr ⟨hnodup, fun f hf => (hall f hf).wellFormed⟩,
      plain_obj_iff.mpr ⟨hplain, fun f hf => (hall f hf).plain⟩⟩

theorem isPlain_iff {fields : Fields} :
    isPlain fields = true ↔ protoKey ∉ Assoc.keys fields ∧
      (isReference fields = some false ∨
        isReference fields = some true ∧ (referenceDatabase fields none).isSome = true) := by
  unfold isPlain
  rw [Bool.and_eq_true, decide_eq_true_iff]
  cases isReference fields with
  | none => simp
  | some reference => cases reference <;> simp

/-! ## Fields that name the same object -/

/-- The values are told apart neither by `String(value)` nor by a comparison with a text or with
`null`. -/
structure SameText (v w : Json) : Prop where
  null : v = .null ↔ w = .null
  str : ∀ s, v = .str s ↔ w = .str s
  string : string? v = string? w

theorem SameText.refl (v : Json) : SameText v v :=
  ⟨Iff.rfl, fun _ => Iff.rfl, rfl⟩

theorem SameText.symm {v w : Json} (h : SameText v w) : SameText w v :=
  ⟨h.null.symm, fun s => (h.str s).symm, h.string.symm⟩

theorem SameText.trans {u v w : Json} (h : SameText u v) (h' : SameText v w) : SameText u w :=
  ⟨h.null.trans h'.null, fun s => (h.str s).trans (h'.str s), h.string.trans h'.string⟩

theorem string?_eq_iff {v w : Json} :
    string? v = string? w ↔ stringThrows v = stringThrows w ∧
      (stringThrows v = false → toJsString v = toJsString w) := by
  unfold string?
  cases hv : stringThrows v <;> cases hw : stringThrows w <;> simp

theorem sameText_items {vs ws : List Json} (h : List.Forall₂ SameText vs ws) :
    stringThrows.anyThrows vs = stringThrows.anyThrows ws ∧
      (stringThrows.anyThrows vs = false → toJsString.itemTexts vs = toJsString.itemTexts ws) := by
  induction h with
  | nil => exact ⟨rfl, fun _ => rfl⟩
  | @cons v w vs ws hvw hrest ih =>
      rcases string?_eq_iff.mp hvw.string with ⟨hthrows, htext⟩
      refine ⟨by rw [stringThrows.anyThrows, stringThrows.anyThrows, hthrows, ih.1], ?_⟩
      intro hnone
      rw [stringThrows.anyThrows, Bool.or_eq_false_iff] at hnone
      have hnull := hvw.null
      have hv := htext hnone.1
      have htail := ih.2 hnone.2
      -- `null` is printed as the empty text, on both sides
      by_cases hvnull : v = .null
      · have hwnull := hnull.mp hvnull
        subst hvnull
        subst hwnull
        simp only [toJsString.itemTexts, htail]
      · have hwnull : w ≠ .null := fun heq => hvnull (hnull.mpr heq)
        have hcons : ∀ {x : Json} (xs : List Json), x ≠ .null →
            toJsString.itemTexts (x :: xs) = toJsString x :: toJsString.itemTexts xs := by
          intro x xs hx
          cases x with
          | null => exact absurd rfl hx
          | _ => rfl
        rw [hcons vs hvnull, hcons ws hwnull, hv, htail]

theorem sameText_arr {vs ws : List Json} (h : List.Forall₂ SameText vs ws) :
    SameText (.arr vs) (.arr ws) := by
  rcases sameText_items h with ⟨hthrows, htexts⟩
  refine ⟨by simp, by simp, string?_eq_iff.mpr ⟨hthrows, fun hnone => ?_⟩⟩
  rw [toJsString, toJsString, htexts hnone]

/-- Neither is there, or both are and are told apart by none of these. -/
def SameField (a b : Option Json) : Prop :=
  (a = none ∧ b = none) ∨ ∃ v w, a = some v ∧ b = some w ∧ SameText v w

theorem SameField.refl (a : Option Json) : SameField a a := by
  cases a with
  | none => exact Or.inl ⟨rfl, rfl⟩
  | some v => exact Or.inr ⟨v, v, rfl, rfl, SameText.refl v⟩

theorem SameField.trans {a b c : Option Json} (h : SameField a b) (h' : SameField b c) :
    SameField a c := by
  rcases h with ⟨rfl, rfl⟩ | ⟨u, v, rfl, rfl, huv⟩
  · rcases h' with ⟨-, rfl⟩ | ⟨_, _, hnone, -, -⟩
    · exact Or.inl ⟨rfl, rfl⟩
    · cases hnone
  · rcases h' with ⟨hnone, -⟩ | ⟨v', w, hv, rfl, hvw⟩
    · cases hnone
    · cases hv
      exact Or.inr ⟨u, w, rfl, rfl, huv.trans hvw⟩

/-- The fields agree as far as the reading as a reference goes; their `object` is left aside. -/
def Alike (left right : Fields) : Prop :=
  ∀ key, key ≠ objectKey → SameField (Assoc.get? left key) (Assoc.get? right key)

theorem Alike.trans {a b c : Fields} (h : Alike a b) (h' : Alike b c) : Alike a c :=
  fun key hkey => (h key hkey).trans (h' key hkey)

section Named

variable {left right : Fields} (h : Alike left right)
include h

theorem Alike.sameText_obj : SameText (.obj left) (.obj right) := by
  refine ⟨by simp, by simp, string?_eq_iff.mpr ⟨?_, fun _ => rfl⟩⟩
  rw [stringThrows, stringThrows]
  rcases h (js "toString") (by decide) with ⟨hl, hr⟩ | ⟨v, w, hl, hr, -⟩
  · rw [hl, hr]
  · rw [hl, hr]
    rfl

theorem Alike.textField_eq {key : JsString} (hkey : key ≠ objectKey) :
    textField left key = textField right key := by
  unfold textField
  rcases h key hkey with ⟨hl, hr⟩ | ⟨v, w, hl, hr, hvw⟩
  · rw [hl, hr]
  · rw [hl, hr]
    cases v with
    | str s =>
        rw [(hvw.str s).mp rfl]
    | _ =>
        cases w with
        | str s =>
            have hv := (hvw.str s).mpr rfl
            cases hv
        | _ => rfl

/-- What is neither `undefined` nor `null` prints the same. -/
theorem Alike.presentField_eq {key : JsString} (hkey : key ≠ objectKey) :
    (presentField left key).map string? = (presentField right key).map string? := by
  unfold presentField
  rcases h key hkey with ⟨hl, hr⟩ | ⟨v, w, hl, hr, hvw⟩
  · rw [hl, hr]
  · rw [hl, hr]
    by_cases hv : v = .null
    · have hw := hvw.null.mp hv
      simp [hv, hw]
    · have hw : w ≠ .null := fun heq => hv (hvw.null.mpr heq)
      simp [Option.filter, hv, hw, hvw.string]

theorem Alike.isReference_eq : isReference left = isReference right := by
  have hvalue := h.presentField_eq (by decide : js "value" ≠ objectKey)
  unfold isReference
  rw [h.textField_eq (by decide : js "type" ≠ objectKey),
    h.textField_eq (by decide : js "collection" ≠ objectKey)]
  cases hl : presentField left (js "value") with
  | none =>
      cases hr : presentField right (js "value") with
      | none => rfl
      | some w => simp [hl, hr] at hvalue
  | some v =>
      cases hr : presentField right (js "value") with
      | none => simp [hl, hr] at hvalue
      | some w =>
          have hstring : string? v = string? w := by simpa [hl, hr] using hvalue
          simp only [hstring]

theorem Alike.referenceDatabase_eq (fallback : Option JsString) :
    referenceDatabase left fallback = referenceDatabase right fallback := by
  have hdatabase := h.presentField_eq (by decide : js "database" ≠ objectKey)
  unfold referenceDatabase
  cases hl : presentField left (js "database") with
  | none =>
      cases hr : presentField right (js "database") with
      | none => rfl
      | some w => simp [hl, hr] at hdatabase
  | some v =>
      cases hr : presentField right (js "database") with
      | none => simp [hl, hr] at hdatabase
      | some w =>
          have hstring : string? v = string? w := by simpa [hl, hr] using hdatabase
          simp only [hstring]

theorem Alike.referenceTarget_eq (fallback : Option JsString) :
    referenceTarget left fallback = referenceTarget right fallback := by
  have htext : ∀ key, key ≠ objectKey →
      textOf (Assoc.get? left key) = textOf (Assoc.get? right key) := by
    intro key hkey
    rcases h key hkey with ⟨hl, hr⟩ | ⟨v, w, hl, hr, hvw⟩
    · rw [hl, hr]
    · rw [hl, hr]
      exact hvw.string
  rw [referenceTarget, referenceTarget, h.referenceDatabase_eq, htext _ (by decide),
    htext _ (by decide)]

end Named

/-! ## The value without its expansions -/

/-- The value without the `object` of its references. -/
def stripped : Json → Json
  | .arr items => .arr (strippedItems items)
  | .obj fields => .obj (strippedFields (decide (isReference fields = some true)) fields)
  | v => v
where
  strippedItems : List Json → List Json
    | [] => []
    | item :: items => stripped item :: strippedItems items
  strippedFields (reference : Bool) : Fields → Fields
    | [] => []
    | (key, item) :: fields =>
        if reference ∧ key = objectKey then strippedFields reference fields
        else (key, stripped item) :: strippedFields reference fields

theorem stripped_arr (items : List Json) : stripped (.arr items) = .arr (items.map stripped) := by
  rw [stripped]
  congr 1
  induction items with
  | nil => rfl
  | cons item items ih => rw [stripped.strippedItems, ih, List.map_cons]

/-- The fields that stripping keeps. -/
def keptFields (reference : Bool) (fields : Fields) : Fields :=
  if reference then Assoc.erase fields objectKey else fields

theorem strippedFields_eq (reference : Bool) (fields : Fields) :
    stripped.strippedFields reference fields =
      Assoc.mapValues (fun _ => stripped) (keptFields reference fields) := by
  induction fields with
  | nil => cases reference <;> rfl
  | cons f fields ih =>
      obtain ⟨key, item⟩ := f
      rw [stripped.strippedFields, ih]
      cases reference with
      | false => simp [keptFields, Assoc.mapValues]
      | true => by_cases hkey : key = objectKey <;> simp [keptFields, Assoc.erase, hkey,
          Assoc.mapValues]

theorem stripped_obj {fields : Fields} {reference : Bool}
    (h : isReference fields = some reference) :
    stripped (.obj fields) =
      .obj (Assoc.mapValues (fun _ => stripped) (keptFields reference fields)) := by
  rw [stripped, h, strippedFields_eq]
  cases reference <;> rfl

theorem mem_keptFields {reference : Bool} {fields : Fields} {f : JsString × Json}
    (h : f ∈ keptFields reference fields) : f ∈ fields := by
  unfold keptFields at h
  split at h
  · exact List.mem_of_mem_filter h
  · exact h

theorem get?_keptFields {reference : Bool} {fields : Fields} {key : JsString}
    (h : key ≠ objectKey) : Assoc.get? (keptFields reference fields) key = Assoc.get? fields key := by
  unfold keptFields
  split
  · rw [Assoc.get?_erase, if_neg h.symm]
  · rfl

theorem nodup_keptFields {fields : Fields} (h : (Assoc.keys fields).Nodup) (reference : Bool) :
    (Assoc.keys (keptFields reference fields)).Nodup := by
  unfold keptFields
  split
  · rw [Assoc.keys_erase]
    exact h.filter _
  · exact h

theorem keys_mapValues (g : Json → Json) (fields : Fields) :
    Assoc.keys (Assoc.mapValues (fun _ => g) fields) = Assoc.keys fields := by
  simp [Assoc.keys, Assoc.mapValues]

/-- Fields that are kept and rewritten without a change of their text name the same object. -/
theorem alike_mapValues {fields : Fields} (reference : Bool) {g : Json → Json}
    (h : ∀ f ∈ fields, SameText f.2 (g f.2)) :
    Alike fields (Assoc.mapValues (fun _ => g) (keptFields reference fields)) := by
  intro key hkey
  rw [Assoc.get?_mapValues, get?_keptFields hkey]
  cases hget : Assoc.get? fields key with
  | none => exact Or.inl ⟨rfl, rfl⟩
  | some v => exact Or.inr ⟨v, g v, rfl, rfl, h _ (Assoc.mem_of_get?_eq_some hget)⟩

theorem sameText_map {items : List Json} {g : Json → Json} (h : ∀ v ∈ items, SameText v (g v)) :
    SameText (.arr items) (.arr (items.map g)) := by
  apply sameText_arr
  rw [List.forall₂_map_right_iff, List.forall₂_same]
  exact h

theorem sameText_stripped (v : Json) : SameText v (stripped v) := by
  induction v using Json.induct with
  | arr items ih =>
      rw [stripped_arr]
      exact sameText_map ih
  | obj fields ih =>
      rw [stripped, strippedFields_eq]
      exact (alike_mapValues _ ih).sameText_obj
  | _ => exact SameText.refl _

/-- Stripping keeps what makes an object a reference. -/
theorem isReference_stripped (reference : Bool) (fields : Fields) :
    isReference (Assoc.mapValues (fun _ => stripped) (keptFields reference fields)) =
      isReference fields :=
  ((alike_mapValues reference fun f _ => sameText_stripped f.2).isReference_eq).symm

theorem keptFields_of_notMem {fields : Fields} (h : objectKey ∉ Assoc.keys fields)
    (reference : Bool) : keptFields reference fields = fields := by
  unfold keptFields
  split
  · rw [Assoc.erase, List.filter_eq_self]
    intro f hf
    exact decide_eq_true fun heq => h (List.mem_map.mpr ⟨f, hf, heq⟩)
  · rfl

theorem keptFields_mapValues (reference : Bool) (g : Json → Json) (fields : Fields) :
    keptFields reference (Assoc.mapValues (fun _ => g) fields) =
      Assoc.mapValues (fun _ => g) (keptFields reference fields) := by
  unfold keptFields
  split
  · rw [Assoc.erase, Assoc.erase, Assoc.mapValues, Assoc.mapValues, List.filter_map]
    rfl
  · rfl

theorem keptFields_idem (reference : Bool) (fields : Fields) :
    keptFields reference (keptFields reference fields) = keptFields reference fields := by
  unfold keptFields
  split
  · rw [Assoc.erase, Assoc.erase, List.filter_filter]
    simp
  · rfl

theorem stripped_idem {v : Json} (hv : Sound v) : stripped (stripped v) = stripped v := by
  induction v using Json.induct with
  | arr items ih =>
      rw [stripped_arr, stripped_arr, List.map_map]
      congr 1
      exact List.map_congr_left fun item hitem => ih item hitem (sound_arr_iff.mp hv item hitem)
  | obj fields ih =>
      rcases sound_obj_iff.mp hv with ⟨-, hplain, hall⟩
      rcases (isPlain_iff.mp hplain).2 with href | ⟨href, -⟩
      all_goals
        rw [stripped_obj href, stripped_obj ((isReference_stripped _ _).trans href),
          keptFields_mapValues, keptFields_idem]
        congr 1
        rw [Assoc.mapValues, Assoc.mapValues, List.map_map]
        refine List.map_congr_left fun f hf => ?_
        have hmem := mem_keptFields hf
        exact Prod.ext rfl (ih f hmem (hall f hmem))
  | _ => rfl

theorem sound_stripped {v : Json} (hv : Sound v) : Sound (stripped v) := by
  induction v using Json.induct with
  | arr items ih =>
      rw [stripped_arr, sound_arr_iff]
      intro w hw
      rcases List.mem_map.mp hw with ⟨item, hitem, rfl⟩
      exact ih item hitem (sound_arr_iff.mp hv item hitem)
  | obj fields ih =>
      rcases sound_obj_iff.mp hv with ⟨hnodup, hplain, hall⟩
      rcases isPlain_iff.mp hplain with ⟨hproto, href⟩
      have halike : ∀ reference, Alike fields
          (Assoc.mapValues (fun _ => stripped) (keptFields reference fields)) :=
        fun reference => alike_mapValues reference fun f _ => sameText_stripped f.2
      rw [stripped, strippedFields_eq, sound_obj_iff]
      refine ⟨?_, isPlain_iff.mpr ⟨?_, ?_⟩, ?_⟩
      · rw [keys_mapValues]
        exact nodup_keptFields hnodup _
      · rw [keys_mapValues]
        intro hmem
        rcases List.mem_map.mp hmem with ⟨f, hf, hkey⟩
        exact hproto (List.mem_map.mpr ⟨f, mem_keptFields hf, hkey⟩)
      · rw [← (halike _).isReference_eq, ← (halike _).referenceDatabase_eq]
        exact href
      · intro f hf
        rcases List.mem_map.mp hf with ⟨g, hg, rfl⟩
        exact ih g (mem_keptFields hg) (hall g (mem_keptFields hg))
  | _ => exact hv

/-! ## What the code strips -/

theorem assignAll_append {out entries : Fields} (hproto : protoKey ∉ Assoc.keys entries)
    (hnodup : (Assoc.keys (out ++ entries)).Nodup) :
    assignAll out entries = some (out ++ entries) := by
  induction entries generalizing out with
  | nil =>
      rw [List.append_nil]
      rfl
  | cons f entries ih =>
      obtain ⟨key, value⟩ := f
      have hkey : key ≠ js "__proto__" := fun heq => hproto (by simp [Assoc.keys, heq, protoKey])
      -- the key is new, so the field comes last
      have hnew : key ∉ Assoc.keys out := by
        intro hmem
        rw [Assoc.keys, List.map_append, List.nodup_append] at hnodup
        exact hnodup.2.2 key hmem key (by simp) rfl
      have hset : assignField out key value = some (out ++ [(key, value)]) := by
        unfold assignField
        rw [if_neg hkey, Assoc.set_of_notMem value hnew]
      have happend : out ++ (key, value) :: entries = out ++ [(key, value)] ++ entries := by simp
      rw [assignAll, List.foldlM_cons]
      simp only [hset, Option.bind_eq_bind, Option.bind_some]
      rw [happend] at hnodup ⊢
      exact ih (fun hmem => hproto (List.mem_cons_of_mem _ hmem)) hnodup

theorem assignAll_nil {entries : Fields} (hproto : protoKey ∉ Assoc.keys entries)
    (hnodup : (Assoc.keys entries).Nodup) : assignAll [] entries = some entries :=
  assignAll_append hproto hnodup

/-- The code's result is the stripped value; unless it changed, it is the value itself. -/
def Strips {α : Type} (result : Option (Stripped α)) (before after : α) : Prop :=
  ∃ out, result = some out ∧ out.value = after ∧ (out.changed = false → after = before)

theorem strips_items {items : List Json}
    (h : ∀ v ∈ items, Strips (stripReferenceObjectsInner v) v (stripped v)) :
    Strips (stripReferenceObjectsInner.stripItems items) items (items.map stripped) := by
  induction items with
  | nil => exact ⟨_, rfl, rfl, fun _ => rfl⟩
  | cons item items ih =>
      rcases h item List.mem_cons_self with ⟨head, hhead, hvalue, hsame⟩
      rcases ih fun v hv => h v (List.mem_cons_of_mem _ hv) with ⟨rest, hrest, hvalues, hsames⟩
      refine ⟨⟨head.value :: rest.value, head.changed || rest.changed,
        head.hasReference || rest.hasReference⟩, ?_, ?_, ?_⟩
      · rw [stripReferenceObjectsInner.stripItems, hhead, hrest]
        rfl
      · rw [List.map_cons, ← hvalue, ← hvalues]
      · intro hchanged
        rcases Bool.or_eq_false_iff.mp hchanged with ⟨hfirst, hothers⟩
        rw [List.map_cons, hsame hfirst, hsames hothers]

theorem strips_entries (reference : Bool) {fields : Fields}
    (h : ∀ f ∈ fields, Strips (stripReferenceObjectsInner f.2) f.2 (stripped f.2)) :
    Strips (stripReferenceObjectsInner.stripEntries reference fields) fields
      (stripped.strippedFields reference fields) := by
  induction fields with
  | nil => exact ⟨_, rfl, rfl, fun _ => rfl⟩
  | cons f fields ih =>
      obtain ⟨key, item⟩ := f
      rcases ih fun v hv => h v (List.mem_cons_of_mem _ hv) with ⟨rest, hrest, hvalues, hsames⟩
      rw [stripReferenceObjectsInner.stripEntries, stripped.strippedFields]
      split
      · -- the `object` of a reference goes
        exact ⟨⟨rest.value, true, rest.hasReference⟩, by rw [hrest]; rfl, hvalues, by simp⟩
      · rcases h (key, item) List.mem_cons_self with ⟨head, hhead, hvalue, hsame⟩
        refine ⟨⟨(key, head.value) :: rest.value, head.changed || rest.changed,
          head.hasReference || rest.hasReference⟩, ?_, ?_, ?_⟩
        · rw [hhead, hrest]
          rfl
        · rw [← hvalue, ← hvalues]
        · intro hchanged
          rcases Bool.or_eq_false_iff.mp hchanged with ⟨hfirst, hothers⟩
          rw [hsame hfirst, hsames hothers]

theorem strips {v : Json} (hv : Sound v) : Strips (stripReferenceObjectsInner v) v (stripped v) := by
  induction v using Json.induct with
  | arr items ih =>
      have hitems := strips_items fun v hmem => ih v hmem (sound_arr_iff.mp hv v hmem)
      rcases hitems with ⟨out, hout, hvalue, hsame⟩
      rw [stripReferenceObjectsInner, hout, stripped_arr]
      cases hchanged : out.changed with
      | true =>
          refine ⟨⟨.arr out.value, true, out.hasReference⟩, by simp [hchanged], ?_, by simp⟩
          rw [hvalue]
      | false =>
          have harr : Json.arr (items.map stripped) = .arr items := by rw [hsame hchanged]
          exact ⟨⟨.arr items, false, out.hasReference⟩, by simp [hchanged], harr.symm,
            fun _ => harr⟩
  | obj fields ih =>
      rcases sound_obj_iff.mp hv with ⟨-, hplain, hall⟩
      rcases isPlain_iff.mp hplain with ⟨-, href⟩
      have hsound := sound_stripped hv
      obtain ⟨reference, href⟩ : ∃ reference, isReference fields = some reference := by
        rcases href with href | ⟨href, -⟩
        · exact ⟨_, href⟩
        · exact ⟨_, href⟩
      rcases strips_entries reference fun f hf => ih f hf (hall f hf) with
        ⟨out, hout, hvalue, hsame⟩
      have hdecide : decide (isReference fields = some true) = reference := by
        rw [href]
        cases reference <;> rfl
      rw [stripped, hdecide] at hsound ⊢
      rcases sound_obj_iff.mp hsound with ⟨hnodup, hkept, -⟩
      have hassign : assignAll [] out.value = some (stripped.strippedFields reference fields) := by
        rw [hvalue]
        exact assignAll_nil (isPlain_iff.mp hkept).1 hnodup
      rw [stripReferenceObjectsInner, href]
      simp only [Option.bind_eq_bind, Option.bind_some, hout]
      cases hchanged : out.changed with
      | true =>
          exact ⟨⟨.obj (stripped.strippedFields reference fields), true,
            reference || out.hasReference⟩, by simp [hassign], rfl, by simp⟩
      | false =>
          have hobj : Json.obj (stripped.strippedFields reference fields) = .obj fields := by
            rw [hsame hchanged]
          exact ⟨⟨.obj fields, false, reference || out.hasReference⟩, by simp, hobj.symm,
            fun _ => hobj⟩
  | _ => exact ⟨_, rfl, rfl, fun _ => rfl⟩

/-- Stripping a sound value. -/
theorem stripReferenceObjects_eq {v : Json} (hv : Sound v) :
    stripReferenceObjects v = some (stripped v) := by
  rcases strips hv with ⟨out, hout, hvalue, -⟩
  rw [stripReferenceObjects, hout, Option.map_some, hvalue]

end References
end ObjyDb
