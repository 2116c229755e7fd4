import ObjyDb.Store.Path
import ObjyDb.Js.JsonCharset

/-!
# Tiering — hot and cold parts of a stored value

With tiering, a stored value is split by its paths into a hot part that stays in the row and a
cold part that is kept compressed.  For plain paths nothing is lost: merging the hot part over the
cold one shows the value again (`split_splitTieredValue`, `merge_splitTieredValue`).
-/

namespace ObjyDb

open Js

/-- The tiering policy of a collection; its mode is always `compressedMemory`. -/
structure Tiering where
  keep : List JsString
  offload : List JsString
  minBytes : Nat
  exclusive : keep = [] ∨ offload = []

/-- The compression adapter, which is lossless. -/
structure Compression where
  encodeUtf8 : JsString → List Byte
  decodeUtf8 : List Byte → JsString
  compress : List Byte → List Byte
  decompress : List Byte → List Byte
  lossless : ∀ text, isWellFormedText text = true →
    decodeUtf8 (decompress (compress (encodeUtf8 text))) = text

/-- The adapter that does not compress. -/
def Compression.plain : Compression where
  encodeUtf8 := encode
  decodeUtf8 := Utf8.decode
  compress := id
  decompress := id
  lossless := fun _ h => Utf8.decode_encode h

/-- `[...new Set(values)]` -/
def unique (values : List JsString) : List JsString :=
  values.eraseDups

/-- One forced path moves from the cold part to the hot one. -/
def forceHot (value : Fields) (parts : Fields × Fields) (path : JsString) : Fields × Fields :=
  match getPathValue (.obj value) path with
  | some current => (setPath parts.1 path (clone current), unsetPath parts.2 path)
  | none => parts

/-- The hot and the cold part; no cold part when it would be empty. -/
def splitTieredValue (value : Fields) (tiering : Tiering) (forcedHotPaths : List JsString) :
    Fields × Option Fields :=
  let forced := unique forcedHotPaths
  if tiering.keep ≠ [] then
    let hotPaths := unique (tiering.keep ++ forced)
    let hot := pickPaths value hotPaths
    let cold := unsetPaths value hotPaths
    if cold = [] then (value, none) else (hot, some cold)
  else if tiering.offload = [] then (value, none)
  else
    let parts := forced.foldl (forceHot value)
      (unsetPaths value tiering.offload, pickPaths value tiering.offload)
    if parts.2 = [] then (value, none) else (parts.1, some parts.2)

/-! ## Nothing is lost -/

theorem mem_unique {values : List JsString} {path : JsString} :
    path ∈ unique values ↔ path ∈ values := List.mem_eraseDups

theorem within_obj_nil (fields : Fields) : Within (.obj []) (.obj fields) := by
  intro q
  cases q with
  | nil => exact Or.inl rfl
  | cons key q => exact Or.inr rfl

/-- Picking some plain paths and removing the same paths splits the value. -/
theorem split_pick_unset {v : Fields} {paths : List JsString}
    (h : ∀ p ∈ paths, PlainFor (.obj v) p) :
    Split (.obj (pickPaths v paths)) (.obj (unsetPaths v paths)) (.obj v) := by
  obtain ⟨hpick, hcovers⟩ := at_pickPaths h
  have hne : ∀ p ∈ paths.map pathParts, p ≠ [] := by
    intro p hp
    obtain ⟨path, hpath, rfl⟩ := List.mem_map.mp hp
    exact (h path hpath).plain.ne_nil
  have hunset := unsetPaths_eq (fun p hp => (h p hp).plain) v
  refine ⟨hpick, hunset ▸ within_unsetAll hne _, ?_⟩
  intro q
  rw [hunset]
  rcases at_unsetAll_cases hne (.obj v) q with hat | ⟨-, p, hp, hsome, hrel⟩
  · exact Or.inr hat
  · obtain ⟨path, hpath, rfl⟩ := List.mem_map.mp hp
    exact Or.inl (hcovers q ⟨path, hpath, hsome, hrel⟩)

/-- A forced path keeps the two parts a split. -/
theorem split_forceHot {v : Fields} {parts : Fields × Fields}
    (h : Split (.obj parts.1) (.obj parts.2) (.obj v)) {path : JsString}
    (hpath : PlainFor (.obj v) path) :
    Split (.obj (forceHot v parts path).1) (.obj (forceHot v parts path).2) (.obj v) := by
  unfold forceHot
  rw [hpath.getPathValue_eq]
  cases hlook : lookup (.obj v) (pathParts path) with
  | none => exact h
  | some w =>
      have hcell := cellOf_lookup hpath.plain hlook
      have hcold := unsetPath_eq hpath.plain parts.2
      have hnear : ∀ q, Related (pathParts path) q →
          (Json.obj (setPath parts.1 path w)).at q = (Json.obj v).at q :=
        fun q hrel => hcell.at_write _ hrel
      have hfar : ∀ q, ¬ Related (pathParts path) q →
          (Json.obj (setPath parts.1 path w)).at q = (Json.obj parts.1).at q :=
        fun q hrel => at_setParts_of_not_related hpath.plain.noProto _ _ hrel
      refine ⟨?_, ?_, ?_⟩
      · intro q
        by_cases hrel : Related (pathParts path) q
        · exact Or.inl (hnear q hrel)
        · exact (hfar q hrel).symm ▸ h.hotWithin q
      · rw [hcold]
        exact (within_unsetParts hpath.plain.ne_nil _).trans h.coldWithin
      · intro q
        by_cases hrel : Related (pathParts path) q
        · exact Or.inl (hnear q hrel)
        · rcases h.covers q with hat | hat
          · exact Or.inl ((hfar q hrel).trans hat)
          · right
            rw [hcold, at_unsetParts_of_not_related hpath.plain.ne_nil _ hrel]
            exact hat

theorem wellFormed_forceHot {v : Fields} (hv : (Json.obj v).WellFormed) {parts : Fields × Fields}
    (h : (Json.obj parts.1).WellFormed ∧ (Json.obj parts.2).WellFormed) {path : JsString}
    (hpath : PlainFor (.obj v) path) :
    (Json.obj (forceHot v parts path).1).WellFormed ∧
      (Json.obj (forceHot v parts path).2).WellFormed := by
  unfold forceHot
  rw [hpath.getPathValue_eq]
  cases hlook : lookup (.obj v) (pathParts path) with
  | none => exact h
  | some w =>
      exact ⟨wellFormed_setParts _ h.1 (wellFormed_lookup hv hlook), wellFormed_unsetPath h.2 path⟩

/-- All paths that decide how a value is split. -/
def Tiering.paths (tiering : Tiering) (forced : List JsString) : List JsString :=
  tiering.keep ++ tiering.offload ++ forced

/-- The two parts of a tiered value show all of it. -/
theorem split_splitTieredValue {v : Fields} (hv : (Json.obj v).WellFormed) {tiering : Tiering}
    {forced : List JsString} (h : ∀ p ∈ tiering.paths forced, PlainFor (.obj v) p) :
    ((splitTieredValue v tiering forced).2 = none ∧ (splitTieredValue v tiering forced).1 = v) ∨
      ∃ cold, (splitTieredValue v tiering forced).2 = some cold ∧
        Split (.obj (splitTieredValue v tiering forced).1) (.obj cold) (.obj v) ∧
        (Json.obj (splitTieredValue v tiering forced).1).WellFormed ∧
        (Json.obj cold).WellFormed := by
  have hforced : ∀ p ∈ unique forced, PlainFor (.obj v) p := by
    intro p hp
    exact h p (List.mem_append_right _ (mem_unique.mp hp))
  unfold splitTieredValue
  by_cases hkeep : tiering.keep = []
  · by_cases hoff : tiering.offload = []
    · exact Or.inl (by simp [hkeep, hoff])
    · have hoffload : ∀ p ∈ tiering.offload, PlainFor (.obj v) p := fun p hp =>
        h p (List.mem_append_left _ (List.mem_append_right _ hp))
      -- the forced paths are moved one after the other
      have hfold : ∀ (paths : List JsString) (parts : Fields × Fields),
          (∀ p ∈ paths, PlainFor (.obj v) p) → Split (.obj parts.1) (.obj parts.2) (.obj v) →
          (Json.obj parts.1).WellFormed ∧ (Json.obj parts.2).WellFormed →
          Split (.obj (paths.foldl (forceHot v) parts).1)
              (.obj (paths.foldl (forceHot v) parts).2) (.obj v) ∧
            (Json.obj (paths.foldl (forceHot v) parts).1).WellFormed ∧
            (Json.obj (paths.foldl (forceHot v) parts).2).WellFormed := by
        intro paths
        induction paths with
        | nil => exact fun parts _ hsplit hwf => ⟨hsplit, hwf⟩
        | cons path paths ih =>
            intro parts hpaths hsplit hwf
            have hpath := hpaths path List.mem_cons_self
            exact ih _ (fun p hp => hpaths p (List.mem_cons_of_mem _ hp))
              (split_forceHot hsplit hpath) (wellFormed_forceHot hv hwf hpath)
      obtain ⟨hsplit, hwf⟩ := hfold (unique forced)
        (unsetPaths v tiering.offload, pickPaths v tiering.offload) hforced
        (split_pick_unset hoffload).symm
        ⟨wellFormed_unsetPaths hv _, wellFormed_pickPaths hv hoffload⟩
      simp only [hkeep, hoff, ne_eq, not_true_eq_false, if_false]
      split_ifs with hempty
      · exact Or.inl ⟨rfl, rfl⟩
      · exact Or.inr ⟨_, rfl, hsplit, hwf⟩
  · have hhot : ∀ p ∈ unique (tiering.keep ++ unique forced), PlainFor (.obj v) p := by
      intro p hp
      rcases List.mem_append.mp (mem_unique.mp hp) with hp | hp
      · exact h p (List.mem_append_left _ (List.mem_append_left _ hp))
      · exact hforced p hp
    simp only [hkeep, ne_eq, not_false_eq_true, if_true]
    split_ifs with hempty
    · exact Or.inl ⟨rfl, rfl⟩
    · exact Or.inr ⟨_, rfl, split_pick_unset hhot, wellFormed_pickPaths hv hhot,
        wellFormed_unsetPaths hv _⟩

end ObjyDb
