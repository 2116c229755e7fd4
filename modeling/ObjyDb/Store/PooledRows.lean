import ObjyDb.Lib.RefCounts
import ObjyDb.Store.Candidates

/-!
# PooledRows — every run of the object row store

Rows share values through the directory.  In every run the pool counts the places that hold its
values, and every row reads back the fields of its last rebuild.

* `PoolOk` — the pool agrees with the places that hold its values;
* `store_spec` — what storing a value does to the pool, and what the row gets;
* `rows_spec` — the runs.
-/

namespace ObjyDb

open Js

namespace ValueDirectory

section

variable (collation : Collation)

/-- What a row may show in place of a value: with structured pooling the fields of an object can
be in another order. -/
def Alike (config : ValueDirectoryConfig) (shown value : Json) : Prop :=
  if config.poolStructuredValues then sortForKey collation shown = sortForKey collation value
  else shown = value

/-- The pool counts its holders right, keeps its limit, and files every value under its key. -/
structure PoolOk (d : ValueDirectory) (uses : JsString → Nat) : Prop where
  held : RefCounts.Held PoolEntry.refs d.pool uses
  within : d.pool.length ≤ d.config.maxEntries
  keyed : ∀ key entry, Assoc.get? d.pool key = some entry →
    keyFor collation d.config entry.value = some key
  wellFormed : ∀ key entry, Assoc.get? d.pool key = some entry → entry.value.WellFormed

variable {collation}

theorem Alike.refl (config : ValueDirectoryConfig) (value : Json) :
    Alike collation config value value := by
  unfold Alike
  split_ifs <;> rfl

theorem Alike.symm {config : ValueDirectoryConfig} {v w : Json}
    (h : Alike collation config v w) : Alike collation config w v := by
  unfold Alike at h ⊢
  split_ifs at h ⊢
  · exact h.symm
  · exact h.symm

theorem poolOk_new (config : ValueDirectoryConfig) :
    (new config).PoolOk collation fun _ => 0 where
  held := .empty
  within := Nat.zero_le _
  keyed := by
    intro key entry h
    cases h
  wellFormed := by
    intro key entry h
    cases h

theorem PoolOk.congr {d : ValueDirectory} {uses uses' : JsString → Nat}
    (h : d.PoolOk collation uses) (huses : ∀ key, uses' key = uses key) :
    d.PoolOk collation uses' :=
  ⟨h.held.congr huses, h.within, h.keyed, h.wellFormed⟩

theorem PoolOk.keeps {d d' : ValueDirectory} {uses : JsString → Nat}
    (h : d.PoolOk collation uses) (hkeeps : d.Keeps d') : d'.PoolOk collation uses := by
  refine ⟨?_, ?_, ?_, ?_⟩
  · rw [hkeeps.pool]
    exact h.held
  · rw [hkeeps.pool, hkeeps.config]
    exact h.within
  · rw [hkeeps.pool, hkeeps.config]
    exact h.keyed
  · rw [hkeeps.pool]
    exact h.wellFormed

/-! ## Keys of pooled values -/

theorem structuredKey_eq {config : ValueDirectoryConfig} {tag : JsString} {value : Json}
    {key : JsString} (h : structuredKey collation config tag value = some key) :
    config.poolStructuredValues = true ∧ key = tag ++ stableKey collation value := by
  unfold structuredKey at h
  dsimp only at h
  split_ifs at h with hpool hlong
  exact ⟨hpool, (Option.some.inj h).symm⟩

theorem keyFor_cases {config : ValueDirectoryConfig} {value : Json} {key : JsString}
    (h : keyFor collation config value = some key) :
    (∃ s, value = .str s ∧ key = js "string:" ++ s) ∨
      (∃ items, value = .arr items ∧ config.poolStructuredValues = true ∧
        key = js "array:" ++ stableKey collation value) ∨
      ∃ fields, value = .obj fields ∧ config.poolStructuredValues = true ∧
        key = js "object:" ++ stableKey collation value := by
  cases value with
  | str s =>
      unfold keyFor at h
      dsimp only at h
      split_ifs at h
      exact Or.inl ⟨s, rfl, (Option.some.inj h).symm⟩
  | arr items =>
      rcases structuredKey_eq h with ⟨hpool, hkey⟩
      exact Or.inr (Or.inl ⟨items, rfl, hpool, hkey⟩)
  | obj fields =>
      rcases structuredKey_eq h with ⟨hpool, hkey⟩
      exact Or.inr (Or.inr ⟨fields, rfl, hpool, hkey⟩)
  | _ => cases h

/-- The first unit of a key tells strings, arrays and objects apart. -/
theorem tags_apart (left right : JsString) :
    js "string:" ++ left ≠ js "array:" ++ right ∧ js "string:" ++ left ≠ js "object:" ++ right ∧
      js "array:" ++ left ≠ js "object:" ++ right := by
  refine ⟨fun h => ?_, fun h => ?_, fun h => ?_⟩
  · have hhead : some (unit 's') = some (unit 'a') := congrArg List.head? h
    exact absurd hhead (by decide)
  · have hhead : some (unit 's') = some (unit 'o') := congrArg List.head? h
    exact absurd hhead (by decide)
  · have hhead : some (unit 'a') = some (unit 'o') := congrArg List.head? h
    exact absurd hhead (by decide)

/-- Values under one key look alike. -/
theorem alike_of_keyFor {config : ValueDirectoryConfig} {v w : Json} {key : JsString}
    (hv : v.WellFormed) (hw : w.WellFormed) (hkey : keyFor collation config v = some key)
    (hkey' : keyFor collation config w = some key) : Alike collation config v w := by
  have hstable : ∀ {tag : JsString}, config.poolStructuredValues = true →
      key = tag ++ stableKey collation v → key = tag ++ stableKey collation w →
      Alike collation config v w := by
    intro tag hpool hleft hright
    unfold Alike
    rw [if_pos hpool]
    exact stableKey_inj collation hv hw (List.append_cancel_left (hleft.symm.trans hright))
  rcases keyFor_cases hkey with ⟨s, rfl, hs⟩ | ⟨_, -, hpool, hs⟩ | ⟨_, -, hpool, hs⟩ <;>
    rcases keyFor_cases hkey' with ⟨t, rfl, ht⟩ | ⟨_, -, -, ht⟩ | ⟨_, -, -, ht⟩
  · rw [List.append_cancel_left (hs.symm.trans ht)]
    exact .refl config _
  · exact absurd (hs.symm.trans ht) (tags_apart _ _).1
  · exact absurd (hs.symm.trans ht) (tags_apart _ _).2.1
  · exact absurd (ht.symm.trans hs) (tags_apart _ _).1
  · exact hstable hpool hs ht
  · exact absurd (hs.symm.trans ht) (tags_apart _ _).2.2
  · exact absurd (ht.symm.trans hs) (tags_apart _ _).2.1
  · exact absurd (ht.symm.trans hs) (tags_apart _ _).2.2
  · exact hstable hpool hs ht

/-! ## One value -/

/-- The directory after a step that took the references `added`. -/
structure Takes (collation : Collation) (d d' : ValueDirectory) (added : List JsString) : Prop where
  config : d'.config = d.config
  counted : d.Counted → d'.Counted
  pool : ∀ uses, d.PoolOk collation uses → d'.PoolOk collation fun key => uses key + added.count key

theorem Keeps.takes {d d' : ValueDirectory} (h : d.Keeps d') : d.Takes collation d' [] where
  config := h.config
  counted := h.counted
  pool := fun uses hpool => (hpool.keeps h).congr fun key => by rw [List.count_nil, Nat.add_zero]

theorem Takes.trans {d d' d'' : ValueDirectory} {added added' : List JsString}
    (h : d.Takes collation d' added) (h' : d'.Takes collation d'' added') :
    d.Takes collation d'' (added ++ added') where
  config := h'.config.trans h.config
  counted := fun hd => h'.counted (h.counted hd)
  pool := fun uses hpool => (h'.pool _ (h.pool uses hpool)).congr fun key => by
    rw [List.count_append]
    omega

theorem update_add_one (uses : JsString → Nat) (key : JsString) (k : JsString) :
    uses k + [key].count k = Function.update uses key (uses key + 1) k := by
  by_cases hk : k = key
  · rw [hk, Function.update_self, List.count_singleton_self]
  · rw [Function.update_of_ne hk, List.count_singleton, if_neg (by simpa using Ne.symm hk),
      Nat.add_zero]

theorem takes_share {d : ValueDirectory} {key : JsString} {entry : PoolEntry}
    (hget : Assoc.get? d.pool key = some entry) : d.Takes collation (d.share key entry) [key] where
  config := rfl
  counted := fun h => ⟨h.paths, h.names, h.total, h.within, h.withinPath, h.withinPaths⟩
  pool := by
    intro uses h
    have hrefs : entry.refs + 1 = ((uses key + 1 : Nat) : Int) := by
      rw [h.held.refs_eq hget]
      rfl
    refine ⟨(h.held.set key hrefs (Nat.succ_pos _)).congr (update_add_one uses key), ?_, ?_, ?_⟩
    · dsimp only [share]
      rw [length_set_of_get? hget]
      exact h.within
    · intro k other hother
      dsimp only [share] at hother ⊢
      rw [Assoc.get?_set] at hother
      split_ifs at hother with hk
      · cases hother
        rw [← hk]
        exact h.keyed key entry hget
      · exact h.keyed k other hother
    · intro k other hother
      dsimp only [share] at hother
      rw [Assoc.get?_set] at hother
      split_ifs at hother
      · cases hother
        exact h.wellFormed key entry hget
      · exact h.wellFormed k other hother

/-- A new pooled value, while there is room for one. -/
theorem takes_promote {d : ValueDirectory} {path key : JsString} {value : Json}
    (hnew : Assoc.get? d.pool key = none) (hroom : d.pool.length < d.config.maxEntries)
    (hkey : keyFor collation d.config value = some key) (hvalue : value.WellFormed) :
    d.Takes collation (d.promote path key value) [key] := by
  have hadd : d.Takes collation
      { d with pool := Assoc.set d.pool key ⟨value, 1, estimateValue value⟩ } [key] := by
    refine ⟨rfl, fun h => ⟨h.paths, h.names, h.total, h.within, h.withinPath, h.withinPaths⟩, ?_⟩
    intro uses h
    have hzero := (h.held.get?_eq_none_iff key).mp hnew
    have hset : RefCounts.Held PoolEntry.refs
        (Assoc.set d.pool key ⟨value, 1, estimateValue value⟩)
        (Function.update uses key (uses key + 1)) :=
      h.held.set key (by rw [hzero]; rfl) (Nat.succ_pos _)
    refine ⟨hset.congr (update_add_one uses key), ?_, ?_, ?_⟩
    · dsimp only
      rw [length_set_of_none hnew]
      exact hroom
    · intro k other hother
      dsimp only at hother ⊢
      rw [Assoc.get?_set] at hother
      split_ifs at hother with hk
      · cases hother
        rw [← hk]
        exact hkey
      · exact h.keyed k other hother
    · intro k other hother
      dsimp only at hother
      rw [Assoc.get?_set] at hother
      split_ifs at hother
      · cases hother
        exact hvalue
      · exact h.wellFormed k other hother
  exact hadd.trans (keeps_deleteCandidate _ path key).takes

variable (collation) in
/-- Consulting the pool: one reference more, or none. -/
theorem pooled_spec (d : ValueDirectory) (path : JsString) {value : Json}
    (hvalue : value.WellFormed) :
    match d.pooled collation path value with
    | (d', none) => d.Takes collation d' []
    | (d', some (key, shared)) => d.Takes collation d' [key] ∧
        ∀ uses, d.PoolOk collation uses → Alike collation d.config shared value := by
  unfold pooled
  cases hkey : keyFor collation d.config value with
  | none => exact (Keeps.refl d).takes
  | some key =>
      dsimp only
      cases hget : Assoc.get? d.pool key with
      | some entry =>
          refine ⟨takes_share hget, fun uses h => ?_⟩
          exact alike_of_keyFor (h.wellFormed key entry hget) hvalue (h.keyed key entry hget) hkey
      | none =>
          have hseen := keeps_shouldPromote d (normalized path) key
          dsimp only
          split_ifs with hpromote
          · refine ⟨?_, fun _ _ => .refl d.config value⟩
            have hroom := length_lt_of_shouldPromote hpromote
            refine hseen.takes.trans (takes_promote ?_ ?_ ?_ hvalue)
            · rw [hseen.pool]
              exact hget
            · rw [hseen.pool, hseen.config]
              exact hroom
            · rw [hseen.config]
              exact hkey
          · exact hseen.takes

/-! ## Values with their members -/

/-- What storing leaves: the references that were pushed are taken, and the row shows the value. -/
structure Stores (collation : Collation) (d : ValueDirectory) (refs : List JsString)
    {α : Type} (shows : α → Prop) (stored : Stored α) : Prop where
  taken : ∃ added, stored.refs = refs ++ added ∧ d.Takes collation stored.directory added
  shown : ∀ uses, d.PoolOk collation uses → shows stored.value

theorem Stores.of_keeps {d d' : ValueDirectory} (h : d.Takes collation d' []) {α : Type}
    {shows : α → Prop} {value : α} (hshows : shows value) (refs : List JsString) (frozen : Bool) :
    d.Stores collation refs shows ⟨d', refs, value, frozen⟩ where
  taken := ⟨[], (List.append_nil refs).symm, h⟩
  shown := fun _ _ => hshows

/-- Storing after a step that took no reference. -/
theorem Stores.after {d d' : ValueDirectory} {refs : List JsString} {α : Type} {shows : α → Prop}
    {stored : Stored α} (h : d'.Stores collation refs shows stored)
    (hstep : d.Takes collation d' []) : d.Stores collation refs shows stored := by
  rcases h.taken with ⟨added, hadded, htakes⟩
  exact ⟨⟨added, hadded, hstep.trans htakes⟩, fun uses hpool => h.shown _ (hstep.pool uses hpool)⟩

/-- Storing one thing and then another. -/
theorem Stores.next {d : ValueDirectory} {refs : List JsString} {α β γ : Type}
    {shows : α → Prop} {shows' : β → Prop} {shows'' : γ → Prop} {first : Stored α}
    {rest : Stored β} (hfirst : d.Stores collation refs shows first)
    (hrest : first.directory.Stores collation first.refs shows' rest) {value : γ}
    (hvalue : shows first.value → shows' rest.value → shows'' value) (frozen : Bool) :
    d.Stores collation refs shows'' ⟨rest.directory, rest.refs, value, frozen⟩ := by
  rcases hfirst.taken with ⟨added, hadded, htakes⟩
  rcases hrest.taken with ⟨more, hmore, htakes'⟩
  refine ⟨⟨added ++ more, ?_, htakes.trans htakes'⟩, fun uses h => ?_⟩
  · calc rest.refs
        = first.refs ++ more := hmore
      _ = refs ++ (added ++ more) := by rw [hadded, List.append_assoc]
  · exact hvalue (hfirst.shown uses h) (hrest.shown _ (htakes.pool uses h))

theorem storeWith_spec {d : ValueDirectory} {refs : List JsString} (path : JsString)
    (trusted : Bool) {value : Json} (hvalue : value.WellFormed) (size : Nat)
    {nested : ValueDirectory → Stored Json}
    (hnested : ∀ d' : ValueDirectory, d'.config = d.config →
      d'.Stores collation refs (Alike collation d.config · value) (nested d')) :
    d.Stores collation refs (Alike collation d.config · value)
      (d.storeWith collation refs path trusted value size nested) := by
  unfold storeWith
  by_cases henabled : d.config.enabled
  · rw [if_pos henabled]
    have hpooled := pooled_spec collation d path hvalue
    cases hresult : d.pooled collation path value with
    | mk d' shared =>
        rw [hresult] at hpooled
        cases shared with
        | some shared =>
            exact ⟨⟨[shared.1], rfl, hpooled.1⟩, hpooled.2⟩
        | none =>
            dsimp only at hpooled ⊢
            split_ifs
            · exact .of_keeps hpooled (.refl d.config value) refs false
            · exact .of_keeps hpooled (.refl d.config value) refs false
            · exact (hnested d' hpooled.config).after hpooled
  · rw [if_neg henabled]
    exact .of_keeps (Keeps.refl d).takes (.refl d.config value) refs false

theorem Alike.arr {config : ValueDirectoryConfig} {shown items : List Json}
    (h : List.Forall₂ (Alike collation config) shown items) :
    Alike collation config (.arr shown) (.arr items) := by
  unfold Alike
  split_ifs with hpool
  · have hmap : shown.map (sortForKey collation) = items.map (sortForKey collation) := by
      induction h with
      | nil => rfl
      | cons hhead _ ih =>
          rw [Alike, if_pos hpool] at hhead
          rw [List.map_cons, List.map_cons, hhead, ih]
    rw [sortForKey, sortForKey, sortItems_eq_map, sortItems_eq_map, hmap]
  · congr 1
    induction h with
    | nil => rfl
    | cons hhead _ ih =>
        rw [Alike, if_neg hpool] at hhead
        rw [hhead, ih]

/-- A row shows its fields in their order. -/
def AlikeFields (collation : Collation) (config : ValueDirectoryConfig) (shown fields : Fields) :
    Prop :=
  List.Forall₂ (fun a b => a.1 = b.1 ∧ Alike collation config a.2 b.2) shown fields

theorem Alike.obj {config : ValueDirectoryConfig} {shown fields : Fields}
    (h : AlikeFields collation config shown fields) :
    Alike collation config (.obj shown) (.obj fields) := by
  unfold Alike
  split_ifs with hpool
  · have hmap : shown.map (fun field => (field.1, sortForKey collation field.2)) =
        fields.map (fun field => (field.1, sortForKey collation field.2)) := by
      induction h with
      | nil => rfl
      | cons hhead _ ih =>
          rw [Alike, if_pos hpool] at hhead
          rw [List.map_cons, List.map_cons, hhead.1, hhead.2, ih]
    rw [sortForKey, sortForKey, sortFields_eq_map, sortFields_eq_map, hmap]
  · congr 1
    induction h with
    | nil => rfl
    | cons hhead _ ih =>
        rw [Alike, if_neg hpool] at hhead
        rw [Prod.ext hhead.1 hhead.2, ih]

theorem storeItems_spec (items : List Json) {trusted : Bool}
    (hstore : ∀ item ∈ items, ∀ (d : ValueDirectory) (refs : List JsString)
      (path : JsString), d.Stores collation refs (Alike collation d.config · item)
        (d.store collation refs path trusted item))
    (d : ValueDirectory) (refs : List JsString) (path : JsString) :
    d.Stores collation refs (List.Forall₂ (Alike collation d.config) · items)
      (store.storeItems collation d refs path trusted items) := by
  induction items generalizing d refs with
  | nil => exact .of_keeps (Keeps.refl d).takes .nil refs false
  | cons item items ih =>
      have hfirst := hstore item List.mem_cons_self d refs path
      have hrest := ih (fun i hi => hstore i (List.mem_cons_of_mem _ hi))
        (d.store collation refs path trusted item).directory
        (d.store collation refs path trusted item).refs
      have hconfig : (d.store collation refs path trusted item).directory.config = d.config := by
        rcases hfirst.taken with ⟨added, -, htakes⟩
        exact htakes.config
      rw [hconfig] at hrest
      exact hfirst.next hrest .cons false

theorem storeFields_spec (fields : Fields) {trusted : Bool}
    (hstore : ∀ field ∈ fields, ∀ (d : ValueDirectory) (refs : List JsString)
      (path : JsString), d.Stores collation refs (Alike collation d.config · field.2)
        (d.store collation refs path trusted field.2))
    (d : ValueDirectory) (refs : List JsString) (path : JsString) :
    d.Stores collation refs (AlikeFields collation d.config · fields)
      (store.storeFields collation d refs path trusted fields) := by
  induction fields generalizing d refs with
  | nil => exact .of_keeps (Keeps.refl d).takes .nil refs false
  | cons field fields ih =>
      rcases field with ⟨key, value⟩
      have hfirst := hstore (key, value) List.mem_cons_self d refs (path ++ js "." ++ key)
      have hrest := ih (fun f hf => hstore f (List.mem_cons_of_mem _ hf))
        (d.store collation refs (path ++ js "." ++ key) trusted value).directory
        (d.store collation refs (path ++ js "." ++ key) trusted value).refs
      have hconfig : (d.store collation refs (path ++ js "." ++ key) trusted
          value).directory.config = d.config := by
        rcases hfirst.taken with ⟨added, -, htakes⟩
        exact htakes.config
      rw [hconfig] at hrest
      exact hfirst.next hrest (fun h hs => .cons ⟨rfl, h⟩ hs) false

variable (collation) in
/-- Storing a value takes the references that it pushes, and the row shows the value. -/
theorem store_spec {value : Json} (hvalue : value.WellFormed) (d : ValueDirectory)
    (refs : List JsString) (path : JsString) (trusted : Bool) :
    d.Stores collation refs (Alike collation d.config · value)
      (d.store collation refs path trusted value) := by
  induction value using Json.induct generalizing d refs path with
  | arr items ih =>
      rw [store]
      refine storeWith_spec path trusted hvalue items.length fun d' hconfig => ?_
      have hitems := storeItems_spec items
        (fun item hitem => ih item hitem (Json.wellFormed_arr_iff.mp hvalue item hitem)) d' refs
        (path ++ js "[]")
      rw [hconfig] at hitems
      exact ⟨hitems.taken, fun uses h => .arr (hitems.shown uses h)⟩
  | obj fields ih =>
      rw [store]
      refine storeWith_spec path trusted hvalue fields.length fun d' hconfig => ?_
      have hfields := storeFields_spec fields
        (fun field hfield => ih field hfield ((Json.wellFormed_obj_iff.mp hvalue).2 field hfield))
        d' refs path
      rw [hconfig] at hfields
      exact ⟨hfields.taken, fun uses h => .obj (hfields.shown uses h)⟩
  | _ =>
      rw [store]
      exact storeWith_spec path trusted hvalue 0 fun d' hconfig =>
        .of_keeps (Keeps.refl d').takes (.refl d.config _) refs false

/-! ## Releasing -/

/-- One holder lets go. -/
theorem poolOk_release {d : ValueDirectory} {uses : JsString → Nat} (h : d.PoolOk collation uses)
    {key : JsString} (hused : uses key ≠ 0) :
    (d.release key).config = d.config ∧ (d.Counted → (d.release key).Counted) ∧
      (d.release key).PoolOk collation (Function.update uses key (uses key - 1)) := by
  unfold release
  cases hget : Assoc.get? d.pool key with
  | none => exact absurd ((h.held.get?_eq_none_iff key).mp hget) hused
  | some entry =>
      have hrefs := h.held.refs_eq hget
      dsimp only
      split_ifs with hlast
      · -- the last holder: the entry goes
        have hone : uses key - 1 = 0 := by omega
        refine ⟨rfl, fun hc => ⟨hc.paths, hc.names, hc.total, hc.within, hc.withinPath,
          hc.withinPaths⟩, ?_, ?_, ?_, ?_⟩
        · rw [hone]
          exact h.held.erase key
        · have hlength := length_erase h.held.nodup hget
          have hwithin := h.within
          dsimp only
          omega
        · intro k other hother
          dsimp only at hother
          rw [Assoc.get?_erase] at hother
          split_ifs at hother
          exact h.keyed k other hother
        · intro k other hother
          dsimp only at hother
          rw [Assoc.get?_erase] at hother
          split_ifs at hother
          exact h.wellFormed k other hother
      · have hleft : entry.refs - 1 = ((uses key - 1 : Nat) : Int) := by omega
        refine ⟨rfl, fun hc => ⟨hc.paths, hc.names, hc.total, hc.within, hc.withinPath,
          hc.withinPaths⟩, h.held.set key hleft (by omega), ?_, ?_, ?_⟩
        · dsimp only
          rw [length_set_of_get? hget]
          exact h.within
        · intro k other hother
          dsimp only at hother ⊢
          rw [Assoc.get?_set] at hother
          split_ifs at hother with hk
          · cases hother
            rw [← hk]
            exact h.keyed key entry hget
          · exact h.keyed k other hother
        · intro k other hother
          dsimp only at hother
          rw [Assoc.get?_set] at hother
          split_ifs at hother
          · cases hother
            exact h.wellFormed key entry hget
          · exact h.wellFormed k other hother

/-- All places of a row let go. -/
theorem poolOk_releaseAll {d : ValueDirectory} {uses : JsString → Nat} (refs : List JsString)
    (h : d.PoolOk collation fun key => uses key + refs.count key) :
    (d.releaseAll refs).config = d.config ∧ (d.Counted → (d.releaseAll refs).Counted) ∧
      (d.releaseAll refs).PoolOk collation uses := by
  induction refs generalizing d with
  | nil => exact ⟨rfl, id, h.congr fun key => by rw [List.count_nil, Nat.add_zero]⟩
  | cons key refs ih =>
      have hused : uses key + (key :: refs).count key ≠ 0 := by
        rw [List.count_cons_self]
        omega
      rcases poolOk_release h hused with ⟨hconfig, hcounted, hpool⟩
      have hleft : (d.release key).PoolOk collation fun k => uses k + refs.count k := by
        refine hpool.congr fun k => ?_
        by_cases hk : k = key
        · rw [hk, Function.update_self, List.count_cons_self]
          omega
        · rw [Function.update_of_ne hk, List.count_cons_of_ne (Ne.symm hk)]
      rcases ih hleft with ⟨hconfig', hcounted', hpool'⟩
      exact ⟨hconfig'.trans hconfig, fun hc => hcounted' (hcounted hc), hpool'⟩

end

end ValueDirectory

/-! ## Runs -/

inductive RowEvent where
  | rebuild (id : JsString) (live : Fields) (trusted : Bool)
  | removeObject (id : JsString)
  | clear

namespace RowEvent

/-- The fields of a rebuild are a JSON object. -/
def WellFormed : RowEvent → Prop
  | rebuild _ live _ => (Json.obj live).WellFormed
  | _ => True

/-- No rebuild has a field `__proto__`. -/
def Plain : RowEvent → Prop
  | rebuild _ live _ => js "__proto__" ∉ Assoc.keys live
  | _ => True

instance : DecidablePred WellFormed
  | rebuild _ live _ => inferInstanceAs (Decidable (Json.obj live).WellFormed)
  | removeObject _ => inferInstanceAs (Decidable True)
  | clear => inferInstanceAs (Decidable True)

instance : DecidablePred Plain
  | rebuild _ live _ => inferInstanceAs (Decidable (js "__proto__" ∉ Assoc.keys live))
  | removeObject _ => inferInstanceAs (Decidable True)
  | clear => inferInstanceAs (Decidable True)

/-- The fields that every id was last rebuilt with. -/
def record (records : JsString → Option Fields) : RowEvent → JsString → Option Fields
  | rebuild id live _ => Function.update records id (if live = [] then none else some live)
  | removeObject id => Function.update records id none
  | clear => fun _ => none

end RowEvent

namespace ObjectRowStore

open ValueDirectory

def new (config : ValueDirectoryConfig) : ObjectRowStore :=
  ⟨[], .new config⟩

def step (collation : Collation) (s : ObjectRowStore) : RowEvent → ObjectRowStore
  | .rebuild id live trusted => s.rebuild collation id live trusted
  | .removeObject id => s.removeObject id
  | .clear => s.clear

def run (collation : Collation) (s : ObjectRowStore) (events : List RowEvent) : ObjectRowStore :=
  events.foldl (step collation) s

/-- How many places of rows show the pooled value of a key. -/
def occurrences (rows : List (JsString × ObjectRow)) (key : JsString) : Nat :=
  (rows.flatMap fun row => row.2.refs).count key

section

variable {collation : Collation}

/-- The pool counts the places in rows, and the places that failed rebuilds left behind. -/
structure Sound (collation : Collation) (config : ValueDirectoryConfig) (s : ObjectRowStore)
    (leaked : JsString → Nat) : Prop where
  config : s.valueDirectory.config = config
  rows : (Assoc.keys s.rows).Nodup
  counted : s.valueDirectory.Counted
  pool : s.valueDirectory.PoolOk collation fun key => occurrences s.rows key + leaked key

variable (collation) in
theorem sound_new (config : ValueDirectoryConfig) :
    (new config).Sound collation config fun _ => 0 where
  config := rfl
  rows := List.nodup_nil
  counted := counted_new config
  pool := poolOk_new config

theorem releaseRow_sound {config : ValueDirectoryConfig} {s : ObjectRowStore}
    {leaked : JsString → Nat} (h : s.Sound collation config leaked) (id : JsString) :
    (s.releaseRow id).Sound collation config leaked := by
  have hrows : (Assoc.keys (Assoc.erase s.rows id)).Nodup := by
    rw [Assoc.keys_erase]
    exact h.rows.filter _
  unfold releaseRow
  cases hget : Assoc.get? s.rows id with
  | none =>
      have hsame : Assoc.erase s.rows id = s.rows := by
        refine List.filter_eq_self.mpr fun entry hentry => ?_
        have hnotMem := Assoc.get?_eq_none_iff.mp hget
        simpa using fun heq : entry.1 = id => hnotMem (heq ▸ List.mem_map_of_mem hentry)
      rw [hsame]
      exact h
  | some old =>
      have hperm := (Assoc.perm_cons_erase h.rows (Assoc.mem_of_get?_eq_some hget)).flatMap_right
        fun row => row.2.refs
      have huses : s.valueDirectory.PoolOk collation fun key =>
          occurrences (Assoc.erase s.rows id) key + leaked key + old.refs.count key := by
        refine h.pool.congr fun key => ?_
        have hcount := hperm.count_eq key
        rw [List.flatMap_cons, List.count_append] at hcount
        unfold occurrences
        dsimp only at hcount
        omega
      rcases poolOk_releaseAll old.refs huses with ⟨hconfig, hcounted, hpool⟩
      exact ⟨hconfig.trans h.config, hrows, hcounted h.counted, hpool⟩

/-! ## Building a row -/

/-- The fields that a row can have: assigning `__proto__` makes no field. -/
def ownFields (live : Fields) : Fields :=
  live.filter fun field => decide (field.1 ≠ js "__proto__")

theorem ownFields_of_plain {live : Fields} (h : js "__proto__" ∉ Assoc.keys live) :
    ownFields live = live := by
  refine List.filter_eq_self.mpr fun field hfield => ?_
  simpa using fun heq : field.1 = js "__proto__" => h (heq ▸ List.mem_map_of_mem hfield)

variable (collation) in
/-- The loop of `rebuild` takes the references that it pushes.  Without a `__proto__` it runs to
its end, and at its end the row shows the fields. -/
theorem buildRow_spec (trusted : Bool) {live : Fields} (draft : Draft)
    (hlive : ∀ field ∈ live, field.2.WellFormed)
    (hnodup : (Assoc.keys draft.value ++ Assoc.keys live).Nodup) :
    (∃ added, (buildRow collation trusted draft live).1.refs = draft.refs ++ added ∧
        draft.directory.Takes collation (buildRow collation trusted draft live).1.directory added) ∧
      (draft.proto = none → js "__proto__" ∉ Assoc.keys live →
        (buildRow collation trusted draft live).2 = true) ∧
      ∀ uses, draft.directory.PoolOk collation uses →
        (buildRow collation trusted draft live).2 = true →
        ∃ shown, (buildRow collation trusted draft live).1.value = draft.value ++ shown ∧
          AlikeFields collation draft.directory.config shown (ownFields live) := by
  induction live generalizing draft with
  | nil =>
      exact ⟨⟨[], (List.append_nil _).symm, (Keeps.refl _).takes⟩, fun _ _ => rfl,
        fun _ _ _ => ⟨[], (List.append_nil _).symm, .nil⟩⟩
  | cons field live ih =>
      rcases field with ⟨key, item⟩
      have hstored := store_spec collation (hlive _ List.mem_cons_self)
        draft.directory draft.refs key trusted
      have hrest : ∀ field ∈ live, field.2.WellFormed := fun f hf =>
        hlive f (List.mem_cons_of_mem _ hf)
      rcases hstored.taken with ⟨added, hadded, htakes⟩
      dsimp only at hstored hadded htakes
      have hkeys : Assoc.keys ((key, item) :: live) = key :: Assoc.keys live := rfl
      rw [hkeys] at hnodup
      have hmiddle := List.nodup_middle.mp hnodup
      rcases List.nodup_cons.mp hmiddle with ⟨hnew, hothers⟩
      have hnewValue : key ∉ Assoc.keys draft.value := fun hmem => hnew (List.mem_append_left _ hmem)
      -- the value is stored first, whatever then becomes of the assignment
      rw [buildRow]
      generalize draft.directory.store collation draft.refs key trusted item = stored at *
      unfold assignField
      by_cases hproto : key = js "__proto__"
      · -- the prototype is set, and the row has no such field
        rw [if_pos hproto]
        dsimp only
        rcases ih ⟨stored.directory, stored.refs, draft.value, if stored.frozen then
          some stored.value else none⟩ hrest hothers with ⟨⟨more, hmore, htakes'⟩, -, hshown⟩
        refine ⟨⟨added ++ more, ?_, htakes.trans htakes'⟩, fun _ hplain => ?_, fun uses hpool => ?_⟩
        · rw [hmore, hadded, List.append_assoc]
        · exact absurd (by rw [hkeys, hproto]; exact List.mem_cons_self) hplain
        · have hown : ownFields ((key, item) :: live) = ownFields live := by
            rw [ownFields, List.filter_cons, if_neg (by simpa using hproto), ownFields]
          rw [hown]
          have hshown' := hshown _ (htakes.pool uses hpool)
          dsimp only at hshown'
          rw [htakes.config] at hshown'
          exact hshown'
      · rw [if_neg hproto]
        by_cases hfrozen : draft.proto.any (hasOwn · key) ∧ key ∉ Assoc.keys draft.value
        · -- the assignment throws
          rw [if_pos hfrozen]
          refine ⟨⟨added, hadded, htakes⟩, fun hnone => ?_, fun uses hpool hend => ?_⟩
          · rw [hnone] at hfrozen
            exact absurd hfrozen.1 (by simp)
          · cases hend
        · rw [if_neg hfrozen]
          dsimp only
          have hset : Assoc.set draft.value key stored.value = draft.value ++ [(key, stored.value)] :=
            Assoc.set_of_notMem _ hnewValue
          have hnodup' : (Assoc.keys (Assoc.set draft.value key stored.value) ++
              Assoc.keys live).Nodup := by
            rw [hset, Assoc.keys, List.map_append, List.append_assoc]
            exact hnodup
          rcases ih ⟨stored.directory, stored.refs, Assoc.set draft.value key stored.value,
            draft.proto⟩ hrest hnodup' with ⟨⟨more, hmore, htakes'⟩, hwhole, hshown⟩
          refine ⟨⟨added ++ more, ?_, htakes.trans htakes'⟩, fun hnone hplain => ?_,
            fun uses hpool hend => ?_⟩
          · rw [hmore, hadded, List.append_assoc]
          · rw [hkeys] at hplain
            exact hwhole hnone fun hmem => hplain (List.mem_cons_of_mem _ hmem)
          · rcases hshown _ (htakes.pool uses hpool) hend with ⟨shown, hvalue, halike⟩
            dsimp only at halike
            rw [htakes.config] at halike
            refine ⟨(key, stored.value) :: shown, ?_, ?_⟩
            · rw [hvalue, hset, List.append_assoc]
              rfl
            · rw [ownFields, List.filter_cons, if_pos (by simpa using hproto)]
              exact .cons ⟨rfl, hstored.shown uses hpool⟩ halike

/-! ## Steps -/

theorem occurrences_set {rows : List (JsString × ObjectRow)} {id : JsString}
    (hnew : id ∉ Assoc.keys rows) (row : ObjectRow) (key : JsString) :
    occurrences (Assoc.set rows id row) key = occurrences rows key + row.refs.count key := by
  rw [occurrences, Assoc.set_of_notMem _ hnew, List.flatMap_append, List.count_append,
    List.flatMap_singleton]
  rfl

/-- A rebuild keeps the store sound; where it throws, it leaves references behind. -/
theorem rebuild_sound {config : ValueDirectoryConfig} {s : ObjectRowStore}
    {leaked : JsString → Nat} (h : s.Sound collation config leaked) (id : JsString) {live : Fields}
    (hlive : (Json.obj live).WellFormed) (trusted : Bool) :
    ∃ leaked', (s.rebuild collation id live trusted).Sound collation config leaked' ∧
      (js "__proto__" ∉ Assoc.keys live → leaked' = leaked) := by
  have hreleased := releaseRow_sound h id
  unfold rebuild
  by_cases hempty : live = []
  · rw [if_pos hempty]
    exact ⟨leaked, hreleased, fun _ => rfl⟩
  · rw [if_neg hempty]
    rcases Json.wellFormed_obj_iff.mp hlive with ⟨hnodup, hfields⟩
    rcases buildRow_spec collation trusted
      ⟨(s.releaseRow id).valueDirectory, [], [], none⟩ hfields hnodup with
      ⟨⟨added, hadded, htakes⟩, hwhole, -⟩
    rw [List.nil_append] at hadded
    dsimp only at htakes hwhole ⊢
    have hpool := htakes.pool _ hreleased.pool
    have hnew : id ∉ Assoc.keys (s.releaseRow id).rows := by
      rw [releaseRow, Assoc.keys_erase]
      simp
    split_ifs with hend
    · refine ⟨leaked, ⟨htakes.config.trans hreleased.config, ?_, htakes.counted hreleased.counted,
        hpool.congr fun key => ?_⟩, fun _ => rfl⟩
      · exact Assoc.nodup_keys_set id _ hreleased.rows
      · rw [occurrences_set hnew, hadded]
        dsimp only
        omega
    · refine ⟨fun key => leaked key + added.count key, ⟨htakes.config.trans hreleased.config,
        hreleased.rows, htakes.counted hreleased.counted, hpool.congr fun key => ?_⟩,
        fun hplain => absurd (hwhole rfl hplain) hend⟩
      dsimp only
      omega

/-- What the rows show of the fields that they were last rebuilt with. -/
def Shows (collation : Collation) (config : ValueDirectoryConfig) (s : ObjectRowStore)
    (records : JsString → Option Fields) : Prop :=
  ∀ id,
    match records id with
    | none => s.read id = none
    | some live =>
        (∀ shown, s.read id = some shown → AlikeFields collation config shown (ownFields live)) ∧
          (js "__proto__" ∉ Assoc.keys live → (s.read id).isSome)

theorem read_releaseRow (s : ObjectRowStore) (id other : JsString) :
    (s.releaseRow id).read other = if id = other then none else s.read other := by
  rw [read, releaseRow, Assoc.get?_erase]
  split_ifs <;> rfl

theorem read_rebuild_other (s : ObjectRowStore) {id other : JsString} (hne : id ≠ other)
    (live : Fields) (trusted : Bool) :
    (s.rebuild collation id live trusted).read other = s.read other := by
  have hreleased := read_releaseRow s id other
  rw [if_neg hne] at hreleased
  unfold rebuild
  dsimp only
  split_ifs
  · exact hreleased
  · rw [← hreleased, read, Assoc.get?_set, if_neg hne, read]
  · exact hreleased

theorem shows_update {config : ValueDirectoryConfig} {s s' : ObjectRowStore}
    {records : JsString → Option Fields} (h : s.Shows collation config records) {id : JsString}
    {record : Option Fields} (hothers : ∀ other, id ≠ other → s'.read other = s.read other)
    (hself : match record with
      | none => s'.read id = none
      | some live =>
          (∀ shown, s'.read id = some shown → AlikeFields collation config shown (ownFields live)) ∧
            (js "__proto__" ∉ Assoc.keys live → (s'.read id).isSome)) :
    s'.Shows collation config (Function.update records id record) := by
  intro other
  by_cases hid : other = id
  · rw [hid, Function.update_self]
    exact hself
  · rw [Function.update_of_ne hid, hothers other (Ne.symm hid)]
    exact h other

/-- A row shows the fields of its rebuild. -/
theorem rebuild_shows {config : ValueDirectoryConfig} {s : ObjectRowStore}
    {leaked : JsString → Nat} (h : s.Sound collation config leaked)
    {records : JsString → Option Fields} (hshows : s.Shows collation config records) (id : JsString)
    {live : Fields} (hlive : (Json.obj live).WellFormed) (trusted : Bool) :
    (s.rebuild collation id live trusted).Shows collation config
      (RowEvent.record records (.rebuild id live trusted)) := by
  have hreleased := releaseRow_sound h id
  have hgone : (s.releaseRow id).read id = none := by rw [read_releaseRow, if_pos rfl]
  refine shows_update hshows (fun other hne => read_rebuild_other s hne live trusted) ?_
  by_cases hempty : live = []
  · rw [if_pos hempty, rebuild, if_pos hempty]
    exact hgone
  · rw [if_neg hempty]
    dsimp only
    unfold rebuild
    rw [if_neg hempty]
    rcases Json.wellFormed_obj_iff.mp hlive with ⟨hnodup, hfields⟩
    rcases buildRow_spec collation trusted
      ⟨(s.releaseRow id).valueDirectory, [], [], none⟩ hfields hnodup with
      ⟨-, hwhole, hshown⟩
    dsimp only at hwhole hshown ⊢
    split_ifs with hend
    · rcases hshown _ hreleased.pool hend with ⟨shown, hvalue, halike⟩
      rw [hreleased.config] at halike
      have hread : ∀ directory row, (ObjectRowStore.mk (Assoc.set (s.releaseRow id).rows id row)
          directory).read id = some row.value := by
        intro directory row
        rw [read, Assoc.get?_set, if_pos rfl]
        rfl
      rw [hread, hvalue]
      refine ⟨fun other hother => ?_, fun _ => rfl⟩
      rw [← Option.some.inj hother]
      exact halike
    · refine ⟨fun shown hread => ?_, fun hplain => absurd (hwhole rfl hplain) hend⟩
      have hnone := hread.symm.trans hgone
      cases hnone

theorem clear_sound {config : ValueDirectoryConfig} {s : ObjectRowStore}
    {leaked : JsString → Nat} (h : s.Sound collation config leaked) :
    s.clear.Sound collation config fun _ => 0 := by
  have hnew := sound_new collation config
  have hclear : s.clear = new config := by
    rw [clear, ValueDirectory.clear, h.config]
    rfl
  rw [hclear]
  exact hnew

/-- One step of a run. -/
theorem step_spec {config : ValueDirectoryConfig} {s : ObjectRowStore} {leaked : JsString → Nat}
    (h : s.Sound collation config leaked) {records : JsString → Option Fields}
    (hshows : s.Shows collation config records) {e : RowEvent} (he : e.WellFormed) :
    (step collation s e).Shows collation config (e.record records) ∧
      ∃ leaked', (step collation s e).Sound collation config leaked' ∧
        (e.Plain → ∀ key, leaked' key ≤ leaked key) := by
  cases e with
  | rebuild id live trusted =>
      refine ⟨rebuild_shows h hshows id he trusted, ?_⟩
      rcases rebuild_sound h id he trusted with ⟨leaked', hsound, hplain⟩
      exact ⟨leaked', hsound, fun hp key => by rw [hplain hp]⟩
  | removeObject id =>
      change (s.removeObject id).Shows collation config _ ∧ ∃ leaked',
        (s.removeObject id).Sound collation config leaked' ∧ _
      have hread : ∀ other, (s.removeObject id).read other =
          if id = other then none else s.read other := by
        intro other
        unfold removeObject
        split_ifs with hknown hother hother
        · rw [read_releaseRow, if_pos hother]
        · rw [read_releaseRow, if_neg hother]
        · rw [read, ← hother]
          simpa using hknown
        · rfl
      refine ⟨shows_update hshows (fun other hne => ?_) ?_, ?_⟩
      · rw [hread, if_neg hne]
      · rw [hread, if_pos rfl]
      · unfold removeObject
        split_ifs
        · exact ⟨leaked, releaseRow_sound h id, fun _ _ => le_rfl⟩
        · exact ⟨leaked, h, fun _ _ => le_rfl⟩
  | clear => exact ⟨fun _ => rfl, fun _ => 0, clear_sound h, fun _ _ => Nat.zero_le _⟩

/-- The fields that every id was last rebuilt with in a run. -/
def lastFields (events : List RowEvent) : JsString → Option Fields :=
  events.foldl RowEvent.record fun _ => none

theorem run_rows {config : ValueDirectoryConfig} {s : ObjectRowStore} {leaked : JsString → Nat}
    (h : s.Sound collation config leaked) {records : JsString → Option Fields}
    (hshows : s.Shows collation config records) {events : List RowEvent}
    (hevents : ∀ e ∈ events, e.WellFormed) :
    (run collation s events).Shows collation config (events.foldl RowEvent.record records) ∧
      ∃ leaked', (run collation s events).Sound collation config leaked' ∧
        ((∀ e ∈ events, e.Plain) → ∀ key, leaked' key ≤ leaked key) := by
  induction events generalizing s leaked records with
  | nil => exact ⟨hshows, leaked, h, fun _ _ => le_rfl⟩
  | cons e events ih =>
      rcases step_spec h hshows (hevents e List.mem_cons_self) with
        ⟨hshows', middle, hmiddle, hplain⟩
      rcases ih hmiddle hshows' (fun e' he' => hevents e' (List.mem_cons_of_mem _ he')) with
        ⟨hlast, leaked', hsound, hplain'⟩
      refine ⟨hlast, leaked', hsound, fun hall key => ?_⟩
      calc leaked' key
          ≤ middle key := hplain' (fun e' he' => hall e' (List.mem_cons_of_mem _ he')) key
        _ ≤ leaked key := hplain (hall e List.mem_cons_self) key

/-- In every run the candidates are counted right and every limit is kept, every row shows the
fields of its last rebuild, and the pool counts at least the places that show its values.  When no
rebuild has a field `__proto__` it counts exactly these, and holds nothing that no row shows. -/
theorem rows_spec (collation : Collation) (config : ValueDirectoryConfig) (events : List RowEvent)
    (hevents : ∀ e ∈ events, e.WellFormed) :
    let s := run collation (new config) events
    s.valueDirectory.Counted ∧ s.valueDirectory.pool.length ≤ config.maxEntries ∧
      s.Shows collation config (lastFields events) ∧
      (∀ key, (occurrences s.rows key : Int) ≤
        RefCounts.refsOf PoolEntry.refs s.valueDirectory.pool key) ∧
      ((∀ e ∈ events, e.Plain) → ∀ key,
        RefCounts.refsOf PoolEntry.refs s.valueDirectory.pool key = occurrences s.rows key ∧
          (Assoc.get? s.valueDirectory.pool key = none ↔ occurrences s.rows key = 0)) := by
  have hstart : (new config).Shows collation config fun _ => none := fun _ => rfl
  rcases run_rows (sound_new collation config) hstart hevents with
    ⟨hshows, leaked, hsound, hplain⟩
  refine ⟨hsound.counted, ?_, hshows, fun key => ?_, fun hall key => ?_⟩
  · have hwithin := hsound.pool.within
    rw [hsound.config] at hwithin
    exact hwithin
  · rw [hsound.pool.held.counted key]
    omega
  · have hzero := hplain hall key
    refine ⟨?_, ?_⟩
    · rw [hsound.pool.held.counted key]
      omega
    · rw [hsound.pool.held.get?_eq_none_iff key]
      omega

end

/-- Three rows with one status; the pool has its text from the second row on. -/
def sharedRun : List RowEvent :=
  [.rebuild (js "a") [(js "status", .str (js "open"))] false,
    .rebuild (js "b") [(js "status", .str (js "open")), (js "tags", .arr [.str (js "open")])] false,
    .rebuild (js "c") [(js "status", .str (js "open"))] true, .removeObject (js "b")]

theorem rows_spec_shared :
    let s := run .byUnits (new defaultValueDirectory) sharedRun
    s.valueDirectory.Counted ∧ s.Shows .byUnits defaultValueDirectory (lastFields sharedRun) ∧
      ∀ key, RefCounts.refsOf PoolEntry.refs s.valueDirectory.pool key = occurrences s.rows key := by
  have hspec := rows_spec .byUnits defaultValueDirectory sharedRun (by decide +kernel)
  have hexact := hspec.2.2.2.2 (by decide +kernel)
  exact ⟨hspec.1, hspec.2.2.1, fun key => (hexact key).1⟩

end ObjectRowStore
end ObjyDb
