import ObjyDb.Lib.Assoc

/-!
# Grouping — folding rows into keyed buckets

`group` sends each row to the bucket of its key and folds it in there.  A bucket holds the fold of
the rows with its key, in their order (`get?_group`), and there is one bucket for each key that
occurs (`mem_keys_group`, `nodup_keys_group`).
-/

namespace ObjyDb
namespace Grouping

variable {κ ρ σ : Type*} [DecidableEq κ]

def add (key : ρ → κ) (init : ρ → σ) (step : σ → ρ → σ) (buckets : List (κ × σ)) (row : ρ) :
    List (κ × σ) :=
  Assoc.set buckets (key row) (step ((Assoc.get? buckets (key row)).getD (init row)) row)

/-- The buckets of the rows, in the order in which their keys first occur. -/
def group (key : ρ → κ) (init : ρ → σ) (step : σ → ρ → σ) (rows : List ρ) : List (κ × σ) :=
  rows.foldl (add key init step) []

/-- The rows with one key. -/
def rowsOf (key : ρ → κ) (rows : List ρ) (k : κ) : List ρ :=
  rows.filter fun row => decide (key row = k)

variable (key : ρ → κ) (init : ρ → σ) (step : σ → ρ → σ)

theorem group_concat (rows : List ρ) (row : ρ) :
    group key init step (rows ++ [row]) = add key init step (group key init step rows) row := by
  simp [group, List.foldl_append]

theorem rowsOf_concat (rows : List ρ) (row : ρ) (k : κ) :
    rowsOf key (rows ++ [row]) k = rowsOf key rows k ++ if key row = k then [row] else [] := by
  by_cases h : key row = k <;> simp [rowsOf, List.filter_append, h]

theorem rowsOf_append (left right : List ρ) (k : κ) :
    rowsOf key (left ++ right) k = rowsOf key left k ++ rowsOf key right k :=
  List.filter_append ..

theorem mem_rowsOf {rows : List ρ} {k : κ} {row : ρ} :
    row ∈ rowsOf key rows k ↔ row ∈ rows ∧ key row = k := by
  simp [rowsOf]

/-- A bucket is the fold of the rows with its key. -/
theorem get?_group (rows : List ρ) (k : κ) :
    Assoc.get? (group key init step rows) k =
      (rowsOf key rows k).head?.map fun first => (rowsOf key rows k).foldl step (init first) := by
  induction rows using List.reverseRecOn with
  | nil => rfl
  | append_singleton rows row ih =>
      rw [group_concat, rowsOf_concat, add, Assoc.get?_set]
      by_cases h : key row = k
      · subst h
        rw [if_pos rfl, if_pos rfl, ih]
        cases hrows : rowsOf key rows (key row) with
        | nil => simp
        | cons first rest => simp [List.foldl_append]
      · rw [if_neg h, if_neg h, List.append_nil, ih]

theorem nodup_keys_group (rows : List ρ) : (Assoc.keys (group key init step rows)).Nodup := by
  induction rows using List.reverseRecOn with
  | nil => exact List.nodup_nil
  | append_singleton rows row ih =>
      rw [group_concat]
      exact Assoc.nodup_keys_set _ _ ih

theorem mem_keys_group {rows : List ρ} {k : κ} :
    k ∈ Assoc.keys (group key init step rows) ↔ ∃ row ∈ rows, key row = k := by
  rw [← Assoc.get?_isSome_iff, get?_group, Option.isSome_map, List.isSome_head?]
  constructor
  · intro h
    obtain ⟨row, hrow⟩ := List.exists_mem_of_ne_nil _ h
    exact ⟨row, (mem_rowsOf key).mp hrow⟩
  · rintro ⟨row, hrow⟩ hnil
    exact List.not_mem_nil (hnil ▸ (mem_rowsOf key).mpr hrow)

/-- The bucket of a row's key. -/
theorem mem_group_iff {rows : List ρ} {k : κ} {bucket : σ} :
    (k, bucket) ∈ group key init step rows ↔
      ∃ first, (rowsOf key rows k).head? = some first ∧
        bucket = (rowsOf key rows k).foldl step (init first) := by
  have hget : (k, bucket) ∈ group key init step rows ↔
      Assoc.get? (group key init step rows) k = some bucket :=
    ⟨Assoc.get?_eq_some_of_mem (nodup_keys_group key init step rows), Assoc.mem_of_get?_eq_some⟩
  rw [hget, get?_group, Option.map_eq_some_iff]
  simp only [eq_comm]

/-! ## Grouping the outputs of a grouping -/

/-- Among outputs that keep the key of their bucket, those with one key are its bucket's. -/
theorem rowsOf_map {buckets : List (κ × σ)} (hnodup : (Assoc.keys buckets).Nodup)
    {write : σ → ρ} (hkey : ∀ bucket ∈ buckets, key (write bucket.2) = bucket.1) (k : κ) :
    rowsOf key (buckets.map fun bucket => write bucket.2) k =
      ((Assoc.get? buckets k).map write).toList := by
  induction buckets with
  | nil => rfl
  | cons bucket buckets ih =>
      obtain ⟨k', s⟩ := bucket
      have hhead : key (write s) = k' := hkey (k', s) List.mem_cons_self
      have htail := ih (List.nodup_cons.mp hnodup).2
        (fun b hb => hkey b (List.mem_cons_of_mem _ hb))
      rw [List.map_cons, Assoc.get?_cons]
      by_cases h : k' = k
      · have hnone : Assoc.get? buckets k = none :=
          Assoc.get?_eq_none_iff.mpr (h ▸ (List.nodup_cons.mp hnodup).1)
        rw [hnone] at htail
        rw [if_pos h]
        simp only [rowsOf] at htail ⊢
        rw [List.filter_cons_of_pos (by simpa [hhead] using h), htail]
        rfl
      · rw [if_neg h, ← htail]
        simp only [rowsOf]
        exact List.filter_cons_of_neg (by simpa [hhead] using h)

end Grouping
end ObjyDb
