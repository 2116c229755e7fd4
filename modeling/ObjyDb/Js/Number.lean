import ObjyDb.Js.Text

/-!
# Number — finite JavaScript numbers by their decimal text

`Number::toString` spells every finite double by its shortest decimal digits, and distinct
doubles get distinct digits.  We therefore represent a JSON number by these digits and the
position of the decimal point.  `-0` is spelled `0`, as `JSON.stringify` does.

* `JsNumber.ofDigits` — the number a decimal literal denotes;
* `JsNumber.layout` — the parts `Number::toString` prints;
* `JsNumber.ofDigits_layout` — reading the printed parts gives the number back.
-/

namespace ObjyDb
namespace Js

/-! ## Canonical decimals -/

instance neZero_digit : NeZero 10 := ⟨by decide⟩

/-- `± 0.d₁ … dₖ · 10 ^ point`, without leading or trailing zero digits. -/
@[ext]
structure JsNumber where
  negative : Bool
  digits : List (Fin 10)
  point : Int
  head_ne : digits.head? ≠ some 0
  last_ne : digits.getLast? ≠ some 0
  zero_eq : digits = [] → negative = false ∧ point = 0
  deriving DecidableEq

namespace JsNumber

def zero : JsNumber where
  negative := false
  digits := []
  point := 0
  head_ne := by simp
  last_ne := by simp
  zero_eq := by simp

instance : Inhabited JsNumber := ⟨zero⟩

/-- The digits with the zeros at both ends removed. -/
def significant (ds : List (Fin 10)) : List (Fin 10) :=
  (ds.dropWhile (· == 0)).rdropWhile (· == 0)

theorem head?_significant (ds : List (Fin 10)) : (significant ds).head? ≠ some 0 := by
  intro h
  have hhead : (ds.dropWhile (· == 0)).head? = some 0 := by
    obtain ⟨zeros, hzeros⟩ := List.rdropWhile_prefix (· == 0) (ds.dropWhile (· == 0))
    rw [← hzeros, List.head?_append]
    exact Option.or_eq_some_iff.mpr (Or.inl h)
  have hne : ds.dropWhile (· == 0) ≠ [] := by
    intro hnil
    simp [hnil] at hhead
  have hnot := List.head_dropWhile_not (· == (0 : Fin 10)) hne
  rw [List.head?_eq_some_head hne] at hhead
  simp [Option.some.inj hhead] at hnot

theorem getLast?_significant (ds : List (Fin 10)) : (significant ds).getLast? ≠ some 0 := by
  intro h
  have hne : significant ds ≠ [] := by
    intro hnil
    simp [hnil] at h
  have hnot := List.rdropWhile_last_not (· == (0 : Fin 10)) (ds.dropWhile (· == 0)) hne
  rw [List.getLast?_eq_some_getLast hne] at h
  exact hnot (by simpa [significant] using Option.some.inj h)

/-- The number `± 0.ds · 10 ^ point`. -/
def ofDigits (negative : Bool) (ds : List (Fin 10)) (point : Int) : JsNumber :=
  if h : significant ds = [] then
    zero
  else
    { negative := negative
      digits := significant ds
      point := point - (ds.takeWhile (· == 0)).length
      head_ne := head?_significant ds
      last_ne := getLast?_significant ds
      zero_eq := fun hnil => absurd hnil h }

/-- The digits of a natural number, most significant first. -/
def decimalDigits (n : Nat) : List (Fin 10) :=
  (Nat.digits 10 n).reverse.map (Fin.ofNat 10)

def ofNat (n : Nat) : JsNumber :=
  ofDigits false (decimalDigits n) (decimalDigits n).length

/-! ## Printing -/

/-- What `Number::toString` prints: digits before the point, after the point, and the exponent. -/
structure Layout where
  int : List (Fin 10)
  frac : List (Fin 10)
  exp : Option Int
  deriving DecidableEq

/-- The case split of `Number::toString` with `k` digits and the point after digit `n`. -/
def layout (x : JsNumber) : Layout :=
  let k : Int := x.digits.length
  let n := x.point
  match x.digits with
  | [] => ⟨[0], [], none⟩
  | d :: rest =>
      if k ≤ n ∧ n ≤ 21 then
        ⟨x.digits ++ List.replicate (n - k).toNat 0, [], none⟩
      else if 0 < n ∧ n ≤ 21 then
        ⟨x.digits.take n.toNat, x.digits.drop n.toNat, none⟩
      else if -6 < n ∧ n ≤ 0 then
        ⟨[0], List.replicate (-n).toNat 0 ++ x.digits, none⟩
      else
        ⟨[d], rest, some (n - 1)⟩

/-! ## The printed parts denote the number -/

theorem significant_digits (x : JsNumber) : significant x.digits = x.digits := by
  have hfront : x.digits.dropWhile (· == 0) = x.digits := by
    cases hd : x.digits with
    | nil => rfl
    | cons d rest =>
        have hne := x.head_ne
        have hd0 : ¬ d = 0 := by simpa [hd] using hne
        simp [hd0]
  have hback : x.digits.rdropWhile (· == 0) = x.digits := by
    refine List.rdropWhile_eq_self_iff.mpr ?_
    intro hne hlast
    have h := x.last_ne
    rw [List.getLast?_eq_some_getLast hne] at h
    exact h (by simpa using hlast)
  rw [significant, hfront, hback]

theorem takeWhile_digits (x : JsNumber) : x.digits.takeWhile (· == 0) = [] := by
  cases hd : x.digits with
  | nil => rfl
  | cons d rest =>
      have hne := x.head_ne
      have hd0 : ¬ d = 0 := by simpa [hd] using hne
      simp [hd0]

theorem significant_append_zeros (ds : List (Fin 10)) (n : Nat) :
    significant (ds ++ List.replicate n 0) = significant ds := by
  induction n with
  | zero => simp
  | succ n ih =>
      rw [List.replicate_succ', ← List.append_assoc]
      refine Eq.trans ?_ ih
      rw [significant, significant]
      generalize ds ++ List.replicate n (0 : Fin 10) = es
      by_cases hall : ∀ d ∈ es, (d == 0) = true
      · have h1 : es.dropWhile (· == 0) = [] := List.dropWhile_eq_nil_iff.mpr hall
        have h2 : (es ++ [0]).dropWhile (· == 0) = [] := by
          refine List.dropWhile_eq_nil_iff.mpr ?_
          intro d hd
          rcases List.mem_append.mp hd with hd | hd
          · exact hall d hd
          · simpa using hd
        rw [h1, h2]
      · have h1 : es.dropWhile (· == 0) ≠ [] := fun h => hall (List.dropWhile_eq_nil_iff.mp h)
        have h2 : (es ++ [0]).dropWhile (· == 0) = es.dropWhile (· == 0) ++ [0] := by
          rw [List.dropWhile_append]
          simp [h1]
        rw [h2]
        simp

theorem ofDigits_digits (x : JsNumber) (before after : Nat) (point : Int)
    (hpoint : point = x.point + before) :
    ofDigits x.negative (List.replicate before 0 ++ x.digits ++ List.replicate after 0) point = x := by
  have hsig : significant (List.replicate before 0 ++ x.digits ++ List.replicate after 0) =
      x.digits := by
    rw [significant_append_zeros]
    simpa [significant] using significant_digits x
  unfold ofDigits
  by_cases hnil : x.digits = []
  · obtain ⟨hneg, hp⟩ := x.zero_eq hnil
    rw [dif_pos (hsig.trans hnil)]
    exact JsNumber.ext hneg.symm hnil.symm hp.symm
  · rw [dif_neg (by rw [hsig]; exact hnil)]
    refine JsNumber.ext rfl hsig ?_
    obtain ⟨d, rest, hd⟩ := List.exists_cons_of_ne_nil hnil
    have hd0 : ¬ d = 0 := by simpa [hd] using x.head_ne
    have htake : (List.replicate before 0 ++ x.digits ++ List.replicate after 0).takeWhile (· == 0)
        = List.replicate before 0 := by
      simp [hd, hd0]
    simp only [htake, List.length_replicate]
    omega

/-- Reading the parts that `Number::toString` prints gives the number back. -/
theorem ofDigits_layout (x : JsNumber) :
    ofDigits x.negative (x.layout.int ++ x.layout.frac)
      (x.layout.int.length + x.layout.exp.getD 0) = x := by
  unfold layout
  cases hd : x.digits with
  | nil =>
      obtain ⟨hneg, hp⟩ := x.zero_eq hd
      have hx := ofDigits_digits x 1 0 1 (by simp [hp])
      simpa [hd] using hx
  | cons d rest =>
      dsimp only
      split_ifs with h1 h2 h3
      · have hx := ofDigits_digits x 0 (x.point - (d :: rest).length).toNat x.point (by simp)
        have hlen : ((d :: rest ++ List.replicate (x.point - (d :: rest).length).toNat
            (0 : Fin 10)).length : Int) + (none : Option Int).getD 0 = x.point := by
          simp only [List.length_append, List.length_replicate, Option.getD_none]
          omega
        rw [hlen]
        simpa [hd] using hx
      · have hx := ofDigits_digits x 0 0 x.point (by simp)
        have hlen : (((d :: rest).take x.point.toNat).length : Int) + (none : Option Int).getD 0 =
            x.point := by
          simp only [List.length_take, Option.getD_none]
          omega
        rw [hlen, List.take_append_drop]
        simpa [hd] using hx
      · have hx := ofDigits_digits x (1 + (-x.point).toNat) 0 1 (by push_cast; omega)
        rw [List.replicate_add] at hx
        simpa [hd] using hx
      · have hx := ofDigits_digits x 0 0 x.point (by simp)
        have hlen : (([d] : List (Fin 10)).length : Int) + (some (x.point - 1)).getD 0 = x.point := by
          simp
        rw [hlen]
        simpa [hd] using hx

theorem layout_int_ne_nil (x : JsNumber) : x.layout.int ≠ [] := by
  unfold layout
  cases hd : x.digits with
  | nil => simp
  | cons d rest =>
      dsimp only
      split_ifs with h1 h2 h3
      · simp
      · have hpos : x.point.toNat ≠ 0 := by omega
        simp [hpos]
      · simp
      · simp

/-- The digits before the point are a JSON integer part: no leading zero unless it is `0`. -/
theorem layout_int_leading (x : JsNumber) : x.layout.int = [0] ∨ x.layout.int.head? ≠ some 0 := by
  have hhead := x.head_ne
  unfold layout
  cases hd : x.digits with
  | nil => exact Or.inl rfl
  | cons d rest =>
      rw [hd] at hhead
      dsimp only
      split_ifs with h1 h2 h3
      · exact Or.inr (by simpa using hhead)
      · have hpos : x.point.toNat ≠ 0 := by omega
        exact Or.inr (by simpa [List.head?_take, hpos] using hhead)
      · exact Or.inl rfl
      · exact Or.inr (by simpa using hhead)

/-! ## `Number::toString` -/

def digitUnit (d : Fin 10) : CodeUnit :=
  ⟨48 + d.val, by omega⟩

/-- The digits of an exponent, `0` for zero. -/
def expDigits (n : Nat) : List (Fin 10) :=
  if n = 0 then [0] else decimalDigits n

def expText : Option Int → JsString
  | none => []
  | some e =>
      unit 'e' :: (if e < 0 then unit '-' else unit '+') :: (expDigits e.natAbs).map digitUnit

def fracText (frac : List (Fin 10)) : JsString :=
  if frac = [] then [] else unit '.' :: frac.map digitUnit

def toText (x : JsNumber) : JsString :=
  (if x.negative then [unit '-'] else []) ++ x.layout.int.map digitUnit ++
    fracText x.layout.frac ++ expText x.layout.exp

example : toText (ofNat 1200) = js "1200" := by decide
example : toText (ofDigits true [1, 5] (-7)) = js "-1.5e-8" := by decide

end JsNumber

end Js
end ObjyDb
