import ObjyDb.Js.JsonRoundTrip

/-!
# Exact — numbers taken as exact

The rational number a decimal denotes, and addition without rounding.

* `JsNumber.toRat_injective` — distinct canonical decimals denote distinct numbers;
* `JsNumber.toRat_add` — the sum denotes the sum;
* addition is commutative and associative, so sums do not depend on the order of the terms.
-/

namespace ObjyDb
namespace Js

/-! ## The value of a digit string -/

theorem digitsValue_append_list (left right : List (Fin 10)) :
    digitsValue (left ++ right) = digitsValue left * 10 ^ right.length + digitsValue right := by
  induction right using List.reverseRecOn with
  | nil => simp [digitsValue]
  | append_singleton right d ih =>
      rw [← List.append_assoc, NumberState.digitsValue_append,
        NumberState.digitsValue_append, ih, List.length_append,
        List.length_singleton, pow_succ]
      ring

theorem digitsValue_zeros (n : Nat) : digitsValue (List.replicate n 0) = 0 := by
  induction n with
  | zero => rfl
  | succ n ih =>
      rw [List.replicate_succ', NumberState.digitsValue_append, ih]
      rfl

theorem digitsValue_cons (d : Fin 10) (ds : List (Fin 10)) :
    digitsValue (d :: ds) = d.val * 10 ^ ds.length + digitsValue ds := by
  have h := digitsValue_append_list [d] ds
  simpa [digitsValue] using h

theorem digitsValue_lt (ds : List (Fin 10)) : digitsValue ds < 10 ^ ds.length := by
  induction ds with
  | nil => simp [digitsValue]
  | cons d ds ih =>
      have hd : d.val + 1 ≤ 10 := d.isLt
      have hmul : (d.val + 1) * 10 ^ ds.length ≤ 10 * 10 ^ ds.length := Nat.mul_le_mul_right _ hd
      rw [digitsValue_cons, List.length_cons, pow_succ]
      linarith

theorem digitsValue_decimalDigits (n : Nat) : digitsValue (JsNumber.decimalDigits n) = n := by
  rw [JsNumber.decimalDigits,
    NumberState.digitsValue_reverse _ (fun d hd => Nat.digits_lt_base (by omega) hd), Nat.ofDigits_digits]

/-- Digit strings of one length are determined by their value. -/
theorem digitsValue_inj {left right : List (Fin 10)} (hlen : left.length = right.length)
    (hvalue : digitsValue left = digitsValue right) : left = right := by
  induction left generalizing right with
  | nil => exact (List.eq_nil_of_length_eq_zero hlen.symm).symm
  | cons d left ih =>
      cases right with
      | nil => cases hlen
      | cons e right =>
          have hlen' : left.length = right.length := by simpa using hlen
          rw [digitsValue_cons, digitsValue_cons, hlen'] at hvalue
          have hl := digitsValue_lt left
          have hr := digitsValue_lt right
          rw [hlen'] at hl
          have hd : d.val = e.val := by
            have hmod := congrArg (· / 10 ^ right.length) hvalue
            have hpos : 0 < 10 ^ right.length := by positivity
            simpa [Nat.mul_add_div hpos, Nat.add_div_of_dvd_right, Nat.div_eq_of_lt hl,
              Nat.div_eq_of_lt hr, mul_comm _ (10 ^ right.length)] using hmod
          have hrest : digitsValue left = digitsValue right := by
            rw [hd] at hvalue
            omega
          rw [Fin.ext hd, ih hlen' hrest]

namespace JsNumber

/-! ## The number a decimal denotes -/

def sign (negative : Bool) : ℚ :=
  if negative then -1 else 1

/-- The rational number denoted by `± 0.d₁ … dₖ · 10 ^ point`. -/
def toRat (x : JsNumber) : ℚ :=
  sign x.negative * digitsValue x.digits * (10 : ℚ) ^ (x.point - x.digits.length)

theorem toRat_zero : zero.toRat = 0 := by
  simp [toRat, zero, digitsValue]

/-- The significant digits of a digit string, with the zeros around them. -/
theorem significant_spec (ds : List (Fin 10)) :
    ∃ back, ds = List.replicate (ds.takeWhile (· == 0)).length 0 ++ significant ds ++
      List.replicate back 0 := by
  have hfront : ds.takeWhile (· == 0) = List.replicate (ds.takeWhile (· == 0)).length 0 :=
    List.eq_replicate_iff.mpr ⟨rfl, fun d hd => by simpa using List.mem_takeWhile_imp hd⟩
  have hback : ∀ es : List (Fin 10), ∃ back,
      es = es.rdropWhile (· == 0) ++ List.replicate back 0 := by
    intro es
    refine ⟨(es.rtakeWhile (· == 0)).length, ?_⟩
    have hrep : es.rtakeWhile (· == 0) = List.replicate (es.rtakeWhile (· == 0)).length 0 :=
      List.eq_replicate_iff.mpr ⟨rfl, fun d hd => by simpa using List.mem_rtakeWhile_imp hd⟩
    rw [← hrep]
    exact List.rdropWhile_append_rtakeWhile.symm
  obtain ⟨back, hback⟩ := hback (ds.dropWhile (· == 0))
  refine ⟨back, ?_⟩
  calc ds = ds.takeWhile (· == 0) ++ ds.dropWhile (· == 0) := List.takeWhile_append_dropWhile.symm
    _ = _ := by rw [List.append_assoc, significant, ← hback, ← hfront]

theorem toRat_ofDigits (negative : Bool) (ds : List (Fin 10)) (point : Int) :
    (ofDigits negative ds point).toRat =
      sign negative * digitsValue ds * (10 : ℚ) ^ (point - ds.length) := by
  obtain ⟨back, hds⟩ := significant_spec ds
  have hvalue : digitsValue ds = digitsValue (significant ds) * 10 ^ back := by
    conv_lhs => rw [hds]
    rw [digitsValue_append_list, digitsValue_append_list, digitsValue_zeros, digitsValue_zeros]
    simp
  have hlen : (ds.length : Int) =
      (ds.takeWhile (· == 0)).length + (significant ds).length + back := by
    have h := congrArg List.length hds
    simp only [List.length_append, List.length_replicate] at h
    omega
  unfold ofDigits
  split_ifs with hnil
  · rw [toRat_zero, hvalue, hnil]
    simp [digitsValue]
  · have hexp : point - (ds.length : Int) =
        (point - (ds.takeWhile (· == 0)).length - (significant ds).length) - back := by omega
    have hpow : (10 : ℚ) ^ back * (10 : ℚ) ^ (-(back : Int)) = 1 := by
      rw [← zpow_natCast, ← zpow_add₀ (by norm_num)]
      simp
    rw [toRat, hvalue, hexp, sub_eq_add_neg _ (back : Int), zpow_add₀ (by norm_num)]
    push_cast
    linear_combination -(sign negative * digitsValue (significant ds) * (10 : ℚ) ^
      (point - (ds.takeWhile (· == 0)).length - (significant ds).length)) * hpow

/-- `10 ^ (point - 1) ≤ |x| < 10 ^ point` for a number other than zero. -/
theorem toRat_bounds {x : JsNumber} (h : x.digits ≠ []) :
    (10 : ℚ) ^ (x.point - 1) ≤ digitsValue x.digits * (10 : ℚ) ^ (x.point - x.digits.length) ∧
      digitsValue x.digits * (10 : ℚ) ^ (x.point - x.digits.length) < (10 : ℚ) ^ x.point := by
  obtain ⟨d, rest, hd⟩ := List.exists_cons_of_ne_nil h
  have hne : d ≠ 0 := by simpa [hd] using x.head_ne
  have hpos : 1 ≤ d.val := Nat.pos_of_ne_zero fun h0 => hne (Fin.ext h0)
  have hlow : 10 ^ rest.length ≤ digitsValue x.digits := by
    rw [hd, digitsValue_cons]
    exact le_add_right (Nat.le_mul_of_pos_left _ hpos)
  have hhigh : digitsValue x.digits < 10 ^ x.digits.length := digitsValue_lt _
  have hscale : (0 : ℚ) < (10 : ℚ) ^ (x.point - x.digits.length) := by positivity
  constructor
  · have hexp : x.point - 1 = (rest.length : Int) + (x.point - x.digits.length) := by
      simp only [hd, List.length_cons]
      push_cast
      omega
    rw [hexp, zpow_add₀ (by norm_num), zpow_natCast]
    exact mul_le_mul_of_nonneg_right (by exact_mod_cast hlow) hscale.le
  · have hexp : x.point = (x.digits.length : Int) + (x.point - x.digits.length) := by omega
    conv_rhs => rw [hexp, zpow_add₀ (by norm_num), zpow_natCast]
    exact mul_lt_mul_of_pos_right (by exact_mod_cast hhigh) hscale

/-- The digits do not end in zeros, so their number is determined by the value. -/
theorem length_le_of_value {x y : JsNumber} (hy : y.digits ≠ [])
    (hvalue : (digitsValue x.digits : ℚ) * (10 : ℚ) ^ (-(x.digits.length : Int)) =
      digitsValue y.digits * (10 : ℚ) ^ (-(y.digits.length : Int))) :
    y.digits.length ≤ x.digits.length := by
  by_contra hlt
  obtain ⟨k, hk⟩ : ∃ k, y.digits.length = x.digits.length + (k + 1) :=
    ⟨y.digits.length - x.digits.length - 1, by omega⟩
  have hnat : digitsValue x.digits * 10 ^ (k + 1) = digitsValue y.digits := by
    have hx : (10 : ℚ) ^ (-(x.digits.length : Int)) =
        (10 : ℚ) ^ (k + 1) * (10 : ℚ) ^ (-(y.digits.length : Int)) := by
      rw [← zpow_natCast, ← zpow_add₀ (by norm_num), hk]
      congr 1
      push_cast
      omega
    have hscale : (10 : ℚ) ^ (-(y.digits.length : Int)) ≠ 0 := by positivity
    rw [hx, ← mul_assoc] at hvalue
    exact_mod_cast mul_right_cancel₀ hscale hvalue
  obtain ⟨init, d, hd⟩ : ∃ init d, y.digits = init ++ [d] :=
    ⟨y.digits.dropLast, y.digits.getLast hy, (List.dropLast_append_getLast hy).symm⟩
  have hlast : d ≠ 0 := by simpa [hd] using y.last_ne
  rw [hd, NumberState.digitsValue_append, pow_succ, ← mul_assoc] at hnat
  have hzero : d.val = 0 := by omega
  exact hlast (Fin.ext hzero)

theorem toRat_eq_zero_iff {x : JsNumber} : x.toRat = 0 ↔ x.digits = [] := by
  constructor
  · intro h
    by_contra hne
    have hpos := (toRat_bounds hne).1
    have hsign : sign x.negative ≠ 0 := by
      cases x.negative <;> simp [sign]
    rw [toRat, mul_assoc, mul_eq_zero] at h
    have hlow : (0 : ℚ) < (10 : ℚ) ^ (x.point - 1) := by positivity
    rcases h with h | h
    · exact hsign h
    · exact absurd h (hlow.trans_le hpos).ne'
  · intro h
    simp [toRat, h, digitsValue]

theorem toRat_neg_iff {x : JsNumber} : x.toRat < 0 ↔ x.negative = true := by
  by_cases hnil : x.digits = []
  · have hneg := (x.zero_eq hnil).1
    simp [toRat_eq_zero_iff.mpr hnil, hneg]
  · have hpos : (0 : ℚ) < digitsValue x.digits * (10 : ℚ) ^ (x.point - x.digits.length) :=
      lt_of_lt_of_le (by positivity) (toRat_bounds hnil).1
    cases hneg : x.negative with
    | false => simpa [toRat, sign, hneg] using hpos.le
    | true => simpa [toRat, sign, hneg, neg_mul] using hpos

/-- Canonical decimals that denote one number are equal. -/
theorem toRat_injective : Function.Injective toRat := by
  intro x y h
  have hsign : x.negative = y.negative := by
    have hiff : x.negative = true ↔ y.negative = true := by
      rw [← toRat_neg_iff, ← toRat_neg_iff, h]
    exact Bool.eq_iff_iff.mpr hiff
  have hnil : x.digits = [] ↔ y.digits = [] := by
    rw [← toRat_eq_zero_iff, ← toRat_eq_zero_iff, h]
  by_cases hx : x.digits = []
  · have hy := hnil.mp hx
    exact JsNumber.ext hsign (hx.trans hy.symm)
      ((x.zero_eq hx).2.trans (y.zero_eq hy).2.symm)
  · have hy : y.digits ≠ [] := fun hy => hx (hnil.mpr hy)
    have habs : digitsValue x.digits * (10 : ℚ) ^ (x.point - x.digits.length) =
        digitsValue y.digits * (10 : ℚ) ^ (y.point - y.digits.length) := by
      have hne : sign y.negative ≠ 0 := by
        cases y.negative <;> simp [sign]
      rw [toRat, toRat, hsign, mul_assoc, mul_assoc] at h
      exact mul_left_cancel₀ hne h
    have hpoint : x.point = y.point := by
      obtain ⟨hxl, hxh⟩ := toRat_bounds hx
      obtain ⟨hyl, hyh⟩ := toRat_bounds hy
      rw [habs] at hxl hxh
      have h1 := (zpow_lt_zpow_iff_right₀ (by norm_num : (1 : ℚ) < 10)).mp (hxl.trans_lt hyh)
      have h2 := (zpow_lt_zpow_iff_right₀ (by norm_num : (1 : ℚ) < 10)).mp (hyl.trans_lt hxh)
      omega
    have hscaled : (digitsValue x.digits : ℚ) * (10 : ℚ) ^ (-(x.digits.length : Int)) =
        digitsValue y.digits * (10 : ℚ) ^ (-(y.digits.length : Int)) := by
      have hne : (10 : ℚ) ^ y.point ≠ 0 := by positivity
      rw [hpoint, sub_eq_add_neg, sub_eq_add_neg, zpow_add₀ (by norm_num),
        zpow_add₀ (by norm_num), mul_left_comm, mul_left_comm (digitsValue y.digits : ℚ)] at habs
      exact mul_left_cancel₀ hne habs
    have hlen : x.digits.length = y.digits.length :=
      le_antisymm (length_le_of_value hx hscaled.symm) (length_le_of_value hy hscaled)
    have hvalue : digitsValue x.digits = digitsValue y.digits := by
      have hne : (10 : ℚ) ^ (-(y.digits.length : Int)) ≠ 0 := by positivity
      rw [hlen] at hscaled
      exact_mod_cast mul_right_cancel₀ hne hscaled
    exact JsNumber.ext hsign (digitsValue_inj hlen hvalue) hpoint

/-! ## Addition -/

/-- The number `mantissa · 10 ^ exponent`. -/
def ofScaled (mantissa exponent : Int) : JsNumber :=
  ofDigits (decide (mantissa < 0)) (decimalDigits mantissa.natAbs)
    (exponent + (decimalDigits mantissa.natAbs).length)

/-- The number is `mantissa · 10 ^ exponent`. -/
def mantissa (x : JsNumber) : Int :=
  if x.negative then -digitsValue x.digits else digitsValue x.digits

def exponent (x : JsNumber) : Int :=
  x.point - x.digits.length

/-- The sum, not rounded. -/
def add (x y : JsNumber) : JsNumber :=
  let e := min x.exponent y.exponent
  ofScaled (x.mantissa * 10 ^ (x.exponent - e).toNat + y.mantissa * 10 ^ (y.exponent - e).toNat) e

theorem toRat_ofScaled (mantissa exponent : Int) :
    (ofScaled mantissa exponent).toRat = mantissa * (10 : ℚ) ^ exponent := by
  rw [ofScaled, toRat_ofDigits, digitsValue_decimalDigits, add_sub_cancel_right]
  congr 1
  have habs : (mantissa.natAbs : ℚ) = |(mantissa : ℚ)| := by
    rw [← Int.cast_abs, Int.abs_eq_natAbs]
    rfl
  rw [habs]
  by_cases hneg : mantissa < 0
  · rw [decide_eq_true hneg, sign, if_pos rfl, abs_of_neg (by exact_mod_cast hneg)]
    ring
  · rw [decide_eq_false hneg, sign, abs_of_nonneg (by exact_mod_cast not_lt.mp hneg)]
    simp

theorem toRat_eq_mantissa (x : JsNumber) : x.toRat = x.mantissa * (10 : ℚ) ^ x.exponent := by
  unfold toRat mantissa exponent sign
  cases x.negative <;> simp

theorem toRat_add (x y : JsNumber) : (x.add y).toRat = x.toRat + y.toRat := by
  have hshift : ∀ e₁ e : Int, e ≤ e₁ →
      (10 : ℚ) ^ (e₁ - e).toNat * (10 : ℚ) ^ e = (10 : ℚ) ^ e₁ := by
    intro e₁ e hle
    rw [← zpow_natCast, Int.toNat_of_nonneg (by omega), ← zpow_add₀ (by norm_num)]
    congr 1
    omega
  rw [add, toRat_ofScaled, toRat_eq_mantissa x, toRat_eq_mantissa y]
  push_cast
  rw [add_mul, mul_assoc, mul_assoc, hshift _ _ (min_le_left _ _), hshift _ _ (min_le_right _ _)]

theorem toRat_ofNat (n : Nat) : (ofNat n).toRat = n := by
  rw [ofNat, toRat_ofDigits, digitsValue_decimalDigits]
  simp [sign]

instance : Add JsNumber := ⟨add⟩
instance : Zero JsNumber := ⟨zero⟩

instance : AddCommMonoid JsNumber where
  add_assoc x y z := toRat_injective (by
    change ((x.add y).add z).toRat = (x.add (y.add z)).toRat
    simp only [toRat_add]
    ring)
  zero_add x := toRat_injective (by
    change (zero.add x).toRat = x.toRat
    simp [toRat_add, toRat_zero])
  add_zero x := toRat_injective (by
    change (x.add zero).toRat = x.toRat
    simp [toRat_add, toRat_zero])
  add_comm x y := toRat_injective (by
    change (x.add y).toRat = (y.add x).toRat
    simp only [toRat_add]
    ring)
  nsmul := nsmulRec

end JsNumber

end Js
end ObjyDb
