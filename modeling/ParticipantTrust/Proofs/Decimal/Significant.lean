import ParticipantTrust.Proofs.Decimal.QuotientOrder
import Mathlib.Algebra.Order.Ring.Pow
import Mathlib.Data.Nat.Digits.Defs
import Mathlib.Data.Real.Basic

namespace ParticipantTrust

-- `x` stands for `y ≥ 0` after `n` roundings, each of which moved it by at most the `h`-th part.
structure Near (h : ℚ) (n : Nat) (x y : ℚ) : Prop where
  nonneg : 0 ≤ y
  lower : y * (1 - h) ^ n ≤ x
  upper : x ≤ y * (1 + h) ^ n

namespace Near

variable {h : ℚ}

theorem refl {x : ℚ} (hx : 0 ≤ x) : Near h 0 x x :=
  ⟨hx, by simp, by simp⟩

theorem of_abs_sub_le {x y : ℚ} (hy : 0 ≤ y) (hxy : |x - y| ≤ y * h) : Near h 1 x y := by
  obtain ⟨hlow, hhigh⟩ := abs_le.mp hxy
  exact ⟨hy, by linarith, by linarith⟩

theorem left_nonneg (h1 : h ≤ 1) {n : Nat} {x y : ℚ} (hxy : Near h n x y) : 0 ≤ x :=
  (mul_nonneg hxy.nonneg (pow_nonneg (by linarith) n)).trans hxy.lower

-- Roundings of what is rounded already count on top of the earlier ones.
theorem trans (h0 : 0 ≤ h) (h1 : h ≤ 1) {m n : Nat} {x y z : ℚ} (hzx : Near h m z x)
    (hxy : Near h n x y) : Near h (n + m) z y where
  nonneg := hxy.nonneg
  lower := by
    have hstep := mul_le_mul_of_nonneg_right hxy.lower (pow_nonneg (by linarith : 0 ≤ 1 - h) m)
    rw [pow_add, ← mul_assoc]
    exact hstep.trans hzx.lower
  upper := by
    have hstep := mul_le_mul_of_nonneg_right hxy.upper (pow_nonneg (by linarith : 0 ≤ 1 + h) m)
    rw [pow_add, ← mul_assoc]
    exact hzx.upper.trans hstep

-- A product carries the roundings of both factors.
theorem mul (h0 : 0 ≤ h) (h1 : h ≤ 1) {m n : Nat} {x x' y y' : ℚ} (hx : Near h m x y)
    (hx' : Near h n x' y') : Near h (m + n) (x * x') (y * y') where
  nonneg := mul_nonneg hx.nonneg hx'.nonneg
  lower := by
    have hlow : 0 ≤ y' * (1 - h) ^ n := mul_nonneg hx'.nonneg (pow_nonneg (by linarith) n)
    have hprod := mul_le_mul hx.lower hx'.lower hlow (hx.left_nonneg h1)
    rw [pow_add, mul_mul_mul_comm]
    exact hprod
  upper := by
    have hhigh : 0 ≤ y * (1 + h) ^ m := mul_nonneg hx.nonneg (pow_nonneg (by linarith) m)
    have hprod := mul_le_mul hx.upper hx'.upper (hx'.left_nonneg h1) hhigh
    rw [pow_add, mul_mul_mul_comm]
    exact hprod

-- What is lost by rounding down `n` times is no more than what is won by rounding up `n` times, by
-- Bernoulli's inequality on either side.
theorem abs_sub_le (h0 : 0 ≤ h) (h1 : h ≤ 1) {n : Nat} {x y : ℚ} (hxy : Near h n x y) :
    |x - y| ≤ y * ((1 + h) ^ n - 1) := by
  have hup := one_add_mul_le_pow (by linarith : -2 ≤ h) n
  have hdown := one_add_mul_le_pow (by linarith : -2 ≤ -h) n
  rw [mul_neg, ← sub_eq_add_neg, ← sub_eq_add_neg] at hdown
  have hboth : y * (1 - (1 - h) ^ n) ≤ y * ((1 + h) ^ n - 1) :=
    mul_le_mul_of_nonneg_left (by linarith) hxy.nonneg
  have hlow := hxy.lower
  have hhigh := hxy.upper
  rw [abs_le]
  constructor <;> linarith

end Near

namespace Decimal

theorem abs_cast_le {x y : ℚ} (h : |x| ≤ y) : |(x : ℝ)| ≤ (y : ℝ) := by
  rw [← Rat.cast_abs]
  exact Rat.cast_le.mpr h

-- Half a unit of the last of `digits` significant digits, against a number that starts with a one.
def relativeUnit (digits : Int) : ℚ := 5 * 10 ^ (-digits)

theorem relativeUnit_eq (digits : Int) : relativeUnit digits = 1 / 2 * 10 ^ (1 - digits) := by
  rw [relativeUnit, sub_eq_add_neg, zpow_add₀ (by norm_num), zpow_one]
  ring

theorem relativeUnit_nonneg (digits : Int) : 0 ≤ relativeUnit digits :=
  mul_nonneg (by norm_num) (ten_zpow_pos _).le

theorem relativeUnit_antitone {digits finer : Int} (h : digits ≤ finer) :
    relativeUnit finer ≤ relativeUnit digits :=
  mul_le_mul_of_nonneg_left (zpow_le_zpow_right₀ (by norm_num) (by omega)) (by norm_num)

theorem relativeUnit_le_one {digits : Int} (h : 1 ≤ digits) : relativeUnit digits ≤ 1 := by
  have hone := relativeUnit_antitone h
  norm_num [relativeUnit] at hone ⊢
  linarith

theorem ten_pow_digitCount_le (m : Nat) (hm : 0 < m) : 10 ^ (digitCount m - 1) ≤ m := by
  rcases Nat.eq_zero_or_pos (digitCount m - 1) with hzero | hpos
  · rw [hzero, pow_zero]
    exact hm
  · by_contra hlt
    have hshort := Nat.toDigits_length 10 m (digitCount m - 1) hpos (by omega)
    rw [← digitCount] at hshort
    omega

-- The first digit of a number is worth a unit at least.
theorem ten_zpow_le_toRat (v : Decimal) (hv : 0 < v.toRat) :
    (10 : ℚ) ^ ((digitCount v.mantissa.natAbs : Int) - 1 - v.scale) ≤ v.toRat := by
  have hm := (toRat_pos_iff v).mp hv
  have hcount := ten_pow_digitCount_le v.mantissa.natAbs (by omega)
  have hpos : 0 < digitCount v.mantissa.natAbs := Nat.length_toDigits_pos
  have hsplit : (digitCount v.mantissa.natAbs : Int) - 1 - v.scale =
      (digitCount v.mantissa.natAbs - 1 : Nat) + -v.scale := by omega
  rw [hsplit, zpow_add₀ (by norm_num), zpow_natCast, toRat, ← natCast_natAbs_mantissa v hv]
  exact mul_le_mul_of_nonneg_right (by exact_mod_cast hcount) (ten_zpow_pos _).le

theorem near_roundSignificant (v : Decimal) (digits : Int) (hv : 0 ≤ v.toRat) :
    Near (relativeUnit digits) 1 (v.roundSignificant digits).toRat v.toRat := by
  have hexact : |v.toRat - v.toRat| ≤ v.toRat * relativeUnit digits := by
    rw [sub_self, abs_zero]
    exact mul_nonneg hv (relativeUnit_nonneg digits)
  apply Near.of_abs_sub_le hv
  simp only [roundSignificant]
  split
  · rename_i hzero
    rw [toRat_zero, ← (isZero_iff v).mp hzero]
    exact hexact
  · rename_i hzero
    split
    · exact hexact
    · have hpos : 0 < v.toRat := lt_of_le_of_ne hv fun h => hzero ((isZero_iff v).mpr h.symm)
      have hlead := mul_le_mul_of_nonneg_right (ten_zpow_le_toRat v hpos) (relativeUnit_nonneg digits)
      have hunit := Rounding.abs_halfUp_atScale_sub_le
        (v.scale - digitCount v.mantissa.natAbs + digits) v.toRat
      rw [toRat_round]
      refine hunit.trans (le_trans (le_of_eq ?_) hlead)
      rw [relativeUnit_eq, mul_left_comm, ← zpow_add₀ (by norm_num)]
      congr 2
      ring

-- A quotient has enough digits to count as one more rounding.
theorem near_div (a b : Decimal) (digits : Int) (hd : digits ≤ quotientDigits) (ha : 0 ≤ a.toRat)
    (hb : 0 < b.toRat) : Near (relativeUnit digits) 1 (a / b).toRat (a.toRat / b.toRat) := by
  have hquotient : 0 ≤ a.toRat / b.toRat := div_nonneg ha hb.le
  apply Near.of_abs_sub_le hquotient
  by_cases hself : a.toRat = 0 ∨ b.toRat = 1
  · have hexact : a.toRat / b.toRat = a.toRat := by
      rcases hself with hzero | hone
      · rw [hzero, zero_div]
      · rw [hone, div_one]
    rw [div_eq_self a b hself, hexact, sub_self, abs_zero]
    exact mul_nonneg ha (relativeUnit_nonneg digits)
  · obtain ⟨hzero, hone⟩ := not_or.mp hself
    have hlead := ten_pow_le_div_scaled a b (lt_of_le_of_ne ha (Ne.symm hzero)) hb hone
    have hunit := mul_le_mul_of_nonneg_right hlead (ten_zpow_pos (-(a / b).scale)).le
    rw [mul_assoc, mul_comm (10 ^ (a / b).scale : ℚ), ten_zpow_neg_mul, mul_one] at hunit
    rw [toRat_div a b hb.ne']
    calc |Rounding.halfUp.atScale (a / b).scale (a.toRat / b.toRat) - a.toRat / b.toRat|
        ≤ 1 / 2 * 10 ^ (-(a / b).scale) := Rounding.abs_halfUp_atScale_sub_le _ _
      _ = 10 ^ (quotientDigits - 1) * 10 ^ (-(a / b).scale) * relativeUnit quotientDigits := by
          norm_num [relativeUnit, quotientDigits]
          ring
      _ ≤ a.toRat / b.toRat * relativeUnit quotientDigits :=
          mul_le_mul_of_nonneg_right hunit (relativeUnit_nonneg _)
      _ ≤ a.toRat / b.toRat * relativeUnit digits :=
          mul_le_mul_of_nonneg_left (relativeUnit_antitone hd) hquotient

-- A quotient carries `quotientDigits` digits on either side of zero.
theorem abs_div_sub_le (a b : Decimal) (hb : 0 < b.toRat) :
    |(a / b).toRat - a.toRat / b.toRat| ≤ |a.toRat / b.toRat| * relativeUnit quotientDigits := by
  have hnonneg (a : Decimal) (ha : 0 ≤ a.toRat) :
      |(a / b).toRat - a.toRat / b.toRat| ≤ |a.toRat / b.toRat| * relativeUnit quotientDigits := by
    have h := (near_div a b quotientDigits le_rfl ha hb).abs_sub_le (relativeUnit_nonneg _)
      (relativeUnit_le_one (by decide))
    rw [pow_one, add_sub_cancel_left] at h
    rwa [abs_of_nonneg (div_nonneg ha hb.le)]
  rcases le_total 0 a.toRat with ha | ha
  · exact hnonneg a ha
  · have h := hnonneg (-a) (by simpa using ha)
    rwa [Decimal.neg_div, toRat_neg, toRat_neg, neg_div, abs_neg, neg_sub_neg, abs_sub_comm] at h

theorem abs_divAt_sub_le (a b : Decimal) (scale : Int) (hb : 0 < b.toRat) :
    |(a.divAt b scale).toRat - a.toRat / b.toRat| ≤
      |a.toRat / b.toRat| * relativeUnit quotientDigits + 1 / 2 * 10 ^ (-scale) :=
  abs_round_sub_le _ scale (abs_div_sub_le a b hb)

theorem near_divSignificant (a b : Decimal) (digits : Int) (hd1 : 1 ≤ digits)
    (hd : digits ≤ quotientDigits) (ha : 0 ≤ a.toRat) (hb : 0 < b.toRat) :
    Near (relativeUnit digits) 2 (a.divSignificant b digits).toRat (a.toRat / b.toRat) := by
  have hdiv := near_div a b digits hd ha hb
  have hround := near_roundSignificant (a / b) digits (hdiv.left_nonneg (relativeUnit_le_one hd1))
  exact Near.trans (relativeUnit_nonneg digits) (relativeUnit_le_one hd1) hround hdiv

-- A product that is rounded once carries one rounding more than its factors.
theorem near_product (x y : Decimal) (digits : Int) (hd : 1 ≤ digits) {a b : ℚ} {m n : Nat}
    (hx : Near (relativeUnit digits) m x.toRat a) (hy : Near (relativeUnit digits) n y.toRat b) :
    Near (relativeUnit digits) (m + n + 1) ((x * y).roundSignificant digits).toRat (a * b) := by
  have h0 := relativeUnit_nonneg digits
  have h1 := relativeUnit_le_one hd
  have hexact := hx.mul h0 h1 hy
  rw [← toRat_mul] at hexact
  exact (near_roundSignificant (x * y) digits (hexact.left_nonneg h1)).trans h0 h1 hexact

-- Each squaring doubles the roundings in the square and adds one. A square that stands for `m` factors
-- has been rounded at most `m - 1` times, so with the product that takes it up no factor costs more
-- than one rounding.
theorem near_powLoop (result square : Decimal) (n : Nat) (digits : Int) (hd : 1 ≤ digits) {r b : ℚ}
    {i j : Nat} (hresult : Near (relativeUnit digits) i result.toRat r)
    (hsquare : Near (relativeUnit digits) j square.toRat b) :
    Near (relativeUnit digits) (i + (j + 1) * n)
      (powLoop (·.roundSignificant digits) result square n).toRat (r * b ^ n) := by
  induction n using Nat.evenOddRec generalizing result square r b i j with
  | h0 =>
      rw [powLoop_zero, pow_zero, mul_one, mul_zero, add_zero]
      exact hresult
  | h_even k ih =>
      have hdouble := near_product square square digits hd hsquare hsquare
      have h := ih result _ hresult hdouble
      rw [powLoop_two_mul, pow_mul, pow_two,
        show i + (j + 1) * (2 * k) = i + (j + j + 1 + 1) * k by ring]
      exact h
  | h_odd k ih =>
      have hproduct := near_product result square digits hd hresult hsquare
      have hdouble := near_product square square digits hd hsquare hsquare
      have h := ih _ _ hproduct hdouble
      rw [powLoop_two_mul_add_one, pow_succ, pow_mul, pow_two, mul_comm ((b * b) ^ k), ← mul_assoc,
        show i + (j + 1) * (2 * k + 1) = i + j + 1 + (j + j + 1 + 1) * k by ring]
      exact h

theorem near_powSignificant (base : Decimal) (n : Nat) (digits : Int) (hd : 1 ≤ digits)
    (h0 : 0 ≤ base.toRat) :
    Near (relativeUnit digits) n (base.powSignificant n digits).toRat (base.toRat ^ n) := by
  have hone : Near (relativeUnit digits) 0 one.toRat 1 := by
    rw [toRat_one]
    exact Near.refl zero_le_one
  have h := near_powLoop one base n digits hd hone (Near.refl h0)
  rw [one_mul, zero_add, zero_add, one_mul] at h
  exact h

end Decimal

end ParticipantTrust
