import ParticipantTrust.Proofs.Decimal.Significant
import Mathlib.Data.Int.Log
import Mathlib.Order.Monotone.Odd

namespace ParticipantTrust.Decimal

-- The places of a number that is cut after `digits` digits, counted from its first one.
def significantScale (digits : Int) (x : ℚ) : Int := digits - 1 - Int.log 10 |x|

-- `x` rounded to `digits` significant digits, whatever form it is written in.
def significant (digits : Int) (x : ℚ) : ℚ :=
  Rounding.halfUp.atScale (significantScale digits x) x

theorem lt_ten_pow_digitCount (m : Nat) : m < 10 ^ digitCount m :=
  (Nat.length_toDigits_le_iff (by norm_num) Nat.length_toDigits_pos).mp le_rfl

theorem log_eq_iff {x : ℚ} (hx : 0 < x) (k : Int) :
    Int.log 10 x = k ↔ (10 : ℚ) ^ k ≤ x ∧ x < 10 ^ (k + 1) := by
  have hlow := Int.zpow_le_iff_le_log (b := 10) (x := k) (by norm_num) hx
  have hhigh := Int.lt_zpow_iff_log_lt (b := 10) (x := k + 1) (by norm_num) hx
  rw [Nat.cast_ofNat] at hlow hhigh
  rw [hlow, hhigh]
  omega

-- The length of the mantissa tells where the first digit stands.
theorem log_toRat (v : Decimal) (hv : v.toRat ≠ 0) :
    Int.log 10 |v.toRat| = digitCount v.mantissa.natAbs - 1 - v.scale := by
  have hpos : 0 < v.abs.toRat := by
    rw [toRat_abs]
    exact abs_pos.mpr hv
  have hlength : ((v.mantissa.natAbs : Int) : ℚ) < 10 ^ (digitCount v.mantissa.natAbs : Int) := by
    exact_mod_cast lt_ten_pow_digitCount v.mantissa.natAbs
  rw [← toRat_abs, log_eq_iff hpos]
  refine ⟨ten_zpow_le_toRat v.abs hpos, ?_⟩
  rw [show (digitCount v.mantissa.natAbs : Int) - 1 - v.scale + 1 =
    digitCount v.mantissa.natAbs + -v.scale by ring, zpow_add₀ (by norm_num)]
  exact mul_lt_mul_of_pos_right hlength (ten_zpow_pos _)

-- A number with so few digits that it stays as written has no more places than it is cut at.
theorem toRat_roundSignificant (v : Decimal) (digits : Int) :
    (v.roundSignificant digits).toRat = significant digits v.toRat := by
  simp only [roundSignificant]
  split
  · rename_i hzero
    rw [(isZero_iff v).mp hzero, significant, Rounding.atScale_zero, toRat_zero]
  · rename_i hzero
    have htarget : v.scale - digitCount v.mantissa.natAbs + digits =
        significantScale digits v.toRat := by
      rw [significantScale, log_toRat v (mt (isZero_iff v).mpr hzero)]
      ring
    rw [htarget]
    split
    · rename_i hfits
      rw [significant, Rounding.atScale_of_hasPlaces]
      exact (hasPlaces_toRat v.mantissa v.scale).mono hfits
    · exact toRat_round v _

theorem significant_zero (digits : Int) : significant digits 0 = 0 :=
  Rounding.halfUp.atScale_zero _

theorem significant_neg (digits : Int) (x : ℚ) : significant digits (-x) = -significant digits x := by
  rw [significant, significantScale, abs_neg, Rounding.halfUp_atScale_neg]
  rfl

theorem significant_of_hasPlaces {digits : Int} {x : ℚ}
    (h : HasPlaces (significantScale digits x) x) : significant digits x = x :=
  Rounding.halfUp.atScale_of_hasPlaces _ _ h

section Bounds

variable {digits : Int} {x : ℚ} (hd : 1 ≤ digits) (hx : 0 < x)

include hd hx

-- The powers of ten around a number are among the numbers it can be rounded to.
theorem ten_zpow_log_le_significant : 10 ^ Int.log 10 x ≤ significant digits x := by
  have hplaces : HasPlaces (significantScale digits x) (10 ^ Int.log 10 x) := by
    apply hasPlaces_ten_zpow
    rw [significantScale, abs_of_pos hx]
    omega
  exact Rounding.halfUp.le_atScale hplaces ((log_eq_iff hx _).mp rfl).1

theorem significant_le_ten_zpow : significant digits x ≤ 10 ^ (Int.log 10 x + 1) := by
  have hplaces : HasPlaces (significantScale digits x) (10 ^ (Int.log 10 x + 1)) := by
    apply hasPlaces_ten_zpow
    rw [significantScale, abs_of_pos hx]
    omega
  exact Rounding.halfUp.atScale_le hplaces ((log_eq_iff hx _).mp rfl).2.le

-- A result that carries into a new digit is a power of ten, any other one keeps its first digit's place.
theorem significant_significant_of_pos :
    significant digits (significant digits x) = significant digits x := by
  have hlow := ten_zpow_log_le_significant hd hx
  have hpos : 0 < significant digits x := (ten_zpow_pos _).trans_le hlow
  apply significant_of_hasPlaces
  rcases (significant_le_ten_zpow hd hx).eq_or_lt with hcarry | hkept
  · have hnext : (10 : ℚ) ^ (Int.log 10 x + 1) < 10 ^ (Int.log 10 x + 1 + 1) :=
      zpow_lt_zpow_right₀ (by norm_num) (by omega)
    have hlog := (log_eq_iff hpos _).mpr ⟨hcarry.ge, hcarry.trans_lt hnext⟩
    rw [significantScale, abs_of_pos hpos, hlog, hcarry]
    exact hasPlaces_ten_zpow _ _ (by omega)
  · have hlog := (log_eq_iff hpos _).mpr ⟨hlow, hkept⟩
    have hscale : significantScale digits (significant digits x) = significantScale digits x := by
      rw [significantScale, significantScale, abs_of_pos hpos, abs_of_pos hx, hlog]
    rw [hscale]
    exact Rounding.halfUp.atScale_hasPlaces _ x

-- Numbers of the same length are rounded at the same place, and between others there is a power of ten.
theorem significant_le_of_pos {y : ℚ} (hxy : x ≤ y) : significant digits x ≤ significant digits y := by
  have hy := hx.trans_le hxy
  rcases (Int.log_mono_right (b := 10) hx hxy).eq_or_lt with hlog | hlog
  · rw [significant, significant, significantScale, significantScale, abs_of_pos hx, abs_of_pos hy, hlog]
    exact Rounding.halfUp.atScale_mono _ hxy
  · calc significant digits x ≤ 10 ^ (Int.log 10 x + 1) := significant_le_ten_zpow hd hx
      _ ≤ 10 ^ Int.log 10 y := zpow_le_zpow_right₀ (by norm_num) (by omega)
      _ ≤ significant digits y := ten_zpow_log_le_significant hd hy

end Bounds

theorem significant_monotone {digits : Int} (hd : 1 ≤ digits) : Monotone (significant digits) := by
  apply monotone_of_odd_of_monotoneOn_nonneg (significant_neg digits)
  intro x hx y _ hxy
  rcases (Set.mem_Ici.mp hx).eq_or_lt with rfl | hpos
  · rw [significant_zero]
    exact Rounding.halfUp.atScale_nonneg _ hxy
  · exact significant_le_of_pos hd hpos hxy

theorem significant_significant {digits : Int} (hd : 1 ≤ digits) (x : ℚ) :
    significant digits (significant digits x) = significant digits x := by
  rcases lt_trichotomy x 0 with hneg | rfl | hpos
  · have hmirror := significant_significant_of_pos hd (neg_pos.mpr hneg)
    rwa [significant_neg, significant_neg, neg_inj] at hmirror
  · rw [significant_zero, significant_zero]
  · exact significant_significant_of_pos hd hpos

theorem trims_roundSignificant {digits : Int} (hd : 1 ≤ digits) :
    Trims (·.roundSignificant digits) (significant digits) where
  toRat_trim v := toRat_roundSignificant v digits
  mono := significant_monotone hd
  zero := significant_zero digits
  idem := significant_significant hd

theorem powSignificant_le (base larger : Decimal) (n : Nat) {digits : Int} (hd : 1 ≤ digits)
    (h0 : 0 ≤ base.toRat) (h : base.toRat ≤ larger.toRat) :
    (base.powSignificant n digits).toRat ≤ (larger.powSignificant n digits).toRat :=
  powLoop_le_powLoop (trims_roundSignificant hd) one one base larger n (by simp) le_rfl h0 h

-- However small a power is, its digits are lost at no more than one rounding for each factor, and
-- they keep the order of the bases.
theorem powSignificant_accurate (base : Decimal) (n : Nat) (digits : Int) (hbase : zero < base)
    (hd : 1 ≤ digits) :
    let h : ℚ := 1 / 2 * 10 ^ (1 - digits)
    let power := base.powSignificant n digits
    base.toRat ^ n * (1 - h) ^ n ≤ power.toRat ∧ power.toRat ≤ base.toRat ^ n * (1 + h) ^ n ∧
      zero < power ∧ ∀ larger, base ≤ larger → power ≤ larger.powSignificant n digits := by
  intro h power
  rw [lt_iff, toRat_zero] at hbase
  have hnear := near_powSignificant base n digits hd hbase.le
  have hunit : (10 : ℚ) ^ (1 - digits) ≤ 1 := zpow_le_one_of_nonpos₀ (by norm_num) (by omega)
  rw [relativeUnit_eq] at hnear
  have hpower : 0 < power.toRat := by
    refine lt_of_lt_of_le ?_ hnear.lower
    exact mul_pos (pow_pos hbase n) (pow_pos (by linarith) n)
  refine ⟨hnear.lower, hnear.upper, ?_, fun larger hlarger => ?_⟩
  · rw [lt_iff, toRat_zero]
    exact hpower
  · rw [le_iff] at hlarger ⊢
    exact powSignificant_le base larger n hd hbase.le hlarger

-- Fifty places behind the point the twelve digits are still there, and a base that is larger by its
-- last place keeps ahead.
theorem powSignificant_accurate_at_tiny_power :
    zero < ⟨5, 2⟩ ∧ (1 : Int) ≤ 12 ∧ powSignificant ⟨5, 2⟩ 40 12 = ⟨909494701773, 64⟩ ∧
      zero < powSignificant ⟨5, 2⟩ 40 12 ∧
      powSignificant ⟨5, 2⟩ 40 12 ≤ powSignificant ⟨500000000001, 13⟩ 40 12 := by
  have hbase : zero < ⟨5, 2⟩ := by decide
  obtain ⟨-, -, hpos, hmono⟩ := powSignificant_accurate ⟨5, 2⟩ 40 12 hbase (by decide)
  exact ⟨hbase, by decide, by decide +kernel, hpos, hmono ⟨500000000001, 13⟩ (by decide)⟩

end ParticipantTrust.Decimal
