import ParticipantTrust.Proofs.Decimal.LogarithmOrder
import ParticipantTrust.Proofs.Decimal.SeriesError

namespace ParticipantTrust.Decimal

-- Eight to the power of a quarter more than `w` makes up for ten to the power of `w`.
theorem ten_pow_le_eight_pow {w n : ℕ} (h : 5 * w ≤ 4 * n) : (10 : ℚ) ^ w ≤ 8 ^ n := by
  refine le_of_pow_le_pow_left₀ (by norm_num : 4 ≠ 0) (by positivity) ?_
  calc ((10 : ℚ) ^ w) ^ 4 = (10 ^ 4) ^ w := by rw [← pow_mul, ← pow_mul, mul_comm]
    _ ≤ (8 ^ 5) ^ w := pow_le_pow_left₀ (by norm_num) (by norm_num) w
    _ = 8 ^ (5 * w) := (pow_mul _ _ _).symm
    _ ≤ 8 ^ (4 * n) := pow_le_pow_right₀ (by norm_num) h
    _ = (8 ^ n) ^ 4 := by rw [← pow_mul, mul_comm]

theorem abs_log_sub_log_le {c x y : ℝ} (hc : 0 < c) (hx : c ≤ x) (hy : c ≤ y) :
    |Real.log x - Real.log y| ≤ |x - y| / c := by
  have hstep {x y : ℝ} (hx : c ≤ x) (hy : c ≤ y) : Real.log x - Real.log y ≤ |x - y| / c := by
    have hy0 : 0 < y := hc.trans_le hy
    calc Real.log x - Real.log y = Real.log (x / y) :=
          (Real.log_div (hc.trans_le hx).ne' hy0.ne').symm
      _ ≤ x / y - 1 := Real.log_le_sub_one_of_pos (div_pos (hc.trans_le hx) hy0)
      _ = (x - y) / y := by rw [sub_div, div_self hy0.ne']
      _ ≤ |x - y| / y := div_le_div_of_nonneg_right (le_abs_self _) hy0.le
      _ ≤ |x - y| / c := div_le_div_of_nonneg_left (abs_nonneg _) hc hy
  rw [abs_le']
  refine ⟨hstep hx hy, ?_⟩
  rw [neg_sub, abs_sub_comm]
  exact hstep hy hx

theorem log_quotient_eq (m : ℝ) (hm : 0 < m) :
    Real.log (1 + (m - 1) / (m + 1)) - Real.log (1 - (m - 1) / (m + 1)) = Real.log m := by
  have hplus : 1 + (m - 1) / (m + 1) = 2 * m / (m + 1) := by field_simp; ring
  have hminus : 1 - (m - 1) / (m + 1) = 2 / (m + 1) := by field_simp; ring
  rw [hplus, hminus, ← Real.log_div (by positivity) (by positivity)]
  congr 1
  field_simp

section

variable {scale : Int} (h10 : 10 ≤ scale) (h90 : scale ≤ 90)

include h10 in
theorem unit_le_of_ten_le : (10 : ℚ) ^ (-scale) ≤ 1 / 10000000000 := by
  have h : (10 : ℚ) ^ (-scale) ≤ 10 ^ (-10 : Int) :=
    zpow_le_zpow_right₀ (by norm_num) (by omega)
  exact h.trans_eq (by norm_num)

include h90 in
theorem relativeUnit_quotientDigits_le : relativeUnit quotientDigits ≤ 1 / 100 * 10 ^ (-scale) := by
  have hfine : (10 : ℚ) ^ (-90 : Int) ≤ 10 ^ (-scale) :=
    zpow_le_zpow_right₀ (by norm_num) (by omega)
  calc relativeUnit quotientDigits ≤ 1 / 100 * 10 ^ (-90 : Int) := by
        rw [relativeUnit_eq]
        norm_num [quotientDigits]
    _ ≤ 1 / 100 * 10 ^ (-scale) := mul_le_mul_of_nonneg_left hfine (by norm_num)

include h10 h90

theorem seriesSetting_of_le {t : Decimal} (ht : |t.toRat| ≤ 1 / 3) :
    SeriesSetting scale ((t * t).round scale) (t.toRat ^ 2) := by
  have hunit := unit_le_of_ten_le h10
  have hclose := Rounding.abs_halfUp_atScale_sub_le scale (t * t).toRat
  have hsquare : t.toRat ^ 2 ≤ (7 / 20) ^ 2 := by
    rw [← sq_abs]
    exact pow_le_pow_left₀ (abs_nonneg _) (by linarith) 2
  rw [← toRat_round, toRat_mul, ← pow_two] at hclose
  refine ⟨by linarith, relativeUnit_quotientDigits_le h90, sq_nonneg _, by linarith,
    seriesSquare_nonneg scale t, ?_, hclose⟩
  linarith [(abs_le.mp hclose).2]

-- A unit for each of the steps, and what the last of them leaves.
theorem abs_atanhSeries_sub_atanh_le {t : Decimal} (ht : |t.toRat| ≤ 1 / 3) :
    |((atanhSeries scale ((t * t).round scale) (atanhSteps scale) t t 1).toRat : ℝ) -
        (t.toRat + t.toRat * seriesTail (t.toRat ^ 2) 1)| ≤ (scale + 9 / 5) * 10 ^ (-scale) := by
  have hs := seriesSetting_of_le h10 h90 ht
  obtain ⟨w, rfl⟩ := Int.eq_ofNat_of_zero_le (by omega : 0 ≤ scale)
  set steps := w + w / 4 + 1 with hsteps
  have hall : atanhSteps w = steps + 1 + (w - w / 4) := by
    rw [atanhSteps, Int.toNat_natCast]
    omega
  have hreach : |t.toRat| ≤ (4 / 7 + 6 * 8 ^ steps) * 10 ^ (-(w : Int)) := by
    have hpower : (1 : ℚ) ≤ 8 ^ steps * 10 ^ (-(w : Int)) := by
      rw [zpow_neg, zpow_natCast, ← div_eq_mul_inv, one_le_div (by positivity)]
      exact ten_pow_le_eight_pow (by omega)
    have hpos := ten_zpow_pos (-(w : Int))
    linarith
  have hseries := hs.abs_atanhSeries_sub_le steps (w - w / 4) t t 1 le_rfl (by linarith) hreach
  have hcount : (4 : ℝ) * steps ≤ 5 * w + 4 := by exact_mod_cast (by omega : 4 * steps ≤ 5 * w + 4)
  rw [← hall, Rat.cast_pow] at hseries
  refine hseries.trans (mul_le_mul_of_nonneg_right ?_ (by positivity))
  rw [Int.cast_natCast]
  linarith

theorem abs_twiceAtanh_sub_le {t : Decimal} (ht : |t.toRat| ≤ 1 / 3) :
    |((twiceAtanh scale t).toRat : ℝ) - (Real.log (1 + t.toRat) - Real.log (1 - t.toRat))| ≤
      (2 * scale + 5) * 10 ^ (-scale) := by
  have hseries := abs_atanhSeries_sub_atanh_le h10 h90 ht
  have hone : |(t.toRat : ℝ)| < 1 := by
    rw [← Rat.cast_abs, ← Rat.cast_one, Rat.cast_lt]
    linarith
  rw [log_sub_log_eq _ hone, twiceAtanh, toRat_round, toRat_mul, toRat_two]
  set sum := (atanhSeries scale ((t * t).round scale) (atanhSteps scale) t t 1).toRat
  set series := (t.toRat : ℝ) + t.toRat * seriesTail (t.toRat ^ 2) 1
  have hround := abs_cast_le (Rounding.abs_halfUp_atScale_sub_le scale (sum * 2))
  push_cast at hround
  have hdouble : |(sum : ℝ) * 2 - 2 * series| ≤ 2 * ((scale + 9 / 5) * 10 ^ (-scale)) := by
    rw [mul_comm, ← mul_sub, abs_mul, abs_two]
    exact mul_le_mul_of_nonneg_left hseries zero_le_two
  have hpos : (0 : ℝ) < 10 ^ (-scale) := by positivity
  have htriangle := abs_sub_le (Rounding.halfUp.atScale scale (sum * 2) : ℝ) (sum * 2) (2 * series)
  linarith

omit h10 in
theorem abs_start_sub_le {m : Decimal} (hm : 0 < m.toRat) :
    |(((m - one).divAt (m + one) scale).toRat : ℝ) - (m.toRat - 1) / (m.toRat + 1)| ≤
      51 / 100 * 10 ^ (-scale) := by
  have hsmall : |(m - one).toRat / (m + one).toRat| ≤ 1 := by
    have hpos := add_one_pos hm
    rw [abs_div, div_le_one (abs_pos.mpr hpos.ne'), abs_of_pos hpos, toRat_sub, toRat_add, toRat_one,
      abs_le]
    constructor <;> linarith
  have hround := abs_divAt_sub_le_of_abs_le_one (m - one) (m + one) scale (add_one_pos hm) hsmall
    (relativeUnit_quotientDigits_le h90)
  rw [toRat_sub, toRat_add, toRat_one] at hround
  push_cast at hround
  exact hround

theorem abs_lnReduced_sub_le {m : Decimal} (hlow : 1 / 2 ≤ m.toRat) (hhigh : m.toRat ≤ 2) :
    |((lnReduced m scale).toRat : ℝ) - Real.log m.toRat| ≤ (2 * scale + 10) * 10 ^ (-scale) := by
  have hunit : (10 : ℝ) ^ (-scale) ≤ 1 / 10000000000 := by
    have h := (Rat.cast_le (K := ℝ)).mpr (unit_le_of_ten_le h10)
    push_cast at h
    exact h
  have hseries := abs_twiceAtanh_sub_le h10 h90 (abs_start_le scale hlow hhigh)
  have hstart := abs_start_sub_le h90 (by linarith : 0 < m.toRat)
  have hsmall := abs_cast_le (abs_start_le scale hlow hhigh)
  rw [lnReduced_eq, ← log_quotient_eq m.toRat (Rat.cast_pos.mpr (by linarith))]
  set t := (((m - one).divAt (m + one) scale).toRat : ℝ)
  set start := ((m.toRat : ℝ) - 1) / (m.toRat + 1)
  push_cast at hsmall
  have ht := abs_le.mp hsmall
  have hnear := abs_le.mp hstart
  -- away from zero the logarithm stretches distances by a bounded factor
  have hplus := abs_log_sub_log_le (c := 3 / 5) (x := 1 + t) (y := 1 + start) (by norm_num)
    (by linarith) (by linarith)
  have hminus := abs_log_sub_log_le (c := 3 / 5) (x := 1 - t) (y := 1 - start) (by norm_num)
    (by linarith) (by linarith)
  rw [add_sub_add_left_eq_sub] at hplus
  rw [sub_sub_sub_cancel_left, abs_sub_comm start t] at hminus
  have hargument : |Real.log (1 + t) - Real.log (1 - t) -
      (Real.log (1 + start) - Real.log (1 - start))| ≤ 17 / 10 * 10 ^ (-scale) := by
    rw [sub_sub_sub_comm]
    exact (abs_sub _ _).trans (by linarith)
  have hpos : (0 : ℝ) < 10 ^ (-scale) := by positivity
  refine (abs_sub_le _ _ _).trans ((add_le_add hseries hargument).trans ?_)
  linarith

end

-- The logarithm of two counts once for each halving or doubling, and its error with it.
theorem abs_unroundedLn_sub_le (x : Decimal) (working : Int) (h10 : 10 ≤ working)
    (h90 : working ≤ 90) (hx : 0 < x.toRat) :
    |(unroundedLn x working : ℝ) - Real.log x.toRat| ≤
      ((binarySplit x).exponent.natAbs + 1) * (2 * working + 10) * 10 ^ (-working) := by
  have hsplit := binarySplit_splitsAs x hx
  have hmantissa := abs_lnReduced_sub_le h10 h90 hsplit.low hsplit.high.le
  have htwo := abs_lnReduced_sub_le h10 h90 (m := two) (by simp; norm_num) (by simp)
  have hlog : Real.log x.toRat = Real.log (binarySplit x).mantissa.toRat +
      Real.log two.toRat * (binarySplit x).exponent := by
    have hpos : (0 : ℝ) < (binarySplit x).mantissa.toRat := Rat.cast_pos.mpr hsplit.mantissa_pos
    rw [hsplit.value, toRat_two]
    push_cast
    rw [Real.log_mul hpos.ne' (by positivity), Real.log_zpow, mul_comm (Real.log 2)]
  have hcount : |((binarySplit x).exponent : ℝ)| = (binarySplit x).exponent.natAbs := by
    rw [Nat.cast_natAbs, Int.cast_abs]
  rw [unroundedLn, hlog]
  push_cast
  set mantissa := ((lnReduced (binarySplit x).mantissa working).toRat : ℝ)
  set perStep := ((lnReduced two working).toRat : ℝ)
  set count := ((binarySplit x).exponent : ℝ)
  have hcounted : |(perStep - Real.log two.toRat) * count| ≤
      (2 * working + 10) * 10 ^ (-working) * (binarySplit x).exponent.natAbs := by
    rw [abs_mul, hcount]
    exact mul_le_mul_of_nonneg_right htwo (Nat.cast_nonneg _)
  calc |mantissa + perStep * count -
        (Real.log (binarySplit x).mantissa.toRat + Real.log two.toRat * count)|
      = |(mantissa - Real.log (binarySplit x).mantissa.toRat) +
          (perStep - Real.log two.toRat) * count| := by
        congr 1
        ring
    _ ≤ (2 * working + 10) * 10 ^ (-working) +
          (2 * working + 10) * 10 ^ (-working) * (binarySplit x).exponent.natAbs :=
        (abs_add_le _ _).trans (add_le_add hmantissa hcounted)
    _ = ((binarySplit x).exponent.natAbs + 1) * (2 * working + 10) * 10 ^ (-working) := by ring

namespace SplitsAs

variable {x μ : ℚ} {k : ℤ}

-- A number takes no more steps than the power of two that bounds it.
theorem natAbs_exponent_le (h : SplitsAs x μ k) (bound : ℕ) (hlow : 2 ^ (-(bound : ℤ)) ≤ x)
    (hhigh : x ≤ 2 ^ (bound : ℤ)) : k.natAbs ≤ bound := by
  have hk := two_zpow_pos k
  have hx := h.value
  rcases lt_trichotomy k 0 with hneg | rfl | hpos
  · have hlt : (2 : ℚ) ^ (-(bound : ℤ)) < 2 ^ k := by nlinarith [h.down hneg]
    have := (zpow_lt_zpow_iff_right₀ (by norm_num)).mp hlt
    omega
  · simp
  · have hle : (2 : ℚ) ^ k ≤ 2 ^ (bound : ℤ) := by nlinarith [h.up hpos]
    have := (zpow_le_zpow_iff_right₀ (by norm_num)).mp hle
    omega

end SplitsAs

-- The guard digits hold the errors of a thousand steps.
theorem guarded_error_le {steps : ℕ} {precision : Int} (hsteps : steps ≤ 1000) (h0 : 0 ≤ precision)
    (h80 : precision ≤ 80) :
    ((steps : ℝ) + 1) * (2 * (precision + guardDigits) + 10) * 10 ^ (-(precision + guardDigits)) ≤
      1 / 2 * 10 ^ (-precision) := by
  have hguard : guardDigits = 10 := rfl
  have hcount : (steps : ℝ) + 1 ≤ 1001 := by exact_mod_cast Nat.succ_le_succ hsteps
  have hplaces : 2 * ((precision : ℝ) + guardDigits) + 10 ≤ 190 := by
    exact_mod_cast (by omega : 2 * (precision + guardDigits) + 10 ≤ 190)
  have hnonneg : 0 ≤ 2 * ((precision : ℝ) + guardDigits) + 10 := by
    exact_mod_cast (by omega : 0 ≤ 2 * (precision + guardDigits) + 10)
  have hunit : (10 : ℝ) ^ (-(precision + guardDigits)) = 10 ^ (-precision) / 10000000000 := by
    rw [neg_add, zpow_add₀ (by norm_num), hguard, div_eq_mul_inv]
    norm_num
  have hpos : (0 : ℝ) < 10 ^ (-precision) := by positivity
  calc ((steps : ℝ) + 1) * (2 * (precision + guardDigits) + 10) * 10 ^ (-(precision + guardDigits))
      ≤ 1001 * 190 * 10 ^ (-(precision + guardDigits)) :=
        mul_le_mul_of_nonneg_right (mul_le_mul hcount hplaces hnonneg (by norm_num)) (by positivity)
    _ ≤ 1 / 2 * 10 ^ (-precision) := by
        rw [hunit]
        linarith

end ParticipantTrust.Decimal

namespace ParticipantTrust.Elementary

open Decimal

-- Half a unit is lost by the last rounding; the guard digits keep the rest below another half.
theorem ln_accurate (x : Decimal) (precision : Int) (hx : zero < x) (h0 : 0 ≤ precision)
    (h80 : precision ≤ 80) :
    ∃ l, ln x precision = .ok l ∧
      |(l.toRat : ℝ) - Real.log x.toRat| ≤ 1 / 2 * 10 ^ (-precision) +
        ((binarySplit x).exponent.natAbs + 1) * (2 * (precision + guardDigits) + 10) *
          10 ^ (-(precision + guardDigits)) ∧
      ((2 ^ (-1000 : ℤ) : ℚ) ≤ x.toRat → x.toRat ≤ 2 ^ (1000 : ℤ) →
        |(l.toRat : ℝ) - Real.log x.toRat| ≤ 10 ^ (-precision)) := by
  have hpos : 0 < x.toRat := by simpa using (lt_iff zero x).mp hx
  have hguard : guardDigits = 10 := rfl
  have herror := abs_unroundedLn_sub_le x (precision + guardDigits) (by omega) (by omega) hpos
  have hround := abs_cast_le (Rounding.abs_halfUp_atScale_sub_le precision
    (unroundedLn x (precision + guardDigits)))
  rw [← toRat_ln] at hround
  push_cast at hround herror
  have htotal := (abs_sub_le _ _ _).trans (add_le_add hround herror)
  refine ⟨_, ln_of_pos x precision hx, htotal, fun hlow hhigh => ?_⟩
  have hsteps := (binarySplit_splitsAs x hpos).natAbs_exponent_le 1000 hlow hhigh
  have hspare := guarded_error_le hsteps h0 h80
  linarith

-- Below one half: nine doublings, whose errors all count.
theorem ln_accurate_thousandth : zero < ⟨1, 3⟩ ∧ (0 : Int) ≤ 12 ∧ (12 : Int) ≤ 80 ∧
    ∃ l, ln ⟨1, 3⟩ 12 = .ok l ∧ l = ⟨-6907755278982, 12⟩ ∧
      |(l.toRat : ℝ) - Real.log (⟨1, 3⟩ : Decimal).toRat| ≤ 10 ^ (-12 : ℤ) := by
  obtain ⟨l, hl, -, hunit⟩ := ln_accurate ⟨1, 3⟩ 12 (by decide) (by decide) (by decide)
  have hdigits : Decimal.ln ⟨1, 3⟩ 12 = ⟨-6907755278982, 12⟩ := by decide +kernel
  have hvalue := (ln_of_pos ⟨1, 3⟩ 12 (by decide)).symm.trans hl
  rw [hdigits, Except.ok.injEq] at hvalue
  have hlow : (2 : ℚ) ^ (-1000 : ℤ) ≤ (⟨1, 3⟩ : Decimal).toRat :=
    (zpow_le_zpow_right₀ (by norm_num) (by decide : (-1000 : ℤ) ≤ -10)).trans (by norm_num [toRat])
  have hhigh : (⟨1, 3⟩ : Decimal).toRat ≤ 2 ^ (1000 : ℤ) :=
    (by norm_num [toRat] : (⟨1, 3⟩ : Decimal).toRat ≤ 1).trans
      (one_le_zpow₀ (by norm_num) (by decide))
  exact ⟨by decide, by decide, by decide, l, hl, hvalue.symm, hunit hlow hhigh⟩

end ParticipantTrust.Elementary
