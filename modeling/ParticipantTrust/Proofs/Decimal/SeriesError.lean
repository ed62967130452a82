import ParticipantTrust.Proofs.Decimal.Significant
import ParticipantTrust.Proofs.Decimal.Series
import Mathlib.Analysis.SpecialFunctions.Log.Deriv

namespace ParticipantTrust.Decimal

-- The factor of `x` that is left of the series `x + x³/3 + x⁵/5 + …` behind the term with the given
-- denominator, for a square `q` of `x`.
noncomputable def seriesTail (q : ℝ) (denominator : ℕ) : ℝ :=
  tsum fun i : ℕ => q ^ (i + 1) / (denominator + 2 * (i + 1) : ℕ)

section Tail

variable {q : ℝ} (hq0 : 0 ≤ q) (hq1 : q < 1) (denominator : ℕ)

include hq0 in
theorem seriesTail_term_nonneg (i : ℕ) : 0 ≤ q ^ (i + 1) / (denominator + 2 * (i + 1) : ℕ) := by
  positivity

-- The later denominators are larger than the first one.
include hq0 in
theorem seriesTail_term_le (i : ℕ) :
    q ^ (i + 1) / (denominator + 2 * (i + 1) : ℕ) ≤ q / (denominator + 2 : ℕ) * q ^ i := by
  have hle : ((denominator + 2 : ℕ) : ℝ) ≤ (denominator + 2 * (i + 1) : ℕ) := by
    exact_mod_cast (by omega : denominator + 2 ≤ denominator + 2 * (i + 1))
  have hpos : (0 : ℝ) < (denominator + 2 : ℕ) := by exact_mod_cast Nat.succ_pos _
  rw [div_mul_eq_mul_div, ← pow_succ']
  exact div_le_div_of_nonneg_left (pow_nonneg hq0 _) hpos hle

include hq0 in
theorem seriesTail_nonneg : 0 ≤ seriesTail q denominator :=
  tsum_nonneg (seriesTail_term_nonneg hq0 denominator)

include hq0 hq1

theorem seriesTail_summable :
    Summable fun i : ℕ => q ^ (i + 1) / (denominator + 2 * (i + 1) : ℕ) :=
  Summable.of_nonneg_of_le (seriesTail_term_nonneg hq0 denominator)
    (seriesTail_term_le hq0 denominator) ((summable_geometric_of_lt_one hq0 hq1).mul_left _)

theorem seriesTail_le : seriesTail q denominator ≤ q / (denominator + 2 : ℕ) * (1 - q)⁻¹ :=
  hasSum_le (seriesTail_term_le hq0 denominator) (seriesTail_summable hq0 hq1 denominator).hasSum
    ((hasSum_geometric_of_lt_one hq0 hq1).mul_left _)

-- The next power is a factor of all that is left.
theorem seriesTail_eq :
    seriesTail q denominator =
      q * (1 / (denominator + 2 : ℕ) + seriesTail q (denominator + 2)) := by
  have hfirst := (seriesTail_summable hq0 hq1 denominator).tsum_eq_zero_add
  have hrest : (tsum fun i : ℕ => q ^ (i + 1 + 1) / (denominator + 2 * (i + 1 + 1) : ℕ)) =
      q * seriesTail q (denominator + 2) := by
    rw [seriesTail, ← tsum_mul_left]
    congr 1
    funext i
    rw [show denominator + 2 * (i + 1 + 1) = denominator + 2 + 2 * (i + 1) by ring, pow_succ',
      mul_div_assoc]
  rw [seriesTail, hfirst, hrest, zero_add, pow_one, mul_one, mul_add, mul_one_div]

end Tail

theorem log_sub_log_eq (t : ℝ) (ht : |t| < 1) :
    Real.log (1 + t) - Real.log (1 - t) = 2 * (t + t * seriesTail (t ^ 2) 1) := by
  have hsum := Real.hasSum_log_sub_log_of_abs_lt_one ht
  have hrest : (tsum fun i : ℕ => 2 * (1 / (2 * ((i + 1 : ℕ) : ℝ) + 1)) * t ^ (2 * (i + 1) + 1)) =
      2 * (t * seriesTail (t ^ 2) 1) := by
    rw [seriesTail, ← tsum_mul_left, ← tsum_mul_left]
    congr 1
    funext i
    rw [pow_succ t, pow_mul]
    push_cast
    ring
  rw [← hsum.tsum_eq, hsum.summable.tsum_eq_zero_add, hrest]
  norm_num
  ring

theorem abs_divAt_sub_le_of_abs_le_one (a b : Decimal) (scale : Int) (hb : 0 < b.toRat)
    (hone : |a.toRat / b.toRat| ≤ 1)
    (hdigits : relativeUnit quotientDigits ≤ 1 / 100 * 10 ^ (-scale)) :
    |((a.divAt b scale).toRat : ℝ) - a.toRat / b.toRat| ≤ 51 / 100 * 10 ^ (-scale) := by
  have hrelative := mul_le_mul hone hdigits (relativeUnit_nonneg _) zero_le_one
  rw [one_mul] at hrelative
  have hreal := abs_cast_le ((abs_divAt_sub_le a b scale hb).trans (add_le_add_left hrelative _))
  push_cast at hreal
  linarith

-- A scale to which a quotient has digits to spare, and the rounded square of a number of little more
-- than a third.
structure SeriesSetting (scale : Int) (tSquared : Decimal) (q : ℚ) : Prop where
  fine : 10 ^ (-scale) ≤ (1 / 10 : ℚ)
  digits : relativeUnit quotientDigits ≤ 1 / 100 * 10 ^ (-scale)
  exact_nonneg : 0 ≤ q
  exact_le : q ≤ 1 / 8
  square_nonneg : 0 ≤ tSquared.toRat
  square_le : tSquared.toRat ≤ 1 / 8
  close : |tSquared.toRat - q| ≤ 1 / 2 * 10 ^ (-scale)

namespace SeriesSetting

variable {scale : Int} {tSquared : Decimal} {q : ℚ} (hs : SeriesSetting scale tSquared q)

include hs

theorem abs_term_sub_le (power : Decimal) (denominator : ℕ) (hd : 3 ≤ denominator)
    (hp : |power.toRat| ≤ 2 / 5) :
    |((seriesTerm scale power denominator).toRat : ℝ) - power.toRat / denominator| ≤
      51 / 100 * 10 ^ (-scale) := by
  have hcast : (3 : ℚ) ≤ denominator := by exact_mod_cast hd
  have hsmall : |power.toRat / (ofInt denominator).toRat| ≤ 1 := by
    rw [toRat_ofInt, Int.cast_natCast, abs_div, Nat.abs_cast, div_le_one (by linarith)]
    linarith
  have hterm := abs_divAt_sub_le_of_abs_le_one power (ofInt denominator) scale (by simp; omega) hsmall
    hs.digits
  rwa [toRat_ofInt, Int.cast_natCast, Rat.cast_natCast] at hterm

section Step

variable {power : Decimal} (hp : |power.toRat| ≤ 2 / 5)

include hp

theorem abs_next_le : |(nextPower scale tSquared power).toRat| ≤ 2 / 5 := by
  have hnext := abs_nextPower_le scale tSquared power hs.square_nonneg hs.square_le
  have hfine := hs.fine
  linarith

theorem abs_next_sub_le :
    |((nextPower scale tSquared power).toRat : ℝ) - power.toRat * q| ≤ 7 / 10 * 10 ^ (-scale) := by
  have hproduct : |(power * tSquared).toRat - power.toRat * q| ≤ 1 / 5 * 10 ^ (-scale) := by
    rw [toRat_mul, ← mul_sub, abs_mul]
    have h := mul_le_mul hp hs.close (abs_nonneg _) (by norm_num)
    linarith
  have hreal := abs_cast_le (abs_round_sub_le (power * tSquared) scale hproduct)
  push_cast at hreal
  rw [nextPower]
  linarith

end Step

theorem exact_cast_nonneg : (0 : ℝ) ≤ q := Rat.cast_nonneg.mpr hs.exact_nonneg

theorem exact_cast_le : (q : ℝ) ≤ 1 / 8 := by
  have h := (Rat.cast_le (K := ℝ)).mpr hs.exact_le
  push_cast at h
  exact h

theorem exact_cast_lt_one : (q : ℝ) < 1 := hs.exact_cast_le.trans_lt (by norm_num)

theorem tail_nonneg (denominator : ℕ) : 0 ≤ seriesTail q denominator :=
  seriesTail_nonneg hs.exact_cast_nonneg denominator

theorem tail_le (denominator : ℕ) : seriesTail q denominator ≤ 1 / 7 / (denominator + 2 : ℕ) := by
  have hq := hs.exact_cast_le
  have hpos : (0 : ℝ) < (denominator + 2 : ℕ) := by positivity
  refine (seriesTail_le hs.exact_cast_nonneg hs.exact_cast_lt_one denominator).trans ?_
  rw [div_mul_eq_mul_div]
  apply div_le_div_of_nonneg_right _ hpos.le
  rw [← div_eq_mul_inv, div_le_iff₀ (by linarith)]
  linarith

theorem abs_mul_tail_le (power : ℝ) (denominator : ℕ) (hd : 1 ≤ denominator) :
    |power * seriesTail q denominator| ≤ 1 / 7 * |power / denominator| := by
  have hpos : (0 : ℝ) < denominator := by exact_mod_cast hd
  have hseventh : seriesTail q denominator ≤ 1 / 7 / denominator := by
    refine (hs.tail_le denominator).trans (div_le_div_of_nonneg_left (by norm_num) hpos ?_)
    exact_mod_cast Nat.le_add_right denominator 2
  calc |power * seriesTail q denominator|
      = |power| * seriesTail q denominator := by
        rw [abs_mul, abs_of_nonneg (hs.tail_nonneg denominator)]
    _ ≤ |power| * (1 / 7 / denominator) := mul_le_mul_of_nonneg_left hseventh (abs_nonneg _)
    _ = 1 / 7 * |power / denominator| := by
        rw [abs_div, abs_of_pos hpos]
        ring

theorem factor_le (denominator : ℕ) (hd : 3 ≤ denominator) :
    1 / (denominator : ℝ) + seriesTail q denominator ≤ 38 / 105 := by
  have htail := hs.tail_le denominator
  have hthird : 1 / (denominator : ℝ) ≤ 1 / 3 := by
    apply one_div_le_one_div_of_le (by norm_num)
    exact_mod_cast hd
  have hfifth : 1 / 7 / ((denominator + 2 : ℕ) : ℝ) ≤ 1 / 7 / 5 := by
    apply div_le_div_of_nonneg_left (by norm_num) (by norm_num)
    exact_mod_cast (by omega : 5 ≤ denominator + 2)
  linarith

section Tail

variable {power : Decimal} (hp : |power.toRat| ≤ 2 / 5) (denominator : ℕ) (hd : 1 ≤ denominator)

include hp hd

-- What a step adds and leaves to be added differs by less than a unit from what was left before it.
theorem abs_step_sub_le :
    |((seriesTerm scale (nextPower scale tSquared power) (denominator + 2)).toRat : ℝ) +
        (nextPower scale tSquared power).toRat * seriesTail q (denominator + 2) -
        power.toRat * seriesTail q denominator| ≤ 4 / 5 * 10 ^ (-scale) := by
  have hpower := hs.abs_next_sub_le hp
  have hterm := hs.abs_term_sub_le _ (denominator + 2) (by omega) (hs.abs_next_le hp)
  have hfactor := hs.factor_le (denominator + 2) (by omega)
  have hnonneg := hs.tail_nonneg (denominator + 2)
  rw [seriesTail_eq hs.exact_cast_nonneg hs.exact_cast_lt_one denominator]
  set next := nextPower scale tSquared power
  set term := seriesTerm scale next (denominator + 2)
  set rest := seriesTail q (denominator + 2)
  set place := ((denominator + 2 : ℕ) : ℝ)
  have hpositive : 0 ≤ 1 / place + rest := by positivity
  have hproduct : |((next.toRat : ℝ) - power.toRat * q) * (1 / place + rest)| ≤
      7 / 10 * 10 ^ (-scale) * (38 / 105) := by
    rw [abs_mul, abs_of_nonneg hpositive]
    exact mul_le_mul hpower hfactor hpositive (by positivity)
  have hunit : (0 : ℝ) < 10 ^ (-scale) := by positivity
  calc |(term.toRat : ℝ) + next.toRat * rest - power.toRat * (q * (1 / place + rest))|
      = |(term.toRat - next.toRat / place) +
          (next.toRat - power.toRat * q) * (1 / place + rest)| := by
        congr 1
        ring
    _ ≤ |(term.toRat : ℝ) - next.toRat / place| +
          |(next.toRat - power.toRat * q) * (1 / place + rest)| := abs_add_le _ _
    _ ≤ 4 / 5 * 10 ^ (-scale) := by linarith

-- Where the series stops, less than a unit is left of it.
theorem abs_rest_le (hstop : (seriesTerm scale (nextPower scale tSquared power)
      (denominator + 2)).abs < unitAt scale) :
    |(power.toRat : ℝ) * seriesTail q denominator| ≤ 10 ^ (-scale) := by
  have hzero : (seriesTerm scale (nextPower scale tSquared power) (denominator + 2)).toRat = 0 := by
    rw [lt_iff, toRat_abs, toRat_unitAt] at hstop
    exact (round_hasPlaces _ scale).eq_zero_of_abs_lt hstop
  have hstep := hs.abs_step_sub_le hp denominator hd
  have hterm := hs.abs_term_sub_le _ (denominator + 2) (by omega) (hs.abs_next_le hp)
  rw [hzero, Rat.cast_zero, zero_add] at hstep
  rw [hzero, Rat.cast_zero, zero_sub, abs_neg] at hterm
  have hlater := hs.abs_mul_tail_le (nextPower scale tSquared power).toRat (denominator + 2) (by omega)
  have hunit : (0 : ℝ) < 10 ^ (-scale) := by positivity
  have htriangle := abs_sub_abs_le_abs_sub ((power.toRat : ℝ) * seriesTail q denominator)
    ((nextPower scale tSquared power).toRat * seriesTail q (denominator + 2))
  rw [abs_sub_comm] at hstep
  linarith

end Tail

theorem term_lt_unit (power : Decimal) (denominator : ℕ) (hd : 3 ≤ denominator)
    (hp : |power.toRat| ≤ 2 / 5) (hsmall : |power.toRat| ≤ 7 / 5 * 10 ^ (-scale)) :
    (seriesTerm scale power denominator).abs < unitAt scale := by
  have hterm := hs.abs_term_sub_le power denominator hd hp
  have hpower := abs_cast_le hsmall
  push_cast at hpower
  have hquotient : |(power.toRat : ℝ) / denominator| ≤ |(power.toRat : ℝ)| / 3 := by
    rw [abs_div, Nat.abs_cast]
    exact div_le_div_of_nonneg_left (abs_nonneg _) (by norm_num) (by exact_mod_cast hd)
  have htriangle := abs_sub_abs_le_abs_sub ((seriesTerm scale power denominator).toRat : ℝ)
    (power.toRat / denominator)
  have hunit : (0 : ℝ) < 10 ^ (-scale) := by positivity
  have hreal : |((seriesTerm scale power denominator).toRat : ℝ)| < 10 ^ (-scale) := by linarith
  rw [lt_iff, toRat_abs, toRat_unitAt, ← Rat.cast_lt (K := ℝ)]
  push_cast
  exact hreal

-- From a power below the bound, one step more than the given number reaches the end of the series, and
-- no step loses a whole unit.
theorem abs_atanhSeries_sub_le (steps extra : ℕ) (power sum : Decimal) (denominator : ℕ)
    (hd : 1 ≤ denominator) (hp : |power.toRat| ≤ 2 / 5)
    (hreach : |power.toRat| ≤ (4 / 7 + 6 * 8 ^ steps) * 10 ^ (-scale)) :
    |((atanhSeries scale tSquared (steps + 1 + extra) power sum denominator).toRat : ℝ) -
        (sum.toRat + power.toRat * seriesTail q denominator)| ≤
      (4 / 5 * steps + 1) * 10 ^ (-scale) := by
  have hunit := ten_zpow_pos (-scale)
  have hunits (steps : ℕ) : (10 : ℝ) ^ (-scale) ≤ (4 / 5 * steps + 1) * 10 ^ (-scale) :=
    le_mul_of_one_le_left (by positivity) (by linarith [Nat.cast_nonneg (α := ℝ) steps])
  induction steps generalizing power sum denominator with
  | zero =>
      have hnextPower := abs_nextPower_le scale tSquared power hs.square_nonneg hs.square_le
      have hstop := hs.term_lt_unit _ (denominator + 2) (by omega) (hs.abs_next_le hp)
        (by rw [pow_zero] at hreach; linarith)
      rw [show 0 + 1 + extra = extra + 1 by omega, atanhSeries_succ, if_pos hstop,
        sub_add_cancel_left, abs_neg]
      exact (hs.abs_rest_le hp denominator hd hstop).trans (hunits 0)
  | succ steps ih =>
      rw [show steps + 1 + 1 + extra = steps + 1 + extra + 1 by omega, atanhSeries_succ]
      by_cases hstop : (seriesTerm scale (nextPower scale tSquared power) (denominator + 2)).abs <
          unitAt scale
      · rw [if_pos hstop, sub_add_cancel_left, abs_neg]
        exact (hs.abs_rest_le hp denominator hd hstop).trans (hunits _)
      · rw [if_neg hstop]
        have hnextPower := abs_nextPower_le scale tSquared power hs.square_nonneg hs.square_le
        have hstep := hs.abs_step_sub_le hp denominator hd
        have hnext := hs.abs_next_le hp
        set next := nextPower scale tSquared power
        set term := seriesTerm scale next (denominator + 2)
        have hlater := ih next (sum + term) (denominator + 2) (by omega) hnext
          (by rw [pow_succ] at hreach; linarith)
        rw [← add_sub_add_left_eq_sub _ _ (sum.toRat : ℝ), ← add_assoc] at hstep
        rw [toRat_add, Rat.cast_add] at hlater
        refine (abs_sub_le _ _ _).trans ((add_le_add hlater hstep).trans_eq ?_)
        push_cast
        ring

end SeriesSetting

end ParticipantTrust.Decimal
