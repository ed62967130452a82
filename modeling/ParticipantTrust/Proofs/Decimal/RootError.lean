import ParticipantTrust.Proofs.Decimal.Root
import ParticipantTrust.Proofs.Decimal.Significant
import Mathlib.Analysis.Real.Sqrt

namespace ParticipantTrust.Decimal

theorem two_mul_sqrt_le {x c : ℝ} (hx : 0 ≤ x) (hc : 0 < c) : 2 * √x ≤ c + x / c := by
  have hsquare := Real.sq_sqrt hx
  have hscaled : 2 * √x * c ≤ (c + x / c) * c := by
    rw [add_mul, div_mul_cancel₀ x hc.ne']
    nlinarith [sq_nonneg (c - √x)]
  exact le_of_mul_le_mul_right hscaled hc

theorem div_le_sqrt {x c : ℝ} (hx : 0 ≤ x) (hc : 0 < c) (h : √x ≤ c) : x / c ≤ √x := by
  rw [div_le_iff₀ hc]
  calc x = √x * √x := (Real.mul_self_sqrt hx).symm
    _ ≤ √x * c := mul_le_mul_of_nonneg_left h (Real.sqrt_nonneg x)

-- The quotient and the mean are both rounded, and the error of the quotient counts by half.
theorem abs_newtonNext_sub_le (x current : Decimal) (scale : Int) :
    |(newtonNext x current scale).toRat - (current.toRat + (x / current).toRat) / 2| ≤
      3 / 4 * 10 ^ (-scale) := by
  have hquotient := abs_le.mp (Rounding.abs_halfUp_atScale_sub_le scale (x / current).toRat)
  rw [← toRat_divAt] at hquotient
  have hmean : |(current.toRat + (x.divAt current scale).toRat) / 2 -
      (current.toRat + (x / current).toRat) / 2| ≤ 1 / 4 * 10 ^ (-scale) := by
    rw [abs_le]
    constructor <;> linarith
  have hround := Rounding.abs_halfUp_atScale_sub_le scale
    ((current.toRat + (x.divAt current scale).toRat) / 2)
  rw [← toRat_newtonNext] at hround
  have htotal := (abs_sub_le _ _ _).trans (add_le_add hround hmean)
  linarith

theorem abs_newtonNext_cast_sub_le (x current : Decimal) (scale : Int) :
    |((newtonNext x current scale).toRat : ℝ) - (current.toRat + (x / current).toRat) / 2| ≤
      3 / 4 * 10 ^ (-scale) := by
  have hreal := abs_cast_le (abs_newtonNext_sub_le x current scale)
  push_cast at hreal
  exact hreal

section Step

variable {x current : Decimal} {scale : Int} (hx : 0 < x.toRat) (hc : 0 < current.toRat)
  (hdigits : √(x.toRat : ℝ) * relativeUnit quotientDigits ≤ 1 / 100 * 10 ^ (-scale))

include hx hc

theorem near_quotient_cast :
    (x.toRat : ℝ) / current.toRat * (1 - relativeUnit quotientDigits) ≤ (x / current).toRat ∧
      ((x / current).toRat : ℝ) ≤ x.toRat / current.toRat * (1 + relativeUnit quotientDigits) := by
  have hnear := near_div x current quotientDigits le_rfl hx.le hc
  have hlower := (Rat.cast_le (K := ℝ)).mpr hnear.lower
  have hupper := (Rat.cast_le (K := ℝ)).mpr hnear.upper
  push_cast [pow_one] at hlower hupper
  exact ⟨hlower, hupper⟩

include hdigits

-- The mean of a number and its quotient is never below the root.
theorem sqrt_sub_le_newtonNext :
    √(x.toRat : ℝ) - 10 ^ (-scale) ≤ (newtonNext x current scale).toRat := by
  have hx' : (0 : ℝ) ≤ x.toRat := Rat.cast_nonneg.mpr hx.le
  have hc' : (0 : ℝ) < current.toRat := Rat.cast_pos.mpr hc
  have hloss0 : (0 : ℝ) ≤ relativeUnit quotientDigits :=
    Rat.cast_nonneg.mpr (relativeUnit_nonneg _)
  have hloss1 : (relativeUnit quotientDigits : ℝ) ≤ 1 := by
    exact_mod_cast relativeUnit_le_one (by decide)
  have hmean := mul_le_mul_of_nonneg_right (two_mul_sqrt_le hx' hc') (sub_nonneg.mpr hloss1)
  have hkept := mul_le_of_le_one_right hc'.le (sub_le_self 1 hloss0)
  have hround := (abs_le.mp (abs_newtonNext_cast_sub_le x current scale)).1
  have hquotient := (near_quotient_cast hx hc).1
  have hunit : (0 : ℝ) < 10 ^ (-scale) := zpow_pos (by norm_num) _
  linarith

-- Above the root a step halves the distance, but for the roundings.
theorem newtonNext_sub_sqrt_le (h : √(x.toRat : ℝ) ≤ current.toRat) :
    ((newtonNext x current scale).toRat : ℝ) - √(x.toRat : ℝ) ≤
      (current.toRat - √(x.toRat : ℝ)) / 2 + 151 / 200 * 10 ^ (-scale) := by
  have hx' : (0 : ℝ) ≤ x.toRat := Rat.cast_nonneg.mpr hx.le
  have hc' : (0 : ℝ) < current.toRat := Rat.cast_pos.mpr hc
  have hgain : (0 : ℝ) ≤ 1 + relativeUnit quotientDigits :=
    add_nonneg zero_le_one (Rat.cast_nonneg.mpr (relativeUnit_nonneg _))
  have hexact := mul_le_mul_of_nonneg_right (div_le_sqrt hx' hc' h) hgain
  have hround := (abs_le.mp (abs_newtonNext_cast_sub_le x current scale)).2
  have hquotient := (near_quotient_cast hx hc).2
  linarith

end Step

-- Every step halves the distance to one and a half units above the root, and where a step does not fall
-- the distance is as small as that. Below the root a descent has nothing left to lose but the unit that
-- its roundings may cost.
theorem abs_newtonDescent_sub_sqrt_le (x : Decimal) (scale : Int) (steps : Nat) (current : Decimal)
    (hx : 0 < x.toRat)
    (hdigits : √(x.toRat : ℝ) * relativeUnit quotientDigits ≤ 1 / 100 * 10 ^ (-scale))
    (hunit : 10 ^ (-scale) ≤ current.toRat)
    (hlow : √(x.toRat : ℝ) - 10 ^ (-scale) ≤ current.toRat)
    (hhigh : current.toRat - √(x.toRat : ℝ) ≤
      151 / 100 * 10 ^ (-scale) + 2 ^ steps * (49 / 100 * 10 ^ (-scale))) :
    ∃ root, newtonDescent x scale steps current = some root ∧ 0 ≤ root.toRat ∧
      |(root.toRat : ℝ) - √(x.toRat : ℝ)| ≤ 2 * 10 ^ (-scale) := by
  have hu : (0 : ℝ) < 10 ^ (-scale) := zpow_pos (by norm_num) _
  have hc : 0 < current.toRat := (ten_zpow_pos _).trans_le hunit
  induction steps generalizing current with
  | zero =>
      refine ⟨current, rfl, hc.le, abs_le.mpr ⟨by linarith, ?_⟩⟩
      rw [pow_zero, one_mul] at hhigh
      linarith
  | succ steps ih =>
      rw [newtonDescent_succ x scale steps current hc.ne']
      split
      · rename_i hstall
        have hstall' := (Rat.cast_le (K := ℝ)).mpr ((le_iff _ _).mp hstall)
        refine ⟨current, rfl, hc.le, abs_le.mpr ⟨by linarith, ?_⟩⟩
        rcases le_total (√(x.toRat : ℝ)) current.toRat with habove | hbelow
        · have hhalved := newtonNext_sub_sqrt_le hx hc hdigits habove
          linarith
        · linarith
      · rename_i hfalls
        have hfalls' := (Rat.cast_lt (K := ℝ)).mpr (not_le.mp (mt (le_iff _ _).mpr hfalls))
        have hunit' := unit_le_newtonNext x current scale hx.le hunit
        refine ih _ hunit' (sqrt_sub_le_newtonNext hx hc hdigits) ?_ ((ten_zpow_pos _).trans_le hunit')
        rcases le_total (√(x.toRat : ℝ)) current.toRat with habove | hbelow
        · have hhalved := newtonNext_sub_sqrt_le hx hc hdigits habove
          rw [pow_succ] at hhigh
          linarith
        · have hspare : (0 : ℝ) ≤ 2 ^ steps * (49 / 100 * 10 ^ (-scale)) := by positivity
          linarith

-- The start is never below the root, and five hundred halvings bring a distance of twenty places before
-- the point under a unit of seventy places behind it.
theorem abs_newtonDescent_start_sub_sqrt_le (x : Decimal) (scale : Int) (hx : 0 < x.toRat)
    (hmax : x.toRat ≤ 10 ^ 20) (h0 : 0 ≤ scale) (h70 : scale ≤ 70) :
    ∃ root, newtonDescent x scale newtonSteps (newtonStart x) = some root ∧ 0 ≤ root.toRat ∧
      |(root.toRat : ℝ) - √(x.toRat : ℝ)| ≤ 2 * 10 ^ (-scale) := by
  have hu : (0 : ℝ) < 10 ^ (-scale) := zpow_pos (by norm_num) _
  have hfine : (10 : ℝ) ^ (-70 : ℤ) ≤ 10 ^ (-scale) := zpow_le_zpow_right₀ (by norm_num) (by omega)
  have hmax' : (x.toRat : ℝ) ≤ 10 ^ 20 := by exact_mod_cast hmax
  have hstart := toRat_newtonStart x
  have hroot : √(x.toRat : ℝ) ≤ 10 ^ 10 :=
    Real.sqrt_le_iff.mpr ⟨by norm_num, hmax'.trans (by norm_num)⟩
  have habove : √(x.toRat : ℝ) ≤ (newtonStart x).toRat := by
    rw [hstart, Rat.cast_max, Rat.cast_one]
    refine Real.sqrt_le_iff.mpr ⟨le_max_of_le_right zero_le_one, ?_⟩
    calc (x.toRat : ℝ) ≤ max (x.toRat : ℝ) 1 := le_max_left _ _
      _ ≤ max (x.toRat : ℝ) 1 ^ 2 := le_self_pow₀ (le_max_right _ _) (by norm_num)
  have hnear : ((newtonStart x).toRat : ℝ) ≤ 10 ^ 20 := by
    rw [hstart, Rat.cast_max, Rat.cast_one]
    exact max_le hmax' (by norm_num)
  apply abs_newtonDescent_sub_sqrt_le x scale newtonSteps (newtonStart x) hx
  · have hloss : (0 : ℝ) ≤ relativeUnit quotientDigits := Rat.cast_nonneg.mpr (relativeUnit_nonneg _)
    calc √(x.toRat : ℝ) * relativeUnit quotientDigits ≤ 10 ^ 10 * relativeUnit quotientDigits :=
          mul_le_mul_of_nonneg_right hroot hloss
      _ ≤ 1 / 100 * 10 ^ (-70 : ℤ) := by norm_num [relativeUnit, quotientDigits]
      _ ≤ 1 / 100 * 10 ^ (-scale) := mul_le_mul_of_nonneg_left hfine (by norm_num)
  · rw [hstart]
    exact le_max_of_le_right (zpow_le_one_of_nonpos₀ (by norm_num) (by omega))
  · linarith
  · have hsteps : (10 : ℝ) ^ 20 ≤ 2 ^ newtonSteps * (49 / 100 * 10 ^ (-70 : ℤ)) := by
      rw [show newtonSteps = 128 * 4 from rfl, pow_mul]
      norm_num
    have hspare : (2 : ℝ) ^ newtonSteps * (49 / 100 * 10 ^ (-70 : ℤ)) ≤
        2 ^ newtonSteps * (49 / 100 * 10 ^ (-scale)) :=
      mul_le_mul_of_nonneg_left (mul_le_mul_of_nonneg_left hfine (by norm_num))
        (pow_nonneg (by norm_num) _)
    linarith [Real.sqrt_nonneg (x.toRat : ℝ)]

end ParticipantTrust.Decimal

namespace ParticipantTrust.Elementary

open Decimal

theorem sqrt_near (x : Decimal) (precision : Int) (hx : 0 ≤ x.toRat) (hmax : x.toRat ≤ 10 ^ 20)
    (h0 : 0 ≤ precision) (h60 : precision ≤ 60) :
    ∃ root, sqrt x precision = .ok root ∧ 0 ≤ root.toRat ∧
      |(root.toRat : ℝ) - √(x.toRat : ℝ)| ≤
        1 / 2 * 10 ^ (-precision) + 2 * 10 ^ (-(precision + 10)) := by
  rw [sqrt_of_nonneg x precision hx]
  rcases hx.eq_or_lt with hzero | hpos
  · refine ⟨_, by rw [sqrt_of_eq_zero x precision hzero.symm, Option.elim_some], ?_⟩
    rw [← hzero, toRat_round, toRat_zero, Rounding.atScale_zero, Rat.cast_zero, Real.sqrt_zero,
      sub_zero, abs_zero]
    exact ⟨le_rfl, add_nonneg (mul_nonneg (by norm_num) (zpow_nonneg (by norm_num) _))
      (mul_nonneg (by norm_num) (zpow_nonneg (by norm_num) _))⟩
  · obtain ⟨root, hroot, hnonneg, hdistance⟩ := abs_newtonDescent_start_sub_sqrt_le x
      (precision + guardDigits) hpos hmax (by rw [guardDigits]; omega) (by rw [guardDigits]; omega)
    have hround := abs_cast_le (Rounding.abs_halfUp_atScale_sub_le precision root.toRat)
    rw [← toRat_round] at hround
    push_cast at hround
    refine ⟨root.round precision, ?_, ?_, (abs_sub_le _ _ _).trans (add_le_add hround hdistance)⟩
    · rw [sqrt_of_ne_zero x precision hpos.ne', hroot]
      rfl
    · rw [toRat_round]
      exact Rounding.halfUp.atScale_nonneg precision hnonneg

-- Half a unit is lost by the last rounding, and two units of the guard digits by the descent,
-- wherever it stops.
theorem sqrt_accurate (x : Decimal) (precision : Int) (hx : 0 ≤ x.toRat) (hmax : x.toRat ≤ 10 ^ 20)
    (h0 : 0 ≤ precision) (h60 : precision ≤ 60) :
    let d : ℚ := 1 / 2 * 10 ^ (-precision) + 2 * 10 ^ (-(precision + 10))
    ∃ root, sqrt x precision = .ok root ∧ 0 ≤ root.toRat ∧ x.toRat ≤ (root.toRat + d) ^ 2 ∧
      (d ≤ root.toRat → (root.toRat - d) ^ 2 ≤ x.toRat) := by
  intro d
  obtain ⟨root, hroot, hnonneg, hnear⟩ := sqrt_near x precision hx hmax h0 h60
  have hd : (d : ℝ) = 1 / 2 * 10 ^ (-precision) + 2 * 10 ^ (-(precision + 10)) := by
    push_cast [d]
    rfl
  have hsquare := Real.sq_sqrt (Rat.cast_nonneg (K := ℝ).mpr hx)
  obtain ⟨hlow, hhigh⟩ := abs_le.mp (hnear.trans_eq hd.symm)
  refine ⟨root, hroot, hnonneg, ?_, fun hle => ?_⟩
  · have hcast : (x.toRat : ℝ) ≤ (root.toRat + d) ^ 2 := by
      rw [← hsquare]
      exact pow_le_pow_left₀ (Real.sqrt_nonneg _) (by linarith) 2
    exact_mod_cast hcast
  · have hle' := (Rat.cast_le (K := ℝ)).mpr hle
    have hcast : ((root.toRat : ℝ) - d) ^ 2 ≤ x.toRat := by
      rw [← hsquare]
      exact pow_le_pow_left₀ (by linarith) (by linarith) 2
    exact_mod_cast hcast

-- Below one the descent starts at one.
theorem sqrt_accurate_below_one : 0 ≤ toRat ⟨475, 6⟩ ∧ toRat ⟨475, 6⟩ ≤ 10 ^ 20 ∧ (0 : Int) ≤ 12 ∧
    (12 : Int) ≤ 60 ∧ ∃ root, sqrt ⟨475, 6⟩ 12 = .ok root ∧ root = ⟨21794494718, 12⟩ ∧
      toRat ⟨475, 6⟩ ≤ (root.toRat + (1 / 2 * 10 ^ (-12 : Int) + 2 * 10 ^ (-22 : Int))) ^ 2 := by
  have hnonneg : 0 ≤ toRat ⟨475, 6⟩ := by norm_num [toRat]
  have hmax : toRat ⟨475, 6⟩ ≤ 10 ^ 20 := by norm_num [toRat]
  have hvalue : Decimal.sqrt ⟨475, 6⟩ 12 = some ⟨21794494718, 12⟩ := by decide +kernel
  obtain ⟨root, hroot, -, hupper, -⟩ :=
    sqrt_accurate ⟨475, 6⟩ 12 hnonneg hmax (by decide) (by decide)
  have hsame := hroot
  rw [sqrt_of_nonneg _ _ hnonneg, hvalue, Option.elim_some, Except.ok.injEq] at hsame
  exact ⟨hnonneg, hmax, by decide, by decide, root, hroot, hsame.symm, hupper⟩

end ParticipantTrust.Elementary
