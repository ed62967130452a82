import ParticipantTrust.Proofs.Decimal.RootError
import ParticipantTrust.Proofs.Domain
import ParticipantTrust.Statistics.Observation
import Mathlib.NumberTheory.Real.Irrational
import Mathlib.Tactic.LinearCombination

namespace ParticipantTrust.Observation

open Decimal

-- The larger root of `y² - 3 y + 1`.
noncomputable def exactFailureBound : ℝ := (3 + √5) / 2

theorem sqrt_five_bounds : (2 : ℝ) ≤ √5 ∧ √5 ≤ 5 / 2 :=
  ⟨Real.le_sqrt_of_sq_le (by norm_num), Real.sqrt_le_iff.mpr ⟨by norm_num, by norm_num⟩⟩

theorem quadratic_eq_mul (y : ℝ) :
    y ^ 2 - 3 * y + 1 = (y - exactFailureBound) * (y - exactFailureBound + √5) := by
  have hsquare := Real.sq_sqrt (show (0 : ℝ) ≤ 5 by norm_num)
  rw [exactFailureBound]
  linear_combination (1 / 4) * hsquare

-- From three halves on the quadratic changes its sign at the bound only.
theorem quadratic_nonneg_iff (y : ℝ) :
    (3 / 2 ≤ y ∧ 0 ≤ y ^ 2 - 3 * y + 1) ↔ exactFailureBound ≤ y := by
  obtain ⟨hlow, -⟩ := sqrt_five_bounds
  rw [quadratic_eq_mul]
  constructor
  · rintro ⟨hy, hproduct⟩
    have hpos : 0 < y - exactFailureBound + √5 := by
      rw [exactFailureBound]
      linarith
    exact sub_nonneg.mp (nonneg_of_mul_nonneg_left hproduct hpos)
  · intro hy
    have hy' := hy
    rw [exactFailureBound] at hy'
    exact ⟨by linarith, mul_nonneg (sub_nonneg.mpr hy) (by linarith)⟩

theorem quadratic_ne_zero (y : ℚ) : y ^ 2 - 3 * y + 1 ≠ 0 := by
  intro hzero
  have hcast : ((y : ℝ)) ^ 2 - 3 * y + 1 = 0 := by exact_mod_cast hzero
  have hsquare : (5 : ℝ) = (2 * y - 3) ^ 2 := by linarith
  have hroot : √5 = ((|2 * y - 3| : ℚ) : ℝ) := by
    rw [hsquare, Real.sqrt_sq_eq_abs]
    push_cast
    rfl
  exact Nat.prime_five.irrational_sqrt ⟨_, by exact_mod_cast hroot.symm⟩

-- The quadratic is a whole number of units of twice as many places, and not zero. So the bound,
-- like every quadratic irrational, keeps a distance from numbers with few places.
theorem lt_abs_sub_exactFailureBound (y : ℚ) (hy : HasPlaces 14 y) :
    3 / 10 ^ 29 < |(y : ℝ) - exactFailureBound| := by
  obtain ⟨-, hhigh⟩ := sqrt_five_bounds
  by_contra hnear
  rw [not_lt] at hnear
  have hplaces : HasPlaces 28 (y ^ 2 - 3 * y + 1) := by
    obtain ⟨n, rfl⟩ := hy
    refine ⟨n ^ 2 - 3 * n * 10 ^ 14 + 10 ^ 28, ?_⟩
    norm_num
    ring
  apply quadratic_ne_zero y
  apply hplaces.eq_zero_of_abs_lt
  have hsum : |(y : ℝ) - exactFailureBound + √5| ≤ 3 := by
    obtain ⟨hlow, hup⟩ := abs_le.mp hnear
    exact abs_le.mpr ⟨by linarith [Real.sqrt_nonneg 5], by linarith⟩
  have hproduct : |(y : ℝ) ^ 2 - 3 * y + 1| ≤ 3 / 10 ^ 29 * 3 := by
    rw [quadratic_eq_mul, abs_mul]
    exact mul_le_mul hnear hsum (abs_nonneg _) (by norm_num)
  have hcast : |y ^ 2 - 3 * y + 1| ≤ 3 / 10 ^ 29 * 3 := by
    rw [← Rat.cast_le (K := ℝ), Rat.cast_abs]
    push_cast
    exact hproduct
  exact hcast.trans_lt (by norm_num)

structure NearFailureBound (bound : Decimal) : Prop where
  nonneg : 0 ≤ bound.toRat
  le_three : bound.toRat ≤ 3
  near : |(bound.toRat : ℝ) - exactFailureBound| ≤ 1 / 10 ^ 30

-- The root is half a unit off and is halved, and the half is rounded by half a unit.
theorem singleFailureBound_near : ∃ bound, singleFailureBound = .ok bound ∧ NearFailureBound bound := by
  obtain ⟨root, hroot, hnonneg, hnear⟩ := Elementary.sqrt_near (ofInt 5) Streak.precision
    (by norm_num) (by norm_num) (by decide) (by decide)
  obtain ⟨hlow, hhigh⟩ := sqrt_five_bounds
  set bound := (ofInt 3 + root).divAt (ofInt 2) Streak.precision with hbound
  have hsum : 0 ≤ (ofInt 3 + root).toRat / (ofInt 2).toRat := by
    rw [toRat_add, toRat_ofInt, toRat_ofInt]
    push_cast
    linarith
  have hhalf := abs_cast_le (abs_divAt_sub_le (ofInt 3 + root) (ofInt 2) Streak.precision (by norm_num))
  rw [abs_of_nonneg hsum, ← hbound, toRat_add, toRat_ofInt, toRat_ofInt] at hhalf
  norm_num [relativeUnit, quotientDigits, Streak.precision] at hhalf hnear
  rw [abs_le] at hhalf hnear
  have hdistance : |(bound.toRat : ℝ) - exactFailureBound| ≤ 1 / 10 ^ 30 := by
    rw [exactFailureBound, abs_le]
    constructor <;> linarith
  obtain ⟨hbelow, habove⟩ := abs_le.mp hdistance
  rw [exactFailureBound] at hbelow habove
  refine ⟨bound, ?_, ?_, ?_, hdistance⟩
  · rw [singleFailureBound, hroot]
    rfl
  · have hcast : (0 : ℝ) ≤ bound.toRat := by linarith
    exact_mod_cast hcast
  · have hcast : (bound.toRat : ℝ) ≤ 3 := by linarith
    exact_mod_cast hcast

theorem abs_divAt_mul_sub_exactFailureBound_le (bound rate : Decimal) (hbound : NearFailureBound bound)
    (hrate0 : 0 < rate.toRat) (hrate1 : rate.toRat < 1) :
    |((bound.divAt rate Streak.precision).toRat : ℝ) * rate.toRat - exactFailureBound| ≤
      2 / 10 ^ 30 := by
  have hquotient := abs_divAt_sub_le bound rate Streak.precision hrate0
  rw [abs_of_nonneg (div_nonneg hbound.nonneg hrate0.le)] at hquotient
  have hexact : (bound.divAt rate Streak.precision).toRat * rate.toRat - bound.toRat =
      ((bound.divAt rate Streak.precision).toRat - bound.toRat / rate.toRat) * rate.toRat := by
    rw [sub_mul, div_mul_cancel₀ _ hrate0.ne']
  have hle := hbound.le_three
  have hclose : |(bound.divAt rate Streak.precision).toRat * rate.toRat - bound.toRat| ≤
      1 / 10 ^ 30 := by
    calc |(bound.divAt rate Streak.precision).toRat * rate.toRat - bound.toRat|
        = |(bound.divAt rate Streak.precision).toRat - bound.toRat / rate.toRat| * rate.toRat := by
          rw [hexact, abs_mul, abs_of_pos hrate0]
      _ ≤ (bound.toRat / rate.toRat * relativeUnit quotientDigits +
            1 / 2 * 10 ^ (-Streak.precision)) * rate.toRat :=
          mul_le_mul_of_nonneg_right hquotient hrate0.le
      _ = bound.toRat * relativeUnit quotientDigits + 1 / 2 * 10 ^ (-Streak.precision) * rate.toRat := by
          rw [add_mul, mul_right_comm, div_mul_cancel₀ _ hrate0.ne']
      _ ≤ 1 / 10 ^ 30 := by
          norm_num [relativeUnit, quotientDigits, Streak.precision]
          linarith
  have hreal := abs_cast_le hclose
  push_cast at hreal
  have htotal := (abs_sub_le _ _ _).trans (add_le_add hreal hbound.near)
  linarith

-- Where `a` is nearer to `c` than `y` is, `y` has both on one side.
theorem le_iff_le_of_abs_sub_lt {a c y : ℝ} (h : |a - c| < |y - c|) : a ≤ y ↔ c ≤ y := by
  rcases le_total c y with hcy | hyc
  · rw [abs_of_nonneg (sub_nonneg.mpr hcy), abs_lt] at h
    exact ⟨fun _ => hcy, fun _ => by linarith⟩
  · rw [abs_of_nonpos (sub_nonpos.mpr hyc), abs_lt] at h
    exact ⟨fun hay => by linarith, fun hle => by linarith⟩

-- No integer lies between the computed quotient and the exact one.
theorem needed_le_iff (bound rate : Decimal) (hbound : NearFailureBound bound) (hrate0 : 0 < rate.toRat)
    (hrate1 : rate.toRat < 1) (hplaces : HasPlaces 14 rate.toRat) (k : ℕ) :
    (((bound.divAt rate Streak.precision).roundWith .ceiling 0).mantissa).toNat ≤ k ↔
      exactFailureBound ≤ k * rate.toRat := by
  have hgap := lt_abs_sub_exactFailureBound (rate.toRat * k) (hplaces.mul_intCast k)
  have hquotient := abs_divAt_mul_sub_exactFailureBound_le bound rate hbound hrate0 hrate1
  have hrate : (0 : ℝ) < rate.toRat := Rat.cast_pos.mpr hrate0
  push_cast at hgap
  rw [mul_comm] at hgap
  rw [roundWith_mantissa, Int.toNat_le]
  change ⌈_⌉ ≤ _ ↔ _
  rw [Int.ceil_le, Int.cast_natCast, ← le_iff_le_of_abs_sub_lt (hquotient.trans_lt (by linarith)),
    mul_le_mul_iff_left₀ hrate]
  norm_cast

-- Rates of at most fourteen places get the exact number, for none of them does a multiple come as
-- near to the bound as the roundings do.
theorem measurementsNeeded_exact (rate : Decimal) (limit : Nat)
    (hrate : Domain.openUnit.Contains rate) (hplaces : HasPlaces 14 rate.toRat) :
    ∃ n : ℕ, measurementsNeeded rate limit = .ok (min limit n) ∧
      IsLeast {n : ℕ | 3 / 2 ≤ n * rate.toRat ∧
        0 ≤ (n * rate.toRat) ^ 2 - 3 * (n * rate.toRat) + 1} n ∧
      n = ⌈(3 + √5) / (2 * (rate.toRat : ℝ))⌉₊ := by
  obtain ⟨hrate0, hrate1⟩ := (Domain.openUnit_contains_iff rate).mp hrate
  obtain ⟨bound, hcomputed, hbound⟩ := singleFailureBound_near
  have hrate0' : (0 : ℝ) < rate.toRat := Rat.cast_pos.mpr hrate0
  set n := (((bound.divAt rate Streak.precision).roundWith .ceiling 0).mantissa).toNat
  have hneeded : ∀ k : ℕ, n ≤ k ↔ exactFailureBound ≤ k * rate.toRat :=
    needed_le_iff bound rate hbound hrate0 hrate1 hplaces
  have hleast : ∀ k : ℕ, n ≤ k ↔ 3 / 2 ≤ k * rate.toRat ∧
      0 ≤ (k * rate.toRat) ^ 2 - 3 * (k * rate.toRat) + 1 := by
    intro k
    rw [hneeded k, ← quadratic_nonneg_iff]
    simp only [← Rat.cast_le (K := ℝ)]
    push_cast
    rfl
  refine ⟨n, ?_, ⟨(hleast n).mp le_rfl, fun k hk => (hleast k).mpr hk⟩, ?_⟩
  · rw [measurementsNeeded, Domain.require, if_pos hrate, hcomputed, min_comm limit]
    rfl
  · refine eq_of_forall_ge_iff fun k => ?_
    rw [hneeded k, Nat.ceil_le, exactFailureBound, ← div_div, div_le_iff₀ hrate0']

-- The smallest rate asks for fifteen digits.
theorem measurementsNeeded_exact_at_smallest : Domain.openUnit.Contains ⟨1, 14⟩ ∧
    HasPlaces 14 (toRat ⟨1, 14⟩) ∧ measurementsNeeded ⟨1, 14⟩ (2 ^ 64 - 1) = .ok 261803398874990 ∧
    261803398874990 = ⌈(3 + √5) / (2 * (toRat ⟨1, 14⟩ : ℝ))⌉₊ := by
  have hrate : Domain.openUnit.Contains ⟨1, 14⟩ := by decide
  have hvalue : measurementsNeeded ⟨1, 14⟩ (2 ^ 64 - 1) = .ok 261803398874990 := by decide +kernel
  obtain ⟨n, hn, -, hceil⟩ :=
    measurementsNeeded_exact ⟨1, 14⟩ (2 ^ 64 - 1) hrate (hasPlaces_toRat 1 14)
  rw [hvalue, Except.ok.injEq] at hn
  refine ⟨hrate, hasPlaces_toRat 1 14, hvalue, ?_⟩
  rw [← hceil]
  omega

end ParticipantTrust.Observation
