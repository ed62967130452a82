import ParticipantTrust.Proofs.Decimal.WrittenForm
import ParticipantTrust.Statistics.Binomial
import Mathlib.Algebra.BigOperators.Intervals
import Mathlib.Data.Nat.Choose.Sum
import Mathlib.Data.Rat.Cast.Order
import Mathlib.Tactic.FieldSimp
import Mathlib.Tactic.LinearCombination
import Mathlib.Tactic.Positivity

namespace ParticipantTrust.Binomial

theorem runningCoefficient_eq (n i : Nat) : runningCoefficient n i = n.choose i := by
  induction i with
  | zero => rw [runningCoefficient, Nat.choose_zero_right]
  | succ i ih =>
      rw [runningCoefficient, ih, ← Nat.choose_succ_right_eq, Nat.mul_div_cancel _ (Nat.succ_pos i)]

theorem coefficient_eq (n k : Nat) (hk : k ≤ n) : coefficient n k = n.choose k := by
  rw [coefficient, runningCoefficient_eq]
  rcases min_choice k (n - k) with h | h
  · rw [h]
  · rw [h, Nat.choose_symm hk]

-- Multiplied first, the product of a step is a multiple of its divisor. The coefficient alone need not
-- be one: `7` is not a multiple of `2`.
theorem succ_dvd_runningCoefficient_mul (n i : Nat) :
    i + 1 ∣ runningCoefficient n i * (n - i) := by
  rw [runningCoefficient_eq, ← Nat.choose_succ_right_eq]
  exact Nat.dvd_mul_left (i + 1) (n.choose (i + 1))

-- Each step reaches the next binomial coefficient without a remainder, and the steps along the shorter
-- side reach the one that the probability of `k` hits is weighted by.
theorem coefficient_exact (n k : Nat) (hk : k ≤ n) :
    (∀ i, runningCoefficient n i = n.choose i) ∧
      (∀ i, runningCoefficient n i * (n - i) % (i + 1) = 0) ∧
      coefficient n k = runningCoefficient n (min k (n - k)) ∧ coefficient n k = n.choose k ∧
      ∀ (p q : Decimal) (digits : Int), pointProbability n k p q digits =
        (Decimal.ofInt (n.choose k) *
          (p.powSignificant k digits * q.powSignificant (n - k) digits)).roundSignificant digits := by
  have hfinal := coefficient_eq n k hk
  refine ⟨runningCoefficient_eq n, fun i => ?_, rfl, hfinal, fun p q digits => ?_⟩
  · exact Nat.mod_eq_zero_of_dvd (succ_dvd_runningCoefficient_mul n i)
  · rw [pointProbability, hfinal]

-- Three steps for four hits among seven: the second of them would lose a half
-- if it divided first.
theorem coefficient_exact_four_of_seven : 4 ≤ 7 ∧ runningCoefficient 7 2 = 21 ∧
    runningCoefficient 7 2 * (7 - 2) % (2 + 1) = 0 ∧ coefficient 7 4 = runningCoefficient 7 3 ∧
    coefficient 7 4 = 35 := by
  obtain ⟨hsteps, heven, hside, hfinal, -⟩ := coefficient_exact 7 4 (by decide)
  exact ⟨by decide, hsteps 2, heven 2, hside, hfinal⟩

-- Exact probability of `i` hits among `n`, where a hit has the probability `p` and a miss `q`.
def weight (n : Nat) (p q : ℚ) (i : Nat) : ℚ := n.choose i * p ^ i * q ^ (n - i)

-- Exact probability of `k` hits or more.
def exactTail (n k : Nat) (p q : ℚ) : ℚ := ∑ i ∈ Finset.Icc k n, weight n p q i

theorem weight_nonneg (n : Nat) (p q : ℚ) (i : Nat) (hp : 0 ≤ p) (hq : 0 ≤ q) :
    0 ≤ weight n p q i := by
  unfold weight
  positivity

theorem weight_succ (n : Nat) (p q : ℚ) (i : Nat) (hi : i < n) (hq : q ≠ 0) :
    weight n p q i * (((n - i : Nat) : ℚ) / ((i + 1 : Nat) : ℚ)) * (p / q) = weight n p q (i + 1) := by
  have hchoose : ((n.choose (i + 1) : Nat) : ℚ) * ((i + 1 : Nat) : ℚ) =
      (n.choose i : Nat) * ((n - i : Nat) : ℚ) := by
    exact_mod_cast Nat.choose_succ_right_eq n i
  have hpos : ((i + 1 : Nat) : ℚ) ≠ 0 := by positivity
  have hmiss : q ^ (n - i) = q ^ (n - (i + 1)) * q := by
    rw [← pow_succ]
    congr 1
    omega
  rw [weight, weight, hmiss, pow_succ]
  field_simp
  linear_combination (-(p ^ i * p)) * hchoose

theorem weight_mirror (n : Nat) (p q : ℚ) (i : Nat) (hi : i ≤ n) :
    weight n q p (n - i) = weight n p q i := by
  rw [weight, weight, Nat.choose_symm hi, Nat.sub_sub_self hi]
  ring

theorem sum_weight (n : Nat) (p q : ℚ) :
    ∑ i ∈ Finset.range (n + 1), weight n p q i = (p + q) ^ n := by
  rw [add_pow]
  apply Finset.sum_congr rfl
  intro i _
  rw [weight]
  ring

theorem exactTail_nonneg (n k : Nat) (p q : ℚ) (hp : 0 ≤ p) (hq : 0 ≤ q) : 0 ≤ exactTail n k p q :=
  Finset.sum_nonneg fun i _ => weight_nonneg n p q i hp hq

-- More than `j` hits, or at least `n - j` misses.
theorem exactTail_add_mirror (n j : Nat) (p q : ℚ) (hj : j < n) (hpq : p + q = 1) :
    exactTail n (j + 1) p q + exactTail n (n - j) q p = 1 := by
  have hmirror : exactTail n (n - j) q p = ∑ i ∈ Finset.range (j + 1), weight n p q i := by
    rw [exactTail, ← Finset.Ico_add_one_right_eq_Icc, Finset.range_eq_Ico]
    have hreflect := Finset.sum_Ico_reflect (weight n p q) (n - j) (le_refl (n + 1))
    rw [Nat.sub_self, show n + 1 - (n - j) = j + 1 by omega] at hreflect
    rw [← hreflect]
    apply Finset.sum_congr rfl
    intro i hi
    rw [Finset.mem_Ico] at hi
    exact (weight_mirror n q p i (by omega)).symm
  rw [hmirror, exactTail, ← Finset.Ico_add_one_right_eq_Icc, add_comm,
    Finset.sum_range_add_sum_Ico _ (by omega), sum_weight, hpq, one_pow]

theorem exactTail_le_one (n k : Nat) (p q : ℚ) (hp : 0 ≤ p) (hq : 0 ≤ q) (hpq : p + q = 1) :
    exactTail n k p q ≤ 1 := by
  rw [← one_pow n, ← hpq, ← sum_weight]
  apply Finset.sum_le_sum_of_subset_of_nonneg
  · intro i hi
    rw [Finset.mem_Icc] at hi
    rw [Finset.mem_range]
    omega
  · exact fun i _ _ => weight_nonneg n p q i hp hq

-- The term for `i + 1` hits, as it is formed from the one for `i`.
def nextTerm (n : Nat) (ratio : Decimal) (working : Int) (i : Nat) (term : Decimal) : Decimal :=
  let factor := (Decimal.ofInt ((n - i : Nat) : Int)).divSignificant (Decimal.ofInt (i + 1)) working
  (term * factor * ratio).roundSignificant working

theorem ascendingSum_of_lt (n : Nat) (ratio : Decimal) (working : Int) (i : Nat) (term sum : Decimal)
    (hi : i < n) :
    let next := nextTerm n ratio working i term
    ascendingSum n ratio working i term sum =
      ascendingSum n ratio working (i + 1) next ((sum + next).round working) := by
  rw [ascendingSum, if_pos hi]
  rfl

theorem ascendingSum_of_le (n : Nat) (ratio : Decimal) (working : Int) (i : Nat) (term sum : Decimal)
    (hi : n ≤ i) : ascendingSum n ratio working i term sum = sum := by
  rw [ascendingSum, if_neg (by omega)]

-- Hits and misses trade places.
theorem pointProbability_mirror (n k : Nat) (p q : Decimal) (digits : Int) (hk : k ≤ n) :
    pointProbability n (n - k) q p digits = pointProbability n k p q digits := by
  have hcoefficient : coefficient n (n - k) = coefficient n k := by
    rw [coefficient, coefficient, Nat.sub_sub_self hk, min_comm]
  rw [pointProbability, pointProbability, hcoefficient, Nat.sub_sub_self hk,
    Decimal.mul_comm (q.powSignificant (n - k) digits)]

-- Going down from `j` hits takes the same steps as going up from `n - j` misses.
theorem descendingSum_eq (n : Nat) (ratio : Decimal) (working : Int) (j : Nat) (term sum : Decimal)
    (hj : j ≤ n) :
    descendingSum n ratio working j term sum = ascendingSum n ratio working (n - j) term sum := by
  induction j generalizing term sum with
  | zero => rw [descendingSum, ascendingSum_of_le n ratio working (n - 0) term sum le_rfl]
  | succ j ih =>
      have hnext : n - (j + 1) + 1 = n - j := by omega
      have hup : n - (n - (j + 1)) = j + 1 := by omega
      have hcast : ((n - (j + 1) : Nat) : Int) + 1 = (n - j : Nat) := by omega
      rw [descendingSum, ascendingSum_of_lt n ratio working _ term sum (by omega), ih _ _ (by omega),
        nextTerm, hup, hcast, hnext]
      rfl

theorem lowerTail_eq_upperTail (n j : Nat) (p q : Decimal) (working : Int) (hj : j ≤ n) :
    lowerTail n j p q working = upperTail n (n - j) q p working := by
  rw [lowerTail, upperTail, pointProbability_mirror n j p q working hj, descendingSum_eq _ _ _ _ _ _ hj]

end ParticipantTrust.Binomial
