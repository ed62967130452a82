import ParticipantTrust.Proofs.Decimal.Significant
import ParticipantTrust.Proofs.Domain
import ParticipantTrust.Proofs.Statistics.Binomial
import Mathlib.Tactic.Positivity

namespace ParticipantTrust.Binomial

open Decimal

section Tail

variable (n k : Nat) (p q : Decimal) (working : Int)

theorem near_pointProbability (hw : 1 ≤ working) (hk : k ≤ n) (hp : 0 ≤ p.toRat) (hq : 0 ≤ q.toRat) :
    Near (relativeUnit working) (n + 1) (pointProbability n k p q working).toRat
      (weight n p.toRat q.toRat k) := by
  have h0 := relativeUnit_nonneg working
  have h1 := relativeUnit_le_one hw
  have hpowers := (near_powSignificant p k working hw hp).mul h0 h1
    (near_powSignificant q (n - k) working hw hq)
  rw [← toRat_mul] at hpowers
  have hcoefficient : Near (relativeUnit working) 0 (ofInt (coefficient n k)).toRat (n.choose k) := by
    rw [toRat_ofInt, coefficient_eq n k hk, Int.cast_natCast]
    exact Near.refl (Nat.cast_nonneg _)
  have hproduct := near_product _ _ working hw hcoefficient hpowers
  rw [zero_add, Nat.add_sub_cancel' hk, ← mul_assoc] at hproduct
  exact hproduct

-- What the loop holds once the terms from `k` to `i` are in the sum: the term went through five
-- roundings in each step, and the sum was rounded with each term.
structure Summed (i : Nat) (term sum : Decimal) : Prop where
  term_near : Near (relativeUnit working) (n + 1 + 5 * (i - k)) term.toRat
    (weight n p.toRat q.toRat i)
  sum_error : |sum.toRat - ∑ j ∈ Finset.Icc k i, weight n p.toRat q.toRat j| ≤
    (∑ j ∈ Finset.Icc k i, weight n p.toRat q.toRat j) *
      ((1 + relativeUnit working) ^ (n + 1 + 5 * (i - k)) - 1) +
      ((i - k + 1 : Nat) : ℚ) * (1 / 2 * 10 ^ (-working))

variable {n k p q working} {i : Nat} {term sum : Decimal}

theorem Summed.first (hw : 1 ≤ working) (hk : k ≤ n) (hp : 0 ≤ p.toRat) (hq : 0 ≤ q.toRat) :
    Summed n k p q working k (pointProbability n k p q working)
      ((pointProbability n k p q working).round working) := by
  have hterm := near_pointProbability n k p q working hw hk hp hq
  have herror := abs_round_sub_le _ working
    (hterm.abs_sub_le (relativeUnit_nonneg working) (relativeUnit_le_one hw))
  constructor
  · rw [Nat.sub_self, mul_zero, add_zero]
    exact hterm
  · rw [Nat.sub_self, mul_zero, add_zero, zero_add, Nat.cast_one, one_mul, Finset.Icc_self,
      Finset.sum_singleton]
    exact herror

-- One step of the recurrence: a quotient and the ratio of the rates, rounded twice each, and the
-- rounding of the product.
theorem near_nextTerm (hw1 : 1 ≤ working) (hw : working ≤ quotientDigits) (hi : i < n)
    (hp : 0 ≤ p.toRat) (hq : 0 < q.toRat) {roundings : Nat}
    (hterm : Near (relativeUnit working) roundings term.toRat (weight n p.toRat q.toRat i)) :
    Near (relativeUnit working) (roundings + 5)
      (nextTerm n (p.divSignificant q working) working i term).toRat
      (weight n p.toRat q.toRat (i + 1)) := by
  have hfactor := near_divSignificant (ofInt ((n - i : Nat) : Int)) (ofInt (i + 1)) working hw1 hw
    (by rw [toRat_ofInt]; positivity) (by rw [toRat_ofInt]; positivity)
  have hratio := near_divSignificant p q working hw1 hw hp hq
  have hproduct := hterm.mul (relativeUnit_nonneg working) (relativeUnit_le_one hw1) hfactor
  rw [← toRat_mul] at hproduct
  have hnext := near_product _ _ working hw1 hproduct hratio
  have hexact := weight_succ n p.toRat q.toRat i hi hq.ne'
  rw [toRat_ofInt, toRat_ofInt] at hnext
  push_cast at hnext hexact
  rw [hexact] at hnext
  exact hnext

theorem Summed.step (hw1 : 1 ≤ working) (hw : working ≤ quotientDigits) (hp : 0 ≤ p.toRat)
    (hq : 0 < q.toRat) (hki : k ≤ i) (hi : i < n) (hsummed : Summed n k p q working i term sum) :
    let next := nextTerm n (p.divSignificant q working) working i term
    Summed n k p q working (i + 1) next ((sum + next).round working) := by
  intro next
  have h0 := relativeUnit_nonneg working
  have hcount : n + 1 + 5 * (i - k) + 5 = n + 1 + 5 * (i + 1 - k) := by omega
  have hterm := near_nextTerm hw1 hw hi hp hq hsummed.term_near
  rw [hcount] at hterm
  refine ⟨hterm, ?_⟩
  set S := ∑ j ∈ Finset.Icc k i, weight n p.toRat q.toRat j
  set E := (1 + relativeUnit working) ^ (n + 1 + 5 * (i + 1 - k)) - 1 with hE
  have hS : 0 ≤ S := Finset.sum_nonneg fun j _ => weight_nonneg n _ _ j hp hq.le
  have hgrows : (1 + relativeUnit working) ^ (n + 1 + 5 * (i - k)) - 1 ≤ E :=
    sub_le_sub_right (pow_le_pow_right₀ (by linarith) (by omega)) 1
  have hsum := hsummed.sum_error.trans
    (add_le_add_left (mul_le_mul_of_nonneg_left hgrows hS) _)
  have hlast := hterm.abs_sub_le h0 (relativeUnit_le_one hw1)
  rw [← hE] at hlast
  have hboth : |(sum + next).toRat - (S + weight n p.toRat q.toRat (i + 1))| ≤
      S * E + ((i - k + 1 : Nat) : ℚ) * (1 / 2 * 10 ^ (-working)) +
        weight n p.toRat q.toRat (i + 1) * E := by
    rw [toRat_add, add_sub_add_comm]
    exact (abs_add_le _ _).trans (add_le_add hsum hlast)
  have hround := abs_round_sub_le _ working hboth
  rw [Finset.sum_Icc_succ_top (by omega), show i + 1 - k + 1 = i - k + 1 + 1 by omega]
  refine hround.trans_eq ?_
  push_cast
  ring

theorem Summed.run (hw1 : 1 ≤ working) (hw : working ≤ quotientDigits) (hp : 0 ≤ p.toRat)
    (hq : 0 < q.toRat) (hki : k ≤ i) (hin : i ≤ n) (hsummed : Summed n k p q working i term sum) :
    ∃ last, Summed n k p q working n last
      (ascendingSum n (p.divSignificant q working) working i term sum) := by
  induction i, term, sum using ascendingSum.induct n (p.divSignificant q working) working with
  | case1 i term sum hi factor next ih =>
      rw [ascendingSum_of_lt n _ working i term sum hi]
      exact ih (by omega) hi (hsummed.step hw1 hw hp hq hki hi)
  | case2 i term sum hi =>
      obtain rfl : i = n := by omega
      rw [ascendingSum_of_le i _ working i term sum le_rfl]
      exact ⟨term, hsummed⟩

end Tail

-- How far the roundings of the terms of `n` trials may carry a sum, as a part of it: up to `n + 1`
-- roundings in the first term and five for each further one.
def termGrowth (n : Nat) (working : Int) : ℚ := (1 + relativeUnit working) ^ (6 * n + 1) - 1

-- How far a summed tail of `n` trials may be off: the growth of its terms, and a rounding of the sum for
-- each of them.
def tailError (n : Nat) (working : Int) : ℚ :=
  termGrowth n working + (n + 1) * (1 / 2 * 10 ^ (-working))

theorem termGrowth_nonneg (n : Nat) (working : Int) : 0 ≤ termGrowth n working :=
  sub_nonneg.mpr (one_le_pow₀ (by linarith [relativeUnit_nonneg working]))

-- A small tail is off by a small part of itself and what the sum loses.
theorem abs_upperTail_sub_le_mul (n k : Nat) (p q : Decimal) (working : Int) (hw1 : 1 ≤ working)
    (hw : working ≤ quotientDigits) (hk : k ≤ n) (hp : 0 < p.toRat) (hq : 0 < q.toRat) :
    |(upperTail n k p q working).toRat - exactTail n k p.toRat q.toRat| ≤
      exactTail n k p.toRat q.toRat * termGrowth n working + (n + 1) * (1 / 2 * 10 ^ (-working)) := by
  have h0 := relativeUnit_nonneg working
  obtain ⟨last, hlast⟩ :=
    (Summed.first hw1 hk hp.le hq.le).run hw1 hw hp.le hq (le_refl k) hk
  have hgrowth : (1 + relativeUnit working) ^ (n + 1 + 5 * (n - k)) - 1 ≤ termGrowth n working :=
    sub_le_sub_right (pow_le_pow_right₀ (by linarith) (by omega)) 1
  have htail := mul_le_mul_of_nonneg_left hgrowth (exactTail_nonneg n k _ _ hp.le hq.le)
  have hterms : ((n - k + 1 : Nat) : ℚ) * (1 / 2 * 10 ^ (-working)) ≤
      (n + 1) * (1 / 2 * 10 ^ (-working)) := by
    apply mul_le_mul_of_nonneg_right _ (mul_nonneg (by norm_num) (ten_zpow_pos _).le)
    exact_mod_cast (show n - k + 1 ≤ n + 1 by omega)
  exact hlast.sum_error.trans (add_le_add htail hterms)

theorem abs_upperTail_sub_le (n k : Nat) (p q : Decimal) (working : Int) (hw1 : 1 ≤ working)
    (hw : working ≤ quotientDigits) (hk : k ≤ n) (hp : 0 < p.toRat) (hq : 0 < q.toRat)
    (hpq : p.toRat + q.toRat = 1) :
    |(upperTail n k p q working).toRat - exactTail n k p.toRat q.toRat| ≤ tailError n working := by
  have hone := exactTail_le_one n k _ _ hp.le hq.le hpq
  have hgrowth := mul_le_of_le_one_left (termGrowth_nonneg n working) hone
  exact (abs_upperTail_sub_le_mul n k p q working hw1 hw hk hp hq).trans
    (add_le_add_left hgrowth _)

-- Few hits are many misses, so the lower tail is off by no more than an upper one.
theorem abs_one_sub_lowerTail_sub_le (n j : Nat) (p q : Decimal) (working : Int) (hw1 : 1 ≤ working)
    (hw : working ≤ quotientDigits) (hj : j < n) (hp : 0 < p.toRat) (hq : 0 < q.toRat)
    (hpq : p.toRat + q.toRat = 1) :
    |(one - lowerTail n j p q working).toRat - exactTail n (j + 1) p.toRat q.toRat| ≤
      tailError n working := by
  have hmirror := exactTail_add_mirror n j p.toRat q.toRat hj hpq
  have hupper := abs_upperTail_sub_le n (n - j) q p working hw1 hw (Nat.sub_le n j) hq hp
    ((add_comm _ _).trans hpq)
  rw [lowerTail_eq_upperTail n j p q working hj.le, toRat_sub, toRat_one, ← hmirror, abs_sub_comm]
  rw [show ∀ a b c : ℚ, a - (a + b - c) = c - b by intros; ring]
  exact hupper

theorem abs_clampUnit_sub_le (v : Decimal) {x : ℚ} (h0 : 0 ≤ x) (h1 : x ≤ 1) :
    |(clampUnit v).toRat - x| ≤ |v.toRat - x| := by
  simp only [clampUnit, lt_iff, toRat_zero, toRat_one]
  split
  · rename_i hneg
    rw [toRat_zero, abs_of_nonpos (by linarith), abs_of_nonpos (by linarith)]
    linarith
  · split
    · rename_i hbig
      rw [toRat_one, abs_of_nonneg (by linarith), abs_of_nonneg (by linarith)]
      linarith
    · exact le_rfl

-- What `N` small parts add is undone by taking their sum away once.
theorem one_add_pow_mul_le_one {x y : ℚ} (N : Nat) (hx : 0 ≤ x) (hxy : N * x ≤ y) (hx1 : x ≤ 1) :
    (1 + x) ^ N * (1 - y) ≤ 1 := by
  have hgrown : (0 : ℚ) ≤ (1 + x) ^ N := pow_nonneg (by linarith) N
  have hbernoulli := one_add_mul_le_pow (by linarith : -2 ≤ -x) N
  have hshrunk : 1 - y ≤ (1 + -x) ^ N := by
    rw [mul_neg] at hbernoulli
    linarith
  calc (1 + x) ^ N * (1 - y) ≤ (1 + x) ^ N * (1 + -x) ^ N :=
        mul_le_mul_of_nonneg_left hshrunk hgrown
    _ = (1 - x * x) ^ N := by
        rw [← mul_pow]
        ring
    _ ≤ 1 := pow_le_one₀ (by nlinarith) (by nlinarith)

-- A growth of `N` small parts is at most twice their sum, as long as that sum is at most a half.
theorem one_add_pow_sub_one_le {x y : ℚ} (N : Nat) (hx : 0 ≤ x) (hxy : N * x ≤ y) (hy : y ≤ 1 / 2)
    (hx1 : x ≤ 1) : (1 + x) ^ N - 1 ≤ 2 * y := by
  have hy0 : 0 ≤ y := (mul_nonneg (Nat.cast_nonneg N) hx).trans hxy
  have hprod := one_add_pow_mul_le_one N hx hxy hx1
  have hlimit : 1 ≤ (1 + 2 * y) * (1 - y) := by nlinarith
  have := le_of_mul_le_mul_right (hprod.trans hlimit) (by linarith)
  linarith

-- The guard digits keep the error below half a unit of the result for any count within reach.
theorem tailError_le (n : Nat) (precision : Int) (hP : 0 ≤ precision) (hn : n ≤ 10 ^ 7) :
    tailError n (precision + guardDigits) ≤ 1 / 2 * 10 ^ (-precision) := by
  set e : ℚ := 10 ^ (-precision) with he
  have he0 : 0 < e := ten_zpow_pos _
  have he1 : e ≤ 1 := zpow_le_one_of_nonpos₀ (by norm_num) (by omega)
  have hguard : (10 : ℚ) ^ (-(precision + guardDigits)) = e / 10 ^ 10 := by
    rw [he, guardDigits, neg_add, zpow_add₀ (by norm_num), zpow_neg 10 10, div_eq_mul_inv]
    norm_cast
  have hcast : (n : ℚ) ≤ 10 ^ 7 := by exact_mod_cast hn
  have hparts : ((6 * n + 1 : Nat) : ℚ) * (5 * (e / 10 ^ 10)) ≤ e / 10 := by
    push_cast
    nlinarith
  have hgrowth := one_add_pow_sub_one_le (6 * n + 1) (by linarith) hparts (by linarith) (by linarith)
  have hsums : ((n : ℚ) + 1) * (1 / 2 * (e / 10 ^ 10)) ≤ e / 10 := by nlinarith
  rw [tailError, termGrowth, relativeUnit, hguard]
  linarith

-- The tail before it is clamped and rounded, from the side of the mean without the bulk.
def summedTail (n k : Nat) (p : Decimal) (working : Int) : Decimal :=
  if ofInt n * p < ofInt k then upperTail n k p p.complement working
  else one - lowerTail n (k - 1) p p.complement working

theorem pValue_eq (n k : Nat) (p : Decimal) (precision : Int) (hk : 1 ≤ k) (hkn : k ≤ n)
    (hp : Domain.openUnit.Contains p) :
    pValue n k p precision =
      .ok ((clampUnit (summedTail n k p (precision + guardDigits))).round precision) := by
  rw [pValue, if_neg (by omega), Domain.require, if_pos hp]
  simp only [if_neg (show k ≠ 0 by omega)]
  rfl

theorem abs_summedTail_sub_le (n k : Nat) (p : Decimal) (working : Int) (hw1 : 1 ≤ working)
    (hw : working ≤ quotientDigits) (hk : 1 ≤ k) (hkn : k ≤ n) (hp0 : 0 < p.toRat)
    (hp1 : p.toRat < 1) :
    |(summedTail n k p working).toRat - exactTail n k p.toRat (1 - p.toRat)| ≤
      tailError n working := by
  rw [← toRat_complement]
  have hq : 0 < p.complement.toRat := by
    rw [toRat_complement]
    linarith
  have hpq : p.toRat + p.complement.toRat = 1 := by
    rw [toRat_complement]
    ring
  unfold summedTail
  split
  · exact abs_upperTail_sub_le n k p _ working hw1 hw hkn hp0 hq hpq
  · have hlower := abs_one_sub_lowerTail_sub_le n (k - 1) p _ working hw1 hw (by omega) hp0 hq hpq
    rw [Nat.sub_add_cancel hk] at hlower
    exact hlower

-- Whichever side of the mean is summed, a p-value lies within the errors of its roundings of the exact
-- tail, and for up to ten million trials within one unit of its last place.
theorem pValue_accurate (n k : Nat) (p : Decimal) (precision : Int) (hk : 1 ≤ k) (hkn : k ≤ n)
    (hp : Domain.openUnit.Contains p) (hP0 : 0 ≤ precision) (hP : precision ≤ 80) :
    ∃ value, pValue n k p precision = .ok value ∧
      |value.toRat -
          ∑ i ∈ Finset.Icc k n, (n.choose i : ℚ) * p.toRat ^ i * (1 - p.toRat) ^ (n - i)| ≤
        1 / 2 * 10 ^ (-precision) + ((1 + 5 * 10 ^ (-(precision + 10))) ^ (6 * n + 1) - 1) +
          (n + 1) * (1 / 2 * 10 ^ (-(precision + 10))) ∧
      (n ≤ 10 ^ 7 → |value.toRat -
          ∑ i ∈ Finset.Icc k n, (n.choose i : ℚ) * p.toRat ^ i * (1 - p.toRat) ^ (n - i)| ≤
        10 ^ (-precision)) := by
  obtain ⟨hp0, hp1⟩ := (Domain.openUnit_contains_iff p).mp hp
  have hw1 : 1 ≤ precision + guardDigits := by rw [guardDigits]; omega
  have hw : precision + guardDigits ≤ quotientDigits := by rw [guardDigits, quotientDigits]; omega
  have hq : 0 ≤ 1 - p.toRat := by linarith
  have htail := abs_summedTail_sub_le n k p _ hw1 hw hk hkn hp0 hp1
  have hclamped := (abs_clampUnit_sub_le _ (exactTail_nonneg n k _ _ hp0.le hq)
    (exactTail_le_one n k _ _ hp0.le hq (by ring))).trans htail
  have hround := abs_round_sub_le _ precision hclamped
  refine ⟨_, pValue_eq n k p precision hk hkn hp, hround.trans_eq ?_, fun hn => hround.trans ?_⟩
  · rw [tailError, termGrowth, relativeUnit, guardDigits]
    ring
  · have hsmall := tailError_le n precision hP0 hn
    linarith

-- Two misses of twenty are just the mean at a rate of a tenth, where the lower side is summed.
theorem pValue_accurate_at_mean :
    1 ≤ 2 ∧ 2 ≤ 20 ∧ Domain.openUnit.Contains ⟨1, 1⟩ ∧ (0 : Int) ≤ pValuePrecision ∧
      pValuePrecision ≤ 80 ∧
      ∃ value, pValue 20 2 ⟨1, 1⟩ pValuePrecision = .ok value ∧
        |value.toRat - ∑ i ∈ Finset.Icc 2 20, ((Nat.choose 20 i : ℚ) * toRat ⟨1, 1⟩ ^ i *
          (1 - toRat ⟨1, 1⟩) ^ (20 - i))| ≤ 10 ^ (-pValuePrecision) := by
  have hp : Domain.openUnit.Contains ⟨1, 1⟩ := by decide
  obtain ⟨value, hvalue, -, hunit⟩ :=
    pValue_accurate 20 2 ⟨1, 1⟩ pValuePrecision (by decide) (by decide) hp (by decide) (by decide)
  exact ⟨by decide, by decide, hp, by decide, by decide, value, hvalue, hunit (by decide)⟩

end ParticipantTrust.Binomial
