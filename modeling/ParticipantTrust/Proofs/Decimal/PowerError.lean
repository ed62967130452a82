import ParticipantTrust.Proofs.Decimal.Power

namespace ParticipantTrust.Decimal

-- A rounded product is off by the errors of its factors and half a unit, as long as the factors stay
-- in the unit interval.
theorem abs_round_mul_sub_le (scale : Int) (x y : Decimal) {a b ε δ : ℚ}
    (hx : |x.toRat - a| ≤ ε) (hy : |y.toRat - b| ≤ δ) (hy0 : 0 ≤ y.toRat) (hy1 : y.toRat ≤ 1)
    (ha0 : 0 ≤ a) (ha1 : a ≤ 1) :
    |((x * y).round scale).toRat - a * b| ≤ ε + δ + 1 / 2 * 10 ^ (-scale) := by
  have hleft : |(x.toRat - a) * y.toRat| ≤ ε := by
    rw [abs_mul, abs_of_nonneg hy0]
    exact (mul_le_of_le_one_right (abs_nonneg _) hy1).trans hx
  have hright : |a * (y.toRat - b)| ≤ δ := by
    rw [abs_mul, abs_of_nonneg ha0]
    exact (mul_le_of_le_one_left (abs_nonneg _) ha1).trans hy
  apply abs_round_sub_le
  rw [toRat_mul]
  calc |x.toRat * y.toRat - a * b| = |(x.toRat - a) * y.toRat + a * (y.toRat - b)| := by
        congr 1
        ring
    _ ≤ |(x.toRat - a) * y.toRat| + |a * (y.toRat - b)| := abs_add_le _ _
    _ ≤ ε + δ := add_le_add hleft hright

-- Each squaring doubles the error `δ` of the square and adds half a unit. A square that stands for `m`
-- factors carries at most `m` times what the first one does, so the errors of all products together
-- stay below `n` of them.
theorem abs_powLoop_sub_le (scale : Int) (result square : Decimal) (n : Nat) {r b ε δ : ℚ}
    (hresult : |result.toRat - r| ≤ ε) (hsquare : |square.toRat - b| ≤ δ)
    (hs0 : 0 ≤ square.toRat) (hs1 : square.toRat ≤ 1) (hr0 : 0 ≤ r) (hr1 : r ≤ 1)
    (hb0 : 0 ≤ b) (hb1 : b ≤ 1) :
    |(powLoop (·.round scale) result square n).toRat - r * b ^ n| ≤
      ε + (δ + 1 / 2 * 10 ^ (-scale)) * n := by
  have hnext {s : Decimal} (h0 : 0 ≤ s.toRat) (h1 : s.toRat ≤ 1) :
      0 ≤ ((s * s).round scale).toRat ∧ ((s * s).round scale).toRat ≤ 1 := by
    refine ⟨(trims_round scale).product_nonneg h0 h0, ?_⟩
    rw [toRat_round, toRat_mul]
    exact Rounding.halfUp_atScale_le_one scale (mul_le_one₀ h1 h0 h1)
  induction n using Nat.evenOddRec generalizing result square r b ε δ with
  | h0 =>
      rw [powLoop_zero, pow_zero, mul_one, Nat.cast_zero, mul_zero, add_zero]
      exact hresult
  | h_even k ih =>
      have hdouble := abs_round_mul_sub_le scale square square hsquare hsquare hs0 hs1 hb0 hb1
      have h := ih result _ hresult hdouble (hnext hs0 hs1).1 (hnext hs0 hs1).2 hr0 hr1
        (mul_nonneg hb0 hb0) (mul_le_one₀ hb1 hb0 hb1)
      rw [powLoop_two_mul, pow_mul, pow_two]
      refine h.trans_eq ?_
      push_cast
      ring
  | h_odd k ih =>
      have hproduct := abs_round_mul_sub_le scale result square hresult hsquare hs0 hs1 hr0 hr1
      have hdouble := abs_round_mul_sub_le scale square square hsquare hsquare hs0 hs1 hb0 hb1
      have h := ih _ _ hproduct hdouble (hnext hs0 hs1).1 (hnext hs0 hs1).2
        (mul_nonneg hr0 hb0) (mul_le_one₀ hr1 hb0 hb1) (mul_nonneg hb0 hb0) (mul_le_one₀ hb1 hb0 hb1)
      rw [powLoop_two_mul_add_one, pow_succ, pow_mul, pow_two, mul_comm ((b * b) ^ k), ← mul_assoc]
      refine h.trans_eq ?_
      push_cast
      ring

theorem abs_powAt_sub_le (base : Decimal) (n : Nat) (scale : Int) (h0 : 0 ≤ base.toRat)
    (h1 : base.toRat ≤ 1) :
    |(base.powAt n scale).toRat - base.toRat ^ n| ≤ n * (1 / 2 * 10 ^ (-scale)) := by
  have h := abs_powLoop_sub_le scale one base n (r := 1) (b := base.toRat) (ε := 0) (δ := 0)
    (by simp) (by simp) h0 h1 zero_le_one le_rfl h0 h1
  rw [one_mul, zero_add, zero_add, mul_comm] at h
  exact h

end ParticipantTrust.Decimal
