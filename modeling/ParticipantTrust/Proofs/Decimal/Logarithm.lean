import ParticipantTrust.Proofs.Decimal.Quotient
import ParticipantTrust.Elementary

namespace ParticipantTrust.Decimal

@[simp] theorem toRat_two : two.toRat = 2 := by simp [two]

theorem toRat_halveTimes (x : Decimal) (k : Nat) : (x.halveTimes k).toRat = x.toRat / 2 ^ k := by
  induction k generalizing x with
  | zero => simp [halveTimes]
  | succ k ih =>
      rw [halveTimes, ih, toRat_mul, toRat_half, pow_succ]
      field_simp

theorem toRat_doubleTimes (x : Decimal) (k : Nat) : (x.doubleTimes k).toRat = x.toRat * 2 ^ k := by
  induction k generalizing x with
  | zero => simp [doubleTimes]
  | succ k ih =>
      rw [doubleTimes, ih, toRat_mul, toRat_two, pow_succ]
      ring

theorem floorOfPos_eq (x : Decimal) (hx : 0 ≤ x.toRat) : (floorOfPos x : Int) = ⌊x.toRat⌋ := by
  rw [floorOfPos, toInt, roundWith_mantissa, Rounding.apply, if_pos hx,
    Int.toNat_of_nonneg (Int.floor_nonneg.mpr hx)]

-- The highest binary digit of the whole part is the exponent of a number from one upwards.
theorem two_pow_log2_floorOfPos (x : Decimal) (hx : 1 ≤ x.toRat) :
    (2 : ℚ) ^ (floorOfPos x).log2 ≤ x.toRat ∧ x.toRat < 2 ^ ((floorOfPos x).log2 + 1) := by
  have hfloor := floorOfPos_eq x (by linarith)
  have hcast : ((floorOfPos x : Nat) : ℚ) = (⌊x.toRat⌋ : ℚ) := by
    rw [← hfloor, Int.cast_natCast]
  have hpos : floorOfPos x ≠ 0 := by
    have := Int.le_floor.mpr (show ((1 : Int) : ℚ) ≤ x.toRat by exact_mod_cast hx)
    omega
  constructor
  · calc (2 : ℚ) ^ (floorOfPos x).log2 ≤ (floorOfPos x : ℚ) := by
          exact_mod_cast Nat.log2_self_le hpos
      _ ≤ x.toRat := hcast.trans_le (Int.floor_le _)
  · have hsucc : ((floorOfPos x + 1 : Nat) : ℚ) ≤ 2 ^ ((floorOfPos x).log2 + 1) := by
      exact_mod_cast Nat.succ_le_of_lt (Nat.lt_log2_self (n := floorOfPos x))
    calc x.toRat < ⌊x.toRat⌋ + 1 := Int.lt_floor_add_one _
      _ = ((floorOfPos x + 1 : Nat) : ℚ) := by rw [← hcast]; push_cast; ring
      _ ≤ _ := hsucc

-- Below one, the whole part of the reciprocal is counted without a division of decimals: one less than
-- the power of ten keeps a reciprocal that is whole below itself.
theorem two_pow_log2_reciprocalBelow (x : Decimal) (hx : 0 < x.toRat) (hhalf : x.toRat < 1 / 2) :
    x.toRat * 2 ^ (reciprocalBelow x).log2 < 1 ∧
      1 / 2 ≤ x.toRat * 2 ^ (reciprocalBelow x).log2 := by
  have hm : 0 < x.mantissa := (toRat_pos_iff x).mp hx
  have hmq : (1 : ℚ) ≤ x.mantissa := by exact_mod_cast hm
  have hscale : 0 < x.scale := by
    by_contra hs
    have hunit : (1 : ℚ) ≤ 10 ^ (-x.scale) := one_le_zpow₀ (by norm_num) (by omega)
    have := one_le_mul_of_one_le_of_one_le hmq hunit
    rw [toRat] at hhalf
    linarith
  obtain ⟨s, hs⟩ := Int.eq_ofNat_of_zero_le hscale.le
  obtain ⟨m, hm'⟩ := Int.eq_ofNat_of_zero_le hm.le
  have hmpos : 0 < m := by omega
  have hvalue : x.toRat = (m : ℚ) / 10 ^ s := by
    rw [toRat, hm', hs, Int.cast_natCast, zpow_neg, zpow_natCast, div_eq_mul_inv]
  have hten : (0 : ℚ) < 10 ^ s := by positivity
  have hrec : reciprocalBelow x = (10 ^ s - 1) / m := by
    rw [reciprocalBelow, hm', hs, tenTo_eq, Int.toNat_natCast, Int.natAbs_natCast]
  have hlarge : 2 * m < 10 ^ s := by
    rw [hvalue, div_lt_iff₀ hten] at hhalf
    have : (2 : ℚ) * m < 10 ^ s := by linarith
    exact_mod_cast this
  have hr : reciprocalBelow x ≠ 0 := by
    rw [hrec]
    exact (Nat.div_pos (by omega) hmpos).ne'
  have hlow := Nat.log2_self_le hr
  have hhigh := Nat.lt_log2_self (n := reciprocalBelow x)
  have hlow' : m * 2 ^ (reciprocalBelow x).log2 < 10 ^ s := by
    have h := Nat.mul_le_mul_left m hlow
    have := Nat.mul_div_le (10 ^ s - 1) m
    rw [← hrec] at this
    omega
  have hhigh' : 10 ^ s ≤ m * 2 ^ ((reciprocalBelow x).log2 + 1) := by
    have h : (10 ^ s - 1) / m < 2 ^ ((reciprocalBelow x).log2 + 1) := hrec ▸ hhigh
    rw [Nat.div_lt_iff_lt_mul hmpos] at h
    rw [mul_comm]
    omega
  rw [hvalue, div_mul_eq_mul_div, div_lt_one hten, div_le_div_iff₀ (by norm_num) hten]
  constructor
  · exact_mod_cast hlow'
  · rw [pow_succ] at hhigh'
    have : ((10 ^ s : Nat) : ℚ) ≤ ((m * (2 ^ (reciprocalBelow x).log2 * 2) : Nat) : ℚ) := by
      exact_mod_cast hhigh'
    push_cast at this
    linarith

-- Range reduction is exact, and the mantissa lies on the same side of one as the number.
theorem binarySplit_spec (x : Decimal) (hx : 0 < x.toRat) :
    x.toRat = (binarySplit x).mantissa.toRat * 2 ^ (binarySplit x).exponent ∧
      1 / 2 ≤ (binarySplit x).mantissa.toRat ∧ (binarySplit x).mantissa.toRat < 2 ∧
      (0 < (binarySplit x).exponent → 1 ≤ (binarySplit x).mantissa.toRat) ∧
      ((binarySplit x).exponent < 0 → (binarySplit x).mantissa.toRat < 1) := by
  simp only [binarySplit]
  split
  · rename_i h
    rw [le_iff, toRat_two] at h
    obtain ⟨hlow, hhigh⟩ := two_pow_log2_floorOfPos x (by linarith)
    have hpow : (0 : ℚ) < 2 ^ (floorOfPos x).log2 := by positivity
    have hone : 1 ≤ x.toRat / 2 ^ (floorOfPos x).log2 := (one_le_div₀ hpow).mpr hlow
    simp only [toRat_halveTimes, zpow_natCast]
    refine ⟨(div_mul_cancel₀ _ hpow.ne').symm, by linarith, ?_, fun _ => hone, fun hneg => ?_⟩
    · rw [div_lt_iff₀ hpow, ← pow_succ']
      exact hhigh
    · exact absurd hneg (by omega)
  · rename_i h
    rw [le_iff, toRat_two, not_le] at h
    split
    · rename_i hh
      rw [lt_iff, toRat_half] at hh
      obtain ⟨hhigh, hlow⟩ := two_pow_log2_reciprocalBelow x hx hh
      simp only [toRat_doubleTimes, zpow_neg, zpow_natCast]
      refine ⟨?_, hlow, by linarith, fun hpos => ?_, fun _ => hhigh⟩
      · rw [mul_assoc, mul_inv_cancel₀ (by positivity), mul_one]
      · exact absurd hpos (by omega)
    · rename_i hh
      rw [lt_iff, toRat_half, not_lt] at hh
      simp only [zpow_zero, mul_one]
      refine ⟨trivial, hh, h, ?_, ?_⟩
      · exact fun hpos => absurd hpos (lt_irrefl 0)
      · exact fun hneg => absurd hneg (lt_irrefl 0)

-- All terms of the series have the sign of its argument, which `σ` carries here.
theorem atanhSeries_sign (scale : Int) (tSquared : Decimal) (steps : Nat) (power sum : Decimal)
    (denominator : Nat) {σ : ℚ} (hq : 0 ≤ tSquared.toRat) (hp : 0 ≤ σ * power.toRat)
    (hs : 0 ≤ σ * sum.toRat) :
    0 ≤ σ * (atanhSeries scale tSquared steps power sum denominator).toRat := by
  induction steps generalizing power sum denominator with
  | zero => exact hs
  | succ steps ih =>
      have hpower : 0 ≤ σ * ((power * tSquared).round scale).toRat := by
        rw [toRat_round, toRat_mul]
        apply Rounding.mul_atScale_nonneg
        rw [← mul_assoc]
        exact mul_nonneg hp hq
      have hterm : 0 ≤ σ * (((power * tSquared).round scale).divAt
          (ofInt ((denominator + 2 : Nat) : Int)) scale).toRat := by
        rw [toRat_divAt]
        apply Rounding.mul_atScale_nonneg
        apply mul_toRat_div_nonneg _ _ hpower
        rw [toRat_ofInt]
        positivity
      simp only [atanhSeries]
      split
      · exact hs
      · apply ih _ _ _ hpower
        rw [toRat_add, mul_add]
        exact add_nonneg hs hterm

theorem seriesSquare_nonneg (scale : Int) (t : Decimal) : 0 ≤ ((t * t).round scale).toRat := by
  rw [toRat_round, toRat_mul]
  exact Rounding.halfUp.atScale_nonneg scale (mul_self_nonneg _)

theorem lnReduced_sign (m : Decimal) (scale : Int) {σ : ℚ} (hm : 0 < m.toRat)
    (h : 0 ≤ σ * (m.toRat - 1)) : 0 ≤ σ * (lnReduced m scale).toRat := by
  have ht : 0 ≤ σ * ((m - one).divAt (m + one) scale).toRat := by
    rw [toRat_divAt]
    apply Rounding.mul_atScale_nonneg
    apply mul_toRat_div_nonneg
    · rw [toRat_sub, toRat_one]
      exact h
    · rw [toRat_add, toRat_one]
      linarith
  simp only [lnReduced, toRat_round, toRat_mul, toRat_two]
  apply Rounding.mul_atScale_nonneg
  rw [← mul_assoc]
  exact mul_nonneg (atanhSeries_sign _ _ _ _ _ _ (seriesSquare_nonneg _ _) ht ht) (by norm_num)

-- Number, mantissa and exponent agree on which side of one the number lies.
theorem binarySplit_side (x : Decimal) (hx : 0 < x.toRat) :
    0 ≤ (x.toRat - 1) * ((binarySplit x).mantissa.toRat - 1) ∧
      0 ≤ (x.toRat - 1) * (binarySplit x).exponent := by
  obtain ⟨hvalue, hlow, -, hup, hdown⟩ := binarySplit_spec x hx
  rcases lt_trichotomy (binarySplit x).exponent 0 with he | he | he
  · have hm := hdown he
    have hpow : (2 : ℚ) ^ (binarySplit x).exponent ≤ 1 := zpow_le_one_of_nonpos₀ (by norm_num) he.le
    have hx1 : x.toRat ≤ 1 := by
      rw [hvalue]
      exact mul_le_one₀ hm.le (zpow_nonneg (by norm_num) _) hpow
    have heq : ((binarySplit x).exponent : ℚ) ≤ 0 := by exact_mod_cast he.le
    exact ⟨mul_nonneg_of_nonpos_of_nonpos (by linarith) (by linarith),
      mul_nonneg_of_nonpos_of_nonpos (by linarith) heq⟩
  · rw [he, zpow_zero, mul_one] at hvalue
    rw [← hvalue, he, Int.cast_zero, mul_zero]
    exact ⟨mul_self_nonneg _, le_rfl⟩
  · have hm := hup he
    have hpow : (1 : ℚ) ≤ 2 ^ (binarySplit x).exponent := one_le_zpow₀ (by norm_num) he.le
    have hx1 : 1 ≤ x.toRat := by
      rw [hvalue]
      exact one_le_mul_of_one_le_of_one_le hm hpow
    have heq : (0 : ℚ) ≤ (binarySplit x).exponent := by exact_mod_cast he.le
    exact ⟨mul_nonneg (by linarith) (by linarith), mul_nonneg (by linarith) heq⟩

-- The rounded logarithm is not on the other side of zero than the exact one.
theorem ln_sign (x : Decimal) (precision : Int) (hx : 0 < x.toRat) :
    0 ≤ (x.toRat - 1) * (x.ln precision).toRat := by
  unfold ln
  split
  · simp
  · obtain ⟨hmantissa, hexponent⟩ := binarySplit_side x hx
    obtain ⟨-, hlow, -⟩ := binarySplit_spec x hx
    have hreduced := lnReduced_sign _ (precision + guardDigits) (by linarith) hmantissa
    have htwo : 0 ≤ (lnReduced two (precision + guardDigits)).toRat := by
      have h := lnReduced_sign two (precision + guardDigits) (σ := 1) (by simp) (by norm_num)
      rwa [one_mul] at h
    simp only [toRat_round]
    apply Rounding.mul_atScale_nonneg
    split
    · exact hreduced
    · rw [toRat_add, toRat_mul, toRat_ofInt, mul_add, mul_left_comm]
      exact add_nonneg hreduced (mul_nonneg htwo hexponent)

theorem ln_hasPlaces (x : Decimal) (precision : Int) : HasPlaces precision (x.ln precision).toRat := by
  unfold ln
  split <;> exact round_hasPlaces _ _

theorem ln_nonneg (x : Decimal) (precision : Int) (hx : 1 ≤ x.toRat) : 0 ≤ (x.ln precision).toRat := by
  rcases hx.eq_or_lt with h | h
  · have hsame : x.SameValue one := (sameValue_iff x one).mpr (h.symm.trans toRat_one.symm)
    simp [ln, hsame]
  · exact nonneg_of_mul_nonneg_right (ln_sign x precision (by linarith)) (by linarith)

theorem ln_nonpos (x : Decimal) (precision : Int) (h0 : 0 < x.toRat) (hx : x.toRat ≤ 1) :
    (x.ln precision).toRat ≤ 0 := by
  rcases hx.eq_or_lt with h | h
  · have hsame : x.SameValue one := (sameValue_iff x one).mpr (h.trans toRat_one.symm)
    simp [ln, hsame]
  · exact nonpos_of_mul_nonneg_right (ln_sign x precision h0) (by linarith)

end ParticipantTrust.Decimal
