import ParticipantTrust.Proofs.Decimal.Rounding

namespace ParticipantTrust.Decimal

theorem le_mul_placesToReach (target m : Nat) (hm : 0 < m) :
    target ≤ m * tenTo (placesToReach target m) := by
  induction m using placesToReach.induct target with
  | case1 m h =>
      have hle : target ≤ m := by omega
      unfold placesToReach
      rw [if_pos h, tenTo_eq, pow_zero, mul_one]
      exact hle
  | case2 m h places ih =>
      have hpos : 0 < m * tenTo places := by
        rw [tenTo_eq]
        positivity
      unfold placesToReach
      rw [if_neg h, tenTo_eq, pow_add, mul_comm (10 ^ _), ← mul_assoc]
      exact ih hpos

-- The last digit is rounded by comparing twice the remainder with the divisor.
theorem div_add_roundUp (s n : Nat) (hn : 0 < n) :
    s / n + (if n ≤ 2 * (s % n) then 1 else 0) = (2 * s + n) / (2 * n) := by
  have hs := Nat.div_add_mod s n
  have hr := Nat.mod_lt s hn
  symm
  rw [Nat.div_eq_iff (by omega)]
  have hzero : s / n * (2 * n) = 2 * (n * (s / n)) := by ring
  have hone : (s / n + 1) * (2 * n) = 2 * (n * (s / n)) + 2 * n := by ring
  split
  · omega
  · rw [Nat.add_zero]
    omega

theorem quotientOfNat_fst (m n : Nat) (hn : 0 < n) :
    (quotientOfNat m n).1 = (2 * (m * tenTo (quotientOfNat m n).2) + n) / (2 * n) :=
  div_add_roundUp _ n hn

theorem quotientOfNat_pos (m n : Nat) (hm : 0 < m) (hn : 0 < n) : 0 < (quotientOfNat m n).1 := by
  have hreach : tenTo (quotientDigits - 1) * n ≤ m * tenTo (quotientOfNat m n).2 :=
    le_mul_placesToReach _ m hm
  have hten : 1 ≤ tenTo (quotientDigits - 1) := Nat.one_le_pow _ _ (by norm_num)
  have hle := Nat.mul_le_mul_right n hten
  rw [quotientOfNat_fst m n hn]
  exact Nat.div_pos (by omega) (by omega)

-- The exact quotient at the scale of a quotient with `places` more places, in terms of the mantissas.
theorem scaled_quotient (a b : Decimal) (places : Nat) (hb : b.mantissa ≠ 0) :
    ((a.mantissa * b.mantissa.sign * tenTo places : Int) : ℚ) / b.mantissa.natAbs =
      a.toRat / b.toRat * 10 ^ (a.scale - b.scale + places) := by
  have hbq : (b.mantissa : ℚ) ≠ 0 := by exact_mod_cast hb
  have habs : (b.mantissa.natAbs : ℚ) = b.mantissa * b.mantissa.sign := by
    rw [← Int.cast_mul, Int.mul_sign_self, Int.cast_natCast]
  have hsign : (b.mantissa.sign : ℚ) ≠ 0 := by
    exact_mod_cast mt Int.sign_eq_zero_iff_zero.mp hb
  rw [habs, toRat, toRat, zpow_add₀ (by norm_num), zpow_sub₀ (by norm_num), zpow_neg, zpow_neg,
    zpow_natCast, tenTo_eq]
  push_cast
  field_simp

theorem div_eq_self (a b : Decimal) (h : a.toRat = 0 ∨ b.toRat = 1) : a / b = a := by
  change Decimal.div a b = a
  unfold Decimal.div
  rw [if_pos]
  rw [isZero_iff, sameValue_iff, toRat_one]
  exact h

-- A quotient is the exact one rounded at the scale that it is written with.
theorem toRat_div (a b : Decimal) (hb : b.toRat ≠ 0) :
    (a / b).toRat = Rounding.halfUp.atScale (a / b).scale (a.toRat / b.toRat) := by
  change (Decimal.div a b).toRat = Rounding.halfUp.atScale (Decimal.div a b).scale _
  unfold Decimal.div
  split
  · rename_i h
    have hexact : a.toRat / b.toRat = a.toRat := by
      rcases h with ha | hb1
      · rw [(isZero_iff a).mp ha, zero_div]
      · rw [(sameValue_iff b one).mp hb1, toRat_one, div_one]
    rw [hexact, Rounding.atScale_of_hasPlaces]
    exact hasPlaces_toRat _ _
  · have hbm : b.mantissa ≠ 0 := fun h => hb ((toRat_eq_zero_iff b).mpr h)
    have hn : 0 < b.mantissa.natAbs := Int.natAbs_pos.mpr hbm
    set places := (quotientOfNat a.mantissa.natAbs b.mantissa.natAbs).2 with hplaces
    have hdigits := quotientOfNat_fst a.mantissa.natAbs b.mantissa.natAbs hn
    -- the digits with their sign are one rounded quotient of integers
    have hquotient : a.mantissa.sign * b.mantissa.sign *
        ((quotientOfNat a.mantissa.natAbs b.mantissa.natAbs).1 : Int) =
        Rounding.halfUp.quotient (a.mantissa * b.mantissa.sign * tenTo places) b.mantissa.natAbs := by
      rw [hdigits, Rounding.quotient, Int.natAbs_mul, Int.natAbs_mul, Int.natAbs_sign_of_ne_zero hbm,
        Int.sign_mul, Int.sign_mul, Int.sign_sign, Int.natAbs_natCast, mul_one]
      rw [Int.sign_eq_one_of_pos (show (0 : Int) < tenTo places by rw [tenTo_eq]; positivity), mul_one]
    simp only []
    rw [hquotient, toRat_mk, Rounding.quotient_eq_apply _ _ _ hn, scaled_quotient a b places hbm]
    rfl

theorem toRat_div_pos (a b : Decimal) (ha : 0 < a.toRat) (hb : 0 < b.toRat) : 0 < (a / b).toRat := by
  have ham := (toRat_pos_iff a).mp ha
  have hbm := (toRat_pos_iff b).mp hb
  change 0 < (Decimal.div a b).toRat
  unfold Decimal.div
  split
  · exact ha
  · rw [toRat_pos_iff]
    have hdigits := quotientOfNat_pos a.mantissa.natAbs b.mantissa.natAbs (by omega) (by omega)
    simp only [Int.sign_eq_one_of_pos ham, Int.sign_eq_one_of_pos hbm]
    omega

-- A quotient is not below a number of `places` decimal places when the exact one is not: it is written
-- with those places, or with fewer of which it has one unit at least.
theorem le_toRat_div (a b : Decimal) (places : Int) {x : ℚ} (ha : 0 < a.toRat)
    (hb : 0 < b.toRat) (hplaces : HasPlaces places x) (hx : x ≤ 10 ^ (1 - places))
    (h : x ≤ a.toRat / b.toRat) : x ≤ (a / b).toRat := by
  rcases le_or_gt places (a / b).scale with hs | hs
  · rw [toRat_div a b hb.ne']
    exact Rounding.halfUp.le_atScale (hplaces.mono hs) h
  · have hpos := (toRat_pos_iff _).mp (toRat_div_pos a b ha hb)
    have hm : (1 : ℚ) ≤ (a / b).mantissa := by exact_mod_cast hpos
    have hunit : (10 : ℚ) ^ (1 - places) ≤ 10 ^ (-(a / b).scale) :=
      zpow_le_zpow_right₀ (by norm_num) (by omega)
    exact (hx.trans hunit).trans (le_mul_of_one_le_left (ten_zpow_pos _).le hm)

theorem one_le_toRat_div (a b : Decimal) (hb : 0 < b.toRat) (h : b.toRat ≤ a.toRat) :
    1 ≤ (a / b).toRat :=
  le_toRat_div a b 0 (hb.trans_le h) hb (Rounding.hasPlaces_one 0 le_rfl) (by norm_num)
    ((one_le_div₀ hb).mpr h)

theorem toRat_div_le_one (a b : Decimal) (hb : 0 < b.toRat) (h : a.toRat ≤ b.toRat) :
    (a / b).toRat ≤ 1 := by
  rw [toRat_div a b hb.ne']
  exact Rounding.halfUp_atScale_le_one _ ((div_le_one₀ hb).mpr h)

theorem mul_toRat_div_nonneg (a b : Decimal) {σ : ℚ} (ha : 0 ≤ σ * a.toRat) (hb : 0 < b.toRat) :
    0 ≤ σ * (a / b).toRat := by
  rw [toRat_div a b hb.ne']
  apply Rounding.mul_atScale_nonneg
  rw [← mul_div_assoc]
  exact div_nonneg ha hb.le

@[simp] theorem toRat_divAt (a b : Decimal) (scale : Int) :
    (a.divAt b scale).toRat = Rounding.halfUp.atScale scale (a / b).toRat :=
  toRat_round _ _

end ParticipantTrust.Decimal
