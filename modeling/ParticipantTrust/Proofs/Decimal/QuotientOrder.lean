import ParticipantTrust.Proofs.Decimal.WrittenForm

namespace ParticipantTrust.Decimal

theorem hasPlaces_ten_zpow (scale k : Int) (h : -k ≤ scale) : HasPlaces scale (10 ^ k) := by
  refine ⟨tenTo (scale + k).toNat, ?_⟩
  have hshift := ten_zpow_shift (-k) scale h
  rw [neg_neg, sub_neg_eq_add] at hshift
  rw [hshift, Int.cast_natCast]

protected theorem neg_div (a b : Decimal) : -a / b = -(a / b) := by
  have hzero : (-a).isZero = a.isZero := by
    rw [Bool.eq_iff_iff, isZero_iff, isZero_iff, toRat_neg, neg_eq_zero]
  have habs : (-a).mantissa.natAbs = a.mantissa.natAbs := Int.natAbs_neg a.mantissa
  have hsign : (-a).mantissa.sign = -a.mantissa.sign := Int.sign_neg a.mantissa
  change Decimal.div (-a) b = -(Decimal.div a b)
  unfold Decimal.div
  rw [hzero, habs, hsign]
  split
  · rfl
  · simp only [neg_mul]
    rfl

theorem round_neg (v : Decimal) (scale : Int) : (-v).round scale = -(v.round scale) := by
  apply eq_of_toRat_eq
  · rw [toRat_round, toRat_neg, toRat_neg, toRat_round, Rounding.halfUp_atScale_neg]
  · exact (roundWith_scale .halfUp (-v) scale).trans (roundWith_scale .halfUp v scale).symm

theorem neg_divAt (a b : Decimal) (scale : Int) : (-a).divAt b scale = -(a.divAt b scale) := by
  rw [divAt, Decimal.neg_div, round_neg, ← divAt]

-- Places are only added to a quotient while it has fewer digits than it should have.
theorem div_scale_or_scaled_lt (a b : Decimal) (ha : 0 < a.toRat) (hb : 0 < b.toRat)
    (hone : b.toRat ≠ 1) :
    (a / b).scale = a.scale - b.scale ∨
      a.toRat / b.toRat * 10 ^ (a / b).scale < 10 ^ quotientDigits := by
  by_cases hfits : a.QuotientFits b
  · exact .inr (div_scale_bounds a b ha hb hone hfits).2
  · left
    have hten : tenTo (quotientDigits - 1) ≤ tenTo quotientDigits :=
      Nat.pow_le_pow_right (by norm_num) (Nat.sub_le _ _)
    have hlong : tenTo (quotientDigits - 1) * b.mantissa.natAbs ≤ a.mantissa.natAbs :=
      (Nat.mul_le_mul_right _ hten).trans (Nat.not_lt.mp hfits)
    rw [div_scale a b ha hone]
    simp only [quotientOfNat]
    unfold placesToReach
    rw [if_pos (.inl hlong), Nat.cast_zero, add_zero]

-- A larger number is written with at most as many places, when both have the same number of places to
-- start from.
theorem div_scale_anti (a b a' b' : Decimal) (ha : 0 < a.toRat) (hb : 0 < b.toRat) (hone : b.toRat ≠ 1)
    (ha' : 0 < a'.toRat) (hb' : 0 < b'.toRat) (hone' : b'.toRat ≠ 1)
    (hscale : a.scale - b.scale = a'.scale - b'.scale)
    (h : a.toRat / b.toRat ≤ a'.toRat / b'.toRat) : (a' / b').scale ≤ (a / b).scale := by
  rcases div_scale_or_scaled_lt a' b' ha' hb' hone' with hs | hdigits
  · rw [hs, ← hscale, div_scale a b ha hone]
    omega
  · refine scale_unique (a'.toRat / b'.toRat) (quotientDigits - 1) _ _ ?_ hdigits
    exact (ten_pow_le_div_scaled a b ha hb hone).trans
      (mul_le_mul_of_nonneg_right h (ten_zpow_pos _).le)

-- Where the larger quotient has fewer places, a power of ten that both scales can write lies between
-- the exact quotients.
theorem toRat_div_le_of_pos (a b a' b' : Decimal) (ha : 0 < a.toRat) (hb : 0 < b.toRat)
    (hone : b.toRat ≠ 1) (ha' : 0 < a'.toRat) (hb' : 0 < b'.toRat) (hone' : b'.toRat ≠ 1)
    (hscale : a.scale - b.scale = a'.scale - b'.scale)
    (h : a.toRat / b.toRat ≤ a'.toRat / b'.toRat) : (a / b).toRat ≤ (a' / b').toRat := by
  have hanti := div_scale_anti a b a' b' ha hb hone ha' hb' hone' hscale h
  rw [toRat_div a b hb.ne', toRat_div a' b' hb'.ne']
  rcases hanti.eq_or_lt with hs | hs
  · rw [hs]
    exact Rounding.halfUp.atScale_mono _ h
  · set s := (a / b).scale
    set s' := (a' / b').scale with hs'
    set q := a.toRat / b.toRat
    set q' := a'.toRat / b'.toRat
    have hlow : (10 : ℚ) ^ ((quotientDigits - 1 : Nat) : Int) ≤ q' * 10 ^ s' := by
      rw [zpow_natCast]
      exact ten_pow_le_div_scaled a' b' ha' hb' hone'
    have hhigh : q * 10 ^ s < (10 : ℚ) ^ ((quotientDigits : Nat) : Int) := by
      rw [zpow_natCast]
      rcases div_scale_or_scaled_lt a b ha hb hone with hplain | hdigits
      · have hle : a'.scale - b'.scale ≤ s' := by
          rw [hs', div_scale a' b' ha' hone']
          omega
        exact absurd (hplain.trans hscale) (by omega)
      · exact hdigits
    set boundary : ℚ := 10 ^ (((quotientDigits - 1 : Nat) : Int) - s') with hboundary
    have hupper : boundary ≤ q' := by
      rw [hboundary, zpow_sub₀ (by norm_num), div_le_iff₀ (ten_zpow_pos _)]
      exact hlow
    have hlower : q ≤ boundary := by
      have hstep : (10 : ℚ) ^ ((quotientDigits : Int) - s) ≤ boundary :=
        zpow_le_zpow_right₀ (by norm_num) (by omega)
      refine le_trans ?_ hstep
      rw [zpow_sub₀ (by norm_num), le_div_iff₀ (ten_zpow_pos _)]
      exact hhigh.le
    calc Rounding.halfUp.atScale s q ≤ boundary :=
          Rounding.halfUp.atScale_le (hasPlaces_ten_zpow s _ (by omega)) hlower
      _ ≤ Rounding.halfUp.atScale s' q' :=
          Rounding.halfUp.le_atScale (hasPlaces_ten_zpow s' _ (by omega)) hupper

theorem toRat_div_nonneg (a b : Decimal) (ha : 0 ≤ a.toRat) (hb : 0 < b.toRat) :
    0 ≤ (a / b).toRat := by
  simpa using mul_toRat_div_nonneg a b (σ := 1) (by simpa using ha) hb

theorem toRat_div_nonpos (a b : Decimal) (ha : a.toRat ≤ 0) (hb : 0 < b.toRat) :
    (a / b).toRat ≤ 0 := by
  simpa using mul_toRat_div_nonneg a b (σ := -1) (by simpa using ha) hb

-- Quotients keep the order of the exact ones although the number of their places depends on them. A
-- divisor of one is left out: it leaves a dividend with all its digits.
theorem toRat_div_le (a b a' b' : Decimal) (hb : 0 < b.toRat) (hone : b.toRat ≠ 1)
    (hb' : 0 < b'.toRat) (hone' : b'.toRat ≠ 1) (hscale : a.scale - b.scale = a'.scale - b'.scale)
    (h : a.toRat / b.toRat ≤ a'.toRat / b'.toRat) : (a / b).toRat ≤ (a' / b').toRat := by
  rcases le_or_gt a.toRat 0 with ha | ha
  · rcases le_or_gt 0 a'.toRat with ha' | ha'
    · exact (toRat_div_nonpos a b ha hb).trans (toRat_div_nonneg a' b' ha' hb')
    · have hneg : a.toRat < 0 := by
        by_contra hge
        have hzero : a.toRat = 0 := le_antisymm ha (not_lt.mp hge)
        rw [hzero, zero_div] at h
        exact absurd (div_neg_of_neg_of_pos ha' hb') (not_lt.mpr h)
      have hmirror := toRat_div_le_of_pos (-a') b' (-a) b (by simpa using ha') hb' hone'
        (by simpa using hneg) hb hone hscale.symm (by simpa [neg_div] using h)
      rw [Decimal.neg_div, Decimal.neg_div, toRat_neg, toRat_neg] at hmirror
      exact neg_le_neg_iff.mp hmirror
  · have hquot : 0 < a'.toRat / b'.toRat := (div_pos ha hb).trans_le h
    have ha' : 0 < a'.toRat := (div_pos_iff_of_pos_right hb').mp hquot
    exact toRat_div_le_of_pos a b a' b' ha hb hone ha' hb' hone' hscale h

theorem toRat_divAt_le (a b a' b' : Decimal) (scale : Int) (hb : 0 < b.toRat) (hone : b.toRat ≠ 1)
    (hb' : 0 < b'.toRat) (hone' : b'.toRat ≠ 1) (hscale : a.scale - b.scale = a'.scale - b'.scale)
    (h : a.toRat / b.toRat ≤ a'.toRat / b'.toRat) :
    (a.divAt b scale).toRat ≤ (a'.divAt b' scale).toRat := by
  rw [toRat_divAt, toRat_divAt]
  exact Rounding.halfUp.atScale_mono scale (toRat_div_le a b a' b' hb hone hb' hone' hscale h)

-- Dividends that are written with the same places may be divided by one, too.
theorem toRat_divAt_le_of_scale_eq (a a' b : Decimal) (scale : Int) (hb : 0 < b.toRat)
    (hscale : a.scale = a'.scale) (h : a.toRat ≤ a'.toRat) :
    (a.divAt b scale).toRat ≤ (a'.divAt b scale).toRat := by
  by_cases hone : b.toRat = 1
  · rw [toRat_divAt, toRat_divAt, div_eq_self a b (.inr hone), div_eq_self a' b (.inr hone)]
    exact Rounding.halfUp.atScale_mono scale h
  · exact toRat_divAt_le a b a' b scale hb hone hb hone (by rw [hscale])
      (div_le_div_of_nonneg_right h hb.le)

end ParticipantTrust.Decimal
