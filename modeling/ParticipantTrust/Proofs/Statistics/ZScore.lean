import ParticipantTrust.Proofs.Decimal.QuotientOrder
import ParticipantTrust.Proofs.Decimal.RootError
import ParticipantTrust.Proofs.Decimal.Tie
import ParticipantTrust.Statistics.Observation

namespace ParticipantTrust.Observation

open Decimal

-- The rate of `i` failures among `n`, with the places that its distance from the expected rate is
-- taken at.
def observedRate (n i : Nat) : Decimal := (ofInt i).divAt (ofInt n) (zScorePrecision + guardDigits)

-- A product of two complements is a quarter at most.
theorem variance_le_one (rate : Decimal) {n : Nat} (hn : 0 < n) (scale : Int) :
    ((rate * rate.complement).divAt (ofInt n) scale).toRat ≤ 1 := by
  have hcount : (1 : ℚ) ≤ (ofInt n).toRat := by
    rw [toRat_ofInt, Int.cast_natCast]
    exact_mod_cast hn
  rw [toRat_divAt]
  apply Rounding.halfUp_atScale_le_one
  apply toRat_div_le_one _ _ (by linarith)
  rw [toRat_mul, toRat_complement]
  nlinarith [sq_nonneg (rate.toRat - 1 / 2)]

-- Neither the variance nor its root depends on the failures: all scores of one total are neutral, or all
-- are distances measured in the same deviation.
theorem zScore_cases (rate : Decimal) (n : Nat) (hn : n ≤ maxCount) :
    (∀ i ≤ n, zScore rate (n - i) i = zero) ∨
      0 < n ∧ ∃ deviation : Decimal, 0 < deviation.toRat ∧
        ∀ i ≤ n, zScore rate (n - i) i = (observedRate n i - rate).divAt deviation zScorePrecision := by
  have htotal : ∀ i ≤ n, min (n - i + i) maxCount = n := fun i hi => by
    rw [Nat.sub_add_cancel hi, min_eq_left hn]
  rcases Nat.eq_zero_or_pos n with rfl | hpos
  · left
    intro i hi
    simp only [zScore, htotal i hi, if_true]
  set variance := (rate * rate.complement).divAt (ofInt n) (zScorePrecision + guardDigits)
    with hvariance
  by_cases hvanishes : variance ≤ zero
  · left
    intro i hi
    simp only [zScore, htotal i hi, ← hvariance, if_neg hpos.ne', if_pos hvanishes]
  have hlow : 0 ≤ variance.toRat := (not_le.mp (toRat_zero ▸ mt (le_iff variance zero).mpr hvanishes)).le
  have hhigh : variance.toRat ≤ 1 := variance_le_one rate hpos _
  obtain ⟨deviation, hroot, hnonneg, -⟩ := Elementary.sqrt_near variance
    (zScorePrecision + guardDigits) hlow (hhigh.trans (by norm_num)) (by decide) (by decide)
  by_cases hzero : deviation.isZero
  · left
    intro i hi
    simp only [zScore, htotal i hi, ← hvariance, if_neg hpos.ne', if_neg hvanishes, hroot, if_pos hzero]
  · right
    refine ⟨hpos, deviation, hnonneg.lt_of_ne' (mt (isZero_iff deviation).mpr hzero), ?_⟩
    intro i hi
    simp only [zScore, htotal i hi, ← hvariance, if_neg hpos.ne', if_neg hvanishes, hroot, if_neg hzero]
    rfl

theorem observedRate_le (n i j : Nat) (hn : 0 < n) (hij : i ≤ j) :
    (observedRate n i).toRat ≤ (observedRate n j).toRat := by
  apply toRat_divAt_le_of_scale_eq (ofInt i) (ofInt j)
  · rw [toRat_ofInt]
    exact_mod_cast hn
  · rfl
  · rw [toRat_ofInt, toRat_ofInt]
    exact_mod_cast hij

theorem observedRate_sub_scale (n i : Nat) (rate : Decimal) :
    (observedRate n i - rate).scale = max (zScorePrecision + guardDigits) rate.scale :=
  congrArg (max · rate.scale) (roundWith_scale .halfUp _ _)

section Fraction

variable {n i : Nat} (hn : 0 < n) (hi : i ≤ n)

include hn hi

-- A part of the total is one at most, so no more than one digit of the quotient stands in front of the
-- point. Whole parts come out exact with fewer digits.
theorem toRat_quotient : ∃ places : Int, 99 ≤ places ∧
    (ofInt i / ofInt n).toRat = Rounding.halfUp.atScale places (i / n) := by
  have hpos : (0 : ℚ) < n := by exact_mod_cast hn
  by_cases h : i = 0 ∨ n = 1
  · have hself : ofInt i / ofInt n = ofInt i := by
      apply Decimal.div_eq_self
      rcases h with rfl | rfl <;> simp
    have hexact : (i : ℚ) / n = i := by
      rcases h with rfl | rfl <;> simp
    have hwhole : HasPlaces 0 (i : ℚ) := ⟨i, by simp⟩
    refine ⟨99, le_rfl, ?_⟩
    rw [hself, hexact, Rounding.atScale_of_hasPlaces _ _ _ (hwhole.mono (by decide)), toRat_ofInt,
      Int.cast_natCast]
  · rw [not_or] at h
    have hi0 : 0 < (ofInt i).toRat := by
      rw [toRat_ofInt]
      exact_mod_cast Nat.pos_of_ne_zero h.1
    have hn0 : 0 < (ofInt n).toRat := by
      rw [toRat_ofInt]
      exact_mod_cast hn
    have hn1 : (ofInt n).toRat ≠ 1 := by
      rw [toRat_ofInt]
      exact_mod_cast h.2
    have hdigits := ten_pow_le_div_scaled (ofInt i) (ofInt n) hi0 hn0 hn1
    have hvalue := toRat_div (ofInt i) (ofInt n) hn0.ne'
    rw [toRat_ofInt, toRat_ofInt, Int.cast_natCast, Int.cast_natCast] at hdigits hvalue
    refine ⟨_, ?_, hvalue⟩
    have hone : (i : ℚ) / n ≤ 1 := (div_le_one₀ hpos).mpr (by exact_mod_cast hi)
    have hscale : (10 : ℚ) ^ (99 : ℤ) ≤ 10 ^ (ofInt i / ofInt n).scale :=
      hdigits.trans (mul_le_of_le_one_left (ten_zpow_pos _).le hone)
    exact (zpow_le_zpow_iff_right₀ (by norm_num)).mp hscale

theorem toRat_observedRate : ∃ places : Int, 99 ≤ places ∧ (observedRate n i).toRat =
    Rounding.halfUp.atScale 26 (Rounding.halfUp.atScale places (i / n)) := by
  obtain ⟨places, hplaces, hquotient⟩ := toRat_quotient hn hi
  refine ⟨places, hplaces, ?_⟩
  rw [observedRate, toRat_divAt, hquotient]
  rfl

-- Rounding twice does not carry the rate across a number that both roundings leave as it is.
theorem le_observedRate {x : ℚ} (hx : HasPlaces 26 x) (h : x ≤ i / n) :
    x ≤ (observedRate n i).toRat := by
  obtain ⟨places, hplaces, hvalue⟩ := toRat_observedRate hn hi
  rw [hvalue]
  exact Rounding.halfUp.le_atScale hx (Rounding.halfUp.le_atScale (hx.mono (by omega)) h)

theorem observedRate_le_of_le {x : ℚ} (hx : HasPlaces 26 x) (h : i / n ≤ x) :
    (observedRate n i).toRat ≤ x := by
  obtain ⟨places, hplaces, hvalue⟩ := toRat_observedRate hn hi
  rw [hvalue]
  exact Rounding.halfUp.atScale_le hx (Rounding.halfUp.atScale_le (hx.mono (by omega)) h)

-- The first rounding moves the rate by less than what keeps a fraction with a small denominator from the
-- next tie, so the second one ends where it would end without the first.
theorem toRat_observedRate_of_near (hsmall : n < 2 ^ 27) {x : ℚ} (hx : HasPlaces 26 x)
    (h : |(i : ℚ) / n - x| ≤ (1 / 2 - 1 / (2 * n)) * 10 ^ (-26 : ℤ)) :
    (observedRate n i).toRat = x := by
  obtain ⟨places, hplaces, hvalue⟩ := toRat_observedRate hn hi
  have hround := Rounding.abs_halfUp_atScale_sub_le places ((i : ℚ) / n)
  have hunit : (10 : ℚ) ^ (-places) ≤ 10 ^ (-99 : ℤ) :=
    zpow_le_zpow_right₀ (by norm_num) (by omega)
  have hgap : 1 / 2 * (10 : ℚ) ^ (-99 : ℤ) < 1 / (2 * n) * 10 ^ (-26 : ℤ) := by
    have hpos : (0 : ℚ) < n := by exact_mod_cast hn
    have hbound : (n : ℚ) < 2 ^ 27 := by exact_mod_cast hsmall
    have hinverse : 1 / (2 * 2 ^ 27 : ℚ) ≤ 1 / (2 * n) :=
      one_div_le_one_div_of_le (by linarith) (by linarith)
    calc 1 / 2 * (10 : ℚ) ^ (-99 : ℤ) < 1 / (2 * 2 ^ 27) * 10 ^ (-26 : ℤ) := by norm_num
      _ ≤ 1 / (2 * n) * 10 ^ (-26 : ℤ) :=
          mul_le_mul_of_nonneg_right hinverse (ten_zpow_pos _).le
  rw [hvalue]
  apply Rounding.halfUp_atScale_of_abs_sub_lt hx
  calc |Rounding.halfUp.atScale places ((i : ℚ) / n) - x|
      ≤ |Rounding.halfUp.atScale places ((i : ℚ) / n) - i / n| + |(i : ℚ) / n - x| := abs_sub_le _ _ _
    _ ≤ 1 / 2 * 10 ^ (-99 : ℤ) + (1 / 2 - 1 / (2 * n)) * 10 ^ (-26 : ℤ) :=
        add_le_add (hround.trans (mul_le_mul_of_nonneg_left hunit (by norm_num))) h
    _ < 1 / 2 * 10 ^ (-26 : ℤ) := by
        rw [sub_mul]
        linarith

end Fraction

-- Counts on both sides of the expected one are seen at the same distance from its rate, as no
-- distance is a tie.
theorem observedRate_mirrored {rate : ℚ} {n c s : Nat} (hrate : HasPlaces 26 rate) (hn : 0 < n)
    (hsmall : n < 2 ^ 27) (hc : (c : ℚ) = n * rate) (hsc : s ≤ c) (hcs : c + s ≤ n) :
    (observedRate n (c + s)).toRat - rate = -((observedRate n (c - s)).toRat - rate) := by
  have hpos : (0 : ℚ) < n := by exact_mod_cast hn
  have hnear := Rounding.abs_halfUp_atScale_div_sub_le hn (not_isTie_div (s := s) hn hsmall)
  set distance := Rounding.halfUp.atScale ((26 : ℕ) : ℤ) ((s : ℚ) / n) with hdistance
  have hplaces : HasPlaces 26 distance := Rounding.halfUp.atScale_hasPlaces 26 _
  have habove : ((c + s : ℕ) : ℚ) / n = rate + s / n := by
    rw [Nat.cast_add, hc]
    field_simp
  have hbelow : ((c - s : ℕ) : ℚ) / n = rate - s / n := by
    rw [Nat.cast_sub hsc, hc]
    field_simp
  have hup : (observedRate n (c + s)).toRat = rate + distance := by
    apply toRat_observedRate_of_near hn hcs hsmall (hrate.add hplaces)
    rw [habove, add_sub_add_left_eq_sub, abs_sub_comm]
    exact hnear
  have hdown : (observedRate n (c - s)).toRat = rate - distance := by
    apply toRat_observedRate_of_near hn (by omega) hsmall (hrate.sub hplaces)
    rw [hbelow, sub_sub_sub_cancel_left]
    exact hnear
  rw [hup, hdown]
  ring

theorem zScore_monotone (rate : Decimal) (n i j : Nat) (hn : n ≤ maxCount) (hij : i ≤ j) (hj : j ≤ n) :
    zScore rate (n - i) i ≤ zScore rate (n - j) j := by
  rw [le_iff]
  rcases zScore_cases rate n hn with hneutral | ⟨hpos, deviation, hdeviation, hscore⟩
  · rw [hneutral i (hij.trans hj), hneutral j hj]
  · rw [hscore i (hij.trans hj), hscore j hj]
    apply toRat_divAt_le_of_scale_eq _ _ _ _ hdeviation
    · rw [observedRate_sub_scale, observedRate_sub_scale]
    · rw [toRat_sub, toRat_sub]
      exact sub_le_sub_right (observedRate_le n i j hpos hij) _

section Expected

variable {rate : Decimal} {n : Nat} (hn : n ≤ maxCount) (hrate : HasPlaces 26 rate.toRat)

include hn hrate

theorem zScore_nonneg {i : Nat} (hi : i ≤ n) (h : n * rate.toRat ≤ i) :
    0 ≤ (zScore rate (n - i) i).toRat := by
  rcases zScore_cases rate n hn with hneutral | ⟨hpos, deviation, hdeviation, hscore⟩
  · rw [hneutral i hi, toRat_zero]
  · have hfraction : rate.toRat ≤ (i : ℚ) / n :=
      (le_div_iff₀' (by exact_mod_cast hpos)).mpr h
    have hobserved := le_observedRate hpos hi hrate hfraction
    rw [hscore i hi, toRat_divAt]
    apply Rounding.halfUp.atScale_nonneg
    apply toRat_div_nonneg _ _ _ hdeviation
    rw [toRat_sub]
    exact sub_nonneg.mpr hobserved

theorem zScore_nonpos {i : Nat} (hi : i ≤ n) (h : i ≤ n * rate.toRat) :
    (zScore rate (n - i) i).toRat ≤ 0 := by
  rcases zScore_cases rate n hn with hneutral | ⟨hpos, deviation, hdeviation, hscore⟩
  · rw [hneutral i hi, toRat_zero]
  · have hfraction : (i : ℚ) / n ≤ rate.toRat :=
      (div_le_iff₀' (by exact_mod_cast hpos)).mpr h
    have hobserved := observedRate_le_of_le hpos hi hrate hfraction
    rw [hscore i hi, toRat_divAt]
    apply Rounding.halfUp.atScale_nonpos
    apply toRat_div_nonpos _ _ _ hdeviation
    rw [toRat_sub]
    exact sub_nonpos.mpr hobserved

theorem zScore_mirrored (hsmall : n < 2 ^ 27) {c s : Nat} (hc : (c : ℚ) = n * rate.toRat)
    (hsc : s ≤ c) (hcs : c + s ≤ n) :
    zScore rate (n - (c + s)) (c + s) = -zScore rate (n - (c - s)) (c - s) := by
  have hbelow : c - s ≤ n := by omega
  rcases zScore_cases rate n hn with hneutral | ⟨hpos, deviation, -, hscore⟩
  · rw [hneutral _ hcs, hneutral _ hbelow]
    rfl
  · have hdistance : observedRate n (c + s) - rate = -(observedRate n (c - s) - rate) := by
      apply eq_of_toRat_eq
      · rw [toRat_neg, toRat_sub, toRat_sub]
        exact observedRate_mirrored hrate hpos hsmall hc hsc hcs
      · exact (observedRate_sub_scale n _ rate).trans (observedRate_sub_scale n _ rate).symm
    rw [hscore _ hcs, hscore _ hbelow, hdistance, neg_divAt]

end Expected

-- A score rises with the failures. When the expected rate has no more places than the observed one,
-- its sign tells on which side of the expected count the failures lie. Totals that are too small
-- for a tie give opposite scores at equal distances from a whole expected count.
theorem zScore_order_sign_symmetry (rate : Decimal) (n : Nat) (hn : n ≤ maxCount) :
    (∀ i j, i ≤ j → j ≤ n → zScore rate (n - i) i ≤ zScore rate (n - j) j) ∧
    (HasPlaces 26 rate.toRat →
      (∀ i ≤ n,
        (n * rate.toRat ≤ i → zero ≤ zScore rate (n - i) i) ∧
        (i ≤ n * rate.toRat → zScore rate (n - i) i ≤ zero)) ∧
      (n < 2 ^ 27 → ∀ c ≤ n, (c : ℚ) = n * rate.toRat → ∀ s ≤ min c (n - c),
        zScore rate (n - (c + s)) (c + s) = -zScore rate (n - (c - s)) (c - s))) := by
  refine ⟨fun i j hij hj => zScore_monotone rate n i j hn hij hj, fun hrate => ⟨?_, ?_⟩⟩
  · intro i hi
    rw [le_iff, le_iff, toRat_zero]
    exact ⟨zScore_nonneg hn hrate hi, zScore_nonpos hn hrate hi⟩
  · intro hsmall c hcn hc s hs
    exact zScore_mirrored hn hrate hsmall hc (by omega) (by omega)

-- One in a hundred of three hundred: a failure more than three counts for as much as one less, though
-- neither rate has finitely many digits.
theorem zScore_one_failure_off :
    300 ≤ maxCount ∧ HasPlaces 26 (⟨1, 2⟩ : Decimal).toRat ∧ 300 < 2 ^ 27 ∧
      ((3 : ℕ) : ℚ) = (300 : ℕ) * (⟨1, 2⟩ : Decimal).toRat ∧
      zScore ⟨1, 2⟩ 298 2 ≤ zScore ⟨1, 2⟩ 296 4 ∧ zero ≤ zScore ⟨1, 2⟩ 296 4 ∧
      zScore ⟨1, 2⟩ 298 2 ≤ zero ∧ zScore ⟨1, 2⟩ 296 4 = -zScore ⟨1, 2⟩ 298 2 ∧
      zScore ⟨1, 2⟩ 296 4 = ⟨5802588531856595, 16⟩ := by
  have hplaces : HasPlaces 26 (⟨1, 2⟩ : Decimal).toRat := (hasPlaces_toRat 1 2).mono (by decide)
  have hexpected : ((3 : ℕ) : ℚ) = (300 : ℕ) * (⟨1, 2⟩ : Decimal).toRat := by norm_num [toRat]
  obtain ⟨hmono, hrest⟩ := zScore_order_sign_symmetry ⟨1, 2⟩ 300 (by decide)
  obtain ⟨hsign, hmirror⟩ := hrest hplaces
  have hhigh := (hsign 4 (by decide)).1 (hexpected ▸ by norm_num)
  have hlow := (hsign 2 (by decide)).2 (hexpected ▸ by norm_num)
  exact ⟨by decide, hplaces, by decide, hexpected, hmono 2 4 (by decide) (by decide), hhigh, hlow,
    hmirror (by decide) 3 (by decide) hexpected 1 (by decide), by decide +kernel⟩

end ParticipantTrust.Observation
