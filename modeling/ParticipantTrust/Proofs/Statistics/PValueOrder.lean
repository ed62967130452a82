import ParticipantTrust.Proofs.Statistics.PValue

namespace ParticipantTrust.Binomial

open Decimal

section Exact

variable {n : Nat} {p q : ℚ} (hp : 0 < p) (hq : 0 < q) (hpq : p + q = 1)

include hp hq hpq

-- From the mean on, no weight is above the one before it.
theorem weight_succ_le {i : Nat} (hmean : n * p ≤ i) (hi : i < n) :
    weight n p q (i + 1) ≤ weight n p q i := by
  have hodds : ((n - i : Nat) : ℚ) / ((i + 1 : Nat) : ℚ) * (p / q) ≤ 1 := by
    obtain rfl : q = 1 - p := by linarith
    rw [div_mul_div_comm, div_le_one₀ (by positivity), Nat.cast_sub hi.le]
    push_cast
    linarith
  rw [← weight_succ n p q i hi hq.ne', mul_assoc]
  exact mul_le_of_le_one_right (weight_nonneg n p q i hp.le hq.le) hodds

theorem weight_le {k i : Nat} (hmean : n * p ≤ k) (hki : k ≤ i) (hin : i ≤ n) :
    weight n p q i ≤ weight n p q k := by
  induction i, hki using Nat.le_induction with
  | base => exact le_rfl
  | succ i hki ih =>
      have hmean' : n * p ≤ i := hmean.trans (by exact_mod_cast hki)
      exact (weight_succ_le hp hq hpq hmean' hin).trans (ih (Nat.le_of_succ_le hin))

-- What lies beyond a count above the mean has at most `n` weights, none above the one of that count.
theorem exactTail_succ_le {k : Nat} (hmean : n * p ≤ k) :
    exactTail n (k + 1) p q ≤ n * weight n p q k := by
  have hterms : ∀ i ∈ Finset.Icc (k + 1) n, weight n p q i ≤ weight n p q k := by
    intro i hi
    rw [Finset.mem_Icc] at hi
    exact weight_le hp hq hpq hmean (by omega) hi.2
  have hsum := Finset.sum_le_card_nsmul _ _ _ hterms
  rw [Nat.card_Icc, nsmul_eq_mul] at hsum
  refine hsum.trans (mul_le_mul_of_nonneg_right ?_ (weight_nonneg n p q k hp.le hq.le))
  exact_mod_cast (show n + 1 - (k + 1) ≤ n by omega)

end Exact

theorem exactTail_eq_weight_add {n k : Nat} (p q : ℚ) (hk : k ≤ n) :
    exactTail n k p q = weight n p q k + exactTail n (k + 1) p q := by
  rw [exactTail, ← Finset.insert_Icc_add_one_left_eq_Icc hk, Finset.sum_insert (by simp)]
  rfl

-- What the terms of up to ten thousand trials may grow by at the precision of p-values.
theorem termGrowth_le {n : Nat} (hn : n ≤ 10 ^ 4) :
    termGrowth n (pValuePrecision + guardDigits) ≤ 32 / 10 ^ 22 := by
  have hcast : (n : ℚ) ≤ 10 ^ 4 := by exact_mod_cast hn
  have hunit : relativeUnit (pValuePrecision + guardDigits) = 5 / 10 ^ 26 := by
    norm_num [relativeUnit, pValuePrecision, guardDigits]
  have hparts : ((6 * n + 1 : Nat) : ℚ) * (5 / 10 ^ 26) ≤ 31 / 10 ^ 22 := by
    push_cast
    linarith
  have hprod := one_add_pow_mul_le_one (6 * n + 1) (by norm_num) hparts (by norm_num)
  have hlimit : (1 : ℚ) ≤ (1 + 32 / 10 ^ 22) * (1 - 31 / 10 ^ 22) := by norm_num
  have hgrown := le_of_mul_le_mul_right (hprod.trans hlimit) (by norm_num)
  rw [termGrowth, hunit]
  linarith

theorem half_pValueUnit : (1 : ℚ) / 2 * 10 ^ (-pValuePrecision) = 5 / 10 ^ 17 := by
  norm_num [pValuePrecision]

section Neighbours

variable {n k : Nat} {p q : Decimal} (hn : n ≤ 10 ^ 4) (hp : 0 < p.toRat) (hq : 0 < q.toRat)

include hn hp hq

theorem upperTail_bounds (hk : k ≤ n) :
    let upper := (upperTail n k p q (pValuePrecision + guardDigits)).toRat
    let exact := exactTail n k p.toRat q.toRat
    exact - (32 / 10 ^ 22 * exact + 51 / 10 ^ 24) ≤ upper ∧
      upper ≤ exact + (32 / 10 ^ 22 * exact + 51 / 10 ^ 24) := by
  intro upper exact
  have hcast : (n : ℚ) ≤ 10 ^ 4 := by exact_mod_cast hn
  have hexact := exactTail_nonneg n k p.toRat q.toRat hp.le hq.le
  have hgrowth := mul_le_mul_of_nonneg_left (termGrowth_le hn) hexact
  have hunit : (10 : ℚ) ^ (-(pValuePrecision + guardDigits)) = 1 / 10 ^ 26 := by
    norm_num [pValuePrecision, guardDigits]
  have herror := abs_upperTail_sub_le_mul n k p q (pValuePrecision + guardDigits) (by decide)
    (by decide) hk hp hq
  rw [hunit, abs_le] at herror
  obtain ⟨hlow, hhigh⟩ := herror
  constructor <;> linarith

variable (hpq : p.toRat + q.toRat = 1)

include hpq

-- Two tails above the mean differ by a weight. It outweighs their errors, or all that lies beyond it is
-- too small to be told from zero.
theorem upperTail_succ_le_or_lt (hmean : n * p.toRat ≤ k) (hk : k < n) :
    (upperTail n (k + 1) p q (pValuePrecision + guardDigits)).toRat ≤
        (upperTail n k p q (pValuePrecision + guardDigits)).toRat ∨
      (upperTail n (k + 1) p q (pValuePrecision + guardDigits)).toRat <
        1 / 2 * 10 ^ (-pValuePrecision) := by
  have hcast : (n : ℚ) ≤ 10 ^ 4 := by exact_mod_cast hn
  have hweight := weight_nonneg n p.toRat q.toRat k hp.le hq.le
  have hbeyond : exactTail n (k + 1) p.toRat q.toRat ≤ 10 ^ 4 * weight n p.toRat q.toRat k :=
    (exactTail_succ_le hp hq hpq hmean).trans (mul_le_mul_of_nonneg_right hcast hweight)
  have hshort := (upperTail_bounds hn hp hq (Nat.succ_le_of_lt hk)).2
  have hlong := (upperTail_bounds hn hp hq hk.le).1
  rw [exactTail_eq_weight_add _ _ hk.le] at hlong
  rw [half_pValueUnit]
  rcases le_or_gt (110 / 10 ^ 24) (weight n p.toRat q.toRat k) with hlarge | hsmall
  · left
    linarith
  · right
    linarith

-- On either side of the mean the two tails leave out the weight of the count between them. It outweighs
-- their errors, or all that lies below it is too small to be told from zero.
theorem upperTail_add_le_one_or_lt (hmean : n * q.toRat ≤ (n - k : Nat)) (hk1 : 1 ≤ k) (hk : k < n) :
    (upperTail n (k + 1) p q (pValuePrecision + guardDigits)).toRat +
        (upperTail n (n - k + 1) q p (pValuePrecision + guardDigits)).toRat ≤ 1 ∨
      (upperTail n (n - k + 1) q p (pValuePrecision + guardDigits)).toRat <
        1 / 2 * 10 ^ (-pValuePrecision) := by
  have hcast : (n : ℚ) ≤ 10 ^ 4 := by exact_mod_cast hn
  have hweight := weight_nonneg n p.toRat q.toRat k hp.le hq.le
  have hbelow : exactTail n (n - k + 1) q.toRat p.toRat ≤ 10 ^ 4 * weight n p.toRat q.toRat k := by
    rw [← weight_mirror n p.toRat q.toRat k hk.le]
    exact (exactTail_succ_le hq hp ((add_comm _ _).trans hpq) hmean).trans
      (mul_le_mul_of_nonneg_right hcast (weight_nonneg n _ _ _ hq.le hp.le))
  have hsplit : exactTail n (k + 1) p.toRat q.toRat + exactTail n (n - k + 1) q.toRat p.toRat =
      1 - weight n p.toRat q.toRat k := by
    have hmirror := exactTail_add_mirror n (k - 1) p.toRat q.toRat (by omega) hpq
    rw [Nat.sub_add_cancel hk1, exactTail_eq_weight_add _ _ hk.le,
      show n - (k - 1) = n - k + 1 by omega] at hmirror
    linarith
  have habove := (upperTail_bounds hn hp hq (Nat.succ_le_of_lt hk)).2
  have hlower := (upperTail_bounds hn hq hp (show n - k + 1 ≤ n by omega)).2
  rw [half_pValueUnit]
  rcases le_or_gt (331 / 10 ^ 23) (weight n p.toRat q.toRat k) with hlarge | hsmall
  · left
    linarith
  · right
    linarith

end Neighbours

-- With one more hit the summed tail is no larger, or so near to zero or the former one so near to one
-- that rounding decides.
theorem summedTail_succ_cases (n k : Nat) (p : Decimal) (hn : n ≤ 10 ^ 4) (hk1 : 1 ≤ k) (hk : k < n)
    (hp0 : 0 < p.toRat) (hp1 : p.toRat < 1) :
    let fewer := (summedTail n k p (pValuePrecision + guardDigits)).toRat
    let more := (summedTail n (k + 1) p (pValuePrecision + guardDigits)).toRat
    more ≤ fewer ∨ more < 1 / 2 * 10 ^ (-pValuePrecision) ∨
      1 - 1 / 2 * 10 ^ (-pValuePrecision) < fewer := by
  have hq : 0 < p.complement.toRat := by
    rw [toRat_complement]
    linarith
  have hpq : p.toRat + p.complement.toRat = 1 := by
    rw [toRat_complement]
    ring
  have hmisses : ((n - k : Nat) : ℚ) = n - k := Nat.cast_sub hk.le
  simp only [summedTail, lt_iff, toRat_mul, toRat_ofInt, Int.cast_natCast]
  rw [lowerTail_eq_upperTail n (k - 1) p _ _ (by omega), Nat.add_sub_cancel,
    lowerTail_eq_upperTail n k p _ _ hk.le, show n - (k - 1) = n - k + 1 by omega]
  push_cast
  by_cases habove : (n : ℚ) * p.toRat < k
  · rw [if_pos habove, if_pos (by linarith)]
    rcases upperTail_succ_le_or_lt hn hp0 hq hpq habove.le hk with hle | hlt
    · exact .inl hle
    · exact .inr (.inl hlt)
  · rw [if_neg habove]
    have hmean : (n : ℚ) * p.complement.toRat = n - n * p.toRat := by
      rw [toRat_complement]
      ring
    by_cases hnext : (n : ℚ) * p.toRat < k + 1
    · rw [if_pos hnext, toRat_sub, toRat_one]
      rcases upperTail_add_le_one_or_lt hn hp0 hq hpq (by linarith) hk1 hk with hle | hlt
      · exact .inl (by linarith)
      · exact .inr (.inr (by linarith))
    · rw [if_neg hnext, toRat_sub, toRat_sub, toRat_one]
      rcases upperTail_succ_le_or_lt hn hq hp0 ((add_comm _ _).trans hpq)
        (show (n : ℚ) * p.complement.toRat ≤ (n - k : Nat) by linarith) (by omega) with hle | hlt
      · exact .inl (by linarith)
      · exact .inr (.inr (by linarith))

theorem toRat_clampUnit (v : Decimal) : (clampUnit v).toRat = max 0 (min 1 v.toRat) := by
  simp only [clampUnit, lt_iff, toRat_zero, toRat_one]
  split
  · rename_i hneg
    rw [toRat_zero, min_eq_right (by linarith), max_eq_left hneg.le]
  · rename_i hnonneg
    split
    · rename_i hbig
      rw [toRat_one, min_eq_left hbig.le, max_eq_right zero_le_one]
    · rename_i hsmall
      rw [min_eq_right (not_lt.mp hsmall), max_eq_right (not_lt.mp hnonneg)]

-- A value at one precision, out of a tail that need not lie in the unit interval.
def roundedTail (precision : Int) (tail : ℚ) : ℚ :=
  Rounding.halfUp.atScale precision (max 0 (min 1 tail))

theorem roundedTail_le_one (precision : Int) (tail : ℚ) : roundedTail precision tail ≤ 1 :=
  Rounding.halfUp_atScale_le_one precision (max_le zero_le_one (min_le_left _ _))

theorem roundedTail_nonneg (precision : Int) (tail : ℚ) : 0 ≤ roundedTail precision tail :=
  Rounding.halfUp.atScale_nonneg precision (le_max_left _ _)

theorem roundedTail_le {precision : Int} (hP : 0 ≤ precision) {fewer more : ℚ}
    (h : more ≤ fewer ∨ more < 1 / 2 * 10 ^ (-precision) ∨ 1 - 1 / 2 * 10 ^ (-precision) < fewer) :
    roundedTail precision more ≤ roundedTail precision fewer := by
  have hunit := ten_zpow_pos (-precision)
  rcases h with hle | hlt | hgt
  · exact Rounding.halfUp.atScale_mono precision (max_le_max_left 0 (min_le_min_left 1 hle))
  · refine le_trans ?_ (roundedTail_nonneg precision fewer)
    refine not_lt.mp (mt (Rounding.halfUp_atScale_pos_iff precision _).mp (not_le.mpr ?_))
    exact max_lt (by linarith) ((min_le_right _ _).trans_lt hlt)
  · refine (roundedTail_le_one precision more).trans (Rounding.one_le_halfUp_atScale precision hP ?_)
    exact le_max_of_le_right (le_min (by linarith) hgt.le)

theorem pValue_zero (n : Nat) (p : Decimal) (precision : Int) (hp : Domain.openUnit.Contains p) :
    pValue n 0 p precision = .ok one := by
  rw [pValue, if_neg (Nat.not_lt_zero n), Domain.require, if_pos hp]
  rfl

theorem toRat_pValue (n k : Nat) (p : Decimal) (precision : Int) (hk : 1 ≤ k) (hkn : k ≤ n)
    (hp : Domain.openUnit.Contains p) :
    ∃ value, pValue n k p precision = .ok value ∧
      value.toRat = roundedTail precision (summedTail n k p (precision + guardDigits)).toRat := by
  refine ⟨_, pValue_eq n k p precision hk hkn hp, ?_⟩
  rw [toRat_round, toRat_clampUnit, roundedTail]

-- One more hit is never more probable to be reached.
theorem pValue_succ_le (n k : Nat) (p : Decimal) (hn : n ≤ 10 ^ 4) (hk : k < n)
    (hp : Domain.openUnit.Contains p) :
    ∃ fewer more, pValue n k p pValuePrecision = .ok fewer ∧
      pValue n (k + 1) p pValuePrecision = .ok more ∧ more ≤ fewer := by
  obtain ⟨hp0, hp1⟩ := (Domain.openUnit_contains_iff p).mp hp
  obtain ⟨more, hmore, hmoreValue⟩ :=
    toRat_pValue n (k + 1) p pValuePrecision (Nat.succ_pos k) hk hp
  rcases Nat.eq_zero_or_pos k with rfl | hpos
  · refine ⟨one, more, pValue_zero n p pValuePrecision hp, hmore, ?_⟩
    rw [le_iff, hmoreValue, toRat_one]
    exact roundedTail_le_one _ _
  · obtain ⟨fewer, hfewer, hfewerValue⟩ := toRat_pValue n k p pValuePrecision hpos hk.le hp
    refine ⟨fewer, more, hfewer, hmore, ?_⟩
    rw [le_iff, hmoreValue, hfewerValue]
    exact roundedTail_le (by decide) (summedTail_succ_cases n k p hn hpos hk hp0 hp1)

theorem plausibleMisses_eq (missed total : Nat) (p significance value : Decimal) (ht : 1 ≤ total)
    (hm : missed ≤ total) (hvalue : pValue total missed p pValuePrecision = .ok value) :
    plausibleMisses missed total p significance = .ok (decide (significance ≤ value)) := by
  rw [plausibleMisses, if_neg (by omega), if_neg (by omega), hvalue]
  rfl

-- No verdict turns for the worse with fewer misses: p-values are in order without any tolerance,
-- although neighbours may be summed from opposite ends.
theorem plausibleMisses_monotone (total missed : Nat) (p significance : Decimal)
    (hn : total ≤ 10 ^ 4) (hm : missed < total) (hp : Domain.openUnit.Contains p) :
    (∃ fewer more, pValue total missed p pValuePrecision = .ok fewer ∧
        pValue total (missed + 1) p pValuePrecision = .ok more ∧ more ≤ fewer) ∧
      (plausibleMisses (missed + 1) total p significance = .ok true →
        plausibleMisses missed total p significance = .ok true) := by
  obtain ⟨fewer, more, hfewer, hmore, hle⟩ := pValue_succ_le total missed p hn hm hp
  refine ⟨⟨fewer, more, hfewer, hmore, hle⟩, fun haccepts => ?_⟩
  rw [plausibleMisses_eq _ _ _ _ more (by omega) hm hmore, Except.ok.injEq, decide_eq_true_eq,
    le_iff] at haccepts
  rw [plausibleMisses_eq _ _ _ _ fewer (by omega) hm.le hfewer, Except.ok.injEq, decide_eq_true_eq,
    le_iff]
  exact haccepts.trans ((le_iff _ _).mp hle)

-- At a rate of a tenth two misses of twenty are summed from below and three from above.
theorem plausibleMisses_monotone_at_mean :
    20 ≤ 10 ^ 4 ∧ 2 < 20 ∧ Domain.openUnit.Contains ⟨1, 1⟩ ∧
      plausibleMisses 3 20 ⟨1, 1⟩ defaultSignificance = .ok true ∧
      plausibleMisses 2 20 ⟨1, 1⟩ defaultSignificance = .ok true := by
  have hp : Domain.openUnit.Contains ⟨1, 1⟩ := by decide
  have haccepts : plausibleMisses 3 20 ⟨1, 1⟩ defaultSignificance = .ok true := by decide +kernel
  exact ⟨by decide, by decide, hp, haccepts,
    (plausibleMisses_monotone 20 2 ⟨1, 1⟩ defaultSignificance (by decide) (by decide) hp).2 haccepts⟩

end ParticipantTrust.Binomial
