import ParticipantTrust.Proofs.Decimal.Series

namespace ParticipantTrust.Decimal

section

variable (scale : Int) {m n : Decimal}

theorem lnReduced_eq (m : Decimal) :
    lnReduced m scale = twiceAtanh scale ((m - one).divAt (m + one) scale) :=
  rfl

-- Neither `m - 1` nor `m + 1` has other places than `m`, so the quotient starts from none.
theorem sub_one_scale_eq (hm : 0 < m.toRat) : (m - one).scale = (m + one).scale := by
  have hzero : ¬m.isZero = true := by
    rw [isZero_iff]
    exact hm.ne'
  change (m.alignedSum one.neg).scale = (Decimal.add m one).scale
  unfold Decimal.add
  rw [if_neg (show ¬one.isZero = true by decide), if_neg hzero]
  rfl

theorem add_one_ne_one (hm : 0 < m.toRat) : (m + one).toRat ≠ 1 := by
  rw [toRat_add, toRat_one]
  linarith

theorem add_one_pos (hm : 0 < m.toRat) : 0 < (m + one).toRat := by
  rw [toRat_add, toRat_one]
  linarith

theorem toRat_quotient_le (hm : 0 < m.toRat) (h : m.toRat ≤ n.toRat) :
    ((m - one) / (m + one)).toRat ≤ ((n - one) / (n + one)).toRat := by
  have hn : 0 < n.toRat := hm.trans_le h
  refine toRat_div_le _ _ _ _ (add_one_pos hm) (add_one_ne_one hm) (add_one_pos hn)
    (add_one_ne_one hn) ?_ ?_
  · rw [sub_one_scale_eq hm, sub_one_scale_eq hn, sub_self, sub_self]
  · rw [div_le_div_iff₀ (add_one_pos hm) (add_one_pos hn)]
    simp only [toRat_sub, toRat_add, toRat_one]
    linarith

theorem lnReduced_le (hm : 0 < m.toRat) (h : m.toRat ≤ n.toRat) :
    (lnReduced m scale).toRat ≤ (lnReduced n scale).toRat := by
  rw [lnReduced_eq, lnReduced_eq]
  apply twiceAtanh_le
  rw [toRat_divAt, toRat_divAt]
  exact Rounding.halfUp.atScale_mono scale (toRat_quotient_le hm h)

-- The quotients of a number and of its reciprocal are each other's negatives, whatever places the two
-- are written with.
theorem lnReduced_neg (hm : 0 < m.toRat) (h : m.toRat * n.toRat = 1) :
    (lnReduced n scale).toRat = -(lnReduced m scale).toRat := by
  have hn : 0 < n.toRat := pos_of_mul_pos_right (zero_lt_one.trans_eq h.symm) hm.le
  have hscale : (n - one).scale - (n + one).scale = (-(m - one)).scale - (m + one).scale := by
    change _ = (m - one).scale - (m + one).scale
    rw [sub_one_scale_eq hm, sub_one_scale_eq hn, sub_self, sub_self]
  have hexact : (n - one).toRat / (n + one).toRat = (-(m - one)).toRat / (m + one).toRat := by
    rw [div_eq_div_iff (add_one_pos hn).ne' (add_one_pos hm).ne']
    simp only [toRat_neg, toRat_sub, toRat_add, toRat_one]
    linarith
  have hquotient : ((n - one) / (n + one)).toRat = (-(m - one) / (m + one)).toRat := le_antisymm
    (toRat_div_le _ _ _ _ (add_one_pos hn) (add_one_ne_one hn) (add_one_pos hm) (add_one_ne_one hm)
      hscale hexact.le)
    (toRat_div_le _ _ _ _ (add_one_pos hm) (add_one_ne_one hm) (add_one_pos hn) (add_one_ne_one hn)
      hscale.symm hexact.ge)
  have hround : (n - one).divAt (n + one) scale = -((m - one).divAt (m + one) scale) := by
    rw [← neg_divAt]
    exact round_congr _ _ scale hquotient
  rw [lnReduced_eq, lnReduced_eq, hround, twiceAtanh_neg]

theorem lnReduced_of_one (h : m.toRat = 1) : (lnReduced m scale).toRat = 0 := by
  have hodd := lnReduced_neg scale (m := m) (n := m) (by linarith) (by rw [h, mul_one])
  linarith

theorem lnReduced_two_nonneg : 0 ≤ (lnReduced two scale).toRat := by
  have hle := lnReduced_le scale (m := one) (n := two) (by simp) (by norm_num)
  rwa [lnReduced_of_one scale toRat_one] at hle

theorem abs_quotient_le_third (hlow : 1 / 2 ≤ m.toRat) (hhigh : m.toRat ≤ 2) :
    |((m - one) / (m + one)).toRat| ≤ 1 / 3 := by
  have hthird : ((two - one) / (two + one)).toRat * 3 ≤ 1 := by
    have h : (two - one) / (two + one) * ofInt 3 ≤ one := by decide +kernel
    simpa [le_iff] using h
  have hminus : -1 ≤ ((half - one) / (half + one)).toRat * 3 := by
    have h : -one ≤ (half - one) / (half + one) * ofInt 3 := by decide +kernel
    simpa [le_iff] using h
  have hupper := toRat_quotient_le (m := m) (n := two) (by linarith) (by simpa using hhigh)
  have hlower := toRat_quotient_le (m := half) (n := m) (by simp) (by simpa using hlow)
  rw [abs_le]
  constructor <;> linarith

-- Rounding does not carry the quotient past one third.
theorem abs_start_le (hlow : 1 / 2 ≤ m.toRat) (hhigh : m.toRat ≤ 2) :
    |((m - one).divAt (m + one) scale).toRat| ≤ 1 / 3 := by
  have hthird : Rounding.halfUp.atScale scale (1 / 3) ≤ 1 / 3 := by
    have h := Rounding.halfUp_atScale_ninths_le scale (k := 3) (by norm_num)
    norm_num at h ⊢
    exact h
  obtain ⟨hlower, hupper⟩ := abs_le.mp (abs_quotient_le_third hlow hhigh)
  have hround := Rounding.halfUp.atScale_mono scale hupper
  have hround' := Rounding.halfUp.atScale_mono scale hlower
  rw [Rounding.halfUp_atScale_neg] at hround'
  rw [divAt, toRat_round, abs_le]
  constructor <;> linarith

end

-- What range reduction leaves of a number, as a property of the numbers alone.
structure SplitsAs (x mantissa : ℚ) (exponent : ℤ) : Prop where
  value : x = mantissa * 2 ^ exponent
  low : 1 / 2 ≤ mantissa
  high : mantissa < 2
  up : 0 < exponent → 1 ≤ mantissa
  down : exponent < 0 → mantissa < 1

theorem two_zpow_pos (k : ℤ) : (0 : ℚ) < 2 ^ k := zpow_pos (by norm_num) k

theorem binarySplit_splitsAs (x : Decimal) (hx : 0 < x.toRat) :
    SplitsAs x.toRat (binarySplit x).mantissa.toRat (binarySplit x).exponent := by
  obtain ⟨value, low, high, up, down⟩ := binarySplit_spec x hx
  exact ⟨value, low, high, up, down⟩

namespace SplitsAs

variable {x y μ ν : ℚ} {k l : ℤ}

theorem mantissa_pos (h : SplitsAs x μ k) : 0 < μ := lt_of_lt_of_le (by norm_num) h.low

-- A smaller exponent makes the number smaller: the ranges of the mantissas meet at powers of two only.
theorem exponent_le (hx : SplitsAs x μ k) (hy : SplitsAs y ν l) (h : x ≤ y) : k ≤ l := by
  by_contra hlt
  have hstep : (2 : ℚ) ^ l * 2 ≤ 2 ^ k := by
    rw [← zpow_add_one₀ (by norm_num)]
    exact zpow_le_zpow_right₀ (by norm_num) (by omega)
  have hl := two_zpow_pos l
  have hk := two_zpow_pos k
  rw [hx.value, hy.value] at h
  rcases lt_or_ge 0 k with hpos | hneg
  · have hμ := hx.up hpos
    nlinarith [hy.high]
  · have hν := hy.down (by omega)
    nlinarith [hx.low]

theorem mantissa_le (hx : SplitsAs x μ k) (hy : SplitsAs y ν k) (h : x ≤ y) : μ ≤ ν := by
  rw [hx.value, hy.value] at h
  exact le_of_mul_le_mul_right h (two_zpow_pos k)

theorem unique (h : SplitsAs x μ k) (h' : SplitsAs x ν l) : μ = ν ∧ k = l := by
  obtain rfl : k = l := le_antisymm (h.exponent_le h' le_rfl) (h'.exponent_le h le_rfl)
  exact ⟨le_antisymm (h.mantissa_le h' le_rfl) (h'.mantissa_le h le_rfl), rfl⟩

theorem one : SplitsAs 1 1 0 where
  value := by norm_num
  low := by norm_num
  high := by norm_num
  up := fun _ => le_rfl
  down := fun h => absurd h (lt_irrefl 0)

-- The split of a reciprocal. Powers of two have the mantissa one above one and one half below it, where
-- one halving less is left.
theorem reciprocal (hx : SplitsAs x μ k) (h : x * y = 1) :
    SplitsAs y μ⁻¹ (-k) ∨ (μ = 1 / 2 ∧ SplitsAs y 1 (1 - k)) ∨ (μ = 1 ∧ SplitsAs y (1 / 2) (1 - k)) := by
  have hμ := hx.mantissa_pos
  have hk := (two_zpow_pos k).ne'
  have hy : y = μ⁻¹ * 2 ^ (-k) := by
    rw [zpow_neg, ← mul_inv, ← hx.value]
    exact eq_inv_of_mul_eq_one_right h
  by_cases hhalf : μ = 1 / 2
  · have hnonpos : k ≤ 0 := by
      by_contra hpos
      have := hx.up (by omega)
      linarith
    refine .inr (.inl ⟨hhalf, ?_, by norm_num, by norm_num, fun _ => le_rfl, by omega⟩)
    rw [hy, hhalf, sub_eq_add_neg, zpow_add₀ (by norm_num)]
    norm_num
  by_cases hone : μ = 1 ∧ 0 < k
  · obtain ⟨hμ1, hpos⟩ := hone
    refine .inr (.inr ⟨hμ1, ?_, le_rfl, by norm_num, by omega, fun _ => by norm_num⟩)
    rw [hy, hμ1, sub_eq_add_neg, zpow_add₀ (by norm_num), zpow_one, inv_one]
    ring
  · refine .inl ⟨hy, ?_, ?_, ?_, ?_⟩
    · rw [one_div]
      exact inv_anti₀ hμ hx.high.le
    · have hlow : 1 / 2 < μ := lt_of_le_of_ne hx.low (Ne.symm hhalf)
      rw [inv_lt_comm₀ hμ (by norm_num), ← one_div]
      exact hlow
    · intro hpos
      exact (one_le_inv₀ hμ).mpr (hx.down (by omega)).le
    · intro hneg
      have hge := hx.up (by omega)
      exact inv_lt_one_of_one_lt₀ (lt_of_le_of_ne hge fun he => hone ⟨he.symm, by omega⟩)

end SplitsAs

-- The logarithm before its last rounding: each halving or doubling counts as one logarithm of two.
def unroundedLn (x : Decimal) (working : Int) : ℚ :=
  (lnReduced (binarySplit x).mantissa working).toRat +
    (lnReduced two working).toRat * (binarySplit x).exponent

theorem unroundedLn_of_one (x : Decimal) (working : Int) (h : x.toRat = 1) :
    unroundedLn x working = 0 := by
  have hsplit := binarySplit_splitsAs x (by linarith)
  rw [h] at hsplit
  obtain ⟨hm, hk⟩ := hsplit.unique .one
  rw [unroundedLn, lnReduced_of_one working hm, hk, Int.cast_zero, mul_zero, add_zero]

theorem toRat_ln (x : Decimal) (precision : Int) :
    (x.ln precision).toRat =
      Rounding.halfUp.atScale precision (unroundedLn x (precision + guardDigits)) := by
  unfold ln
  split
  · rename_i h
    rw [sameValue_iff, toRat_one] at h
    rw [unroundedLn_of_one x _ h, toRat_round, toRat_zero]
  · simp only [toRat_round, unroundedLn]
    split
    · rename_i hk
      rw [hk, Int.cast_zero, mul_zero, add_zero]
    · rw [toRat_add, toRat_mul, toRat_ofInt]

theorem ln_scale (x : Decimal) (precision : Int) : (x.ln precision).scale = precision := by
  unfold ln
  split <;> exact roundWith_scale .halfUp _ _

-- Where the exponents of two numbers differ, the one logarithm of two between them makes up for what
-- the mantissas may lose: both lie between one half and two.
theorem unroundedLn_le (x y : Decimal) (working : Int) (hx : 0 < x.toRat) (h : x.toRat ≤ y.toRat) :
    unroundedLn x working ≤ unroundedLn y working := by
  have hsx := binarySplit_splitsAs x hx
  have hsy := binarySplit_splitsAs y (hx.trans_le h)
  have hexponent := hsx.exponent_le hsy h
  have htwo := lnReduced_two_nonneg working
  unfold unroundedLn
  set μ := (binarySplit x).mantissa
  set ν := (binarySplit y).mantissa
  set k := (binarySplit x).exponent
  set l := (binarySplit y).exponent
  rcases hexponent.eq_or_lt with heq | hlt
  · rw [← heq] at hsy ⊢
    have hmantissa := lnReduced_le working hsx.mantissa_pos (hsx.mantissa_le hsy h)
    linarith
  · have hstep : (k : ℚ) + 1 ≤ l := by exact_mod_cast hlt
    rcases lt_or_ge 0 l with hl | hl
    · have hupper : (lnReduced μ working).toRat ≤ (lnReduced two working).toRat :=
        lnReduced_le working hsx.mantissa_pos (by simpa using hsx.high.le)
      have hlower : 0 ≤ (lnReduced ν working).toRat := by
        rw [← lnReduced_of_one working toRat_one]
        exact lnReduced_le working (by simp) (by simpa using hsy.up hl)
      nlinarith
    · have hupper : (lnReduced μ working).toRat ≤ 0 := by
        rw [← lnReduced_of_one working toRat_one]
        exact lnReduced_le working hsx.mantissa_pos (by simpa using (hsx.down (by omega)).le)
      have hlower : -(lnReduced two working).toRat ≤ (lnReduced ν working).toRat := by
        rw [← lnReduced_neg working (m := two) (n := half) (by simp) (by norm_num)]
        exact lnReduced_le working (by simp) (by simpa using hsy.low)
      nlinarith

theorem unroundedLn_neg (x y : Decimal) (working : Int) (hx : 0 < x.toRat)
    (h : x.toRat * y.toRat = 1) : unroundedLn y working = -unroundedLn x working := by
  have hsx := binarySplit_splitsAs x hx
  have hsy := binarySplit_splitsAs y (pos_of_mul_pos_right (zero_lt_one.trans_eq h.symm) hx.le)
  unfold unroundedLn
  rcases hsx.reciprocal h with hplain | ⟨hμ, hpower⟩ | ⟨hμ, hpower⟩
  · obtain ⟨hm, hk⟩ := hsy.unique hplain
    have hreduced := lnReduced_neg working hsx.mantissa_pos
      (by rw [hm, mul_inv_cancel₀ hsx.mantissa_pos.ne'])
    rw [hreduced, hk]
    push_cast
    ring
  · obtain ⟨hm, hk⟩ := hsy.unique hpower
    have hreduced := lnReduced_neg working (m := two) (n := (binarySplit x).mantissa) (by simp)
      (by rw [hμ, toRat_two]; norm_num)
    rw [hreduced, lnReduced_of_one working hm, hk]
    push_cast
    ring
  · obtain ⟨hm, hk⟩ := hsy.unique hpower
    have hreduced := lnReduced_neg working (m := two) (n := (binarySplit y).mantissa) (by simp)
      (by rw [hm, toRat_two]; norm_num)
    rw [hreduced, lnReduced_of_one working hμ, hk]
    push_cast
    ring

theorem ln_le (x y : Decimal) (precision : Int) (hx : 0 < x.toRat) (h : x.toRat ≤ y.toRat) :
    (x.ln precision).toRat ≤ (y.ln precision).toRat := by
  rw [toRat_ln, toRat_ln]
  exact Rounding.halfUp.atScale_mono _ (unroundedLn_le x y _ hx h)

theorem ln_reciprocal (x y : Decimal) (precision : Int) (hx : 0 < x.toRat)
    (h : x.toRat * y.toRat = 1) : y.ln precision = -(x.ln precision) := by
  apply eq_of_toRat_eq
  · rw [toRat_neg, toRat_ln, toRat_ln, unroundedLn_neg x y _ hx h, Rounding.halfUp_atScale_neg]
  · exact (ln_scale y precision).trans (ln_scale x precision).symm

end ParticipantTrust.Decimal

namespace ParticipantTrust.Elementary

open Decimal

theorem ln_of_pos (x : Decimal) (precision : Int) (hx : zero < x) :
    ln x precision = .ok (x.ln precision) := by
  rw [lt_iff, toRat_zero] at hx
  rw [ln, if_neg]
  rw [le_iff, toRat_zero, not_le]
  exact hx

-- Rounded logarithms are in the order of their arguments and change sign, digit for digit, under
-- reciprocals.
theorem ln_monotone_and_odd (x y : Decimal) (precision : Int) (hx : zero < x) (hy : zero < y) :
    ∃ l l', ln x precision = .ok l ∧ ln y precision = .ok l' ∧ (x ≤ y → l ≤ l') ∧
      (x ≤ one → l ≤ zero) ∧ (one ≤ x → zero ≤ l) ∧ ((x * y).SameValue one → l' = -l) := by
  have hpos : 0 < x.toRat := by simpa using (lt_iff zero x).mp hx
  refine ⟨_, _, ln_of_pos x precision hx, ln_of_pos y precision hy, ?_, ?_, ?_, ?_⟩
  · intro h
    rw [le_iff] at h ⊢
    exact ln_le x y precision hpos h
  · intro h
    rw [le_iff, toRat_one] at h
    rw [le_iff, toRat_zero]
    exact ln_nonpos x precision hpos h
  · intro h
    rw [le_iff, toRat_one] at h
    rw [le_iff, toRat_zero]
    exact ln_nonneg x precision h
  · intro h
    rw [sameValue_iff, toRat_mul, toRat_one] at h
    exact ln_reciprocal x y precision hpos h

-- Range reduction leaves one half as it is and takes one halving from two.
theorem ln_monotone_and_odd_half_two : zero < half ∧ zero < two ∧
    ∃ l, ln half 6 = .ok l ∧ ln two 6 = .ok (-l) ∧ l ≤ -l ∧ l = ⟨-693147, 6⟩ := by
  obtain ⟨l, l', hl, hl', hle, -, -, hodd⟩ := ln_monotone_and_odd half two 6 (by decide) (by decide)
  obtain rfl : l' = -l := hodd (by decide)
  have hdigits : half.ln 6 = ⟨-693147, 6⟩ := by decide +kernel
  have hresult := (ln_of_pos half 6 (by decide)).symm.trans hl
  rw [hdigits, Except.ok.injEq] at hresult
  exact ⟨by decide, by decide, l, hl, hl', hle (by decide), hresult.symm⟩

end ParticipantTrust.Elementary
