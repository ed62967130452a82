import ParticipantTrust.Proofs.Decimal.Logarithm
import ParticipantTrust.Proofs.Decimal.QuotientOrder

namespace ParticipantTrust.Decimal

protected theorem abs_neg (v : Decimal) : (-v).abs = v.abs := by
  apply eq_of_toRat_eq
  · rw [toRat_abs, toRat_abs, toRat_neg, abs_neg]
  · rfl

protected theorem neg_mul (a b : Decimal) : -a * b = -(a * b) := by
  apply eq_of_toRat_eq
  · simp only [toRat_mul, toRat_neg, neg_mul]
  · rfl

-- What a step of the series adds to the sum for a power and its denominator.
def seriesTerm (scale : Int) (power : Decimal) (denominator : Nat) : Decimal :=
  power.divAt (ofInt denominator) scale

section

variable (scale : Int) (power power' : Decimal) (denominator : Nat)

theorem seriesTerm_nonneg (hd : 0 < denominator) (h : 0 ≤ power.toRat) :
    0 ≤ (seriesTerm scale power denominator).toRat := by
  rw [seriesTerm, toRat_divAt]
  refine Rounding.halfUp.atScale_nonneg scale (toRat_div_nonneg power _ h ?_)
  rw [toRat_ofInt]
  exact_mod_cast hd

theorem seriesTerm_le (hd : 1 < denominator) (hscale : power.scale = power'.scale)
    (h : power.toRat ≤ power'.toRat) :
    (seriesTerm scale power denominator).toRat ≤ (seriesTerm scale power' denominator).toRat := by
  have hpos : 0 < (ofInt denominator).toRat := by
    rw [toRat_ofInt]
    exact_mod_cast zero_lt_one.trans hd
  have hone : (ofInt denominator).toRat ≠ 1 := by
    rw [toRat_ofInt]
    exact_mod_cast hd.ne'
  exact toRat_divAt_le _ _ _ _ scale hpos hone hpos hone (by rw [hscale])
    (div_le_div_of_nonneg_right h hpos.le)

theorem seriesTerm_neg :
    seriesTerm scale (-power) denominator = -(seriesTerm scale power denominator) :=
  neg_divAt _ _ _

theorem seriesTerm_of_isZero (h : power.toRat = 0) : (seriesTerm scale power denominator).toRat = 0 := by
  rw [seriesTerm, toRat_divAt, div_eq_self power _ (.inl h), h, Rounding.atScale_zero]

end

-- The power that a step of the series goes on with.
def nextPower (scale : Int) (tSquared power : Decimal) : Decimal := (power * tSquared).round scale

section

variable (scale : Int) (tSquared power : Decimal)

theorem toRat_nextPower : (nextPower scale tSquared power).toRat =
    Rounding.halfUp.atScale scale (power.toRat * tSquared.toRat) := by
  rw [nextPower, toRat_round, toRat_mul]

theorem nextPower_scale : (nextPower scale tSquared power).scale = scale :=
  roundWith_scale .halfUp _ scale

theorem nextPower_neg : nextPower scale tSquared (-power) = -nextPower scale tSquared power := by
  rw [nextPower, Decimal.neg_mul, round_neg, ← nextPower]

theorem abs_nextPower_le {ratio : ℚ} (hq0 : 0 ≤ tSquared.toRat) (hq : tSquared.toRat ≤ ratio) :
    |(nextPower scale tSquared power).toRat| ≤ |power.toRat| * ratio + 1 / 2 * 10 ^ (-scale) := by
  have hround := Rounding.abs_halfUp_atScale_sub_le scale (power.toRat * tSquared.toRat)
  have hprod : |power.toRat * tSquared.toRat| ≤ |power.toRat| * ratio := by
    rw [abs_mul, abs_of_nonneg hq0]
    exact mul_le_mul_of_nonneg_left hq (abs_nonneg _)
  have htriangle := abs_sub_abs_le_abs_sub
    (Rounding.halfUp.atScale scale (power.toRat * tSquared.toRat)) (power.toRat * tSquared.toRat)
  rw [toRat_nextPower]
  linarith

end

theorem atanhSeries_succ (scale : Int) (tSquared : Decimal) (steps : Nat) (power sum : Decimal)
    (denominator : Nat) :
    atanhSeries scale tSquared (steps + 1) power sum denominator =
      if (seriesTerm scale (nextPower scale tSquared power) (denominator + 2)).abs < unitAt scale
      then sum
      else atanhSeries scale tSquared steps (nextPower scale tSquared power)
        (sum + seriesTerm scale (nextPower scale tSquared power) (denominator + 2)) (denominator + 2) :=
  rfl

-- The sum is only added to: where the series stops does not depend on it.
theorem toRat_atanhSeries (scale : Int) (tSquared : Decimal) (steps : Nat) (power sum : Decimal)
    (denominator : Nat) :
    (atanhSeries scale tSquared steps power sum denominator).toRat =
      sum.toRat + (atanhSeries scale tSquared steps power zero denominator).toRat := by
  induction steps generalizing power sum denominator with
  | zero => simp [atanhSeries]
  | succ steps ih =>
      rw [atanhSeries_succ, atanhSeries_succ]
      split
      · simp
      · rw [ih _ (sum + _), ih _ (zero + _), toRat_add, toRat_add, toRat_zero, zero_add, add_assoc]

theorem le_atanhSeries (scale : Int) (tSquared : Decimal) (steps : Nat) (power sum : Decimal)
    (denominator : Nat) (hq : 0 ≤ tSquared.toRat) (hp : 0 ≤ power.toRat) :
    sum.toRat ≤ (atanhSeries scale tSquared steps power sum denominator).toRat := by
  have hrest := atanhSeries_sign scale tSquared steps power zero denominator (σ := 1) hq
    (by simpa using hp) (by simp)
  rw [one_mul] at hrest
  rw [toRat_atanhSeries]
  linarith

-- Of two runs the one with the larger power does not stop first, and what it adds meanwhile is larger.
theorem atanhSeries_le (scale : Int) (tSquared tSquared' : Decimal) (steps : Nat)
    (power power' sum sum' : Decimal) (denominator : Nat) (hq : 0 ≤ tSquared.toRat)
    (hqq : tSquared.toRat ≤ tSquared'.toRat) (hp : 0 ≤ power.toRat) (hpp : power.toRat ≤ power'.toRat)
    (hs : sum.toRat ≤ sum'.toRat) :
    (atanhSeries scale tSquared steps power sum denominator).toRat ≤
      (atanhSeries scale tSquared' steps power' sum' denominator).toRat := by
  induction steps generalizing power power' sum sum' denominator with
  | zero => exact hs
  | succ steps ih =>
      have hstay := le_atanhSeries scale tSquared' (steps + 1) power' sum' denominator
        (hq.trans hqq) (hp.trans hpp)
      set next := nextPower scale tSquared power with hnext
      set next' := nextPower scale tSquared' power' with hnext'
      set term := seriesTerm scale next (denominator + 2) with hterm
      set term' := seriesTerm scale next' (denominator + 2) with hterm'
      have hnonneg : 0 ≤ next.toRat := by
        rw [hnext, toRat_nextPower]
        exact Rounding.halfUp.atScale_nonneg scale (mul_nonneg hp hq)
      have hle : next.toRat ≤ next'.toRat := by
        rw [hnext, hnext', toRat_nextPower, toRat_nextPower]
        exact Rounding.halfUp.atScale_mono scale (mul_le_mul hpp hqq hq (hp.trans hpp))
      have htermNonneg : 0 ≤ term.toRat := seriesTerm_nonneg scale next _ (by omega) hnonneg
      have htermLe : term.toRat ≤ term'.toRat :=
        seriesTerm_le scale next next' _ (by omega)
          ((nextPower_scale _ _ _).trans (nextPower_scale _ _ _).symm) hle
      by_cases hstop : term.abs < unitAt scale
      · rw [atanhSeries_succ, ← hnext, ← hterm, if_pos hstop]
        exact hs.trans hstay
      · have hstop' : ¬term'.abs < unitAt scale := by
          rw [lt_iff, toRat_abs, toRat_unitAt, abs_of_nonneg htermNonneg] at hstop
          rw [lt_iff, toRat_abs, toRat_unitAt, abs_of_nonneg (htermNonneg.trans htermLe)]
          linarith
        rw [atanhSeries_succ, atanhSeries_succ, ← hnext, ← hnext', ← hterm, ← hterm', if_neg hstop,
          if_neg hstop']
        refine ih _ _ _ _ _ hnonneg hle ?_
        rw [toRat_add, toRat_add]
        exact add_le_add hs htermLe

theorem atanhSeries_neg (scale : Int) (tSquared : Decimal) (steps : Nat) (power sum sum' : Decimal)
    (denominator : Nat) (hs : sum'.toRat = -sum.toRat) :
    (atanhSeries scale tSquared steps (-power) sum' denominator).toRat =
      -(atanhSeries scale tSquared steps power sum denominator).toRat := by
  induction steps generalizing power sum sum' denominator with
  | zero => exact hs
  | succ steps ih =>
      rw [atanhSeries_succ, atanhSeries_succ, nextPower_neg, seriesTerm_neg, Decimal.abs_neg]
      split
      · exact hs
      · apply ih
        rw [toRat_add, toRat_add, toRat_neg, hs, neg_add]

-- `2 · atanh t` as the series gives it.
def twiceAtanh (scale : Int) (t : Decimal) : Decimal :=
  (atanhSeries scale ((t * t).round scale) (atanhSteps scale) t t 1 * two).round scale

theorem twiceAtanh_neg (scale : Int) (t : Decimal) :
    (twiceAtanh scale (-t)).toRat = -(twiceAtanh scale t).toRat := by
  have hsquare : -t * -t = t * t := by
    apply eq_of_toRat_eq
    · rw [toRat_mul, toRat_mul, toRat_neg, neg_mul_neg]
    · rfl
  rw [twiceAtanh, twiceAtanh, hsquare, toRat_round, toRat_round, toRat_mul, toRat_mul,
    atanhSeries_neg scale _ _ t t (-t) 1 (toRat_neg t), neg_mul, Rounding.halfUp_atScale_neg]

theorem twiceAtanh_le_of_nonneg (scale : Int) (t t' : Decimal) (ht : 0 ≤ t.toRat)
    (h : t.toRat ≤ t'.toRat) : (twiceAtanh scale t).toRat ≤ (twiceAtanh scale t').toRat := by
  rw [twiceAtanh, twiceAtanh, toRat_round, toRat_round, toRat_mul, toRat_mul]
  apply Rounding.halfUp.atScale_mono
  refine mul_le_mul_of_nonneg_right (atanhSeries_le _ _ _ _ _ _ _ _ _ ?_ ?_ ht h h) (by simp)
  · exact seriesSquare_nonneg scale t
  · rw [toRat_round, toRat_round, toRat_mul, toRat_mul]
    exact Rounding.halfUp.atScale_mono scale (mul_le_mul h h ht (ht.trans h))

theorem twiceAtanh_nonneg (scale : Int) (t : Decimal) (ht : 0 ≤ t.toRat) :
    0 ≤ (twiceAtanh scale t).toRat := by
  have hle := twiceAtanh_le_of_nonneg scale zero t (by simp) (by simpa using ht)
  have hodd := twiceAtanh_neg scale zero
  have hzero : -zero = zero := rfl
  rw [hzero] at hodd
  linarith

theorem twiceAtanh_le (scale : Int) (t t' : Decimal) (h : t.toRat ≤ t'.toRat) :
    (twiceAtanh scale t).toRat ≤ (twiceAtanh scale t').toRat := by
  rcases le_total 0 t.toRat with ht | ht
  · exact twiceAtanh_le_of_nonneg scale t t' ht h
  · have hneg := twiceAtanh_neg scale t
    rcases le_total 0 t'.toRat with ht' | ht'
    · have hleft := twiceAtanh_nonneg scale (-t) (by simpa using ht)
      have hright := twiceAtanh_nonneg scale t' ht'
      linarith
    · have hmirror := twiceAtanh_le_of_nonneg scale (-t') (-t) (by simpa using ht') (by simpa using h)
      have hneg' := twiceAtanh_neg scale t'
      linarith

end ParticipantTrust.Decimal
