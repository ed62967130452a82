import ParticipantTrust.Proofs.Decimal.LogarithmOrder
import Mathlib.Data.Nat.Log

namespace ParticipantTrust

section Loop

variable {σ : Type} {step : σ → Option σ}

-- The loop whose body is `step` goes from `first` through `passes` further states and is left at
-- `last`, the state from which the body has no next one.
inductive StopsAfter (step : σ → Option σ) : Nat → σ → σ → Prop
  | stop {last : σ} (h : step last = none) : StopsAfter step 0 last last
  | pass {passes : Nat} {first next last : σ} (h : step first = some next)
      (rest : StopsAfter step passes next last) : StopsAfter step (passes + 1) first last

-- A quantity that falls with each pass bounds their number.
theorem exists_stopsAfter (invariant : σ → Prop) (measure : σ → Nat)
    (hstep : ∀ s next, invariant s → step s = some next → invariant next ∧ measure next < measure s)
    (first : σ) (hfirst : invariant first) :
    ∃ passes last, passes ≤ measure first ∧ StopsAfter step passes first last := by
  induction hm : measure first using Nat.strong_induction_on generalizing first with
  | _ m ih =>
      cases hnext : step first with
      | none => exact ⟨0, first, Nat.zero_le _, .stop hnext⟩
      | some next =>
          obtain ⟨hkept, hlt⟩ := hstep first next hfirst hnext
          obtain ⟨passes, last, hle, hrest⟩ := ih _ (hm ▸ hlt) next hkept rfl
          exact ⟨passes + 1, last, by omega, .pass hnext hrest⟩

end Loop

namespace Decimal

-- A pass of range reduction moves a factor of two from the mantissa to the exponent or back, and rounds
-- nothing.
def halvingPass (s : BinarySplit) : Option BinarySplit :=
  if two ≤ s.mantissa then some ⟨s.mantissa * half, s.exponent + 1⟩ else none

def doublingPass (s : BinarySplit) : Option BinarySplit :=
  if s.mantissa < half then some ⟨s.mantissa * two, s.exponent - 1⟩ else none

theorem halvingPass_of_lt (s : BinarySplit) (h : s.mantissa.toRat < 2) : halvingPass s = none := by
  rw [halvingPass, if_neg]
  rw [le_iff, toRat_two, not_le]
  exact h

theorem doublingPass_of_le (s : BinarySplit) (h : 1 / 2 ≤ s.mantissa.toRat) :
    doublingPass s = none := by
  rw [doublingPass, if_neg]
  rw [lt_iff, toRat_half, not_lt]
  exact h

theorem halvings_stopAfter (k : Nat) (x : Decimal) (exponent : Int) (hlow : 2 ^ k ≤ x.toRat)
    (hhigh : x.toRat < 2 ^ (k + 1)) :
    StopsAfter halvingPass k ⟨x, exponent⟩ ⟨x.halveTimes k, exponent + k⟩ := by
  induction k generalizing x exponent with
  | zero =>
      rw [halveTimes, Nat.cast_zero, add_zero]
      exact .stop (halvingPass_of_lt _ (by simpa using hhigh))
  | succ k ih =>
      have hvalue : (x * half).toRat = x.toRat / 2 := by
        rw [toRat_mul, toRat_half]
        ring
      rw [pow_succ] at hlow
      rw [pow_succ] at hhigh
      have hone : (1 : ℚ) ≤ 2 ^ k := one_le_pow₀ (by norm_num)
      have hpass : halvingPass ⟨x, exponent⟩ = some ⟨x * half, exponent + 1⟩ := by
        rw [halvingPass, if_pos]
        rw [le_iff, toRat_two]
        linarith
      have hrest := ih (x * half) (exponent + 1) (by linarith) (by linarith)
      rw [show exponent + ((k + 1 : Nat) : Int) = exponent + 1 + k by omega]
      exact .pass hpass hrest

theorem doublings_stopAfter (k : Nat) (x : Decimal) (exponent : Int)
    (hlow : 1 / 2 ≤ x.toRat * 2 ^ k) (hhigh : 0 < k → x.toRat * 2 ^ k < 1) :
    StopsAfter doublingPass k ⟨x, exponent⟩ ⟨x.doubleTimes k, exponent - k⟩ := by
  induction k generalizing x exponent with
  | zero =>
      rw [doubleTimes, Nat.cast_zero, sub_zero]
      exact .stop (doublingPass_of_le _ (by simpa using hlow))
  | succ k ih =>
      have hbelow := hhigh (Nat.succ_pos k)
      have hproduct : x.toRat * 2 ^ (k + 1) = (x * two).toRat * 2 ^ k := by
        rw [toRat_mul, toRat_two, pow_succ]
        ring
      have hone : (1 : ℚ) ≤ 2 ^ k := one_le_pow₀ (by norm_num)
      have hpass : doublingPass ⟨x, exponent⟩ = some ⟨x * two, exponent - 1⟩ := by
        rw [doublingPass, if_pos]
        rw [lt_iff, toRat_half]
        by_contra hge
        rw [pow_succ] at hbelow
        nlinarith
      rw [hproduct] at hlow hbelow
      have hrest := ih (x * two) (exponent - 1) hlow fun _ => hbelow
      rw [show exponent - ((k + 1 : Nat) : Int) = exponent - 1 - k by omega]
      exact .pass hpass hrest

-- Halving and doubling end at the split of the number, after as many passes as its exponent counts.
theorem binarySplit_reached (x : Decimal) (hx : 0 < x.toRat) :
    ∃ halvings doublings halved, StopsAfter halvingPass halvings ⟨x, 0⟩ halved ∧
      StopsAfter doublingPass doublings halved (binarySplit x) ∧
      halvings + doublings = (binarySplit x).exponent.natAbs := by
  obtain ⟨-, hlow, -⟩ := binarySplit_spec x hx
  by_cases htwo : two ≤ x
  · rw [binarySplit, if_pos htwo] at hlow ⊢
    rw [le_iff, toRat_two] at htwo
    obtain ⟨hle, hlt⟩ := two_pow_log2_floorOfPos x (by linarith)
    have hhalved := halvings_stopAfter _ x 0 hle hlt
    rw [zero_add] at hhalved
    exact ⟨_, 0, _, hhalved, .stop (doublingPass_of_le _ hlow), by simp⟩
  · have hbelow : x.toRat < 2 := by rwa [le_iff, toRat_two, not_le] at htwo
    have hhalved : StopsAfter halvingPass 0 ⟨x, 0⟩ ⟨x, 0⟩ := .stop (halvingPass_of_lt _ hbelow)
    by_cases hhalf : x < half
    · rw [binarySplit, if_neg htwo, if_pos hhalf] at hlow ⊢
      rw [lt_iff, toRat_half] at hhalf
      obtain ⟨hlt, hle⟩ := two_pow_log2_reciprocalBelow x hx hhalf
      have hdoubled := doublings_stopAfter _ x 0 hle fun _ => hlt
      rw [zero_sub] at hdoubled
      exact ⟨0, _, _, hhalved, hdoubled, by simp⟩
    · rw [binarySplit, if_neg htwo, if_neg hhalf] at hlow ⊢
      exact ⟨0, 0, _, hhalved, .stop (doublingPass_of_le _ hlow), rfl⟩

-- What the loop of the series carries from one pass to the next.
structure SeriesState where
  power : Decimal
  sum : Decimal
  denominator : Nat

-- The loop is left at the first term below the unit, which is not added any more.
def seriesPass (scale : Int) (tSquared : Decimal) (s : SeriesState) : Option SeriesState :=
  let power := nextPower scale tSquared s.power
  let denominator := s.denominator + 2
  let term := seriesTerm scale power denominator
  if term.abs < unitAt scale then none else some ⟨power, s.sum + term, denominator⟩

-- Steps that outnumber the passes of the loop do not show in the sum.
theorem atanhSeries_of_stopsAfter (scale : Int) (tSquared : Decimal) {passes steps : Nat}
    {first last : SeriesState} (h : StopsAfter (seriesPass scale tSquared) passes first last)
    (hsteps : passes < steps) :
    atanhSeries scale tSquared steps first.power first.sum first.denominator = last.sum := by
  induction h generalizing steps with
  | stop hnone =>
      obtain ⟨steps, rfl⟩ := Nat.exists_eq_succ_of_ne_zero (Nat.ne_zero_of_lt hsteps)
      simp only [seriesPass, ite_eq_left_iff, reduceCtorEq, imp_false, not_not] at hnone
      rw [Nat.succ_eq_add_one, atanhSeries_succ, if_pos hnone]
  | @pass passes first next last hnext hrest ih =>
      obtain ⟨steps, rfl⟩ := Nat.exists_eq_succ_of_ne_zero (Nat.ne_zero_of_lt hsteps)
      simp only [seriesPass, Option.ite_none_left_eq_some, Option.some.injEq] at hnext
      obtain ⟨hlarge, rfl⟩ := hnext
      rw [Nat.succ_eq_add_one, atanhSeries_succ, if_neg hlarge]
      exact ih (by omega)

-- Rounding does not carry the square of the start past one ninth either.
theorem seriesSquare_le (scale : Int) {t : Decimal} (ht : |t.toRat| ≤ 1 / 3) :
    ((t * t).round scale).toRat ≤ 1 / 9 := by
  have hsquare : (t * t).toRat ≤ 1 / 9 := by
    rw [toRat_mul, ← abs_mul_abs_self]
    nlinarith [abs_nonneg t.toRat]
  have hninth := Rounding.halfUp_atScale_ninths_le scale (k := 1) (by norm_num)
  rw [Nat.cast_one] at hninth
  rw [toRat_round]
  exact (Rounding.halfUp.atScale_mono scale hsquare).trans hninth

section

variable {scale : Int} {tSquared : Decimal} (hq0 : 0 ≤ tSquared.toRat) (hq : tSquared.toRat ≤ 1 / 9)

include hq0 hq

-- Rounding may add half a unit, so that of a ninth only a fifth is certain: five units may leave one,
-- four leave none.
theorem five_mul_natAbs_nextPower_le (power : Decimal) (hscale : power.scale = scale) :
    5 * (nextPower scale tSquared power).mantissa.natAbs ≤ power.mantissa.natAbs := by
  have hnext := abs_nextPower_le scale tSquared power hq0 hq
  rw [abs_toRat, abs_toRat, nextPower_scale, hscale] at hnext
  set next := (nextPower scale tSquared power).mantissa.natAbs
  have hunits : ((18 * next : Nat) : ℚ) ≤ ((2 * power.mantissa.natAbs + 9 : Nat) : ℚ) := by
    refine le_of_mul_le_mul_right ?_ (ten_zpow_pos (-scale))
    push_cast
    linarith
  have : 18 * next ≤ 2 * power.mantissa.natAbs + 9 := by exact_mod_cast hunits
  omega

-- A pass that goes on has some power left, whose mantissa is a digit shorter in base five.
theorem seriesPass_log_lt {s next : SeriesState} (hscale : s.power.scale = scale)
    (h : seriesPass scale tSquared s = some next) :
    next.power.scale = scale ∧
      Nat.log 5 next.power.mantissa.natAbs < Nat.log 5 s.power.mantissa.natAbs := by
  simp only [seriesPass, Option.ite_none_left_eq_some, Option.some.injEq] at h
  obtain ⟨hlarge, rfl⟩ := h
  have hfall := five_mul_natAbs_nextPower_le hq0 hq s.power hscale
  refine ⟨nextPower_scale _ _ _, ?_⟩
  have hpower : (nextPower scale tSquared s.power).mantissa.natAbs ≠ 0 := by
    intro hzero
    apply hlarge
    rw [lt_iff, toRat_abs, toRat_unitAt, seriesTerm_of_isZero, abs_zero]
    · exact ten_zpow_pos _
    · rwa [toRat_eq_zero_iff, ← Int.natAbs_eq_zero]
  calc Nat.log 5 (nextPower scale tSquared s.power).mantissa.natAbs
      < Nat.log 5 (nextPower scale tSquared s.power).mantissa.natAbs + 1 := Nat.lt_succ_self _
    _ = Nat.log 5 ((nextPower scale tSquared s.power).mantissa.natAbs * 5) :=
        (Nat.log_mul_base (by norm_num) hpower).symm
    _ ≤ Nat.log 5 s.power.mantissa.natAbs := Nat.log_mono_right (by omega)

end

-- A number up to one has at most `10 ^ scale` units, and ten is less than five squared.
theorem log_natAbs_mantissa_le (v : Decimal) (hv : |v.toRat| ≤ 1) :
    Nat.log 5 v.mantissa.natAbs ≤ 2 * v.scale.toNat := by
  have hten : (v.mantissa.natAbs : ℚ) ≤ 10 ^ v.scale.toNat := by
    rw [abs_toRat] at hv
    calc (v.mantissa.natAbs : ℚ)
        = v.mantissa.natAbs * 10 ^ (-v.scale) * 10 ^ v.scale := by
          rw [mul_assoc, ten_zpow_neg_mul, mul_one]
      _ ≤ 1 * 10 ^ v.scale := mul_le_mul_of_nonneg_right hv (ten_zpow_pos _).le
      _ ≤ 10 ^ v.scale.toNat := by
          rw [one_mul, ← zpow_natCast]
          exact zpow_le_zpow_right₀ (by norm_num) (Int.self_le_toNat _)
  have hle : v.mantissa.natAbs ≤ 5 ^ (2 * v.scale.toNat) := by
    rw [pow_mul]
    exact (by exact_mod_cast hten : v.mantissa.natAbs ≤ 10 ^ v.scale.toNat).trans
      (Nat.pow_le_pow_left (by norm_num) _)
  calc Nat.log 5 v.mantissa.natAbs ≤ Nat.log 5 (5 ^ (2 * v.scale.toNat)) := Nat.log_mono_right hle
    _ = 2 * v.scale.toNat := Nat.log_pow (by norm_num) _

-- The loop of the series ends within two passes for each place, and its sum is the logarithm.
theorem lnReduced_reached (m : Decimal) (scale : Int) (hlow : 1 / 2 ≤ m.toRat)
    (hhigh : m.toRat ≤ 2) :
    let t := (m - one).divAt (m + one) scale
    ∃ passes last, passes ≤ 2 * scale.toNat ∧
      StopsAfter (seriesPass scale ((t * t).round scale)) passes ⟨t, t, 1⟩ last ∧
      lnReduced m scale = (last.sum * two).round scale := by
  intro t
  have ht : |t.toRat| ≤ 1 / 3 := abs_start_le scale hlow hhigh
  have hscale : t.scale = scale := roundWith_scale .halfUp _ _
  obtain ⟨passes, last, hpasses, hrun⟩ := exists_stopsAfter
    (fun s : SeriesState => s.power.scale = scale) (fun s => Nat.log 5 s.power.mantissa.natAbs)
    (fun s next hs => seriesPass_log_lt (seriesSquare_nonneg scale t) (seriesSquare_le scale ht) hs)
    ⟨t, t, 1⟩ hscale
  have hlog := log_natAbs_mantissa_le t (ht.trans (by norm_num))
  rw [hscale] at hlog
  have hbound : passes ≤ 2 * scale.toNat := hpasses.trans hlog
  have hsteps : passes < atanhSteps scale := by
    rw [atanhSteps]
    omega
  have hsum := atanhSeries_of_stopsAfter scale _ hrun hsteps
  refine ⟨passes, last, hbound, hrun, ?_⟩
  rw [lnReduced_eq, twiceAtanh, ← hsum]

end Decimal

namespace Elementary

open Decimal

-- The logarithm is what its loops leave, and they end: range reduction after as many halvings and
-- doublings as its exponent counts, the series after two passes for each place and two more, of which
-- the last one adds nothing.
theorem ln_loops_end (x : Decimal) (precision : Int) (hx : zero < x) :
    ln x precision = .ok (x.ln precision) ∧
      (∃ halvings doublings halved, StopsAfter halvingPass halvings ⟨x, 0⟩ halved ∧
        StopsAfter doublingPass doublings halved (binarySplit x) ∧
        halvings + doublings = (binarySplit x).exponent.natAbs) ∧
      half ≤ (binarySplit x).mantissa ∧ (binarySplit x).mantissa < two ∧
      x.toRat = (binarySplit x).mantissa.toRat * 2 ^ (binarySplit x).exponent ∧
      ∀ (m : Decimal) (scale : Int), half ≤ m → m ≤ two →
        let t := (m - one).divAt (m + one) scale
        ∃ (passes : Nat) (last : SeriesState), (passes : Int) + 1 ≤ 2 * max scale 0 + 2 ∧
          StopsAfter (seriesPass scale ((t * t).round scale)) passes ⟨t, t, 1⟩ last ∧
          lnReduced m scale = (last.sum * two).round scale := by
  have hpos : 0 < x.toRat := by simpa using (lt_iff zero x).mp hx
  have hsplit := binarySplit_splitsAs x hpos
  refine ⟨ln_of_pos x precision hx, binarySplit_reached x hpos, ?_, ?_, hsplit.value, ?_⟩
  · rw [le_iff, toRat_half]
    exact hsplit.low
  · rw [lt_iff, toRat_two]
    exact hsplit.high
  · intro m scale hlow hhigh
    rw [le_iff, toRat_half] at hlow
    rw [le_iff, toRat_two] at hhigh
    obtain ⟨passes, last, hpasses, hrun, hvalue⟩ := lnReduced_reached m scale hlow hhigh
    exact ⟨passes, last, by omega, hrun, hvalue⟩

-- Nine doublings reach the mantissa of a thousandth. The series for two has two passes that add a term
-- at three places, and none where the unit is a hundred.
theorem ln_loops_end_thousandth : zero < ⟨1, 3⟩ ∧ half ≤ two ∧ two ≤ two ∧
    (∃ halvings doublings halved, StopsAfter halvingPass halvings ⟨⟨1, 3⟩, 0⟩ halved ∧
      StopsAfter doublingPass doublings halved ⟨⟨512, 3⟩, -9⟩ ∧ halvings + doublings = 9) ∧
    (∃ passes last, passes ≤ 7 ∧
      StopsAfter (seriesPass 3 ⟨111, 3⟩) passes ⟨⟨333, 3⟩, ⟨333, 3⟩, 1⟩ last ∧
      (last.sum * two).round 3 = ⟨692, 3⟩) ∧
    ∃ passes last, passes ≤ 1 ∧
      StopsAfter (seriesPass (-2) ⟨0, -2⟩) passes ⟨⟨0, -2⟩, ⟨0, -2⟩, 1⟩ last := by
  obtain ⟨-, hreduced, -, -, -, hseries⟩ := ln_loops_end ⟨1, 3⟩ 12 (by decide)
  have hsplit : binarySplit ⟨1, 3⟩ = ⟨⟨512, 3⟩, -9⟩ := rfl
  have hstart : (two - one).divAt (two + one) 3 = ⟨333, 3⟩ := by decide +kernel
  have hcoarse : (two - one).divAt (two + one) (-2) = ⟨0, -2⟩ := by decide +kernel
  have hvalue : lnReduced two 3 = ⟨692, 3⟩ := by decide +kernel
  obtain ⟨passes, last, hle, hrun, hsum⟩ := hseries two 3 (by decide) (by decide)
  obtain ⟨passes', last', hle', hrun', -⟩ := hseries two (-2) (by decide) (by decide)
  rw [hsplit] at hreduced
  rw [hstart] at hrun
  rw [hcoarse] at hrun'
  exact ⟨by decide, by decide, by decide, hreduced,
    ⟨passes, last, by omega, hrun, hsum.symm.trans hvalue⟩, passes', last', by omega, hrun'⟩

end Elementary

end ParticipantTrust
