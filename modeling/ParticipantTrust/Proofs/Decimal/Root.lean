import ParticipantTrust.Elementary
import ParticipantTrust.Proofs.Decimal.QuotientOrder

namespace ParticipantTrust.Decimal

-- What a Newton step gives where it can divide.
def newtonNext (x current : Decimal) (scale : Int) : Decimal :=
  ((current + x.divAt current scale) * half).round scale

theorem newtonStep_of_ne_zero (x current : Decimal) (scale : Int) (h : current.toRat ≠ 0) :
    newtonStep x current scale = some (newtonNext x current scale) := by
  rw [newtonStep, if_neg (mt (isZero_iff current).mp h), newtonNext]

theorem newtonDescent_succ (x : Decimal) (scale : Int) (steps : Nat) (current : Decimal)
    (h : current.toRat ≠ 0) :
    newtonDescent x scale (steps + 1) current =
      if current ≤ newtonNext x current scale then some current
      else newtonDescent x scale steps (newtonNext x current scale) := by
  rw [newtonDescent, newtonStep_of_ne_zero x current scale h]

theorem newtonDescent_of_eq_zero (x : Decimal) (scale : Int) (steps : Nat) (current : Decimal)
    (h : current.toRat = 0) : newtonDescent x scale (steps + 1) current = none := by
  rw [newtonDescent, newtonStep, if_pos ((isZero_iff current).mpr h)]

-- The divisors that a descent comes to, one for each step.
def newtonDivisors (x : Decimal) (scale : Int) : Nat → Decimal → List Decimal
  | 0, _ => []
  | steps + 1, current =>
    current ::
      match newtonStep x current scale with
      | none => []
      | some next => if current ≤ next then [] else newtonDivisors x scale steps next

-- A descent fails for nothing but a divisor of zero.
theorem newtonDescent_eq_none_iff (x : Decimal) (scale : Int) (steps : Nat) (current : Decimal) :
    newtonDescent x scale steps current = none ↔
      ∃ divisor ∈ newtonDivisors x scale steps current, divisor.isZero := by
  induction steps generalizing current with
  | zero => simp [newtonDescent, newtonDivisors]
  | succ steps ih =>
      by_cases hzero : current.isZero = true
      · simp [newtonDescent, newtonDivisors, newtonStep, hzero]
      · simp only [newtonDescent, newtonDivisors, newtonStep, hzero, List.mem_cons,
          exists_eq_or_imp, false_or, if_false, Bool.false_eq_true]
        split
        · simp
        · exact ih _

section Step

variable (x current : Decimal) (scale : Int)

theorem toRat_newtonNext :
    (newtonNext x current scale).toRat =
      Rounding.halfUp.atScale scale ((current.toRat + (x.divAt current scale).toRat) / 2) := by
  rw [newtonNext, toRat_round, toRat_mul, toRat_add, toRat_half, mul_one_div]

theorem toRat_divAt_nonneg (hx : 0 ≤ x.toRat) (hc : 0 < current.toRat) :
    0 ≤ (x.divAt current scale).toRat := by
  rw [toRat_divAt]
  exact Rounding.halfUp.atScale_nonneg scale (toRat_div_nonneg x current hx hc)

-- Half of a unit still rounds up to a whole one.
theorem newtonNext_pos_iff :
    0 < (newtonNext x current scale).toRat ↔
      10 ^ (-scale) ≤ current.toRat + (x.divAt current scale).toRat := by
  rw [toRat_newtonNext, Rounding.halfUp_atScale_pos_iff]
  constructor <;> intro h <;> linarith

-- What is a unit at least stays so, since the quotient cannot be negative.
theorem unit_le_newtonNext (hx : 0 ≤ x.toRat) (hc : 10 ^ (-scale) ≤ current.toRat) :
    10 ^ (-scale) ≤ (newtonNext x current scale).toRat := by
  have hquotient := toRat_divAt_nonneg x current scale hx ((ten_zpow_pos _).trans_le hc)
  have hpos := (newtonNext_pos_iff x current scale).mpr (by linarith)
  have hzero : HasPlaces scale 0 := ⟨0, by simp⟩
  have hunit := hzero.add_unit_le (round_hasPlaces _ scale) hpos
  rw [zero_add] at hunit
  exact hunit

end Step

theorem newtonDescent_of_unit_le (x : Decimal) (scale : Int) (steps : Nat) (current : Decimal)
    (hx : 0 ≤ x.toRat) (hc : 10 ^ (-scale) ≤ current.toRat) :
    ∃ root, newtonDescent x scale steps current = some root ∧ 10 ^ (-scale) ≤ root.toRat := by
  induction steps generalizing current with
  | zero => exact ⟨current, rfl, hc⟩
  | succ steps ih =>
      rw [newtonDescent_succ x scale steps current ((ten_zpow_pos _).trans_le hc).ne']
      split
      · exact ⟨current, rfl, hc⟩
      · exact ih _ (unit_le_newtonNext x current scale hx hc)

theorem toRat_newtonStart (x : Decimal) : (newtonStart x).toRat = max x.toRat 1 := by
  simp only [newtonStart, lt_iff, toRat_one]
  split
  · rename_i h
    exact (max_eq_left h.le).symm
  · rename_i h
    rw [toRat_one, max_eq_right (not_lt.mp h)]

-- Units of ten and more take what is below them to zero at the first step, and the second one divides
-- by it.
theorem newtonDescent_start_eq_none (x : Decimal) (scale : Int) (steps : Nat) (hs : scale < 0)
    (hx : 0 < x.toRat) (hlt : x.toRat < 10 ^ (-scale)) :
    newtonDescent x scale (steps + 2) (newtonStart x) = none := by
  have hten : (10 : ℚ) ≤ 10 ^ (-scale) := by
    have h : (10 : ℚ) ^ (1 : Int) ≤ 10 ^ (-scale) := zpow_le_zpow_right₀ (by norm_num) (by omega)
    rwa [zpow_one] at h
  have hpos : 0 < (newtonStart x).toRat := by
    rw [toRat_newtonStart]
    exact zero_lt_one.trans_le (le_max_right _ _)
  have hquotient : (x.divAt (newtonStart x) scale).toRat = 0 := by
    have hle := toRat_div_le_one x (newtonStart x) hpos
      ((le_max_left _ _).trans_eq (toRat_newtonStart x).symm)
    have hnonneg := toRat_divAt_nonneg x (newtonStart x) scale hx.le hpos
    have hround := (Rounding.halfUp_atScale_pos_iff scale (x / newtonStart x).toRat).not.mpr
      (by linarith)
    rw [← toRat_divAt] at hround
    exact le_antisymm (not_lt.mp hround) hnonneg
  have hnext : (newtonNext x (newtonStart x) scale).toRat = 0 := by
    have hnonneg : 0 ≤ (newtonNext x (newtonStart x) scale).toRat := by
      rw [toRat_newtonNext]
      exact Rounding.halfUp.atScale_nonneg scale (by linarith)
    have hstart : (newtonStart x).toRat < 10 ^ (-scale) := by
      rw [toRat_newtonStart]
      exact max_lt hlt (by linarith)
    have hround := (newtonNext_pos_iff x (newtonStart x) scale).not.mpr (by linarith)
    exact le_antisymm (not_lt.mp hround) hnonneg
  have hfalls : ¬newtonStart x ≤ newtonNext x (newtonStart x) scale := by
    rw [le_iff, hnext]
    linarith
  rw [newtonDescent_succ x scale _ _ hpos.ne', if_neg hfalls, newtonDescent_of_eq_zero _ _ _ _ hnext]

theorem newtonDescent_start_eq_none_iff (x : Decimal) (scale : Int) (hx : 0 < x.toRat) :
    newtonDescent x scale newtonSteps (newtonStart x) = none ↔
      scale < 0 ∧ x.toRat < 10 ^ (-scale) := by
  constructor
  · intro hnone
    by_contra hsafe
    have hunit : 10 ^ (-scale) ≤ (newtonStart x).toRat := by
      rw [toRat_newtonStart]
      by_cases hs : scale < 0
      · exact le_max_of_le_left (not_lt.mp fun hlt => hsafe ⟨hs, hlt⟩)
      · exact le_max_of_le_right (zpow_le_one_of_nonpos₀ (by norm_num) (by omega))
    obtain ⟨root, hroot, -⟩ := newtonDescent_of_unit_le x scale newtonSteps _ hx.le hunit
    rw [hroot] at hnone
    exact absurd hnone (Option.some_ne_none root)
  · rintro ⟨hs, hlt⟩
    exact newtonDescent_start_eq_none x scale _ hs hx hlt

theorem sqrt_of_eq_zero (x : Decimal) (precision : Int) (hx : x.toRat = 0) :
    x.sqrt precision = some (zero.round precision) := by
  rw [sqrt, if_pos ((isZero_iff x).mpr hx)]

theorem sqrt_of_ne_zero (x : Decimal) (precision : Int) (hx : x.toRat ≠ 0) :
    x.sqrt precision =
      (newtonDescent x (precision + guardDigits) newtonSteps (newtonStart x)).map
        (·.round precision) := by
  rw [sqrt, if_neg (mt (isZero_iff x).mp hx)]

end ParticipantTrust.Decimal

namespace ParticipantTrust.Elementary

open Decimal

-- The divisors that the descent to the root of `x` comes to.
def rootDivisors (x : Decimal) (precision : Int) : List Decimal :=
  newtonDivisors x (precision + guardDigits) newtonSteps (newtonStart x)

theorem sqrt_of_nonneg (x : Decimal) (precision : Int) (hx : 0 ≤ x.toRat) :
    sqrt x precision = (x.sqrt precision).elim (.error .divisionByZero) .ok := by
  rw [sqrt, if_neg (by rw [lt_iff, toRat_zero]; exact not_lt.mpr hx)]
  cases x.sqrt precision <;> rfl

-- A root or the refusal of a negative argument, without any division by zero on the way.
structure DividesSafely (x : Decimal) (precision : Int) : Prop where
  answered : (∃ root, sqrt x precision = .ok root) ∨ sqrt x precision = .error (.squareRoot x)
  divisors : Decimal.zero < x → ∀ divisor ∈ rootDivisors x precision, ¬divisor.isZero

theorem dividesSafely_of_nonpos (x : Decimal) (precision : Int) (hx : x.toRat ≤ 0) :
    DividesSafely x precision := by
  refine ⟨?_, fun hpos => absurd hpos (by rw [lt_iff, toRat_zero]; exact not_lt.mpr hx)⟩
  rcases hx.lt_or_eq with hneg | hzero
  · right
    rw [sqrt, if_pos (by rw [lt_iff, toRat_zero]; exact hneg)]
  · left
    rw [sqrt_of_nonneg x precision hzero.ge, sqrt_of_eq_zero x precision hzero]
    exact ⟨_, rfl⟩

theorem dividesSafely_iff_of_pos (x : Decimal) (precision : Int) (hx : 0 < x.toRat) :
    DividesSafely x precision ↔
      newtonDescent x (precision + guardDigits) newtonSteps (newtonStart x) ≠ none := by
  have hdivisors := newtonDescent_eq_none_iff x (precision + guardDigits) newtonSteps (newtonStart x)
  constructor
  · intro hsafe hnone
    obtain ⟨divisor, hmem, hzero⟩ := hdivisors.mp hnone
    exact hsafe.divisors (by rw [lt_iff, toRat_zero]; exact hx) divisor hmem hzero
  · intro hsome
    obtain ⟨root, hroot⟩ := Option.ne_none_iff_exists'.mp hsome
    refine ⟨.inl ⟨root.round precision, ?_⟩, fun _ divisor hmem hzero =>
      hsome (hdivisors.mpr ⟨divisor, hmem, hzero⟩)⟩
    rw [sqrt_of_nonneg x precision hx.le, sqrt_of_ne_zero x precision hx.ne', hroot]
    rfl

-- The guard digits keep the descent away from zero for every precision that is not so coarse that they
-- cannot make up for it. Beyond that, only an argument below the working unit is lost.
theorem sqrt_dividesSafely_iff (x : Decimal) (precision : Int) :
    DividesSafely x precision ↔
      x ≤ Decimal.zero ∨ -10 ≤ precision ∨ unitAt (precision + 10) ≤ x := by
  rw [le_iff, le_iff, toRat_zero, toRat_unitAt]
  rcases le_or_gt x.toRat 0 with hx | hx
  · exact iff_of_true (dividesSafely_of_nonpos x precision hx) (.inl hx)
  · have hscale : 0 ≤ precision + guardDigits ↔ -10 ≤ precision := by
      rw [guardDigits]
      omega
    rw [dividesSafely_iff_of_pos x precision hx, Ne, newtonDescent_start_eq_none_iff x _ hx,
      not_and_or, not_lt, not_lt, hscale, or_iff_right (not_le.mpr hx)]
    rfl

-- In units of ten the descent from three comes to zero.
theorem root_of_three_divides_by_zero :
    sqrt (ofInt 3) (-11) = .error .divisionByZero ∧ ¬DividesSafely (ofInt 3) (-11) := by
  have hpos : 0 < (ofInt 3).toRat := by norm_num
  have hnone : newtonDescent (ofInt 3) (-11 + guardDigits) newtonSteps (newtonStart (ofInt 3)) = none :=
    (newtonDescent_start_eq_none_iff _ _ hpos).mpr ⟨by decide, by norm_num [guardDigits]⟩
  refine ⟨?_, fun hsafe => (dividesSafely_iff_of_pos _ _ hpos).mp hsafe hnone⟩
  rw [sqrt_of_nonneg _ _ hpos.le, sqrt_of_ne_zero _ _ hpos.ne', hnone]
  rfl

end ParticipantTrust.Elementary
