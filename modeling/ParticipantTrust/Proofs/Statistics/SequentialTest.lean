import ParticipantTrust.Statistics.SequentialTest
import ParticipantTrust.Proofs.Decimal.Logarithm
import ParticipantTrust.Proofs.Domain

namespace ParticipantTrust.SequentialTest

open Decimal

-- The odds of a pass at the bad rate against the good one, as the test works with them.
def passRatio (good bad : Decimal) (precision : Int) : Decimal :=
  bad.complement.divAt good.complement (precision + guardDigits)

def failRatio (good bad : Decimal) (precision : Int) : Decimal :=
  bad.divAt good (precision + guardDigits)

-- What a test needs. A bad rate next to one may leave a pass no odds at the working precision.
def Admissible (good bad threshold : Decimal) (precision : Int) : Prop :=
  Domain.openUnit.Contains good ∧ Domain.openUnit.Contains bad ∧ good < bad ∧
    Domain.positive.Contains threshold ∧ zero < passRatio good bad precision

instance (good bad threshold : Decimal) (precision : Int) :
    Decidable (Admissible good bad threshold precision) := by
  unfold Admissible; infer_instance

-- The test with its log ratios, before any observation.
def initial (good bad threshold prior : Decimal) (precision : Int) : SequentialTest where
  good := good
  bad := bad
  threshold := threshold
  llr := prior
  logFail := (failRatio good bad precision).ln precision
  logPass := (passRatio good bad precision).ln precision
  precision := precision

theorem one_le_failRatio (good bad : Decimal) (precision : Int) (h0 : 0 < good.toRat)
    (h : good.toRat ≤ bad.toRat) (hp : 0 ≤ precision + guardDigits) :
    1 ≤ (failRatio good bad precision).toRat := by
  rw [failRatio, toRat_divAt]
  exact Rounding.halfUp.le_atScale (Rounding.hasPlaces_one _ hp) (one_le_toRat_div bad good h0 h)

theorem passRatio_le_one (good bad : Decimal) (precision : Int) (h1 : good.toRat < 1)
    (h : good.toRat ≤ bad.toRat) : (passRatio good bad precision).toRat ≤ 1 := by
  rw [passRatio, toRat_divAt]
  apply Rounding.halfUp_atScale_le_one
  apply toRat_div_le_one
  · rw [toRat_complement]
    linarith
  · rw [toRat_complement, toRat_complement]
    linarith

-- The only refusal is a quotient that rounds to zero.
theorem logRatio_eq (a b : Decimal) (precision : Int) :
    logRatio a b precision =
      if zero < a.divAt b (precision + guardDigits) then
        .ok ((a.divAt b (precision + guardDigits)).ln precision)
      else .error (.logRatio (.logarithm (a.divAt b (precision + guardDigits)))) := by
  unfold logRatio Elementary.ln
  by_cases h : a.divAt b (precision + guardDigits) ≤ zero
  · rw [if_pos h, if_neg]
    · rfl
    · rwa [lt_iff, not_lt, ← le_iff]
  · rw [if_neg h, if_pos]
    · rfl
    · rwa [lt_iff, ← not_le, ← le_iff]

-- The checks are made in order. What is left to refuse after them is a pass ratio that rounds to zero;
-- the prior only travels through.
theorem create_eq (good bad threshold prior : Decimal) (precision : Int)
    (hp : 0 ≤ precision + guardDigits) :
    create good bad threshold prior precision =
      if ¬Domain.openUnit.Contains good then .error (.rateOutside "p0" good)
      else if ¬Domain.openUnit.Contains bad then .error (.rateOutside "p1" bad)
      else if ¬good < bad then .error (.inverted good bad)
      else if ¬Domain.positive.Contains threshold then .error (.thresholdNotPositive threshold)
      else if zero < passRatio good bad precision then
        .ok (initial good bad threshold prior precision)
      else .error (.logRatio (.logarithm (passRatio good bad precision))) := by
  have hlt : ¬good < bad ↔ bad ≤ good := by rw [lt_iff, le_iff, not_lt]
  have hpos : ¬Domain.positive.Contains threshold ↔ threshold ≤ zero := by
    rw [Domain.positive_contains_iff, le_iff, not_lt, toRat_zero]
  have hpass : logRatio bad.complement good.complement precision =
      if zero < passRatio good bad precision then .ok ((passRatio good bad precision).ln precision)
      else .error (.logRatio (.logarithm (passRatio good bad precision))) := logRatio_eq _ _ _
  unfold create requireRate
  simp only [hlt, hpos, hpass]
  by_cases hgood : Domain.openUnit.Contains good
  · by_cases hbad : Domain.openUnit.Contains bad
    · by_cases hle : bad ≤ good
      · simp only [hgood, hbad, hle, not_true, if_false, if_true]
        rfl
      · have hfail :
            logRatio bad good precision = .ok ((failRatio good bad precision).ln precision) := by
          have h0 := ((Domain.openUnit_contains_iff good).mp hgood).1
          rw [le_iff, not_le] at hle
          rw [logRatio_eq]
          apply if_pos
          rw [lt_iff, toRat_zero]
          exact zero_lt_one.trans_le (one_le_failRatio good bad precision h0 hle.le hp)
        simp only [hgood, hbad, hle, hfail, not_true, if_false, if_true]
        split
        · rfl
        · split <;> rfl
    · simp only [hgood, hbad, not_true, not_false_eq_true, if_false, if_true]
      rfl
  · simp only [hgood, not_false_eq_true, if_false, if_true]
    rfl

theorem create_eq_ok_iff (good bad threshold prior : Decimal) (precision : Int)
    (test : SequentialTest) (hp : 0 ≤ precision + guardDigits) :
    create good bad threshold prior precision = .ok test ↔
      Admissible good bad threshold precision ∧
        test = initial good bad threshold prior precision := by
  rw [create_eq good bad threshold prior precision hp]
  unfold Admissible
  split_ifs <;> simp [*, eq_comm]

theorem logFail_nonneg (good bad threshold prior : Decimal) (precision : Int)
    (h : Admissible good bad threshold precision) (hp : 0 ≤ precision + guardDigits) :
    0 ≤ (initial good bad threshold prior precision).logFail.toRat := by
  obtain ⟨hgood, -, hlt, -, -⟩ := h
  have h0 := ((Domain.openUnit_contains_iff good).mp hgood).1
  exact ln_nonneg _ _ (one_le_failRatio good bad precision h0 ((lt_iff _ _).mp hlt).le hp)

theorem logPass_nonpos (good bad threshold prior : Decimal) (precision : Int)
    (h : Admissible good bad threshold precision) :
    (initial good bad threshold prior precision).logPass.toRat ≤ 0 := by
  obtain ⟨hgood, -, hlt, -, hpass⟩ := h
  have h1 := ((Domain.openUnit_contains_iff good).mp hgood).2
  rw [lt_iff, toRat_zero] at hpass
  exact ln_nonpos _ _ hpass (passRatio_le_one good bad precision h1 ((lt_iff _ _).mp hlt).le)

theorem initial_hasPlaces (good bad threshold prior : Decimal) (precision : Int) :
    HasPlaces precision (initial good bad threshold prior precision).logFail.toRat ∧
      HasPlaces precision (initial good bad threshold prior precision).logPass.toRat :=
  ⟨ln_hasPlaces _ _, ln_hasPlaces _ _⟩

-- Evidence in whole units of the working precision is counted without any rounding error.
theorem toRat_observe_llr (test : SequentialTest) (failures passes : Int)
    (hllr : HasPlaces test.precision test.llr.toRat)
    (hfail : HasPlaces test.precision test.logFail.toRat)
    (hpass : HasPlaces test.precision test.logPass.toRat) :
    (test.observe failures passes).llr.toRat = test.llr.toRat +
      test.logFail.toRat * (max failures 0 : Int) + test.logPass.toRat * (max passes 0 : Int) := by
  simp only [observe]
  split
  · rename_i h
    rw [h.1, h.2]
    simp
  · simp only [toRat_round, toRat_add, toRat_mul, toRat_ofInt]
    exact Rounding.halfUp.atScale_of_hasPlaces _ _
      ((hllr.add (hfail.mul_intCast _)).add (hpass.mul_intCast _))

-- Worse counts on top of a higher prior lead to a higher evidence, since a failure never speaks for
-- the good rate and a pass never for the bad one.
theorem initial_observe_le (good bad threshold priorA priorB : Decimal) (precision : Int)
    (failuresA failuresB passesA passesB : Int) (h : Admissible good bad threshold precision)
    (hp : 0 ≤ precision + guardDigits) (hplacesA : HasPlaces precision priorA.toRat)
    (hplacesB : HasPlaces precision priorB.toRat) (hprior : priorA ≤ priorB)
    (hfailures : failuresA ≤ failuresB) (hpasses : passesB ≤ passesA) :
    ((initial good bad threshold priorA precision).observe failuresA passesA).llr ≤
      ((initial good bad threshold priorB precision).observe failuresB passesB).llr := by
  have hlogs := fun prior => initial_hasPlaces good bad threshold prior precision
  have hfail := logFail_nonneg good bad threshold priorA precision h hp
  have hpass := logPass_nonpos good bad threshold priorA precision h
  have hf : ((max failuresA 0 : Int) : ℚ) ≤ ((max failuresB 0 : Int) : ℚ) := by
    exact_mod_cast max_le_max_right 0 hfailures
  have hq : ((max passesB 0 : Int) : ℚ) ≤ ((max passesA 0 : Int) : ℚ) := by
    exact_mod_cast max_le_max_right 0 hpasses
  rw [le_iff, toRat_observe_llr _ _ _ hplacesA (hlogs priorA).1 (hlogs priorA).2,
    toRat_observe_llr _ _ _ hplacesB (hlogs priorB).1 (hlogs priorB).2]
  apply add_le_add
  · exact add_le_add ((le_iff _ _).mp hprior) (mul_le_mul_of_nonneg_left hf hfail)
  · exact mul_le_mul_of_nonpos_left hq hpass

theorem observe_hasPlaces (test : SequentialTest) (failures passes : Int)
    (hllr : HasPlaces test.precision test.llr.toRat) :
    HasPlaces test.precision (test.observe failures passes).llr.toRat := by
  simp only [observe]
  split
  · exact hllr
  · exact round_hasPlaces _ _

-- An observation writes nothing but the cumulative ratio, and an empty one not even that.
theorem observe_eq (test : SequentialTest) (failures passes : Int) :
    test.observe failures passes = { test with llr := (test.observe failures passes).llr } := by
  simp only [observe]
  split <;> rfl

theorem observe_zero (test : SequentialTest) : test.observe 0 0 = test := by simp [observe]

theorem observe_threshold (test : SequentialTest) (failures passes : Int) :
    (test.observe failures passes).threshold = test.threshold := by
  simp only [observe]
  split <;> rfl

theorem decision_eq_fail_iff (test : SequentialTest) :
    test.decision = .fail ↔ test.threshold.toRat ≤ test.llr.toRat := by
  unfold decision
  rw [← le_iff]
  split_ifs <;> simp [*]

end ParticipantTrust.SequentialTest
