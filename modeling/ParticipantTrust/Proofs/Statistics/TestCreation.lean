import ParticipantTrust.Proofs.Statistics.SequentialTest

namespace ParticipantTrust

open Decimal

namespace SequentialTest

def observeAll (test : SequentialTest) (batches : List (Int × Int)) : SequentialTest :=
  batches.foldl (fun test batch => test.observe batch.1 batch.2) test

theorem observeAll_threshold (test : SequentialTest) (batches : List (Int × Int)) :
    (test.observeAll batches).threshold = test.threshold := by
  induction batches generalizing test with
  | nil => rfl
  | cons batch rest ih => exact (ih _).trans (observe_threshold test _ _)

-- The two verdicts are about opposite ends of the evidence.
structure Consistent (test : SequentialTest) : Prop where
  fail_iff : test.decision = .fail ↔ test.threshold ≤ test.llr
  pass_iff : test.decision = .pass ↔ test.llr ≤ -test.threshold
  not_both : ¬(test.threshold ≤ test.llr ∧ test.llr ≤ -test.threshold)

theorem consistent_of_pos (test : SequentialTest) (h : 0 < test.threshold.toRat) :
    test.Consistent := by
  have hboth : ¬(test.threshold ≤ test.llr ∧ test.llr ≤ -test.threshold) := by
    rw [le_iff, le_iff, toRat_neg]
    rintro ⟨hfail, hpass⟩
    linarith
  refine ⟨(decision_eq_fail_iff test).trans (le_iff _ _).symm, ?_, hboth⟩
  unfold decision
  by_cases hfail : test.threshold ≤ test.llr
  · rw [if_pos hfail]
    exact iff_of_false (by simp) fun hpass => hboth ⟨hfail, hpass⟩
  · rw [if_neg hfail]
    split <;> simp [*]

-- Failures never speak for the good rate nor passes for the bad one, and whatever is observed leads to
-- one verdict.
structure Sound (test : SequentialTest) : Prop where
  logFail : zero ≤ test.logFail
  logPass : test.logPass ≤ zero
  consistent : ∀ batches, (test.observeAll batches).Consistent

section Creation

variable (good bad threshold prior : Decimal)

-- What the checks of rates and threshold ask for.
def InDomain : Prop :=
  Domain.openUnit.Contains good ∧ Domain.openUnit.Contains bad ∧ good < bad ∧
    Domain.positive.Contains threshold

instance : Decidable (InDomain good bad threshold) := by
  unfold InDomain; infer_instance

-- A test is refused for what the checks of its parameters find and for nothing else.
structure CreationComplete : Prop where
  created_iff : (∃ test, create good bad threshold prior logPrecision = .ok test) ↔
    InDomain good bad threshold
  not_logRatio : ∀ cause, create good bad threshold prior logPrecision ≠ .error (.logRatio cause)
  sound : ∀ test, create good bad threshold prior logPrecision = .ok test → test.Sound

-- The odds of a pass at the bad rate against the good one, before they are rounded to the working
-- precision.
def passQuotient : ℚ := (bad.complement / good.complement).toRat

theorem passRatio_pos_iff :
    zero < passRatio good bad logPrecision ↔ 1 / 2 * 10 ^ (-22 : Int) ≤ passQuotient good bad := by
  rw [lt_iff, toRat_zero, passRatio, toRat_divAt, Rounding.halfUp_atScale_pos_iff]
  rfl

theorem admissible_iff : Admissible good bad threshold logPrecision ↔
    InDomain good bad threshold ∧ 1 / 2 * 10 ^ (-22 : Int) ≤ passQuotient good bad := by
  rw [← passRatio_pos_iff]
  unfold Admissible InDomain
  tauto

theorem sound_of_create (test : SequentialTest)
    (h : create good bad threshold prior logPrecision = .ok test) : test.Sound := by
  obtain ⟨hadm, rfl⟩ := (create_eq_ok_iff _ _ _ _ _ _ (by decide)).mp h
  have hthreshold := (Domain.positive_contains_iff threshold).mp hadm.2.2.2.1
  refine ⟨?_, ?_, fun batches => consistent_of_pos _ ?_⟩
  · rw [le_iff, toRat_zero]
    exact logFail_nonneg good bad threshold prior logPrecision hadm (by decide)
  · rw [le_iff, toRat_zero]
    exact logPass_nonpos good bad threshold prior logPrecision hadm
  · rw [observeAll_threshold]
    exact hthreshold

-- A logarithm is only refused after all checks have passed.
theorem create_eq_logRatio_iff (cause : DomainError) :
    create good bad threshold prior logPrecision = .error (.logRatio cause) ↔
      InDomain good bad threshold ∧ ¬zero < passRatio good bad logPrecision ∧
        cause = .logarithm (passRatio good bad logPrecision) := by
  rw [create_eq good bad threshold prior logPrecision (by decide)]
  unfold InDomain
  split_ifs <;> simp [*, eq_comm]

theorem le_passQuotient (h : InDomain good bad threshold)
    (hle : 1 / 2 * 10 ^ (-22 : Int) * (1 - good.toRat) ≤ 1 - bad.toRat) :
    1 / 2 * 10 ^ (-22 : Int) ≤ passQuotient good bad := by
  have hgood : 0 < good.complement.toRat := by
    rw [toRat_complement]
    linarith [((Domain.openUnit_contains_iff good).mp h.1).2]
  have hbad : 0 < bad.complement.toRat := by
    rw [toRat_complement]
    linarith [((Domain.openUnit_contains_iff bad).mp h.2.1).2]
  refine le_toRat_div _ _ 23 hbad hgood ⟨5, by norm_num⟩ (by norm_num) ?_
  rw [le_div_iff₀ hgood, toRat_complement, toRat_complement]
  exact hle

-- The odds of a pass are rounded to a fixed number of places. Bad rates so near to one that less than
-- half a unit of these places is left are refused, although they pass all checks.
theorem creation_complete_iff :
    (CreationComplete good bad threshold prior ↔
      (InDomain good bad threshold → 1 / 2 * 10 ^ (-22 : Int) ≤ passQuotient good bad)) ∧
    (1 / 2 * 10 ^ (-22 : Int) * (1 - good.toRat) ≤ 1 - bad.toRat →
      CreationComplete good bad threshold prior) := by
  have hcreated : (∃ test, create good bad threshold prior logPrecision = .ok test) ↔
      InDomain good bad threshold ∧ 1 / 2 * 10 ^ (-22 : Int) ≤ passQuotient good bad := by
    simp only [create_eq_ok_iff _ _ _ _ _ _ (by decide : 0 ≤ logPrecision + guardDigits),
      admissible_iff, exists_and_left, exists_eq, and_true]
  have hiff : CreationComplete good bad threshold prior ↔
      (InDomain good bad threshold → 1 / 2 * 10 ^ (-22 : Int) ≤ passQuotient good bad) := by
    constructor
    · intro h hdomain
      exact (hcreated.mp (h.created_iff.mpr hdomain)).2
    · intro h
      refine ⟨hcreated.trans (and_iff_left_of_imp h), ?_, sound_of_create good bad threshold prior⟩
      intro cause herror
      obtain ⟨hdomain, hzero, -⟩ := (create_eq_logRatio_iff _ _ _ _ _).mp herror
      exact hzero ((passRatio_pos_iff _ _).mpr (h hdomain))
  exact ⟨hiff, fun hle => hiff.mpr fun hdomain => le_passQuotient _ _ _ hdomain hle⟩

-- A bad rate of 22 nines leaves a pass two units of the last place.
theorem creation_complete_at_twenty_two_nines :
    let bad : Decimal := ⟨9999999999999999999999, 22⟩
    1 / 2 * 10 ^ (-22 : Int) * (1 - half.toRat) ≤ 1 - bad.toRat ∧ InDomain half bad (ofInt 4) ∧
      CreationComplete half bad (ofInt 4) zero := by
  intro bad
  have hle : 1 / 2 * 10 ^ (-22 : Int) * (1 - half.toRat) ≤ 1 - bad.toRat := by
    norm_num [bad, toRat, half]
  exact ⟨hle, by decide, (creation_complete_iff half bad (ofInt 4) zero).2 hle⟩

-- With 25 nines nothing is left of them.
theorem creation_incomplete_at_twenty_five_nines :
    ¬CreationComplete half ⟨9999999999999999999999999, 25⟩ (ofInt 4) zero := by
  intro h
  exact h.not_logRatio _ ((create_eq_logRatio_iff _ _ _ _ _).mpr
    ⟨by decide, by decide +kernel, rfl⟩)

end Creation

end SequentialTest

end ParticipantTrust
