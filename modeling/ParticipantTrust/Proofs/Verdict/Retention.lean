import ParticipantTrust.Proofs.Verdict.Evidence

namespace ParticipantTrust

open SequentialTest

section Retention

variable (params : ValidationParams) (confirmation : Option ConfirmationParams) (p : Participant)
  (previous : EpochStats) (rate cutoff : Decimal)

-- A defect of the first two checks ends the evaluation before the third one, with the counters as they
-- were stored.
theorem evaluate_of_not_testable (hrate : params.falsePositiveRate = some rate)
    (hcutoff : params.quickFailureThreshold = some cutoff) (hsticky : p.status.isSticky = false)
    (hrare : Streak.isRare rate p.streak.toNat cutoff ≠ .ok true)
    (hdefect : ¬Testable params.falsePositiveRate params.badInvalidationRate
      params.invalidationThreshold) :
    evaluate (some params) confirmation p previous = ⟨.active, .algorithmError, p.stats⟩ := by
  rw [evaluate_eq_ofStreak params confirmation p previous rate cutoff hrate hcutoff hsticky]
  unfold Verdict.ofStreak
  split
  · rfl
  · rename_i htrue
    exact absurd htrue hrare
  · have hnone : invalidationTest params p.stats previous = none :=
      (testAfter_eq_none_iff _ _ _ _ _ _).mpr hdefect
    simp only [Verdict.ofInvalidations, hnone]

theorem Testable.openUnit_good {good : Decimal} {bad threshold : Option Decimal}
    (h : Testable (some good) bad threshold) : Domain.openUnit.Contains good := by
  cases bad with
  | none => exact absurd h id
  | some bad =>
      cases threshold with
      | none => exact absurd h id
      | some threshold => exact h.1

-- Where the second check can be made, only a conviction keeps the third one from being made.
theorem inactiveLlr_of_testable {test : SequentialTest}
    (hdowntime : downtimeTest params p.stats previous = some test)
    (htestable : Testable params.falsePositiveRate params.badInvalidationRate
      params.invalidationThreshold)
    (hactive : (Verdict.ofInvalidations params confirmation p.stats previous).status = .active) :
    (Verdict.ofInvalidations params confirmation p.stats previous).stats.inactiveLlr = test.llr := by
  cases hinvalidation : invalidationTest params p.stats previous with
  | none => exact absurd htestable ((testAfter_eq_none_iff _ _ _ _ _ _).mp hinvalidation)
  | some invalidation =>
      simp only [Verdict.ofInvalidations, hinvalidation] at hactive ⊢
      by_cases hfail : invalidation.decision = .fail
      · rw [if_pos hfail] at hactive
        cases hactive
      · rw [if_neg hfail]
        exact Verdict.ofDowntime_inactiveLlr params confirmation _ previous hdowntime

-- A participant that stays active has the downtime of the window on its account, exactly where the
-- second check can be made or the downtime of the window weighs nothing.
theorem downtime_kept_while_active_iff (test : SequentialTest)
    (hrate : params.falsePositiveRate = some rate)
    (hcutoff : params.quickFailureThreshold = some cutoff) (hsticky : p.status.isSticky = false)
    (hdowntime : downtimeTest params p.stats previous = some test) :
    let verdict := evaluate (some params) confirmation p previous
    (verdict.status = .active → verdict.stats.inactiveLlr.SameValue test.llr) ↔
      Streak.isRare rate p.streak.toNat cutoff = .ok true ∨
      Testable params.falsePositiveRate params.badInvalidationRate params.invalidationThreshold ∨
      p.stats.inactiveLlr.SameValue test.llr := by
  intro verdict
  have hverdict : verdict = Verdict.ofStreak params confirmation rate cutoff p previous :=
    evaluate_eq_ofStreak params confirmation p previous rate cutoff hrate hcutoff hsticky
  by_cases hrare : Streak.isRare rate p.streak.toNat cutoff = .ok true
  · refine iff_of_true (fun hactive => ?_) (.inl hrare)
    rw [hverdict] at hactive
    simp only [Verdict.ofStreak, hrare, reduceCtorEq] at hactive
  by_cases htestable : Testable params.falsePositiveRate params.badInvalidationRate
      params.invalidationThreshold
  · refine iff_of_true (fun hactive => ?_) (.inr (.inl htestable))
    have hfalse : Streak.isRare rate p.streak.toNat cutoff = .ok false := by
      rw [hrate] at htestable
      have hclosed := Domain.closedUnit_contains_of_openUnit rate htestable.openUnit_good
      exact (Streak.isRare_true_or_false rate _ cutoff hclosed).resolve_left hrare
    have hchecks : verdict = Verdict.ofInvalidations params confirmation p.stats previous := by
      simp only [hverdict, Verdict.ofStreak, hfalse]
    rw [hchecks] at hactive ⊢
    rw [inactiveLlr_of_testable params confirmation p previous hdowntime htestable hactive,
      Decimal.sameValue_iff]
  · have hstopped : verdict = ⟨.active, .algorithmError, p.stats⟩ :=
      evaluate_of_not_testable params confirmation p previous rate cutoff hrate hcutoff hsticky
        hrare htestable
    simp [hstopped, hrare, htestable]

end Retention

-- A participant who missed three requests and has no other counters.
def missedThree : Participant :=
  { Participant.new "gonka1alice" .active with stats := { EpochStats.zero with missedRequests := 3 } }

def testOfThree : SequentialTest :=
  (initial (hundredths 10) (hundredths 20) (Decimal.ofInt 4) .zero logPrecision).observe 3 0

-- The bad rate of the second check has no part in the third one.
theorem downtimeTest_missedThree (badInvalidationRate : Option Decimal) :
    downtimeTest { ValidationParams.genesis with badInvalidationRate } missedThree.stats .zero =
      some testOfThree :=
  (testAfter_eq_some_iff _ _ _ _ _ _ _).mpr
    ⟨hundredths 10, hundredths 20, Decimal.ofInt 4, rfl, rfl, rfl, by decide +kernel, rfl⟩

-- Three missed requests that do not convict stay on the account.
theorem downtime_kept_of_three_missed :
    let params := ValidationParams.genesis
    let verdict := evaluate (some params) none missedThree .zero
    params.falsePositiveRate = some (hundredths 5) ∧
      params.quickFailureThreshold = some (Decimal.unitAt 6) ∧
      missedThree.status.isSticky = false ∧
      downtimeTest params missedThree.stats .zero = some testOfThree ∧ verdict.status = .active ∧
      verdict.stats.inactiveLlr.SameValue testOfThree.llr ∧
      ¬missedThree.stats.inactiveLlr.SameValue testOfThree.llr := by
  intro params verdict
  have hdowntime := downtimeTest_missedThree (some (hundredths 10))
  have htestable : Testable params.falsePositiveRate params.badInvalidationRate
      params.invalidationThreshold := by
    change Admissible (hundredths 5) (hundredths 10) (Decimal.ofInt 4) logPrecision
    decide +kernel
  have hactive : verdict.status = .active := by decide +kernel
  have hkept := (downtime_kept_while_active_iff params none missedThree .zero (hundredths 5)
    (Decimal.unitAt 6) testOfThree rfl rfl rfl hdowntime).mpr (.inr (.inl htestable))
  exact ⟨rfl, rfl, rfl, hdowntime, hactive, hkept hactive, by decide +kernel⟩

-- Without a bad rate for invalidations the same three are lost.
theorem downtime_lost_without_bad_rate :
    let params := { ValidationParams.genesis with badInvalidationRate := none }
    let verdict := evaluate (some params) none missedThree .zero
    downtimeTest params missedThree.stats .zero = some testOfThree ∧ verdict.status = .active ∧
      ¬verdict.stats.inactiveLlr.SameValue testOfThree.llr :=
  ⟨downtimeTest_missedThree none, by decide +kernel, by decide +kernel⟩

end ParticipantTrust
