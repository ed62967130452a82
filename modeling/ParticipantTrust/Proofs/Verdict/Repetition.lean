import ParticipantTrust.Proofs.Verdict.Configuration
import ParticipantTrust.Proofs.Verdict.Severity

namespace ParticipantTrust

open SequentialTest

theorem growth_self (count : UInt64) : growth count count = 0 := by
  have hmin : Int64.minValue.toInt ≤ 0 := by decide
  have hmax : 0 ≤ Int64.maxValue.toInt := by decide
  unfold growth
  omega

section Test

variable {good bad threshold : Option Decimal} {prior prior' : Decimal}
  {failures failures' passes passes' : Int}

theorem testAfter_none_again (h : testAfter good bad threshold prior failures passes = none) :
    testAfter good bad threshold prior' failures' passes' = none := by
  rw [testAfter_eq_none_iff] at h ⊢
  exact h

-- A test that is set up on what it has stored comes out as it was when nothing has been observed since.
theorem testAfter_again {test : SequentialTest}
    (h : testAfter good bad threshold prior failures passes = some test) :
    testAfter good bad threshold test.llr 0 0 = some test := by
  obtain ⟨g, b, t, rfl, rfl, rfl, hadm, rfl⟩ := (testAfter_eq_some_iff _ _ _ _ _ _ _).mp h
  refine (testAfter_eq_some_iff _ _ _ _ _ _ _).mpr ⟨g, b, t, rfl, rfl, rfl, hadm, ?_⟩
  rw [observe_zero]
  exact observe_eq (initial g b t prior logPrecision) failures passes

end Test

section Checks

variable {params : ValidationParams} {stats previous : EpochStats} {test : SequentialTest}

theorem invalidationTest_again (h : invalidationTest params stats previous = some test)
    {after : EpochStats} (hllr : after.invalidLlr = test.llr) :
    invalidationTest params after after = some test := by
  unfold invalidationTest
  rw [growth_self, growth_self, hllr]
  exact testAfter_again h

theorem downtimeTest_again (h : downtimeTest params stats previous = some test)
    {after : EpochStats} (hllr : after.inactiveLlr = test.llr) :
    downtimeTest params after after = some test := by
  unfold downtimeTest
  rw [growth_self, growth_self, hllr]
  exact testAfter_again h

end Checks

namespace Verdict

variable (params : ValidationParams) (confirmation : Option ConfirmationParams)
  (stats previous : EpochStats)

theorem ofDowntime_again :
    let verdict := ofDowntime params confirmation stats previous
    ofDowntime params confirmation verdict.stats verdict.stats = verdict := by
  intro verdict
  cases htest : downtimeTest params stats previous with
  | none =>
      have hverdict : verdict = ⟨.active, .algorithmError, stats⟩ :=
        ofDowntime_of_none params confirmation stats previous htest
      rw [hverdict]
      exact ofDowntime_of_none params confirmation stats stats (testAfter_none_again htest)
  | some test =>
      by_cases hfail : test.decision = .fail
      · have hverdict : verdict = ⟨.inactive, .downtime, { stats with inactiveLlr := test.llr }⟩ :=
          ofDowntime_of_fail params confirmation stats previous htest hfail
        rw [hverdict]
        exact ofDowntime_of_fail params confirmation _ _ (downtimeTest_again htest rfl) hfail
      · have hverdict :
            verdict = ofConfirmation confirmation { stats with inactiveLlr := test.llr } :=
          ofDowntime_of_pass params confirmation stats previous htest hfail
        rw [hverdict, ofConfirmation_stats]
        exact ofDowntime_of_pass params confirmation _ _ (downtimeTest_again htest rfl) hfail

-- The second check leaves the evidence of the first as it found it.
theorem ofDowntime_invalidLlr :
    (ofDowntime params confirmation stats previous).stats.invalidLlr = stats.invalidLlr := by
  unfold ofDowntime
  split
  · rfl
  · simp only []
    split
    · rfl
    · rw [ofConfirmation_stats]

theorem ofInvalidations_again :
    let verdict := ofInvalidations params confirmation stats previous
    ofInvalidations params confirmation verdict.stats verdict.stats = verdict := by
  intro verdict
  cases htest : invalidationTest params stats previous with
  | none =>
      have hverdict : verdict = ⟨.active, .algorithmError, stats⟩ :=
        ofInvalidations_of_none params confirmation stats previous htest
      rw [hverdict]
      exact ofInvalidations_of_none params confirmation stats stats (testAfter_none_again htest)
  | some test =>
      by_cases hfail : test.decision = .fail
      · have hverdict : verdict =
            ⟨.invalid, .statisticalInvalidations, { stats with invalidLlr := test.llr }⟩ :=
          ofInvalidations_of_fail params confirmation stats previous htest hfail
        rw [hverdict]
        exact ofInvalidations_of_fail params confirmation _ _ (invalidationTest_again htest rfl) hfail
      · have hverdict : verdict =
            ofDowntime params confirmation { stats with invalidLlr := test.llr } previous :=
          ofInvalidations_of_pass params confirmation stats previous htest hfail
        have hllr : verdict.stats.invalidLlr = test.llr := by
          rw [hverdict, ofDowntime_invalidLlr]
        have hstats : { verdict.stats with invalidLlr := test.llr } = verdict.stats := by
          rw [← hllr]
        rw [ofInvalidations_of_pass params confirmation _ _ (invalidationTest_again htest hllr) hfail,
          hstats, hverdict]
        exact ofDowntime_again params confirmation _ previous

theorem ofStreak_again (rate cutoff : Decimal) (p : Participant) :
    let verdict := ofStreak params confirmation rate cutoff p previous
    ofStreak params confirmation rate cutoff { p with stats := verdict.stats } verdict.stats =
      verdict := by
  intro verdict
  cases hrare : Streak.isRare rate p.streak.toNat cutoff with
  | error _ =>
      have hverdict : verdict = ⟨.active, .algorithmError, p.stats⟩ := by
        simp only [verdict, ofStreak, hrare]
      rw [hverdict]
      simp only [ofStreak, hrare]
  | ok rare =>
      cases rare with
      | true =>
          have hverdict : verdict = ⟨.invalid, .consecutiveFailures, p.stats⟩ := by
            simp only [verdict, ofStreak, hrare]
          rw [hverdict]
          simp only [ofStreak, hrare]
      | false =>
          have hverdict : verdict = ofInvalidations params confirmation p.stats previous := by
            simp only [verdict, ofStreak, hrare]
          rw [hverdict]
          simp only [ofStreak, hrare]
          exact ofInvalidations_again params confirmation p.stats previous

end Verdict

section Evaluation

variable (params : ValidationParams) (confirmation : Option ConfirmationParams) (p : Participant)
  (previous : EpochStats)

-- Evaluated on its own outcome, a participant gets the verdict again: the checks stop where they
-- stopped, and the batch between the two is empty.
theorem evaluate_again :
    let verdict := evaluate (some params) confirmation p previous
    evaluate (some params) confirmation { p with stats := verdict.stats } verdict.stats = verdict := by
  intro verdict
  by_cases hjudges : params.Judges
  · by_cases hsticky : p.status.isSticky = true
    · have hverdict : verdict = ⟨p.status, .alreadySet, p.stats⟩ :=
        evaluate_of_isSticky params confirmation p previous hjudges hsticky
      rw [hverdict]
      exact evaluate_of_isSticky params confirmation p p.stats hjudges hsticky
    · rw [Bool.not_eq_true] at hsticky
      obtain ⟨rate, hrate⟩ := Option.isSome_iff_exists.mp hjudges.1
      obtain ⟨cutoff, hcutoff⟩ := Option.isSome_iff_exists.mp hjudges.2
      have hverdict : verdict = Verdict.ofStreak params confirmation rate cutoff p previous :=
        evaluate_eq_ofStreak params confirmation p previous rate cutoff hrate hcutoff hsticky
      rw [evaluate_eq_ofStreak params confirmation { p with stats := verdict.stats } verdict.stats
        rate cutoff hrate hcutoff hsticky, hverdict]
      exact Verdict.ofStreak_again params confirmation previous rate cutoff p
  · have hverdict : verdict = ⟨.active, .unremarkable, p.stats⟩ :=
      evaluate_of_not_judges params confirmation p previous hjudges
    rw [hverdict]
    exact evaluate_of_not_judges params confirmation p p.stats hjudges

-- Of a participant that can be judged, the checks see streak and counters only.
theorem evaluate_congr {q : Participant} (hp : p.status.isSticky = false)
    (hq : q.status.isSticky = false) (hstreak : q.streak = p.streak) (hstats : q.stats = p.stats) :
    evaluate (some params) confirmation q previous =
      evaluate (some params) confirmation p previous := by
  simp only [evaluate, Verdict.ofStreak, hp, hq, hstreak, hstats, Bool.false_eq_true, if_false]

end Evaluation

end ParticipantTrust
