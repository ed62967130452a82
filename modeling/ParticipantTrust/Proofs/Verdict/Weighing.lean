import ParticipantTrust.Proofs.Verdict.Evidence
import ParticipantTrust.Proofs.Verdict.Repetition
import ParticipantTrust.Proofs.Verdict.WrittenForm

namespace ParticipantTrust

open SequentialTest

-- A batch that is evidence.
def Weighs (failures passes : Int) : Prop := 0 < failures ∨ 0 < passes

theorem observe_llr_scale (test : SequentialTest) {failures passes : Int}
    (h : Weighs failures passes) : (test.observe failures passes).llr.scale = test.precision := by
  have hcounts : ¬(max failures 0 = 0 ∧ max passes 0 = 0) := by
    unfold Weighs at h
    omega
  unfold observe
  simp only [if_neg hcounts]
  exact Decimal.roundWith_scale .halfUp _ _

theorem observe_of_not_weighs (test : SequentialTest) {failures passes : Int}
    (h : ¬Weighs failures passes) : test.observe failures passes = test := by
  have hcounts : max failures 0 = 0 ∧ max passes 0 = 0 := by
    unfold Weighs at h
    omega
  unfold observe
  simp only [if_pos hcounts]

section Test

variable {good bad threshold : Option Decimal} {prior : Decimal} {failures passes : Int}
  {test : SequentialTest}

theorem testAfter_llr_scale (h : testAfter good bad threshold prior failures passes = some test)
    (hweighs : Weighs failures passes) : test.llr.scale = logPrecision := by
  obtain ⟨g, b, t, -, -, -, -, rfl⟩ := (testAfter_eq_some_iff _ _ _ _ _ _ _).mp h
  exact observe_llr_scale _ hweighs

theorem testAfter_llr_of_not_weighs
    (h : testAfter good bad threshold prior failures passes = some test)
    (hweighs : ¬Weighs failures passes) : test.llr = prior := by
  obtain ⟨g, b, t, -, -, -, -, rfl⟩ := (testAfter_eq_some_iff _ _ _ _ _ _ _).mp h
  rw [observe_of_not_weighs _ hweighs]
  rfl

end Test

theorem downtimeTest_setInvalidLlr (params : ValidationParams) (stats previous : EpochStats)
    (llr : Decimal) : downtimeTest params { stats with invalidLlr := llr } previous =
      downtimeTest params stats previous := rfl

-- The participant can be judged and passes the check of its streak.
def ReachesTests (params : ValidationParams) (p : Participant) : Prop :=
  p.status.isSticky = false ∧
    ∃ rate cutoff, params.falsePositiveRate = some rate ∧ params.quickFailureThreshold = some cutoff ∧
      Streak.isRare rate p.streak.toNat cutoff = .ok false

theorem ReachesTests.judges {params : ValidationParams} {p : Participant}
    (h : ReachesTests params p) : params.Judges := by
  obtain ⟨-, rate, cutoff, hrate, hcutoff, -⟩ := h
  exact ValidationParams.judges_of_some hrate hcutoff

-- The first sequential test is run on a batch that is evidence.
def WeighsInvalidations (params : ValidationParams) (p : Participant) (previous : EpochStats) : Prop :=
  ReachesTests params p ∧ (invalidationTest params p.stats previous).isSome = true ∧
    Weighs (growth p.stats.invalidatedInferences previous.invalidatedInferences)
      (growth p.stats.validatedInferences previous.validatedInferences)

-- The first sequential test is passed, and the second is run on a batch that is evidence.
def WeighsDowntime (params : ValidationParams) (p : Participant) (previous : EpochStats) : Prop :=
  ReachesTests params p ∧
    (∃ test, invalidationTest params p.stats previous = some test ∧ test.decision ≠ .fail) ∧
    (downtimeTest params p.stats previous).isSome = true ∧
    Weighs (growth p.stats.missedRequests previous.missedRequests)
      (growth p.stats.inferenceCount previous.inferenceCount)

section Evaluation

variable (params : ValidationParams) (confirmation : Option ConfirmationParams) (p : Participant)
  (previous : EpochStats)

theorem evaluate_of_reachesTests (h : ReachesTests params p) :
    evaluate (some params) confirmation p previous =
      Verdict.ofInvalidations params confirmation p.stats previous := by
  obtain ⟨hsticky, rate, cutoff, hrate, hcutoff, hrare⟩ := h
  rw [evaluate_eq_ofStreak params confirmation p previous rate cutoff hrate hcutoff hsticky]
  simp only [Verdict.ofStreak, hrare]

theorem evaluate_stats_of_not_reachesTests (h : ¬ReachesTests params p) :
    (evaluate (some params) confirmation p previous).stats = p.stats := by
  by_cases hjudges : params.Judges
  · by_cases hsticky : p.status.isSticky = true
    · rw [evaluate_of_isSticky params confirmation p previous hjudges hsticky]
    · rw [Bool.not_eq_true] at hsticky
      obtain ⟨rate, hrate⟩ := Option.isSome_iff_exists.mp hjudges.1
      obtain ⟨cutoff, hcutoff⟩ := Option.isSome_iff_exists.mp hjudges.2
      rw [evaluate_eq_ofStreak params confirmation p previous rate cutoff hrate hcutoff hsticky]
      unfold Verdict.ofStreak
      split
      · rfl
      · rfl
      · rename_i hrare
        exact absurd ⟨hsticky, rate, cutoff, hrate, hcutoff, hrare⟩ h
  · rw [evaluate_of_not_judges params confirmation p previous hjudges]

-- The evidence of a verdict is rounded where it was weighed, and as it was stored everywhere else.
theorem evaluate_invalidLlr_scale (h : WeighsInvalidations params p previous) :
    (evaluate (some params) confirmation p previous).stats.invalidLlr.scale = logPrecision := by
  obtain ⟨hreaches, hsome, hweighs⟩ := h
  obtain ⟨test, htest⟩ := Option.isSome_iff_exists.mp hsome
  rw [evaluate_of_reachesTests params confirmation p previous hreaches,
    Verdict.ofInvalidations_invalidLlr params confirmation p.stats previous htest]
  exact testAfter_llr_scale htest hweighs

theorem evaluate_invalidLlr_stored (h : ¬WeighsInvalidations params p previous) :
    (evaluate (some params) confirmation p previous).stats.invalidLlr = p.stats.invalidLlr := by
  by_cases hreaches : ReachesTests params p
  · rw [evaluate_of_reachesTests params confirmation p previous hreaches]
    cases htest : invalidationTest params p.stats previous with
    | none => rw [Verdict.ofInvalidations_of_none params confirmation p.stats previous htest]
    | some test =>
        rw [Verdict.ofInvalidations_invalidLlr params confirmation p.stats previous htest]
        exact testAfter_llr_of_not_weighs htest fun hweighs => h ⟨hreaches, by rw [htest]; rfl, hweighs⟩
  · rw [evaluate_stats_of_not_reachesTests params confirmation p previous hreaches]

theorem evaluate_inactiveLlr_scale (h : WeighsDowntime params p previous) :
    (evaluate (some params) confirmation p previous).stats.inactiveLlr.scale = logPrecision := by
  obtain ⟨hreaches, ⟨test, htest, hpass⟩, hsome, hweighs⟩ := h
  obtain ⟨downtime, hdowntime⟩ := Option.isSome_iff_exists.mp hsome
  -- the second test does not see what the first has written
  rw [← downtimeTest_setInvalidLlr params p.stats previous test.llr] at hdowntime
  rw [evaluate_of_reachesTests params confirmation p previous hreaches,
    Verdict.ofInvalidations_of_pass params confirmation p.stats previous htest hpass,
    Verdict.ofDowntime_inactiveLlr params confirmation _ previous hdowntime]
  exact testAfter_llr_scale hdowntime hweighs

theorem evaluate_inactiveLlr_stored (h : ¬WeighsDowntime params p previous) :
    (evaluate (some params) confirmation p previous).stats.inactiveLlr = p.stats.inactiveLlr := by
  by_cases hreaches : ReachesTests params p
  · rw [evaluate_of_reachesTests params confirmation p previous hreaches]
    cases htest : invalidationTest params p.stats previous with
    | none => rw [Verdict.ofInvalidations_of_none params confirmation p.stats previous htest]
    | some test =>
        by_cases hfail : test.decision = .fail
        · rw [Verdict.ofInvalidations_of_fail params confirmation p.stats previous htest hfail]
        · rw [Verdict.ofInvalidations_of_pass params confirmation p.stats previous htest hfail]
          cases hdowntime : downtimeTest params { p.stats with invalidLlr := test.llr } previous with
          | none => rw [Verdict.ofDowntime_of_none params confirmation _ previous hdowntime]
          | some downtime =>
              rw [Verdict.ofDowntime_inactiveLlr params confirmation _ previous hdowntime]
              have hsome : (downtimeTest params p.stats previous).isSome = true :=
                Option.isSome_iff_exists.mpr ⟨downtime, hdowntime⟩
              exact testAfter_llr_of_not_weighs hdowntime fun hweighs =>
                h ⟨hreaches, ⟨test, htest, hfail⟩, hsome, hweighs⟩
  · rw [evaluate_stats_of_not_reachesTests params confirmation p previous hreaches]

end Evaluation

section WrittenForms

variable {params params' : ValidationParams} {p p' : Participant} {previous previous' : EpochStats}
  (hparams : params.SameValue params') (hp : p.SameValue p')
  (hdigits : p.status.isSticky = false → params.SameDigits params' p.streak.toNat)

include hparams hp hdigits

theorem reachesTests_congr : ReachesTests params p ↔ ReachesTests params' p' := by
  unfold ReachesTests
  rw [← hp.status, ← hp.streak]
  refine and_congr_right fun hsticky => ?_
  have hstreak := (hdigits hsticky).streak
  rcases hparams.falsePositiveRate.eq_none_or_toRat_eq with ⟨hr, hr'⟩ | ⟨rate, rate', hr, hr', hrate⟩
  · simp [hr, hr']
  · rcases hparams.quickFailureThreshold.eq_none_or_toRat_eq with
      ⟨hc, hc'⟩ | ⟨cutoff, cutoff', hc, hc', hcutoff⟩
    · simp [hc, hc']
    · have hsame := hstreak rate cutoff cutoff' hr hc hc'
      simpa [hr, hr', hc, hc'] using
        Streak.isRare_congr rate rate' p.streak.toNat cutoff cutoff' false hrate hcutoff hsame

variable (hprevious : previous.SameValue previous')

include hprevious

theorem weighsInvalidations_congr :
    WeighsInvalidations params p previous ↔ WeighsInvalidations params' p' previous' := by
  have hreaches := reachesTests_congr hparams hp hdigits
  have hstats := hp.stats
  obtain ⟨-, -, hvalidated, hinvalidated, -⟩ := hstats
  have hcounts := hprevious
  obtain ⟨-, -, hvalidated', hinvalidated', -⟩ := hcounts
  unfold WeighsInvalidations
  rw [← hreaches, ← hvalidated, ← hinvalidated, ← hvalidated', ← hinvalidated']
  refine and_congr_right fun h => and_congr_left fun _ => ?_
  have htest := invalidationTest_congr hparams hp.stats hprevious h.judges (hdigits h.1)
  generalize invalidationTest params p.stats previous = test,
    invalidationTest params' p'.stats previous' = test' at htest ⊢
  cases htest <;> rfl

theorem weighsDowntime_congr :
    WeighsDowntime params p previous ↔ WeighsDowntime params' p' previous' := by
  have hreaches := reachesTests_congr hparams hp hdigits
  have hstats := hp.stats
  obtain ⟨hinferences, hmissed, -⟩ := hstats
  have hcounts := hprevious
  obtain ⟨hinferences', hmissed', -⟩ := hcounts
  unfold WeighsDowntime
  rw [← hreaches, ← hinferences, ← hmissed, ← hinferences', ← hmissed']
  refine and_congr_right fun h => and_congr ?_ (and_congr_left fun _ => ?_)
  · have htest := invalidationTest_congr hparams hp.stats hprevious h.judges (hdigits h.1)
    generalize invalidationTest params p.stats previous = test,
      invalidationTest params' p'.stats previous' = test' at htest ⊢
    cases htest with
    | none => simp
    | some hsame => simp [hsame.decision]
  · have htest := downtimeTest_congr hparams hp.stats hprevious h.judges (hdigits h.1)
    generalize downtimeTest params p.stats previous = test,
      downtimeTest params' p'.stats previous' = test' at htest ⊢
    cases htest <;> rfl

end WrittenForms

end ParticipantTrust
