import ParticipantTrust.Proofs.Statistics.WrittenForm
import ParticipantTrust.Proofs.Verdict.Checks
import Mathlib.Data.Option.Defs

namespace ParticipantTrust

open Decimal

theorem SameRatio.eq_none_or_toRat_eq {a b : Option Decimal} (h : SameRatio a b) :
    a = none ∧ b = none ∨ ∃ x y, a = some x ∧ b = some y ∧ x.toRat = y.toRat := by
  match a, b, h with
  | none, none, _ => exact .inl ⟨rfl, rfl⟩
  | some x, some y, h => exact .inr ⟨x, y, rfl, rfl, (sameValue_iff x y).mp h⟩

theorem SameRatio.exists_of_some {x : Decimal} {b : Option Decimal} (h : SameRatio (some x) b) :
    ∃ y, b = some y ∧ x.toRat = y.toRat := by
  match b, h with
  | some y, h => exact ⟨y, rfl, (sameValue_iff x y).mp h⟩

theorem SameRatio.symm {a b : Option Decimal} (h : SameRatio a b) : SameRatio b a := by
  match a, b, h with
  | none, none, _ => trivial
  | some x, some y, h => exact (sameValue_iff y x).mpr ((sameValue_iff x y).mp h).symm

-- Equality up to the written forms of decimals.
structure ValidationParams.SameValue (v v' : ValidationParams) : Prop where
  falsePositiveRate : SameRatio v.falsePositiveRate v'.falsePositiveRate
  quickFailureThreshold : SameRatio v.quickFailureThreshold v'.quickFailureThreshold
  badInvalidationRate : SameRatio v.badInvalidationRate v'.badInvalidationRate
  invalidationThreshold : SameRatio v.invalidationThreshold v'.invalidationThreshold
  downtimeGoodRate : SameRatio v.downtimeGoodRate v'.downtimeGoodRate
  downtimeBadRate : SameRatio v.downtimeBadRate v'.downtimeBadRate
  downtimeThreshold : SameRatio v.downtimeThreshold v'.downtimeThreshold
  minRampUpMeasurements : v.minRampUpMeasurements = v'.minRampUpMeasurements
  reputationPreserve : SameRatio v.reputationPreserve v'.reputationPreserve

structure ConfirmationParams.SameValue (c c' : ConfirmationParams) : Prop where
  alphaThreshold : SameRatio c.alphaThreshold c'.alphaThreshold

structure Participant.SameValue (p p' : Participant) : Prop where
  address : p.address = p'.address
  status : p.status = p'.status
  epochsCompleted : p.epochsCompleted = p'.epochsCompleted
  streak : p.streak = p'.streak
  stats : p.stats.SameValue p'.stats

structure Verdict.SameValue (v v' : Verdict) : Prop where
  status : v.status = v'.status
  reason : v.reason = v'.reason
  stats : v.stats.SameValue v'.stats

-- The written forms matter neither to the comparison of a streak with the cut-off nor to the digits of
-- the likelihood ratios. Where there is nothing to judge by, no rate is read and nothing is asked.
structure ValidationParams.SameDigits (v v' : ValidationParams) (streak : Nat) : Prop where
  streak : ∀ rate cutoff cutoff', v.falsePositiveRate = some rate →
    v.quickFailureThreshold = some cutoff → v'.quickFailureThreshold = some cutoff' →
    Streak.SameOutcome rate streak cutoff cutoff'
  invalidations : v.Judges → ∀ good bad good' bad', v.falsePositiveRate = some good →
    v.badInvalidationRate = some bad → v'.falsePositiveRate = some good' →
    v'.badInvalidationRate = some bad' → SequentialTest.SameDigits good bad good' bad'
  downtime : v.Judges → ∀ good bad good' bad', v.downtimeGoodRate = some good →
    v.downtimeBadRate = some bad → v'.downtimeGoodRate = some good' →
    v'.downtimeBadRate = some bad' → SequentialTest.SameDigits good bad good' bad'

theorem testAfter_some_congr {good bad threshold good' bad' threshold' : Option Decimal}
    {prior prior' : Decimal} {failures passes : Int} {test : SequentialTest}
    (h : testAfter good bad threshold prior failures passes = some test)
    (hgood : SameRatio good good') (hbad : SameRatio bad bad')
    (hthreshold : SameRatio threshold threshold') (hprior : prior.toRat = prior'.toRat)
    (hdigits : ∀ g b g' b', good = some g → bad = some b → good' = some g' → bad' = some b' →
      SequentialTest.SameDigits g b g' b') :
    ∃ test', testAfter good' bad' threshold' prior' failures passes = some test' ∧
      test.SameEvidence test' := by
  obtain ⟨g, b, t, rfl, rfl, rfl, hadm, rfl⟩ := (testAfter_eq_some_iff _ _ _ _ _ _ _).mp h
  obtain ⟨g', rfl, hg⟩ := hgood.exists_of_some
  obtain ⟨b', rfl, hb⟩ := hbad.exists_of_some
  obtain ⟨t', rfl, ht⟩ := hthreshold.exists_of_some
  have hsame := hdigits g b g' b' rfl rfl rfl rfl
  have hadm' := SequentialTest.admissible_congr hg hb ht hsame hadm
  refine ⟨_, (testAfter_eq_some_iff _ _ _ _ _ _ _).mpr ⟨g', b', t', rfl, rfl, rfl, hadm', rfl⟩, ?_⟩
  exact (SequentialTest.initial_sameEvidence hadm hg hb ht hprior hsame).observe failures passes

theorem testAfter_congr {good bad threshold good' bad' threshold' : Option Decimal}
    {prior prior' : Decimal} (failures passes : Int)
    (hgood : SameRatio good good') (hbad : SameRatio bad bad')
    (hthreshold : SameRatio threshold threshold') (hprior : prior.toRat = prior'.toRat)
    (hdigits : ∀ g b g' b', good = some g → bad = some b → good' = some g' → bad' = some b' →
      SequentialTest.SameDigits g b g' b') :
    Option.Rel SequentialTest.SameEvidence (testAfter good bad threshold prior failures passes)
      (testAfter good' bad' threshold' prior' failures passes) := by
  cases h : testAfter good bad threshold prior failures passes with
  | some test =>
      obtain ⟨test', h', hsame⟩ := testAfter_some_congr h hgood hbad hthreshold hprior hdigits
      rw [h']
      exact .some hsame
  | none =>
      cases h' : testAfter good' bad' threshold' prior' failures passes with
      | none => exact .none
      | some test' =>
          obtain ⟨test, hsome, -⟩ := testAfter_some_congr h' hgood.symm hbad.symm hthreshold.symm
            hprior.symm fun g b g' b' hg hb hg' hb' => (hdigits g' b' g b hg' hb' hg hb).symm
          rw [hsome] at h
          cases h

section Stats

variable {stats stats' previous previous' : EpochStats}

theorem EpochStats.SameValue.setInvalidLlr (h : stats.SameValue stats') {llr llr' : Decimal}
    (hllr : llr.toRat = llr'.toRat) :
    { stats with invalidLlr := llr }.SameValue { stats' with invalidLlr := llr' } := by
  obtain ⟨h₁, h₂, h₃, h₄, h₅, -, h₇⟩ := h
  exact ⟨h₁, h₂, h₃, h₄, h₅, (sameValue_iff _ _).mpr hllr, h₇⟩

theorem EpochStats.SameValue.setInactiveLlr (h : stats.SameValue stats') {llr llr' : Decimal}
    (hllr : llr.toRat = llr'.toRat) :
    { stats with inactiveLlr := llr }.SameValue { stats' with inactiveLlr := llr' } := by
  obtain ⟨h₁, h₂, h₃, h₄, h₅, h₆, -⟩ := h
  exact ⟨h₁, h₂, h₃, h₄, h₅, h₆, (sameValue_iff _ _).mpr hllr⟩

theorem failsConfirmation_congr {confirmation confirmation' : Option ConfirmationParams}
    (hconfirmation : Option.Rel ConfirmationParams.SameValue confirmation confirmation')
    (h : stats.SameValue stats') :
    failsConfirmation confirmation stats = failsConfirmation confirmation' stats' := by
  obtain ⟨-, -, -, -, hratio, -, -⟩ := h
  cases hconfirmation with
  | none => rfl
  | some hconfirmation =>
      simp only [failsConfirmation, Option.bind_some]
      rcases hconfirmation.alphaThreshold.eq_none_or_toRat_eq with
        ⟨ha, ha'⟩ | ⟨alpha, alpha', ha, ha', halpha⟩
      · rw [ha, ha']
      · rcases hratio.eq_none_or_toRat_eq with ⟨hr, hr'⟩ | ⟨ratio, ratio', hr, hr', hratio⟩
        · rw [ha, ha', hr, hr']
        · have hzero : alpha.isZero = alpha'.isZero := by
            rw [Bool.eq_iff_iff, isZero_iff, isZero_iff, halpha]
          simp only [ha, ha', hr, hr', hzero, lt_iff, halpha, hratio]

section Tests

variable {params params' : ValidationParams} (hparams : params.SameValue params')
  (hstats : stats.SameValue stats') (hprevious : previous.SameValue previous')
  (hjudges : params.Judges)

include hparams hstats hprevious hjudges

theorem invalidationTest_congr {streak : Nat} (hdigits : params.SameDigits params' streak) :
    Option.Rel SequentialTest.SameEvidence (invalidationTest params stats previous)
      (invalidationTest params' stats' previous') := by
  obtain ⟨-, -, hvalidated, hinvalidated, -, hllr, -⟩ := hstats
  obtain ⟨-, -, hvalidated', hinvalidated', -⟩ := hprevious
  unfold invalidationTest
  rw [hvalidated, hinvalidated, hvalidated', hinvalidated']
  exact testAfter_congr _ _ hparams.falsePositiveRate hparams.badInvalidationRate
    hparams.invalidationThreshold ((sameValue_iff _ _).mp hllr) (hdigits.invalidations hjudges)

theorem downtimeTest_congr {streak : Nat} (hdigits : params.SameDigits params' streak) :
    Option.Rel SequentialTest.SameEvidence (downtimeTest params stats previous)
      (downtimeTest params' stats' previous') := by
  obtain ⟨hinferences, hmissed, -, -, -, -, hllr⟩ := hstats
  obtain ⟨hinferences', hmissed', -⟩ := hprevious
  unfold downtimeTest
  rw [hinferences, hmissed, hinferences', hmissed']
  exact testAfter_congr _ _ hparams.downtimeGoodRate hparams.downtimeBadRate
    hparams.downtimeThreshold ((sameValue_iff _ _).mp hllr) (hdigits.downtime hjudges)

end Tests

end Stats

namespace Verdict

variable {params params' : ValidationParams} {confirmation confirmation' : Option ConfirmationParams}
  {stats stats' previous previous' : EpochStats}

section Checks

variable (hparams : params.SameValue params')
  (hconfirmation : Option.Rel ConfirmationParams.SameValue confirmation confirmation')
  (hstats : stats.SameValue stats') (hprevious : previous.SameValue previous')
  (hjudges : params.Judges)

include hconfirmation hstats

theorem ofConfirmation_sameValue :
    (ofConfirmation confirmation stats).SameValue (ofConfirmation confirmation' stats') := by
  unfold ofConfirmation
  rw [failsConfirmation_congr hconfirmation hstats]
  split
  · exact ⟨rfl, rfl, hstats⟩
  · exact ⟨rfl, rfl, hstats⟩

include hparams hprevious hjudges

theorem ofDowntime_sameValue {streak : Nat} (hdigits : params.SameDigits params' streak) :
    (ofDowntime params confirmation stats previous).SameValue
      (ofDowntime params' confirmation' stats' previous') := by
  have htest := downtimeTest_congr hparams hstats hprevious hjudges hdigits
  unfold ofDowntime
  generalize downtimeTest params stats previous = test,
    downtimeTest params' stats' previous' = test' at htest
  cases htest with
  | none => exact ⟨rfl, rfl, hstats⟩
  | some hsame =>
      have hstats := hstats.setInactiveLlr hsame.llr
      simp only [hsame.decision]
      split
      · exact ⟨rfl, rfl, hstats⟩
      · exact ofConfirmation_sameValue hconfirmation hstats

theorem ofInvalidations_sameValue {streak : Nat} (hdigits : params.SameDigits params' streak) :
    (ofInvalidations params confirmation stats previous).SameValue
      (ofInvalidations params' confirmation' stats' previous') := by
  have htest := invalidationTest_congr hparams hstats hprevious hjudges hdigits
  unfold ofInvalidations
  generalize invalidationTest params stats previous = test,
    invalidationTest params' stats' previous' = test' at htest
  cases htest with
  | none => exact ⟨rfl, rfl, hstats⟩
  | some hsame =>
      have hstats := hstats.setInvalidLlr hsame.llr
      simp only [hsame.decision]
      split
      · exact ⟨rfl, rfl, hstats⟩
      · exact ofDowntime_sameValue hparams hconfirmation hstats hprevious hjudges hdigits

omit hstats in
theorem ofStreak_sameValue {rate rate' cutoff cutoff' : Decimal} {p p' : Participant}
    (hp : p.SameValue p') (hrate : rate.toRat = rate'.toRat) (hcutoff : cutoff.toRat = cutoff'.toRat)
    (hsame : Streak.SameOutcome rate p.streak.toNat cutoff cutoff')
    (hdigits : params.SameDigits params' p.streak.toNat) :
    (ofStreak params confirmation rate cutoff p previous).SameValue
      (ofStreak params' confirmation' rate' cutoff' p' previous') := by
  have hrare := fun rare =>
    Streak.isRare_congr rate rate' p.streak.toNat cutoff cutoff' rare hrate hcutoff hsame
  unfold ofStreak
  rw [← hp.streak]
  cases h : Streak.isRare rate p.streak.toNat cutoff with
  | ok rare =>
      rw [(hrare rare).mp h]
      cases rare with
      | true => exact ⟨rfl, rfl, hp.stats⟩
      | false =>
          exact ofInvalidations_sameValue hparams hconfirmation hp.stats hprevious hjudges hdigits
  | error e =>
      cases h' : Streak.isRare rate' p.streak.toNat cutoff' with
      | ok rare =>
          rw [(hrare rare).mpr h'] at h
          cases h
      | error e' => exact ⟨rfl, rfl, hp.stats⟩

end Checks

end Verdict

-- Verdicts on the same numbers agree where the written forms of the parameters leave the comparison of
-- the streak and the digits of the likelihood ratios alone.
theorem evaluate_sameValue_of_sameDigits (params params' : Option ValidationParams)
    (confirmation confirmation' : Option ConfirmationParams) (p p' : Participant)
    (previous previous' : EpochStats)
    (hparams : Option.Rel ValidationParams.SameValue params params')
    (hconfirmation : Option.Rel ConfirmationParams.SameValue confirmation confirmation')
    (hp : p.SameValue p') (hprevious : previous.SameValue previous')
    (hdigits : p.status.isSticky = false → ∀ v v', params = some v → params' = some v' →
      v.SameDigits v' p.streak.toNat) :
    (evaluate params confirmation p previous).SameValue
      (evaluate params' confirmation' p' previous') := by
  cases hparams with
  | none => exact ⟨rfl, rfl, hp.stats⟩
  | @some v v' hv =>
      unfold evaluate
      rcases hv.falsePositiveRate.eq_none_or_toRat_eq with
        ⟨hr, hr'⟩ | ⟨rate, rate', hr, hr', hrate⟩
      · simp only [hr, hr']
        exact ⟨rfl, rfl, hp.stats⟩
      · rcases hv.quickFailureThreshold.eq_none_or_toRat_eq with
          ⟨hc, hc'⟩ | ⟨cutoff, cutoff', hc, hc', hcutoff⟩
        · simp only [hr, hr', hc, hc']
          exact ⟨rfl, rfl, hp.stats⟩
        · simp only [hr, hr', hc, hc', ← hp.status]
          split
          · exact ⟨rfl, rfl, hp.stats⟩
          · rename_i hsticky
            have hdigits := hdigits (Bool.eq_false_iff.mpr hsticky) v v' rfl rfl
            exact Verdict.ofStreak_sameValue hv hconfirmation hprevious
              (ValidationParams.judges_of_some hr hc) hp hrate hcutoff
              (hdigits.streak rate cutoff cutoff' hr hc hc') hdigits

-- The genesis parameters with other numbers of trailing zeros.
theorem evaluate_sameValue_of_trailing_zeros :
    let written : ValidationParams := { ValidationParams.genesis with
      falsePositiveRate := some ⟨5000, 5⟩
      quickFailureThreshold := some ⟨10, 7⟩
      badInvalidationRate := some ⟨1, 1⟩
      downtimeBadRate := some ⟨2000, 4⟩
      invalidationThreshold := some ⟨40, 1⟩ }
    let p : Participant := { Participant.new "gonka1alice" .active with
      streak := 2
      stats := ⟨30, 4, 40, 6, some ⟨75, 2⟩, ⟨125, 2⟩, ⟨0, 0⟩⟩ }
    let p' : Participant := { p with
      stats := ⟨30, 4, 40, 6, some ⟨750, 3⟩, ⟨1250, 3⟩, ⟨0, 12⟩⟩ }
    ValidationParams.genesis.SameValue written ∧ p.SameValue p' ∧
      ValidationParams.genesis.SameDigits written p.streak.toNat ∧
      (evaluate (some .genesis) (some .genesis) p .zero).SameValue
        (evaluate (some written) (some ⟨some ⟨7, 1⟩⟩) p' .zero) := by
  intro written p p'
  have hparams : ValidationParams.genesis.SameValue written := by
    constructor <;> decide
  have hp : p.SameValue p' := ⟨rfl, rfl, rfl, rfl, by decide⟩
  have hdigits : ValidationParams.genesis.SameDigits written p.streak.toNat := by
    constructor
    · rintro rate cutoff cutoff' ⟨⟩ ⟨⟩ ⟨⟩
      exact .inl rfl
    · rintro - good bad good' bad' ⟨⟩ ⟨⟩ ⟨⟩ ⟨⟩
      exact .inr ⟨SequentialTest.ratiosFit_of_scale_le _ _ (by decide) (by decide) (by decide),
        SequentialTest.ratiosFit_of_scale_le _ _ (by decide) (by decide) (by decide)⟩
    · rintro - good bad good' bad' ⟨⟩ ⟨⟩ ⟨⟩ ⟨⟩
      exact .inr ⟨SequentialTest.ratiosFit_of_scale_le _ _ (by decide) (by decide) (by decide),
        SequentialTest.ratiosFit_of_scale_le _ _ (by decide) (by decide) (by decide)⟩
  refine ⟨hparams, hp, hdigits, ?_⟩
  apply evaluate_sameValue_of_sameDigits _ _ _ _ p p' .zero .zero (.some hparams)
    (.some ⟨by decide⟩) hp (by decide)
  rintro - v v' ⟨⟩ ⟨⟩
  exact hdigits

-- Zeros at the end of a cut-off show a rate that is below it by less than was compared, and zeros at
-- the end of a rate cut the quotient by it at a digit that decides a later rounding. Both times the
-- participant is kept in one form and invalid in the other.
theorem evaluate_differs_by_trailing_zeros :
    let streaking : Participant := { Participant.new "gonka1alice" .active with streak := 1 }
    let cutoff (cutoff : Decimal) : ValidationParams := { ValidationParams.genesis with
      falsePositiveRate := some ⟨5 * 10 ^ 30 - 1, 31⟩
      quickFailureThreshold := some cutoff
      badInvalidationRate := some ⟨9, 1⟩ }
    let failing : Participant := { Participant.new "gonka1alice" .active with
      stats := { EpochStats.zero with invalidatedInferences := 1 } }
    let rate (rate : Decimal) : ValidationParams := { ValidationParams.genesis with
      falsePositiveRate := some rate
      badInvalidationRate := some ⟨150000000000050342703265 * 10 ^ 77 - 1, 101⟩
      invalidationThreshold := some ⟨405465108109, 12⟩ }
    ((cutoff ⟨5, 1⟩).SameValue (cutoff ⟨5 * 10 ^ 20, 21⟩) ∧
      (evaluate (some (cutoff ⟨5, 1⟩)) none streaking .zero).status = .active ∧
      (evaluate (some (cutoff ⟨5 * 10 ^ 20, 21⟩)) none streaking .zero).status = .invalid) ∧
    (rate ⟨1, 1⟩).SameValue (rate ⟨10, 2⟩) ∧
      (evaluate (some (rate ⟨1, 1⟩)) none failing .zero).status = .active ∧
      (evaluate (some (rate ⟨10, 2⟩)) none failing .zero).status = .invalid := by
  intro streaking cutoff failing rate
  refine ⟨⟨?_, ?_, ?_⟩, ?_, ?_, ?_⟩
  · constructor <;> decide +kernel
  · decide +kernel
  · decide +kernel
  · constructor <;> decide +kernel
  · decide +kernel
  · decide +kernel

end ParticipantTrust
