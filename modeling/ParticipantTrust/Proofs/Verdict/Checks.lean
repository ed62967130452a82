import ParticipantTrust.Verdict
import ParticipantTrust.Proofs.Statistics.SequentialTest

namespace ParticipantTrust

open SequentialTest

-- Values that are all set and admissible for a sequential test.
def Testable : Option Decimal → Option Decimal → Option Decimal → Prop
  | some good, some bad, some threshold => Admissible good bad threshold logPrecision
  | _, _, _ => False

theorem testAfter_eq_some_iff (good bad threshold : Option Decimal) (prior : Decimal)
    (failures passes : Int) (test : SequentialTest) :
    testAfter good bad threshold prior failures passes = some test ↔
      ∃ g b t, good = some g ∧ bad = some b ∧ threshold = some t ∧
        Admissible g b t logPrecision ∧
        test = (initial g b t prior logPrecision).observe failures passes := by
  have htoOption (x : Except SequentialTestError SequentialTest) (y : SequentialTest) :
      x.toOption = some y ↔ x = .ok y := by
    cases x <;> simp [Except.toOption]
  have hp : 0 ≤ logPrecision + Decimal.guardDigits := by decide
  simp only [testAfter, Option.bind_eq_bind, Option.bind_eq_some_iff, htoOption,
    create_eq_ok_iff _ _ _ _ _ _ hp, pure, Option.some.injEq]
  constructor
  · rintro ⟨g, hg, b, hb, t, ht, -, ⟨hadm, rfl⟩, rfl⟩
    exact ⟨g, b, t, hg, hb, ht, hadm, rfl⟩
  · rintro ⟨g, b, t, hg, hb, ht, hadm, rfl⟩
    exact ⟨g, hg, b, hb, t, ht, _, ⟨hadm, rfl⟩, rfl⟩

theorem testAfter_eq_none_iff (good bad threshold : Option Decimal) (prior : Decimal)
    (failures passes : Int) :
    testAfter good bad threshold prior failures passes = none ↔ ¬Testable good bad threshold := by
  rw [Option.eq_none_iff_forall_ne_some]
  constructor
  · intro h hparams
    match good, bad, threshold, hparams with
    | some g, some b, some t, hadm =>
        exact h _ ((testAfter_eq_some_iff _ _ _ prior failures passes _).mpr
          ⟨g, b, t, rfl, rfl, rfl, hadm, rfl⟩)
  · rintro hparams test htest
    obtain ⟨g, b, t, rfl, rfl, rfl, hadm, -⟩ := (testAfter_eq_some_iff _ _ _ _ _ _ _).mp htest
    exact hparams hadm

theorem testAfter_hasPlaces (good bad threshold : Option Decimal) (prior : Decimal)
    (failures passes : Int) (test : SequentialTest)
    (h : testAfter good bad threshold prior failures passes = some test)
    (hplaces : Decimal.HasPlaces logPrecision prior.toRat) :
    Decimal.HasPlaces logPrecision test.llr.toRat := by
  obtain ⟨g, b, t, -, -, -, -, rfl⟩ := (testAfter_eq_some_iff _ _ _ _ _ _ _).mp h
  exact observe_hasPlaces (initial g b t prior logPrecision) failures passes hplaces

-- Prior and counts have no say in whether a test can be set up. If it can, worse counts on top of a
-- higher prior lead to a higher evidence against the same threshold.
theorem testAfter_none_or_le (good bad threshold : Option Decimal) (priorA priorB : Decimal)
    (failuresA failuresB passesA passesB : Int)
    (hplacesA : Decimal.HasPlaces logPrecision priorA.toRat)
    (hplacesB : Decimal.HasPlaces logPrecision priorB.toRat) (hprior : priorA ≤ priorB)
    (hfailures : failuresA ≤ failuresB) (hpasses : passesB ≤ passesA) :
    (testAfter good bad threshold priorA failuresA passesA = none ∧
        testAfter good bad threshold priorB failuresB passesB = none) ∨
      ∃ testA testB, testAfter good bad threshold priorA failuresA passesA = some testA ∧
        testAfter good bad threshold priorB failuresB passesB = some testB ∧
        testA.threshold = testB.threshold ∧ testA.llr ≤ testB.llr := by
  cases hA : testAfter good bad threshold priorA failuresA passesA with
  | none =>
      rw [testAfter_eq_none_iff] at hA
      exact .inl ⟨rfl, (testAfter_eq_none_iff _ _ _ _ _ _).mpr hA⟩
  | some testA =>
      obtain ⟨g, b, t, rfl, rfl, rfl, hadm, rfl⟩ := (testAfter_eq_some_iff _ _ _ _ _ _ _).mp hA
      have hB := (testAfter_eq_some_iff (some g) (some b) (some t) priorB failuresB passesB _).mpr
        ⟨g, b, t, rfl, rfl, rfl, hadm, rfl⟩
      refine .inr ⟨_, _, rfl, hB, ?_, ?_⟩
      · rw [observe_threshold, observe_threshold]
        rfl
      · exact initial_observe_le g b t priorA priorB logPrecision failuresA failuresB passesA passesB
          hadm (by decide) hplacesA hplacesB hprior hfailures hpasses

namespace Verdict

variable (params : ValidationParams) (confirmation : Option ConfirmationParams)
  (stats previous : EpochStats) {test : SequentialTest}

theorem ofDowntime_of_none (h : downtimeTest params stats previous = none) :
    ofDowntime params confirmation stats previous = ⟨.active, .algorithmError, stats⟩ := by
  simp only [ofDowntime, h]

theorem ofDowntime_of_fail (h : downtimeTest params stats previous = some test)
    (hfail : test.decision = .fail) :
    ofDowntime params confirmation stats previous =
      ⟨.inactive, .downtime, { stats with inactiveLlr := test.llr }⟩ := by
  simp only [ofDowntime, h, if_pos hfail]

theorem ofDowntime_of_pass (h : downtimeTest params stats previous = some test)
    (hpass : test.decision ≠ .fail) :
    ofDowntime params confirmation stats previous =
      ofConfirmation confirmation { stats with inactiveLlr := test.llr } := by
  simp only [ofDowntime, h, if_neg hpass]

theorem ofInvalidations_of_none (h : invalidationTest params stats previous = none) :
    ofInvalidations params confirmation stats previous = ⟨.active, .algorithmError, stats⟩ := by
  simp only [ofInvalidations, h]

theorem ofInvalidations_of_fail (h : invalidationTest params stats previous = some test)
    (hfail : test.decision = .fail) :
    ofInvalidations params confirmation stats previous =
      ⟨.invalid, .statisticalInvalidations, { stats with invalidLlr := test.llr }⟩ := by
  simp only [ofInvalidations, h, if_pos hfail]

theorem ofInvalidations_of_pass (h : invalidationTest params stats previous = some test)
    (hpass : test.decision ≠ .fail) :
    ofInvalidations params confirmation stats previous =
      ofDowntime params confirmation { stats with invalidLlr := test.llr } previous := by
  simp only [ofInvalidations, h, if_neg hpass]

end Verdict

-- Without the two values of the first check there is nothing to judge by.
def ValidationParams.Judges (params : ValidationParams) : Prop :=
  params.falsePositiveRate.isSome = true ∧ params.quickFailureThreshold.isSome = true

instance (params : ValidationParams) : Decidable params.Judges := by
  unfold ValidationParams.Judges; infer_instance

theorem ValidationParams.judges_of_some {params : ValidationParams} {rate cutoff : Decimal}
    (hrate : params.falsePositiveRate = some rate)
    (hcutoff : params.quickFailureThreshold = some cutoff) : params.Judges :=
  ⟨by rw [hrate]; rfl, by rw [hcutoff]; rfl⟩

section Evaluation

variable (params : ValidationParams) (confirmation : Option ConfirmationParams) (p : Participant)
  (previous : EpochStats)

theorem evaluate_of_not_judges (h : ¬params.Judges) :
    evaluate (some params) confirmation p previous = ⟨.active, .unremarkable, p.stats⟩ := by
  unfold evaluate
  simp only []
  split
  · rename_i rate cutoff hrate hcutoff
    exact absurd (ValidationParams.judges_of_some hrate hcutoff) h
  · rfl

theorem evaluate_of_isSticky (h : params.Judges) (hsticky : p.status.isSticky = true) :
    evaluate (some params) confirmation p previous = ⟨p.status, .alreadySet, p.stats⟩ := by
  obtain ⟨rate, hrate⟩ := Option.isSome_iff_exists.mp h.1
  obtain ⟨cutoff, hcutoff⟩ := Option.isSome_iff_exists.mp h.2
  simp only [evaluate, hrate, hcutoff, if_pos hsticky]

end Evaluation

end ParticipantTrust
