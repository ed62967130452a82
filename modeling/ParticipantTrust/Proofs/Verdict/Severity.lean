import ParticipantTrust.Proofs.Statistics.Streak
import ParticipantTrust.Proofs.Verdict.Checks

namespace ParticipantTrust

open SequentialTest

-- The order of the statuses that a verdict can give. No verdict gives `ramping`.
def Status.AtMost : Status → Status → Prop
  | .active, .active | .active, .inactive | .active, .invalid => True
  | .inactive, .inactive | .inactive, .invalid | .invalid, .invalid => True
  | _, _ => False

theorem Status.atMost_self_of_isSticky {status : Status} (h : status.isSticky = true) :
    status.AtMost status := by
  cases status with
  | active => trivial
  | ramping => cases h
  | inactive => trivial
  | invalid => trivial

-- `b` has all the evidence that `a` has against it, and no more in its favour.
structure EpochStats.NoBetter (b a : EpochStats) : Prop where
  invalidated : a.invalidatedInferences ≤ b.invalidatedInferences
  missed : a.missedRequests ≤ b.missedRequests
  validated : b.validatedInferences ≤ a.validatedInferences
  inferences : b.inferenceCount ≤ a.inferenceCount
  invalidLlr : a.invalidLlr ≤ b.invalidLlr
  inactiveLlr : a.inactiveLlr ≤ b.inactiveLlr
  confirmation : ∀ ratio, a.confirmationRatio = some ratio →
    ∃ ratio', b.confirmationRatio = some ratio' ∧ ratio' ≤ ratio

structure Participant.NoBetter (b a : Participant) : Prop where
  status : b.status = a.status
  streak : a.streak ≤ b.streak
  stats : b.stats.NoBetter a.stats

-- Accumulators in whole units of the working precision, as every evaluation writes them.
def EpochStats.Accumulated (stats : EpochStats) : Prop :=
  Decimal.HasPlaces logPrecision stats.invalidLlr.toRat ∧
    Decimal.HasPlaces logPrecision stats.inactiveLlr.toRat

theorem growth_le_growth {a b : UInt64} (previous : UInt64) (h : a ≤ b) :
    growth a previous ≤ growth b previous := by
  have hn : a.toNat ≤ b.toNat := UInt64.le_iff_toNat_le.mp h
  unfold growth
  omega

theorem decision_fail_mono {testA testB : SequentialTest}
    (hthreshold : testA.threshold = testB.threshold) (hllr : testA.llr ≤ testB.llr)
    (h : testA.decision = .fail) : testB.decision = .fail := by
  rw [decision_eq_fail_iff] at h ⊢
  rw [← hthreshold]
  exact h.trans ((Decimal.le_iff _ _).mp hllr)

theorem failsConfirmation_mono (confirmation : Option ConfirmationParams) {a b : EpochStats}
    (hab : b.NoBetter a) (h : failsConfirmation confirmation a = true) :
    failsConfirmation confirmation b = true := by
  unfold failsConfirmation at h ⊢
  split at h
  · rename_i alpha ratio halpha hratio
    obtain ⟨ratio', hratio', hle⟩ := hab.confirmation ratio hratio
    rw [halpha, hratio']
    simp only [Bool.and_eq_true, decide_eq_true_eq] at h ⊢
    rw [Decimal.lt_iff] at h ⊢
    exact ⟨h.1, ((Decimal.le_iff _ _).mp hle).trans_lt h.2⟩
  · cases h

namespace Verdict

theorem ofConfirmation_stats (confirmation : Option ConfirmationParams) (stats : EpochStats) :
    (ofConfirmation confirmation stats).stats = stats := by
  unfold ofConfirmation
  split <;> rfl

theorem ofDowntime_accumulated (params : ValidationParams)
    (confirmation : Option ConfirmationParams) (stats previous : EpochStats)
    (h : stats.Accumulated) : (ofDowntime params confirmation stats previous).stats.Accumulated := by
  unfold ofDowntime
  split
  · exact h
  · rename_i test htest
    have hafter : EpochStats.Accumulated { stats with inactiveLlr := test.llr } :=
      ⟨h.1, testAfter_hasPlaces _ _ _ _ _ _ _ htest h.2⟩
    simp only []
    split
    · exact hafter
    · rw [ofConfirmation_stats]
      exact hafter

theorem ofInvalidations_accumulated (params : ValidationParams)
    (confirmation : Option ConfirmationParams) (stats previous : EpochStats)
    (h : stats.Accumulated) :
    (ofInvalidations params confirmation stats previous).stats.Accumulated := by
  unfold ofInvalidations
  split
  · exact h
  · rename_i test htest
    have hafter : EpochStats.Accumulated { stats with invalidLlr := test.llr } :=
      ⟨testAfter_hasPlaces _ _ _ _ _ _ _ htest h.1, h.2⟩
    simp only []
    split
    · exact hafter
    · exact ofDowntime_accumulated params confirmation _ previous hafter

theorem ofConfirmation_status (confirmation : Option ConfirmationParams) (stats : EpochStats) :
    (ofConfirmation confirmation stats).status =
      if failsConfirmation confirmation stats then .inactive else .active := by
  unfold ofConfirmation
  split <;> rfl

theorem ofConfirmation_atMost (confirmation : Option ConfirmationParams) {a b : EpochStats}
    (hab : b.NoBetter a) :
    (ofConfirmation confirmation a).status.AtMost (ofConfirmation confirmation b).status := by
  rw [ofConfirmation_status, ofConfirmation_status]
  by_cases h : failsConfirmation confirmation a = true
  · rw [if_pos h, if_pos (failsConfirmation_mono confirmation hab h)]
    trivial
  · rw [if_neg h]
    split <;> trivial

theorem ofConfirmation_atMost_inactive (confirmation : Option ConfirmationParams) (a : EpochStats) :
    (ofConfirmation confirmation a).status.AtMost .inactive := by
  rw [ofConfirmation_status]
  split <;> trivial

-- A test that is set up for one participant is set up for the other. The check may end the evaluation
-- of the worse one only, and then with a status that no later check exceeds.
theorem ofDowntime_atMost (params : ValidationParams) (confirmation : Option ConfirmationParams)
    (previous : EpochStats) {a b : EpochStats} (hab : b.NoBetter a) (ha : a.Accumulated)
    (hb : b.Accumulated) :
    (ofDowntime params confirmation a previous).status.AtMost
      (ofDowntime params confirmation b previous).status := by
  unfold ofDowntime
  rcases testAfter_none_or_le params.downtimeGoodRate params.downtimeBadRate params.downtimeThreshold
      _ _ _ _ _ _ ha.2 hb.2 hab.inactiveLlr (growth_le_growth previous.missedRequests hab.missed)
      (growth_le_growth previous.inferenceCount hab.inferences) with
    ⟨hA, hB⟩ | ⟨testA, testB, hA, hB, hthreshold, hllr⟩
  · rw [downtimeTest, downtimeTest, hA, hB]
    trivial
  · rw [downtimeTest, downtimeTest, hA, hB]
    by_cases hfail : testA.decision = .fail
    · simp only [if_pos hfail, if_pos (decision_fail_mono hthreshold hllr hfail)]
      trivial
    · simp only [if_neg hfail]
      split
      · exact ofConfirmation_atMost_inactive confirmation _
      · exact ofConfirmation_atMost confirmation { hab with inactiveLlr := hllr }

theorem ofDowntime_atMost_invalid (params : ValidationParams)
    (confirmation : Option ConfirmationParams) (stats previous : EpochStats) :
    (ofDowntime params confirmation stats previous).status.AtMost .invalid := by
  unfold ofDowntime
  split
  · trivial
  · simp only []
    split
    · trivial
    · rw [ofConfirmation_status]
      split <;> trivial

theorem ofInvalidations_atMost (params : ValidationParams)
    (confirmation : Option ConfirmationParams) (previous : EpochStats) {a b : EpochStats}
    (hab : b.NoBetter a) (ha : a.Accumulated) (hb : b.Accumulated) :
    (ofInvalidations params confirmation a previous).status.AtMost
      (ofInvalidations params confirmation b previous).status := by
  unfold ofInvalidations
  rcases testAfter_none_or_le params.falsePositiveRate params.badInvalidationRate
      params.invalidationThreshold _ _ _ _ _ _ ha.1 hb.1 hab.invalidLlr
      (growth_le_growth previous.invalidatedInferences hab.invalidated)
      (growth_le_growth previous.validatedInferences hab.validated) with
    ⟨hA, hB⟩ | ⟨testA, testB, hA, hB, hthreshold, hllr⟩
  · rw [invalidationTest, invalidationTest, hA, hB]
    trivial
  · rw [invalidationTest, invalidationTest, hA, hB]
    by_cases hfail : testA.decision = .fail
    · simp only [if_pos hfail, if_pos (decision_fail_mono hthreshold hllr hfail)]
      trivial
    · simp only [if_neg hfail]
      split
      · exact ofDowntime_atMost_invalid params confirmation _ previous
      · exact ofDowntime_atMost params confirmation previous { hab with invalidLlr := hllr }
          ⟨testAfter_hasPlaces _ _ _ _ _ _ _ hA ha.1, ha.2⟩
          ⟨testAfter_hasPlaces _ _ _ _ _ _ _ hB hb.1, hb.2⟩

theorem ofInvalidations_atMost_invalid (params : ValidationParams)
    (confirmation : Option ConfirmationParams) (stats previous : EpochStats) :
    (ofInvalidations params confirmation stats previous).status.AtMost .invalid := by
  unfold ofInvalidations
  split
  · trivial
  · simp only []
    split
    · trivial
    · exact ofDowntime_atMost_invalid params confirmation _ previous

-- A longer streak is as rare or rarer, and what it leads to is the most severe status there is.
theorem ofStreak_atMost (params : ValidationParams) (confirmation : Option ConfirmationParams)
    (rate cutoff : Decimal) (previous : EpochStats) {a b : Participant} (hab : b.NoBetter a)
    (ha : a.stats.Accumulated) (hb : b.stats.Accumulated) :
    (ofStreak params confirmation rate cutoff a previous).status.AtMost
      (ofStreak params confirmation rate cutoff b previous).status := by
  have hstreak : a.streak.toNat ≤ b.streak.toNat := UInt64.le_iff_toNat_le.mp hab.streak
  unfold ofStreak
  by_cases hrate : Domain.closedUnit.Contains rate
  · rcases Streak.isRare_true_or_false rate a.streak.toNat cutoff hrate with hA | hA
    · have h0 := ((Domain.closedUnit_contains_iff rate).mp hrate).1
      rw [hA, Streak.isRare_of_le rate rate _ _ cutoff h0 le_rfl hstreak hA]
      trivial
    · rw [hA]
      rcases Streak.isRare_true_or_false rate b.streak.toNat cutoff hrate with hB | hB
      · rw [hB]
        exact ofInvalidations_atMost_invalid params confirmation a.stats previous
      · rw [hB]
        exact ofInvalidations_atMost params confirmation previous hab.stats ha hb
  · rw [Streak.isRare_eq, Streak.isRare_eq, if_neg hrate, if_neg hrate]
    trivial

end Verdict

theorem evaluate_accumulated (params : Option ValidationParams)
    (confirmation : Option ConfirmationParams) (p : Participant) (previous : EpochStats)
    (h : p.stats.Accumulated) : (evaluate params confirmation p previous).stats.Accumulated := by
  unfold evaluate
  split
  · exact h
  · split
    · split
      · exact h
      · unfold Verdict.ofStreak
        split
        · exact h
        · exact h
        · exact Verdict.ofInvalidations_accumulated _ confirmation p.stats previous h
    · exact h

-- More evidence against a participant never earns it a milder verdict, whatever the parameters are.
theorem evaluate_atMost_of_noBetter (params : Option ValidationParams)
    (confirmation : Option ConfirmationParams) (previous : EpochStats) (a b : Participant)
    (hab : b.NoBetter a) (ha : a.stats.Accumulated) (hb : b.stats.Accumulated) :
    (evaluate params confirmation a previous).status.AtMost
        (evaluate params confirmation b previous).status ∧
      (a.status.isSticky = true →
        (evaluate params confirmation b previous).status =
          (evaluate params confirmation a previous).status) := by
  unfold evaluate
  cases params with
  | none => exact ⟨trivial, fun _ => rfl⟩
  | some params =>
      simp only [hab.status]
      split
      · rename_i rate cutoff _ _
        by_cases hsticky : a.status.isSticky = true
        · simp only [if_pos hsticky]
          exact ⟨Status.atMost_self_of_isSticky hsticky, fun _ => trivial⟩
        · simp only [if_neg hsticky]
          exact ⟨Verdict.ofStreak_atMost params confirmation rate cutoff previous hab ha hb,
            fun h => absurd h hsticky⟩
      · exact ⟨trivial, fun _ => rfl⟩

-- The fifth invalidation in a row is the one that the usual cut-off does not forgive.
theorem evaluate_atMost_after_invalidation :
    let a : Participant := { Participant.new "gonka1alice" .active with
      streak := 4
      stats := ⟨9, 1, 5, 4, some (hundredths 80), ⟨2430000000000, 12⟩, ⟨-100000000000, 12⟩⟩ }
    let b := a.record .invalidated
    b.NoBetter a ∧ a.stats.Accumulated ∧ b.stats.Accumulated ∧
      ((evaluate (some .genesis) (some .genesis) a .zero).status.AtMost
          (evaluate (some .genesis) (some .genesis) b .zero).status ∧
        (a.status.isSticky = true →
          (evaluate (some .genesis) (some .genesis) b .zero).status =
            (evaluate (some .genesis) (some .genesis) a .zero).status)) := by
  intro a b
  have hab : b.NoBetter a :=
    { status := rfl
      streak := by decide
      stats :=
        { invalidated := by decide
          missed := by decide
          validated := by decide
          inferences := by decide
          invalidLlr := by decide
          inactiveLlr := by decide
          confirmation := fun ratio h => ⟨ratio, h, (Decimal.le_iff ratio ratio).mpr le_rfl⟩ } }
  have ha : a.stats.Accumulated := ⟨Decimal.hasPlaces_toRat _ _, Decimal.hasPlaces_toRat _ _⟩
  exact ⟨hab, ha, ha, evaluate_atMost_of_noBetter _ _ _ a b hab ha ha⟩

end ParticipantTrust
