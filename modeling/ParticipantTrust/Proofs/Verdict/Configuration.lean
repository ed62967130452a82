import ParticipantTrust.Proofs.Statistics.Streak
import ParticipantTrust.Proofs.Verdict.Checks

namespace ParticipantTrust

-- Values as the bounds of the parameters ask for them, all set and the bad rate above the good one.
def WellPosed : Option Decimal → Option Decimal → Option Decimal → Prop
  | some good, some bad, some threshold =>
    Domain.openUnit.Contains good ∧ Domain.openUnit.Contains bad ∧ good < bad ∧
      Domain.positive.Contains threshold
  | _, _, _ => False

theorem Testable.wellPosed {good bad threshold : Option Decimal} (h : Testable good bad threshold) :
    WellPosed good bad threshold := by
  match good, bad, threshold, h with
  | some good, some bad, some threshold, ⟨hgood, hbad, hlt, hthreshold, _⟩ =>
      exact ⟨hgood, hbad, hlt, hthreshold⟩

-- How the evaluation answers to parameters that it cannot work with.
def Verdict.Tolerates (verdict : Verdict) : Prop :=
  verdict.status = .active ∧ verdict.reason = .algorithmError

def InvalidationsPass (params : ValidationParams) (stats previous : EpochStats) : Prop :=
  ∀ test, invalidationTest params stats previous = some test → test.decision ≠ .fail

-- No defect of the parameters of a check escalates, be it in the first check, in the second one when
-- the first does not convict, or in the third one when neither does.
structure ConfigurationSafe (params : ValidationParams) (confirmation : Option ConfirmationParams)
    (rate cutoff : Decimal) (p : Participant) (previous : EpochStats) : Prop where
  streak : ¬(Domain.openUnit.Contains rate ∧ Domain.openUnit.Contains cutoff) →
    (evaluate (some params) confirmation p previous).Tolerates
  invalidations : Domain.openUnit.Contains rate → Domain.openUnit.Contains cutoff →
    Streak.isRare rate p.streak.toNat cutoff ≠ .ok true →
    ¬WellPosed params.falsePositiveRate params.badInvalidationRate params.invalidationThreshold →
    (evaluate (some params) confirmation p previous).Tolerates
  downtime : Domain.openUnit.Contains rate → Domain.openUnit.Contains cutoff →
    Streak.isRare rate p.streak.toNat cutoff ≠ .ok true →
    WellPosed params.falsePositiveRate params.badInvalidationRate params.invalidationThreshold →
    InvalidationsPass params p.stats previous →
    ¬WellPosed params.downtimeGoodRate params.downtimeBadRate params.downtimeThreshold →
    (evaluate (some params) confirmation p previous).Tolerates

namespace Verdict

theorem not_tolerates_ofConfirmation (confirmation : Option ConfirmationParams)
    (stats : EpochStats) : ¬(ofConfirmation confirmation stats).Tolerates := by
  rintro ⟨-, hreason⟩
  unfold ofConfirmation at hreason
  split at hreason <;> cases hreason

theorem tolerates_ofDowntime_iff (params : ValidationParams)
    (confirmation : Option ConfirmationParams) (stats previous : EpochStats) :
    (ofDowntime params confirmation stats previous).Tolerates ↔
      ¬Testable params.downtimeGoodRate params.downtimeBadRate params.downtimeThreshold := by
  rw [← testAfter_eq_none_iff _ _ _ stats.inactiveLlr
    (growth stats.missedRequests previous.missedRequests)
    (growth stats.inferenceCount previous.inferenceCount)]
  change _ ↔ downtimeTest params stats previous = none
  unfold ofDowntime
  cases downtimeTest params stats previous with
  | none => exact ⟨fun _ => rfl, fun _ => ⟨rfl, rfl⟩⟩
  | some test =>
      simp only [reduceCtorEq, iff_false]
      split
      · rintro ⟨hstatus, -⟩
        cases hstatus
      · exact not_tolerates_ofConfirmation confirmation _

theorem tolerates_ofInvalidations_iff (params : ValidationParams)
    (confirmation : Option ConfirmationParams) (stats previous : EpochStats) :
    (ofInvalidations params confirmation stats previous).Tolerates ↔
      ¬Testable params.falsePositiveRate params.badInvalidationRate params.invalidationThreshold ∨
        InvalidationsPass params stats previous ∧
          ¬Testable params.downtimeGoodRate params.downtimeBadRate params.downtimeThreshold := by
  rw [← testAfter_eq_none_iff _ _ _ stats.invalidLlr
    (growth stats.invalidatedInferences previous.invalidatedInferences)
    (growth stats.validatedInferences previous.validatedInferences)]
  change _ ↔ invalidationTest params stats previous = none ∨ _
  unfold ofInvalidations InvalidationsPass
  cases invalidationTest params stats previous with
  | none => exact ⟨fun _ => .inl rfl, fun _ => ⟨rfl, rfl⟩⟩
  | some test =>
      simp only [reduceCtorEq, false_or, Option.some.injEq, forall_eq']
      split
      · rename_i hfail
        constructor
        · rintro ⟨hstatus, -⟩
          cases hstatus
        · rintro ⟨hpass, -⟩
          exact absurd hfail hpass
      · rename_i hpass
        rw [tolerates_ofDowntime_iff]
        exact ⟨fun h => ⟨hpass, h⟩, fun h => h.2⟩

end Verdict

section Evaluation

variable (params : ValidationParams) (confirmation : Option ConfirmationParams) (p : Participant)
  (previous : EpochStats) (rate cutoff : Decimal)

theorem evaluate_eq_ofStreak (hrate : params.falsePositiveRate = some rate)
    (hcutoff : params.quickFailureThreshold = some cutoff) (hsticky : p.status.isSticky = false) :
    evaluate (some params) confirmation p previous =
      Verdict.ofStreak params confirmation rate cutoff p previous := by
  simp [evaluate, hrate, hcutoff, hsticky]

theorem tolerates_evaluate_iff (hrate : params.falsePositiveRate = some rate)
    (hcutoff : params.quickFailureThreshold = some cutoff) (hsticky : p.status.isSticky = false) :
    (evaluate (some params) confirmation p previous).Tolerates ↔
      ¬Domain.closedUnit.Contains rate ∨ Streak.isRare rate p.streak.toNat cutoff = .ok false ∧
        (¬Testable params.falsePositiveRate params.badInvalidationRate params.invalidationThreshold ∨
          InvalidationsPass params p.stats previous ∧
            ¬Testable params.downtimeGoodRate params.downtimeBadRate params.downtimeThreshold) := by
  rw [evaluate_eq_ofStreak params confirmation p previous rate cutoff hrate hcutoff hsticky]
  unfold Verdict.ofStreak
  by_cases hclosed : Domain.closedUnit.Contains rate
  · rcases Streak.isRare_true_or_false rate p.streak.toNat cutoff hclosed with hrare | hrare
    · rw [hrare]
      simp [hclosed, Verdict.Tolerates]
    · rw [hrare]
      simp [hclosed, Verdict.tolerates_ofInvalidations_iff]
  · rw [Streak.isRare_eq, if_neg hclosed]
    simp [hclosed, Verdict.Tolerates]

-- A cut-off above one makes every streak rare, down to the empty one.
theorem evaluate_invalid_of_one_lt_cutoff (hrate : params.falsePositiveRate = some rate)
    (hcutoff : params.quickFailureThreshold = some cutoff) (hsticky : p.status.isSticky = false)
    (hclosed : Domain.closedUnit.Contains rate) (h : Decimal.one < cutoff) :
    evaluate (some params) confirmation p previous = ⟨.invalid, .consecutiveFailures, p.stats⟩ := by
  rw [evaluate_eq_ofStreak params confirmation p previous rate cutoff hrate hcutoff hsticky]
  have hrare : Streak.isRare rate p.streak.toNat cutoff = .ok true := by
    rw [Decimal.lt_iff, Decimal.toRat_one] at h
    rw [Streak.isRare_eq_ok_true_iff]
    obtain ⟨h0, h1⟩ := (Domain.closedUnit_contains_iff rate).mp hclosed
    refine ⟨hclosed, lt_of_le_of_lt ?_ h⟩
    exact Decimal.toRat_pow_le_one _ _ _ h0 h1
  simp only [Verdict.ofStreak, hrare]

-- With rate and cut-off inside the open unit interval, every defect of the later values is tolerated
-- once the evaluation gets to it.
theorem tolerates_of_defect (hrate : params.falsePositiveRate = some rate)
    (hcutoff : params.quickFailureThreshold = some cutoff) (hsticky : p.status.isSticky = false)
    (hopen : Domain.openUnit.Contains rate)
    (hrare : Streak.isRare rate p.streak.toNat cutoff ≠ .ok true)
    (hdefect :
      ¬WellPosed params.falsePositiveRate params.badInvalidationRate params.invalidationThreshold ∨
      InvalidationsPass params p.stats previous ∧
        ¬WellPosed params.downtimeGoodRate params.downtimeBadRate params.downtimeThreshold) :
    (evaluate (some params) confirmation p previous).Tolerates := by
  rw [tolerates_evaluate_iff params confirmation p previous rate cutoff hrate hcutoff hsticky]
  have hclosed := Domain.closedUnit_contains_of_openUnit rate hopen
  refine .inr ⟨(Streak.isRare_true_or_false rate _ cutoff hclosed).resolve_left hrare, ?_⟩
  rcases hdefect with hdefect | ⟨hpass, hdefect⟩
  · exact .inl fun h => hdefect h.wellPosed
  · exact .inr ⟨hpass, fun h => hdefect h.wellPosed⟩

-- The guard of the first check lets a rate of zero or one and any cut-off pass. This is harmless only
-- where the streak does not convict and a later check has a defect to tolerate.
theorem configurationSafe_iff (hrate : params.falsePositiveRate = some rate)
    (hcutoff : params.quickFailureThreshold = some cutoff) (hsticky : p.status.isSticky = false) :
    ConfigurationSafe params confirmation rate cutoff p previous ↔
      (Domain.openUnit.Contains rate ∧ Domain.openUnit.Contains cutoff) ∨
      ¬Domain.closedUnit.Contains rate ∨
      Streak.isRare rate p.streak.toNat cutoff = .ok false ∧
        (¬Testable params.falsePositiveRate params.badInvalidationRate params.invalidationThreshold ∨
          InvalidationsPass params p.stats previous ∧
            ¬Testable params.downtimeGoodRate params.downtimeBadRate params.downtimeThreshold) := by
  rw [← tolerates_evaluate_iff params confirmation p previous rate cutoff hrate hcutoff hsticky]
  constructor
  · intro h
    by_cases hopen : Domain.openUnit.Contains rate ∧ Domain.openUnit.Contains cutoff
    · exact .inl hopen
    · exact .inr (h.streak hopen)
  · intro h
    refine ⟨fun hnot => h.resolve_left hnot, ?_, ?_⟩
    · intro hopen _ hrare hdefect
      exact tolerates_of_defect params confirmation p previous rate cutoff hrate hcutoff hsticky
        hopen hrare (.inl hdefect)
    · intro hopen _ hrare _ hpass hdefect
      exact tolerates_of_defect params confirmation p previous rate cutoff hrate hcutoff hsticky
        hopen hrare (.inr ⟨hpass, hdefect⟩)

-- A rate of one lets no streak convict, and the second test refuses it.
theorem configurationSafe_rate_one :
    let params := { ValidationParams.genesis with falsePositiveRate := some Decimal.one }
    let p : Participant := { Participant.new "gonka1alice" .active with streak := 20 }
    params.falsePositiveRate = some Decimal.one ∧
      params.quickFailureThreshold = some (Decimal.unitAt 6) ∧ p.status.isSticky = false ∧
      ConfigurationSafe params none Decimal.one (Decimal.unitAt 6) p .zero := by
  intro params p
  refine ⟨rfl, rfl, rfl, ?_⟩
  have hrare : Streak.isRare Decimal.one p.streak.toNat (Decimal.unitAt 6) = .ok false := by
    decide +kernel
  have hrate : ¬Domain.openUnit.Contains Decimal.one := by decide
  exact (configurationSafe_iff params none p .zero _ _ rfl rfl rfl).mpr
    (.inr (.inr ⟨hrare, .inl fun h => hrate h.1⟩))

-- A cut-off of 1.5 convicts a participant on whose account nothing stands.
theorem configurationSafe_fails_above_one :
    ¬ConfigurationSafe { ValidationParams.genesis with quickFailureThreshold := some ⟨15, 1⟩ } none
      (hundredths 5) ⟨15, 1⟩ (Participant.new "gonka1alice" .active) .zero := by
  intro h
  have htolerates := h.streak (by decide)
  rw [evaluate_invalid_of_one_lt_cutoff _ _ _ _ (hundredths 5) ⟨15, 1⟩ rfl rfl rfl (by decide)
    (by decide)] at htolerates
  cases htolerates.1

end Evaluation

end ParticipantTrust
