import ParticipantTrust.Proofs.Verdict.Configuration
import ParticipantTrust.Proofs.Verdict.Severity

namespace ParticipantTrust

open SequentialTest

inductive Counter where
  | inferences
  | missed
  | validated
  | invalidated

def EpochStats.counter (stats : EpochStats) : Counter → UInt64
  | .inferences => stats.inferenceCount
  | .missed => stats.missedRequests
  | .validated => stats.validatedInferences
  | .invalidated => stats.invalidatedInferences

-- No counter of `start` is above the one of `later`.
def EpochStats.GrowsTo (start later : EpochStats) : Prop :=
  ∀ c, start.counter c ≤ later.counter c

-- Growth without the bounds of a signed number.
def EpochStats.grown (start later : EpochStats) (c : Counter) : Int :=
  (later.counter c).toNat - (start.counter c).toNat

def SetsUp (good bad threshold : Option Decimal) (test : SequentialTest) : Prop :=
  ∃ g b t prior, good = some g ∧ bad = some b ∧ threshold = some t ∧
    create g b t prior logPrecision = .ok test

-- The part of an accumulated evidence that the counters do not account for.
def SequentialTest.baseline (test : SequentialTest) (llr : Decimal) (failures passes : UInt64) : ℚ :=
  llr.toRat - failures.toNat * test.logFail.toRat - passes.toNat * test.logPass.toRat

theorem SequentialTest.toRat_of_baseline_eq {test : SequentialTest} {llr llr' : Decimal}
    {failures failures' passes passes' : UInt64}
    (h : test.baseline llr' failures' passes' = test.baseline llr failures passes) :
    llr'.toRat = llr.toRat + ((failures'.toNat : Int) - failures.toNat : Int) * test.logFail.toRat +
      ((passes'.toNat : Int) - passes.toNat : Int) * test.logPass.toRat := by
  unfold baseline at h
  push_cast
  linarith

-- A participant as it stands at an evaluation, and what its confirmation is judged by. The evidence is
-- not its own but carried over from the evaluation before.
structure Inspection where
  participant : Participant
  confirmation : Option ConfirmationParams

def Participant.carrying (p : Participant) (snapshot : EpochStats) : Participant :=
  { p with stats := { p.stats with
    invalidLlr := snapshot.invalidLlr
    inactiveLlr := snapshot.inactiveLlr } }

namespace Inspection

def verdict (i : Inspection) (params : ValidationParams) (snapshot : EpochStats) : Verdict :=
  evaluate (some params) i.confirmation (i.participant.carrying snapshot) snapshot

-- Each inspection starts from what the one before has stored.
def verdicts (params : ValidationParams) (start : EpochStats) : List Inspection → List Verdict
  | [] => []
  | i :: rest =>
    i.verdict params start :: verdicts params (i.verdict params start).stats rest

def statsAfter (params : ValidationParams) (start : EpochStats) (inspections : List Inspection) :
    EpochStats :=
  inspections.foldl (fun snapshot i => (i.verdict params snapshot).stats) start

end Inspection

theorem growth_eq_grown {start later : EpochStats} (c : Counter) (hle : start.GrowsTo later)
    (hrange : start.grown later c ≤ Int64.maxValue.toInt) :
    0 ≤ start.grown later c ∧ growth (later.counter c) (start.counter c) = start.grown later c := by
  have hn : (start.counter c).toNat ≤ (later.counter c).toNat := UInt64.le_iff_toNat_le.mp (hle c)
  have hmin : Int64.minValue.toInt ≤ 0 := by decide
  unfold EpochStats.grown at hrange ⊢
  unfold growth
  omega

section Test

variable {good bad threshold : Option Decimal} {test : SequentialTest}

theorem SetsUp.testAfter_eq (h : SetsUp good bad threshold test) (prior : Decimal)
    (failures passes : Int) :
    testAfter good bad threshold prior failures passes =
      some ({ test with llr := prior }.observe failures passes) := by
  obtain ⟨g, b, t, first, hg, hb, ht, hcreate⟩ := h
  obtain ⟨hadm, rfl⟩ := (create_eq_ok_iff g b t first logPrecision test (by decide)).mp hcreate
  exact (testAfter_eq_some_iff _ _ _ _ _ _ _).mpr ⟨g, b, t, hg, hb, ht, hadm, rfl⟩

theorem SetsUp.hasPlaces (h : SetsUp good bad threshold test) :
    test.precision = logPrecision ∧ Decimal.HasPlaces logPrecision test.logFail.toRat ∧
      Decimal.HasPlaces logPrecision test.logPass.toRat := by
  obtain ⟨g, b, t, first, hg, hb, ht, hcreate⟩ := h
  obtain ⟨-, rfl⟩ := (create_eq_ok_iff g b t first logPrecision test (by decide)).mp hcreate
  exact ⟨rfl, initial_hasPlaces g b t first logPrecision⟩

-- A batch adds to the evidence exactly what it adds to the counters.
theorem SetsUp.baseline_observe (h : SetsUp good bad threshold test) {start later : EpochStats}
    (failures passes : Counter) (prior : Decimal)
    (hprior : Decimal.HasPlaces logPrecision prior.toRat) (hle : start.GrowsTo later)
    (hrange : ∀ c, start.grown later c ≤ Int64.maxValue.toInt) :
    test.baseline ({ test with llr := prior }.observe
        (growth (later.counter failures) (start.counter failures))
        (growth (later.counter passes) (start.counter passes))).llr
        (later.counter failures) (later.counter passes) =
      test.baseline prior (start.counter failures) (start.counter passes) := by
  obtain ⟨hprecision, hfail, hpass⟩ := h.hasPlaces
  obtain ⟨hf0, hf⟩ := growth_eq_grown failures hle (hrange failures)
  obtain ⟨hp0, hp⟩ := growth_eq_grown passes hle (hrange passes)
  rw [← hprecision] at hprior hfail hpass
  have hllr := toRat_observe_llr { test with llr := prior } (start.grown later failures)
    (start.grown later passes) hprior hfail hpass
  rw [hf, hp, baseline, hllr, baseline, max_eq_left hf0, max_eq_left hp0]
  simp only [EpochStats.grown]
  push_cast
  ring

end Test

namespace Verdict

variable (params : ValidationParams) (confirmation : Option ConfirmationParams)
  (stats previous : EpochStats)

-- The checks write nothing but their own accumulators.
theorem ofDowntime_stats :
    ∃ llr, (ofDowntime params confirmation stats previous).stats =
      { stats with inactiveLlr := llr } := by
  unfold ofDowntime
  split
  · exact ⟨stats.inactiveLlr, rfl⟩
  · rename_i test htest
    refine ⟨test.llr, ?_⟩
    simp only []
    split
    · rfl
    · exact ofConfirmation_stats confirmation _

theorem ofInvalidations_stats :
    ∃ invalid inactive, (ofInvalidations params confirmation stats previous).stats =
      { stats with invalidLlr := invalid, inactiveLlr := inactive } := by
  unfold ofInvalidations
  split
  · exact ⟨stats.invalidLlr, stats.inactiveLlr, rfl⟩
  · rename_i test htest
    simp only []
    split
    · exact ⟨test.llr, stats.inactiveLlr, rfl⟩
    · obtain ⟨llr, hllr⟩ := ofDowntime_stats params confirmation
        { stats with invalidLlr := test.llr } previous
      exact ⟨test.llr, llr, hllr⟩

theorem ofDowntime_inactiveLlr {test : SequentialTest}
    (h : downtimeTest params stats previous = some test) :
    (ofDowntime params confirmation stats previous).stats.inactiveLlr = test.llr := by
  simp only [ofDowntime, h]
  split
  · rfl
  · rw [ofConfirmation_stats]

theorem ofInvalidations_invalidLlr {test : SequentialTest}
    (h : invalidationTest params stats previous = some test) :
    (ofInvalidations params confirmation stats previous).stats.invalidLlr = test.llr := by
  simp only [ofInvalidations, h]
  split
  · rfl
  · obtain ⟨llr, hllr⟩ := ofDowntime_stats params confirmation
      { stats with invalidLlr := test.llr } previous
    rw [hllr]

-- The second test is run unless the first convicts.
theorem ofInvalidations_inactiveLlr {test downtime : SequentialTest}
    (h : invalidationTest params stats previous = some test)
    (hdowntime : downtimeTest params stats previous = some downtime)
    (hreason : (ofInvalidations params confirmation stats previous).reason ≠
      .statisticalInvalidations) :
    (ofInvalidations params confirmation stats previous).stats.inactiveLlr = downtime.llr := by
  simp only [ofInvalidations, h] at hreason ⊢
  split at hreason
  · exact absurd rfl hreason
  · rename_i hpass
    rw [if_neg hpass]
    exact ofDowntime_inactiveLlr params confirmation _ previous hdowntime

end Verdict

theorem evaluate_stats (params : Option ValidationParams) (confirmation : Option ConfirmationParams)
    (p : Participant) (previous : EpochStats) :
    ∃ invalid inactive, (evaluate params confirmation p previous).stats =
      { p.stats with invalidLlr := invalid, inactiveLlr := inactive } := by
  have hkept : ∃ invalid inactive, p.stats =
      { p.stats with invalidLlr := invalid, inactiveLlr := inactive } := ⟨_, _, rfl⟩
  unfold evaluate
  split
  · exact hkept
  · split
    · split
      · exact hkept
      · unfold Verdict.ofStreak
        split
        · exact hkept
        · exact hkept
        · exact Verdict.ofInvalidations_stats _ confirmation p.stats previous
    · exact hkept

namespace Inspection

theorem verdict_counter (i : Inspection) (params : ValidationParams) (snapshot : EpochStats)
    (c : Counter) :
    (i.verdict params snapshot).stats.counter c = i.participant.stats.counter c := by
  obtain ⟨invalid, inactive, h⟩ := evaluate_stats (some params) i.confirmation
    (i.participant.carrying snapshot) snapshot
  rw [verdict, h]
  cases c <;> rfl

theorem verdict_accumulated (i : Inspection) (params : ValidationParams) {snapshot : EpochStats}
    (h : snapshot.Accumulated) : (i.verdict params snapshot).stats.Accumulated :=
  evaluate_accumulated _ _ _ _ h

section Chain

variable (params : ValidationParams) (rate cutoff : Decimal)

-- An inspection that gets as far as the sequential tests.
def Tested (i : Inspection) : Prop :=
  i.participant.status.isSticky = false ∧
    Streak.isRare rate i.participant.streak.toNat cutoff ≠ .ok true

variable {params rate cutoff} {test : SequentialTest}

theorem verdict_eq_ofInvalidations (hrate : params.falsePositiveRate = some rate)
    (hcutoff : params.quickFailureThreshold = some cutoff)
    (htest : SetsUp params.falsePositiveRate params.badInvalidationRate params.invalidationThreshold
      test) (i : Inspection) (hi : i.Tested rate cutoff) (snapshot : EpochStats) :
    i.verdict params snapshot = Verdict.ofInvalidations params i.confirmation
      (i.participant.carrying snapshot).stats snapshot := by
  have hclosed : Domain.closedUnit.Contains rate := by
    obtain ⟨g, b, t, prior, hg, hb, ht, hcreate⟩ := htest
    obtain ⟨hadm, -⟩ := (create_eq_ok_iff g b t prior logPrecision test (by decide)).mp hcreate
    rw [hrate, Option.some.injEq] at hg
    rw [hg]
    exact Domain.closedUnit_contains_of_openUnit g hadm.1
  -- status and streak are not carried over
  have hsticky : (i.participant.carrying snapshot).status.isSticky = false := hi.1
  have hrare : Streak.isRare rate (i.participant.carrying snapshot).streak.toNat cutoff =
      .ok false := (Streak.isRare_true_or_false rate _ cutoff hclosed).resolve_left hi.2
  rw [verdict, evaluate_eq_ofStreak params i.confirmation _ snapshot rate cutoff hrate hcutoff
    hsticky]
  simp only [Verdict.ofStreak, hrare]

variable (hrate : params.falsePositiveRate = some rate)
  (hcutoff : params.quickFailureThreshold = some cutoff)
  (htest : SetsUp params.falsePositiveRate params.badInvalidationRate params.invalidationThreshold
    test)

include hrate hcutoff htest

theorem verdict_invalid_baseline (i : Inspection) (hi : i.Tested rate cutoff) {snapshot : EpochStats}
    (hsnapshot : snapshot.Accumulated) (hle : snapshot.GrowsTo i.participant.stats)
    (hrange : ∀ c, snapshot.grown i.participant.stats c ≤ Int64.maxValue.toInt) :
    test.baseline (i.verdict params snapshot).stats.invalidLlr
        (i.participant.stats.counter .invalidated) (i.participant.stats.counter .validated) =
      test.baseline snapshot.invalidLlr (snapshot.counter .invalidated)
        (snapshot.counter .validated) := by
  rw [verdict_eq_ofInvalidations hrate hcutoff htest i hi snapshot,
    Verdict.ofInvalidations_invalidLlr _ _ _ _ (htest.testAfter_eq _ _ _)]
  exact htest.baseline_observe .invalidated .validated _ hsnapshot.1 hle hrange

theorem verdict_inactive_baseline {downtime : SequentialTest}
    (hdowntime : SetsUp params.downtimeGoodRate params.downtimeBadRate params.downtimeThreshold
      downtime) (i : Inspection) (hi : i.Tested rate cutoff) {snapshot : EpochStats}
    (hsnapshot : snapshot.Accumulated) (hle : snapshot.GrowsTo i.participant.stats)
    (hrange : ∀ c, snapshot.grown i.participant.stats c ≤ Int64.maxValue.toInt)
    (hreason : (i.verdict params snapshot).reason ≠ .statisticalInvalidations) :
    downtime.baseline (i.verdict params snapshot).stats.inactiveLlr
        (i.participant.stats.counter .missed) (i.participant.stats.counter .inferences) =
      downtime.baseline snapshot.inactiveLlr (snapshot.counter .missed)
        (snapshot.counter .inferences) := by
  rw [verdict_eq_ofInvalidations hrate hcutoff htest i hi snapshot] at hreason ⊢
  rw [Verdict.ofInvalidations_inactiveLlr _ _ _ _ (htest.testAfter_eq _ _ _)
    (hdowntime.testAfter_eq _ _ _) hreason]
  exact hdowntime.baseline_observe .missed .inferences _ hsnapshot.2 hle hrange

-- No counter shrinks along the way, and none gets further from the start than signed numbers do.
structure Orderly (start : EpochStats) (inspections : List Inspection) : Prop where
  grows : (start :: inspections.map (·.participant.stats)).Pairwise EpochStats.GrowsTo
  range : ∀ i ∈ inspections, ∀ c, start.grown i.participant.stats c ≤ Int64.maxValue.toInt

omit hrate hcutoff htest in
theorem Orderly.first {start : EpochStats} {i : Inspection} {rest : List Inspection}
    (h : Orderly start (i :: rest)) : start.GrowsTo i.participant.stats :=
  (List.pairwise_cons.mp h.grows).1 _ (by simp)

omit hrate hcutoff htest in
theorem Orderly.rest {start : EpochStats} {i : Inspection} {rest : List Inspection}
    (h : Orderly start (i :: rest)) (params : ValidationParams) :
    Orderly (i.verdict params start).stats rest := by
  obtain ⟨-, htail⟩ := List.pairwise_cons.mp h.grows
  rw [List.map_cons, List.pairwise_cons] at htail
  constructor
  · refine List.pairwise_cons.mpr ⟨?_, htail.2⟩
    intro later hlater c
    rw [verdict_counter]
    exact htail.1 later hlater c
  · intro j hj c
    have hfirst := UInt64.le_iff_toNat_le.mp (h.first c)
    have hrange := h.range j (List.mem_cons_of_mem i hj) c
    unfold EpochStats.grown at hrange ⊢
    rw [verdict_counter]
    omega

-- The induction goes along the inspections: each one adds to the evidence what it adds to the
-- counters, so what the counters do not account for stays what it was at the start.
theorem statsAfter_baseline (inspections : List Inspection)
    (htested : ∀ i ∈ inspections, i.Tested rate cutoff) {start : EpochStats}
    (hstart : start.Accumulated) (horder : Orderly start inspections) :
    let final := statsAfter params start inspections
    test.baseline final.invalidLlr (final.counter .invalidated) (final.counter .validated) =
        test.baseline start.invalidLlr (start.counter .invalidated) (start.counter .validated) ∧
      ∀ downtime, SetsUp params.downtimeGoodRate params.downtimeBadRate params.downtimeThreshold
          downtime →
        (∀ v ∈ verdicts params start inspections, v.reason ≠ .statisticalInvalidations) →
        downtime.baseline final.inactiveLlr (final.counter .missed) (final.counter .inferences) =
          downtime.baseline start.inactiveLlr (start.counter .missed)
            (start.counter .inferences) := by
  induction inspections generalizing start with
  | nil => exact ⟨rfl, fun _ _ _ => rfl⟩
  | cons i rest ih =>
      have hi := htested i List.mem_cons_self
      have hrange := horder.range i List.mem_cons_self
      obtain ⟨hinvalid, hinactive⟩ := ih (fun j hj => htested j (List.mem_cons_of_mem i hj))
        (i.verdict_accumulated params hstart) (horder.rest params)
      simp only [verdict_counter] at hinvalid hinactive
      refine ⟨hinvalid.trans ?_, ?_⟩
      · exact verdict_invalid_baseline hrate hcutoff htest i hi hstart horder.first hrange
      · intro downtime hdowntime hreasons
        have hfirst := hreasons _ List.mem_cons_self
        have hrest := hinactive downtime hdowntime
          fun v hv => hreasons v (List.mem_cons_of_mem _ hv)
        exact hrest.trans (verdict_inactive_baseline hrate hcutoff htest hdowntime i hi hstart
          horder.first hrange hfirst)

omit hrate hcutoff htest in
theorem orderly_of_grows {start : EpochStats} {earlier : List Inspection} {last : Inspection}
    (hgrows : (start :: (earlier ++ [last]).map (·.participant.stats)).Pairwise EpochStats.GrowsTo)
    (hrange : ∀ c, start.grown last.participant.stats c ≤ Int64.maxValue.toInt) :
    Orderly start (earlier ++ [last]) := by
  refine ⟨hgrows, fun i hi c => ?_⟩
  rcases List.mem_append.mp hi with hi | hi
  · rw [List.map_append, ← List.cons_append, List.pairwise_append] at hgrows
    have hle := hgrows.2.2 i.participant.stats (List.mem_cons_of_mem _ (List.mem_map_of_mem hi))
      last.participant.stats (by simp) c
    have hn := UInt64.le_iff_toNat_le.mp hle
    have hlast := hrange c
    unfold EpochStats.grown at hlast ⊢
    omega
  · rw [List.mem_singleton.mp hi]
    exact hrange c

omit hrate hcutoff htest in
theorem Orderly.single {start : EpochStats} {earlier : List Inspection} {last : Inspection}
    (h : Orderly start (earlier ++ [last])) : Orderly start [last] := by
  have hlast : last ∈ earlier ++ [last] := List.mem_append_right _ List.mem_cons_self
  constructor
  · refine List.pairwise_cons.mpr ⟨?_, by simp⟩
    intro later hlater
    rw [List.mem_singleton.mp hlater]
    exact (List.pairwise_cons.mp h.grows).1 _ (List.mem_map_of_mem hlast)
  · intro i hi
    rw [List.mem_singleton.mp hi]
    exact h.range last hlast

omit hrate hcutoff htest in
theorem statsAfter_counter (params : ValidationParams) (start : EpochStats)
    (earlier : List Inspection) (last : Inspection) (c : Counter) :
    (statsAfter params start (earlier ++ [last])).counter c = last.participant.stats.counter c := by
  rw [statsAfter, List.foldl_append]
  exact verdict_counter last params _ c

theorem statsAfter_llr (earlier : List Inspection) (last : Inspection)
    (htested : ∀ i ∈ earlier ++ [last], i.Tested rate cutoff) {start : EpochStats}
    (hstart : start.Accumulated) (horder : Orderly start (earlier ++ [last])) :
    let final := statsAfter params start (earlier ++ [last])
    let grown := start.grown last.participant.stats
    final.invalidLlr.toRat = start.invalidLlr.toRat + grown .invalidated * test.logFail.toRat +
        grown .validated * test.logPass.toRat ∧
      ∀ downtime, SetsUp params.downtimeGoodRate params.downtimeBadRate params.downtimeThreshold
          downtime →
        (∀ v ∈ verdicts params start (earlier ++ [last]), v.reason ≠ .statisticalInvalidations) →
        final.inactiveLlr.toRat = start.inactiveLlr.toRat +
          grown .missed * downtime.logFail.toRat + grown .inferences * downtime.logPass.toRat := by
  obtain ⟨hinvalid, hinactive⟩ :=
    statsAfter_baseline hrate hcutoff htest (earlier ++ [last]) htested hstart horder
  simp only [statsAfter_counter] at hinvalid hinactive
  exact ⟨toRat_of_baseline_eq hinvalid, fun downtime hdowntime hreasons =>
    toRat_of_baseline_eq (hinactive downtime hdowntime hreasons)⟩

end Chain

-- However the evidence is cut into batches, the accumulators end where one evaluation of all of it
-- takes them: at the start and what the total growth of the counters adds. Verdicts in between do not
-- matter, except that a conviction in the first test leaves out the second.
theorem evidence_independent_of_batching (params : ValidationParams) (rate cutoff : Decimal)
    (test : SequentialTest) (start : EpochStats) (earlier : List Inspection) (last : Inspection)
    (hrate : params.falsePositiveRate = some rate)
    (hcutoff : params.quickFailureThreshold = some cutoff)
    (htest : SetsUp params.falsePositiveRate params.badInvalidationRate params.invalidationThreshold
      test)
    (hstart : start.Accumulated)
    (hgrows : (start :: (earlier ++ [last]).map (·.participant.stats)).Pairwise EpochStats.GrowsTo)
    (hrange : ∀ c, start.grown last.participant.stats c ≤ Int64.maxValue.toInt)
    (htested : ∀ i ∈ earlier ++ [last], i.Tested rate cutoff) :
    let batched := statsAfter params start (earlier ++ [last])
    let single := last.verdict params start
    let grown := start.grown last.participant.stats
    (batched.invalidLlr.toRat = start.invalidLlr.toRat + grown .invalidated * test.logFail.toRat +
        grown .validated * test.logPass.toRat ∧
      single.stats.invalidLlr.SameValue batched.invalidLlr) ∧
    ∀ downtime, SetsUp params.downtimeGoodRate params.downtimeBadRate params.downtimeThreshold
        downtime →
      (∀ v ∈ verdicts params start (earlier ++ [last]), v.reason ≠ .statisticalInvalidations) →
      batched.inactiveLlr.toRat = start.inactiveLlr.toRat + grown .missed * downtime.logFail.toRat +
          grown .inferences * downtime.logPass.toRat ∧
        (single.reason ≠ .statisticalInvalidations →
          single.stats.inactiveLlr.SameValue batched.inactiveLlr) := by
  have horder := orderly_of_grows hgrows hrange
  have hlast : last.Tested rate cutoff := htested last (by simp)
  obtain ⟨hinvalid, hinactive⟩ :=
    statsAfter_llr hrate hcutoff htest earlier last htested hstart horder
  obtain ⟨hinvalid', hinactive'⟩ :=
    statsAfter_llr hrate hcutoff htest [] last (by simpa using hlast) hstart horder.single
  refine ⟨⟨hinvalid, (Decimal.sameValue_iff _ _).mpr (hinvalid'.trans hinvalid.symm)⟩, ?_⟩
  intro downtime hdowntime hreasons
  have hbatched := hinactive downtime hdowntime hreasons
  refine ⟨hbatched, fun hreason => ?_⟩
  have hsingle := hinactive' downtime hdowntime (by simpa [verdicts] using hreason)
  exact (Decimal.sameValue_iff _ _).mpr (hsingle.trans hbatched.symm)

-- One missed request makes a participant inactive, and thirteen served ones speak for it again: the
-- verdict in between leaves no trace in the evidence.
theorem evidence_independent_of_downtime_between :
    let test := initial (hundredths 5) (hundredths 10) (Decimal.ofInt 4) .zero logPrecision
    let downtime := initial (hundredths 10) (hundredths 20) (Decimal.ofInt 4) .zero logPrecision
    let start : EpochStats := ⟨317, 30, 300, 17, none, ⟨1137, 3⟩, ⟨39, 1⟩⟩
    let seen (stats : EpochStats) : Inspection :=
      ⟨{ Participant.new "gonka1alice" .active with streak := 2, stats := stats }, some .genesis⟩
    let first := seen ⟨317, 31, 302, 18, none, .zero, .zero⟩
    let last := seen ⟨330, 31, 311, 19, none, .zero, .zero⟩
    let batched := statsAfter .genesis start ([first] ++ [last])
    let single := last.verdict .genesis start
    (SetsUp (some (hundredths 5)) (some (hundredths 10)) (some (Decimal.ofInt 4)) test ∧
      SetsUp (some (hundredths 10)) (some (hundredths 20)) (some (Decimal.ofInt 4)) downtime ∧
      start.Accumulated ∧
      (start :: ([first] ++ [last]).map (·.participant.stats)).Pairwise EpochStats.GrowsTo ∧
      (∀ c, start.grown last.participant.stats c ≤ Int64.maxValue.toInt) ∧
      (∀ i ∈ [first] ++ [last], i.Tested (hundredths 5) (Decimal.unitAt 6)) ∧
      (first.verdict .genesis start).status = .inactive ∧
      (∀ v ∈ verdicts .genesis start ([first] ++ [last]), v.reason ≠ .statisticalInvalidations) ∧
      single.reason ≠ .statisticalInvalidations) ∧
    single.stats.invalidLlr.SameValue batched.invalidLlr ∧
      single.stats.inactiveLlr.SameValue batched.inactiveLlr := by
  intro test downtime start seen first last batched single
  have htest : SetsUp (some (hundredths 5)) (some (hundredths 10)) (some (Decimal.ofInt 4)) test :=
    ⟨_, _, _, .zero, rfl, rfl, rfl,
      (create_eq_ok_iff _ _ _ _ _ _ (by decide)).mpr ⟨by decide +kernel, rfl⟩⟩
  have hdowntime : SetsUp (some (hundredths 10)) (some (hundredths 20)) (some (Decimal.ofInt 4))
      downtime := ⟨_, _, _, .zero, rfl, rfl, rfl,
    (create_eq_ok_iff _ _ _ _ _ _ (by decide)).mpr ⟨by decide +kernel, rfl⟩⟩
  have hstart : start.Accumulated :=
    ⟨(Decimal.hasPlaces_toRat 1137 3).mono (by decide), (Decimal.hasPlaces_toRat 39 1).mono (by decide)⟩
  have hgrows : (start :: ([first] ++ [last]).map (·.participant.stats)).Pairwise
      EpochStats.GrowsTo := by
    have hfirst : start.GrowsTo first.participant.stats := by intro c; cases c <;> decide
    have hlast : start.GrowsTo last.participant.stats := by intro c; cases c <;> decide
    have hnext : first.participant.stats.GrowsTo last.participant.stats := by
      intro c; cases c <;> decide
    simp [hfirst, hlast, hnext]
  have hrange : ∀ c, start.grown last.participant.stats c ≤ Int64.maxValue.toInt := by
    intro c
    cases c <;> decide
  have htested : ∀ i ∈ [first] ++ [last], i.Tested (hundredths 5) (Decimal.unitAt 6) := by
    have hrare : Streak.isRare (hundredths 5) 2 (Decimal.unitAt 6) ≠ .ok true := by decide +kernel
    simp [Tested, first, last, seen, Participant.new, hrare, Status.isSticky]
  have hinactive : (first.verdict .genesis start).status = .inactive := by decide +kernel
  have hreasons : ∀ v ∈ verdicts .genesis start ([first] ++ [last]),
      v.reason ≠ .statisticalInvalidations := by decide +kernel
  have hreason : single.reason ≠ .statisticalInvalidations := by decide +kernel
  obtain ⟨⟨-, hinvalid⟩, hdown⟩ := evidence_independent_of_batching .genesis (hundredths 5)
    (Decimal.unitAt 6) test start [first] last rfl rfl htest hstart hgrows hrange htested
  exact ⟨⟨htest, hdowntime, hstart, hgrows, hrange, htested, hinactive, hreasons, hreason⟩,
    hinvalid, (hdown downtime hdowntime hreasons).2 hreason⟩

end Inspection

end ParticipantTrust
