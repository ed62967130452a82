import ParticipantTrust.Proofs.Decimal.Printing
import ParticipantTrust.Proofs.Document.RoundTrip
import ParticipantTrust.Proofs.Json.Writing
import ParticipantTrust.Proofs.Replay
import ParticipantTrust.Proofs.Verdict.Weighing

namespace ParticipantTrust

open Json

theorem Status.text_injective : Function.Injective Status.text := by
  intro a b h
  cases a <;> cases b <;> first | rfl | exact absurd h (by decide)

theorem Reason.text_injective : Function.Injective Reason.text := by
  intro a b h
  cases a <;> cases b <;> first | rfl | exact absurd h (by decide)

namespace Json.Codec

theorem u64_write_inj {a b : UInt64} : u64.write a = u64.write b ↔ a = b := by
  simp [u64, UInt64.toNat_inj]

theorem decimal_write_inj {a b : Decimal} : decimal.write a = decimal.write b ↔ a.text = b.text :=
  Value.text.injEq _ _ ▸ Iff.rfl

theorem optional_decimal_write_inj {a b : Option Decimal} :
    decimal.optional.write a = decimal.optional.write b ↔ a.map Decimal.text = b.map Decimal.text := by
  cases a <;> cases b <;> simp [optional, decimal]

end Json.Codec

-- All that a print of counters shows.
@[mk_iff]
structure EpochStats.SamePrint (s s' : EpochStats) : Prop where
  inferenceCount : s.inferenceCount = s'.inferenceCount
  missedRequests : s.missedRequests = s'.missedRequests
  validatedInferences : s.validatedInferences = s'.validatedInferences
  invalidatedInferences : s.invalidatedInferences = s'.invalidatedInferences
  confirmationRatio : s.confirmationRatio.map Decimal.text = s'.confirmationRatio.map Decimal.text
  invalidLlr : s.invalidLlr.text = s'.invalidLlr.text
  inactiveLlr : s.inactiveLlr.text = s'.inactiveLlr.text

theorem statsRecord_write_inj {s s' : EpochStats} :
    statsRecord.codec.write s = statsRecord.codec.write s' ↔ s.SamePrint s' := by
  rw [EpochStats.samePrint_iff]
  simp only [Record.codec, Record.write, statsRecord, Codec.field, List.map_cons, List.map_nil,
    Value.object.injEq, List.cons.injEq, Prod.mk.injEq, Codec.u64_write_inj, Codec.decimal_write_inj,
    Codec.optional_decimal_write_inj, true_and, and_true]

theorem statusCodec_write_inj {a b : Status} :
    statusCodec.write a = statusCodec.write b ↔ a = b := by
  simp [statusCodec, Codec.variant, Status.text_injective.eq_iff]

theorem reasonCodec_write_inj {a b : Reason} :
    reasonCodec.write a = reasonCodec.write b ↔ a = b := by
  simp [reasonCodec, Codec.variant, Reason.text_injective.eq_iff]

-- A rendered verdict shows status, reason and counters as they are, and decimals as they are printed.
theorem render_eq_iff (v v' : Verdict) :
    v.render = v'.render ↔
      v.status = v'.status ∧ v.reason = v'.reason ∧ v.stats.SamePrint v'.stats := by
  have hwrite : v.render = v'.render ↔
      verdictRecord.codec.write v = verdictRecord.codec.write v' :=
    (Value.write_injective Layout.indented_spaces).eq_iff
  rw [hwrite, ← statusCodec_write_inj, ← reasonCodec_write_inj, ← statsRecord_write_inj]
  simp only [Record.codec, Record.write, verdictRecord, Codec.field, List.map_cons, List.map_nil,
    Value.object.injEq, List.cons.injEq, Prod.mk.injEq, true_and, and_true]

structure EpochStats.PrintsAlike (s s' : EpochStats) : Prop where
  confirmationRatio : Option.Rel Decimal.PrintsAlike s.confirmationRatio s'.confirmationRatio
  invalidLlr : s.invalidLlr.PrintsAlike s'.invalidLlr
  inactiveLlr : s.inactiveLlr.PrintsAlike s'.inactiveLlr

theorem SameRatio.map_text_eq_iff {a b : Option Decimal} (h : SameRatio a b) :
    a.map Decimal.text = b.map Decimal.text ↔ Option.Rel Decimal.PrintsAlike a b := by
  match a, b, h with
  | none, none, _ => simp
  | some x, some y, h =>
      simpa using Decimal.text_eq_iff_printsAlike ((Decimal.sameValue_iff x y).mp h)

theorem EpochStats.SameValue.samePrint_iff_printsAlike {s s' : EpochStats} (h : s.SameValue s') :
    s.SamePrint s' ↔ s.PrintsAlike s' := by
  obtain ⟨h₁, h₂, h₃, h₄, hratio, hinvalid, hinactive⟩ := h
  have hratioText := hratio.map_text_eq_iff
  have hinvalidText := Decimal.text_eq_iff_printsAlike ((Decimal.sameValue_iff _ _).mp hinvalid)
  have hinactiveText := Decimal.text_eq_iff_printsAlike ((Decimal.sameValue_iff _ _).mp hinactive)
  constructor
  · rintro ⟨-, -, -, -, h₅, h₆, h₇⟩
    exact ⟨hratioText.mp h₅, hinvalidText.mp h₆, hinactiveText.mp h₇⟩
  · rintro ⟨h₅, h₆, h₇⟩
    exact ⟨h₁, h₂, h₃, h₄, hratioText.mpr h₅, hinvalidText.mpr h₆, hinactiveText.mpr h₇⟩

-- Verdicts with the same numbers are rendered to the same text exactly when each of their decimals is.
theorem render_eq_iff_printsAlike {v v' : Verdict} (h : v.SameValue v') :
    v.render = v'.render ↔ v.stats.PrintsAlike v'.stats := by
  rw [render_eq_iff, h.stats.samePrint_iff_printsAlike]
  exact ⟨fun hall => hall.2.2, fun hstats => ⟨h.status, h.reason, hstats⟩⟩

-- The decimals that a verdict takes over as they are stored are printed alike: the ratio of the
-- confirmation, and the evidence of each sequential test that has nothing new to weigh.
structure StoredAlike (params : ValidationParams) (p p' : Participant) (previous : EpochStats) :
    Prop where
  confirmationRatio :
    Option.Rel Decimal.PrintsAlike p.stats.confirmationRatio p'.stats.confirmationRatio
  invalidLlr : ¬WeighsInvalidations params p previous →
    p.stats.invalidLlr.PrintsAlike p'.stats.invalidLlr
  inactiveLlr : ¬WeighsDowntime params p previous →
    p.stats.inactiveLlr.PrintsAlike p'.stats.inactiveLlr

-- Evidence that was rounded is printed with the places of its rounding.
theorem printsAlike_iff_of_stored {a b stored stored' : Decimal} {weighed : Prop} {places : Int}
    (hrounded : weighed → a.scale = places ∧ b.scale = places)
    (hstored : ¬weighed → a = stored ∧ b = stored') :
    a.PrintsAlike b ↔ (¬weighed → stored.PrintsAlike stored') := by
  by_cases hweighed : weighed
  · obtain ⟨ha, hb⟩ := hrounded hweighed
    exact iff_of_true (.inr (.inl (ha.trans hb.symm))) (absurd hweighed)
  · obtain ⟨rfl, rfl⟩ := hstored hweighed
    exact ⟨fun h _ => h, fun h => h hweighed⟩

theorem evaluate_printsAlike_iff {params params' : ValidationParams}
    (confirmation confirmation' : Option ConfirmationParams) {p p' : Participant}
    {previous previous' : EpochStats} (hparams : params.SameValue params') (hp : p.SameValue p')
    (hprevious : previous.SameValue previous')
    (hdigits : p.status.isSticky = false → params.SameDigits params' p.streak.toNat) :
    (evaluate (some params) confirmation p previous).stats.PrintsAlike
        (evaluate (some params') confirmation' p' previous').stats ↔
      StoredAlike params p p' previous := by
  have hinvalidations := weighsInvalidations_congr hparams hp hdigits hprevious
  have hdowntime := weighsDowntime_congr hparams hp hdigits hprevious
  have hratio : ∀ params confirmation p previous,
      (evaluate params confirmation p previous).stats.confirmationRatio =
        p.stats.confirmationRatio := by
    intro params confirmation p previous
    obtain ⟨invalid, inactive, hstats⟩ := evaluate_stats params confirmation p previous
    rw [hstats]
  have hinvalid := printsAlike_iff_of_stored
    (fun hweighs => ⟨evaluate_invalidLlr_scale params confirmation p previous hweighs,
      evaluate_invalidLlr_scale params' confirmation' p' previous' (hinvalidations.mp hweighs)⟩)
    (fun hstored => ⟨evaluate_invalidLlr_stored params confirmation p previous hstored,
      evaluate_invalidLlr_stored params' confirmation' p' previous' (mt hinvalidations.mpr hstored)⟩)
  have hinactive := printsAlike_iff_of_stored
    (fun hweighs => ⟨evaluate_inactiveLlr_scale params confirmation p previous hweighs,
      evaluate_inactiveLlr_scale params' confirmation' p' previous' (hdowntime.mp hweighs)⟩)
    (fun hstored => ⟨evaluate_inactiveLlr_stored params confirmation p previous hstored,
      evaluate_inactiveLlr_stored params' confirmation' p' previous' (mt hdowntime.mpr hstored)⟩)
  constructor
  · rintro ⟨h₁, h₂, h₃⟩
    rw [hratio, hratio] at h₁
    exact ⟨h₁, hinvalid.mp h₂, hinactive.mp h₃⟩
  · rintro ⟨h₁, h₂, h₃⟩
    refine ⟨?_, hinvalid.mpr h₂, hinactive.mpr h₃⟩
    rw [hratio, hratio]
    exact h₁

-- Documents with the same numbers replay to the same verdict, where their written forms leave alone the
-- comparison of the streak and the digits of the likelihood ratios. It is rendered to the same text
-- exactly when the decimals that it takes over are printed alike, as verdicts with the same numbers are
-- in general exactly when all of theirs are.
theorem replays_render_alike_iff {params params' : Params} {p p' : Participant}
    {previous previous' : EpochStats} {paramsText participantText paramsText' participantText' : String}
    {previousText previousText' : Option String}
    (h : ReadsAs paramsText participantText previousText params p previous)
    (h' : ReadsAs paramsText' participantText' previousText' params' p' previous')
    (hparams : params.SameValue params') (hp : p.SameValue p')
    (hprevious : previous.SameValue previous')
    (hdigits : p.status.isSticky = false →
      params.validation.SameDigits params'.validation p.streak.toNat) :
    (∃ verdict verdict', replay paramsText participantText previousText = .ok verdict ∧
      replay paramsText' participantText' previousText' = .ok verdict' ∧
      verdict.SameValue verdict' ∧
      (verdict.render = verdict'.render ↔ StoredAlike params.validation p p' previous)) ∧
    ∀ d d' : Verdict, d.SameValue d' → (d.render = d'.render ↔ d.stats.PrintsAlike d'.stats) := by
  refine ⟨⟨_, _, h.replay_eq, h'.replay_eq, ?_⟩, fun d d' => render_eq_iff_printsAlike⟩
  have hsame : (p.verdict params previous).SameValue (p'.verdict params' previous') := by
    refine evaluate_sameValue_of_sameDigits _ _ _ _ p p' previous previous' (.some hparams.validation)
      (.some hparams.confirmation) hp hprevious ?_
    rintro hsticky _ _ ⟨⟩ ⟨⟩
    exact hdigits hsticky
  refine ⟨hsame, ?_⟩
  rw [render_eq_iff_printsAlike hsame]
  exact evaluate_printsAlike_iff _ _ hparams.validation hp hprevious hdigits

set_option maxRecDepth 4000 in
-- A new invalidation is weighed, so the zeros that the evidence was stored with do not show.
theorem replays_render_alike_after_rounding :
    let p (llr : Decimal) : Participant := { Participant.new "gonka1alice" .active with
      stats := ⟨0, 0, 0, 1, none, llr, .zero⟩ }
    let record (llr : String) := "\x7b\"address\": \"gonka1alice\", \"current_epoch_stats\": " ++
      "\x7b\"invalidated_inferences\": 1, \"invalid_llr\": \"" ++ llr ++ "\"\x7d\x7d"
    ReadsAs "\x7b\x7d" (record "1.25") none .genesis (p ⟨125, 2⟩) .zero ∧
      ReadsAs "\x7b\x7d" (record "1.250") none .genesis (p ⟨1250, 3⟩) .zero ∧
      Params.genesis.SameValue .genesis ∧ (p ⟨125, 2⟩).SameValue (p ⟨1250, 3⟩) ∧
      EpochStats.zero.SameValue .zero ∧ ValidationParams.genesis.SameDigits .genesis 0 ∧
      ∃ verdict verdict', replay "\x7b\x7d" (record "1.25") none = .ok verdict ∧
        replay "\x7b\x7d" (record "1.250") none = .ok verdict' ∧ verdict.render = verdict'.render := by
  intro p record
  have hreads : ReadsAs "\x7b\x7d" (record "1.25") none .genesis (p ⟨125, 2⟩) .zero :=
    ⟨rfl, by dsimp only [record]; rfl, rfl⟩
  have hreads' : ReadsAs "\x7b\x7d" (record "1.250") none .genesis (p ⟨1250, 3⟩) .zero :=
    ⟨rfl, by dsimp only [record]; rfl, rfl⟩
  have hparams : Params.genesis.SameValue .genesis := by
    constructor <;> constructor <;> decide
  have hp : (p ⟨125, 2⟩).SameValue (p ⟨1250, 3⟩) := ⟨rfl, rfl, rfl, rfl, by decide⟩
  have hprevious : EpochStats.zero.SameValue .zero := by decide
  have hdigits : ValidationParams.genesis.SameDigits .genesis 0 := by
    constructor
    · rintro rate cutoff cutoff' ⟨⟩ ⟨⟩ ⟨⟩
      exact .inl rfl
    · rintro - good bad good' bad' ⟨⟩ ⟨⟩ ⟨⟩ ⟨⟩
      exact .inl ⟨rfl, rfl⟩
    · rintro - good bad good' bad' ⟨⟩ ⟨⟩ ⟨⟩ ⟨⟩
      exact .inl ⟨rfl, rfl⟩
  have hweighs : WeighsInvalidations .genesis (p ⟨125, 2⟩) .zero :=
    ⟨⟨rfl, _, _, rfl, rfl, by decide +kernel⟩, by decide +kernel, .inl (by decide)⟩
  obtain ⟨⟨verdict, verdict', hreplay, hreplay', -, hrender⟩, -⟩ :=
    replays_render_alike_iff hreads hreads' hparams hp hprevious fun _ => hdigits
  refine ⟨hreads, hreads', hparams, hp, hprevious, hdigits, verdict, verdict', hreplay, hreplay', ?_⟩
  exact hrender.mpr ⟨.none, absurd hweighs, fun _ => .inr (.inl rfl)⟩

set_option maxRecDepth 4000 in
-- The ratio of a confirmation is printed as it was written, and zeros at the end of a cut-off can change
-- the verdict.
theorem replays_render_differently :
    let p (ratio : Decimal) : Participant := { Participant.new "gonka1alice" .active with
      stats := { EpochStats.zero with confirmationRatio := some ratio } }
    let confirmed (ratio : String) := "\x7b\"address\": \"gonka1alice\", " ++
      "\"current_epoch_stats\": \x7b\"confirmation_poc_ratio\": \"" ++ ratio ++ "\"\x7d\x7d"
    let params (cutoff : Decimal) : Params := { Params.genesis with
      validation := { ValidationParams.unset with
        falsePositiveRate := some ⟨5 * 10 ^ 30 - 1, 31⟩
        quickFailureThreshold := some cutoff } }
    let document (cutoff : String) := "\x7b\"validation\": \x7b\"false_positive_rate\": " ++
      "\"0.4999999999999999999999999999999\", \"quick_failure_threshold\": \"" ++ cutoff ++
      "\"\x7d\x7d"
    let streaking : Participant := { Participant.new "gonka1alice" .active with streak := 1 }
    let record := "\x7b\"address\": \"gonka1alice\", \"consecutive_invalid_inferences\": 1\x7d"
    (ReadsAs "\x7b\x7d" (confirmed "0.80") none .genesis (p ⟨80, 2⟩) .zero ∧
      ReadsAs "\x7b\x7d" (confirmed "0.8") none .genesis (p ⟨8, 1⟩) .zero ∧
      (p ⟨80, 2⟩).SameValue (p ⟨8, 1⟩) ∧
      ∃ verdict verdict', replay "\x7b\x7d" (confirmed "0.80") none = .ok verdict ∧
        replay "\x7b\x7d" (confirmed "0.8") none = .ok verdict' ∧ verdict.SameValue verdict' ∧
        verdict.render ≠ verdict'.render) ∧
    ReadsAs (document "0.5") record none (params ⟨5, 1⟩) streaking .zero ∧
      ReadsAs (document "0.500000000000000000000") record none (params ⟨5 * 10 ^ 20, 21⟩) streaking
        .zero ∧
      (params ⟨5, 1⟩).SameValue (params ⟨5 * 10 ^ 20, 21⟩) ∧
      ∃ verdict verdict', replay (document "0.5") record none = .ok verdict ∧
        replay (document "0.500000000000000000000") record none = .ok verdict' ∧
        verdict.status = .active ∧ verdict'.status = .invalid ∧ verdict.render ≠ verdict'.render := by
  intro p confirmed params document streaking record
  have hreads : ReadsAs "\x7b\x7d" (confirmed "0.80") none .genesis (p ⟨80, 2⟩) .zero :=
    ⟨rfl, by dsimp only [confirmed]; rfl, rfl⟩
  have hreads' : ReadsAs "\x7b\x7d" (confirmed "0.8") none .genesis (p ⟨8, 1⟩) .zero :=
    ⟨rfl, by dsimp only [confirmed]; rfl, rfl⟩
  have hsame : ((p ⟨80, 2⟩).verdict .genesis .zero).SameValue ((p ⟨8, 1⟩).verdict .genesis .zero) := by
    constructor <;> decide +kernel
  have hrender : ((p ⟨80, 2⟩).verdict .genesis .zero).render ≠
      ((p ⟨8, 1⟩).verdict .genesis .zero).render := by
    intro hrender
    have hratio := ((render_eq_iff _ _).mp hrender).2.2.confirmationRatio
    exact absurd hratio (by decide +kernel)
  have hcutoff : ReadsAs (document "0.5") record none (params ⟨5, 1⟩) streaking .zero :=
    ⟨by dsimp only [document]; rfl, by dsimp only [record]; rfl, rfl⟩
  have hcutoff' : ReadsAs (document "0.500000000000000000000") record none
      (params ⟨5 * 10 ^ 20, 21⟩) streaking .zero :=
    ⟨by dsimp only [document]; rfl, by dsimp only [record]; rfl, rfl⟩
  have hactive : (streaking.verdict (params ⟨5, 1⟩) .zero).status = .active := by decide +kernel
  have hinvalid : (streaking.verdict (params ⟨5 * 10 ^ 20, 21⟩) .zero).status = .invalid := by
    decide +kernel
  refine ⟨⟨hreads, hreads', ⟨rfl, rfl, rfl, rfl, by decide⟩, _, _, hreads.replay_eq,
    hreads'.replay_eq, hsame, hrender⟩, hcutoff, hcutoff', ?_, _, _, hcutoff.replay_eq,
    hcutoff'.replay_eq, hactive, hinvalid, ?_⟩
  · constructor <;> constructor <;> decide
  · intro hrender
    have hstatus := ((render_eq_iff _ _).mp hrender).1
    rw [hactive, hinvalid] at hstatus
    cases hstatus

end ParticipantTrust
