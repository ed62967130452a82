import ParticipantTrust.Replay
import ParticipantTrust.Proofs.Json.Record
import ParticipantTrust.Proofs.Verdict.WrittenForm

namespace ParticipantTrust

open Json

structure CollateralParams.SameValue (c c' : CollateralParams) : Prop where
  slashFraction : SameRatio c.slashFraction c'.slashFraction

structure Params.SameValue (p p' : Params) : Prop where
  validation : p.validation.SameValue p'.validation
  confirmation : p.confirmation.SameValue p'.confirmation
  collateral : p.collateral.SameValue p'.collateral

-- Scales far from the limits of what a text may have.
def Decimal.ModerateScale (v : Decimal) : Prop := -2 ^ 62 ≤ v.scale ∧ v.scale ≤ 2 ^ 62

instance (v : Decimal) : Decidable v.ModerateScale := by
  unfold Decimal.ModerateScale; infer_instance

theorem Decimal.ModerateScale.scaleFits {v : Decimal} (h : v.ModerateScale) : ScaleFits v.scale := by
  rw [scaleFits_iff]
  obtain ⟨hlow, hhigh⟩ := h
  omega

def EpochStats.decimals (s : EpochStats) : List Decimal :=
  s.confirmationRatio.toList ++ [s.invalidLlr, s.inactiveLlr]

def Params.decimals (p : Params) : List Decimal := p.bounds.filterMap Bound.value

theorem Params.mem_decimals_of_mem {p : Params} {v : Decimal} {b : Bound} (hb : b ∈ p.bounds)
    (hv : v ∈ b.value) : v ∈ p.decimals :=
  List.mem_filterMap.mpr ⟨b, hb, hv⟩

theorem decimal_restores_of_moderate {v : Decimal} (h : v.ModerateScale) (room : Nat) :
    Codec.decimal.Restores Decimal.SameValue room v :=
  Codec.decimal_restores room v h.scaleFits

theorem optional_restores_of_moderate {ratio : Option Decimal} (h : ∀ v ∈ ratio, v.ModerateScale)
    (room : Nat) : Codec.decimal.optional.Restores SameRatio room ratio := by
  have hrel := Codec.optional_restores (fun _ => Value.noConfusion) ratio fun v hv =>
    decimal_restores_of_moderate (h v hv) room
  intro layout depth before rest hlayout hbefore hrest
  obtain ⟨back, hread, hback⟩ := hrel layout depth before rest hlayout hbefore hrest
  refine ⟨back, hread, ?_⟩
  cases hback with
  | none => trivial
  | some hvalue => exact hvalue

theorem statusCodec_restores (status : Status) (room : Nat) : statusCodec.Restores Eq room status :=
  Codec.variant_restores statuses Status.text room status (by cases status <;> rfl)

theorem reasonCodec_restores (reason : Reason) (room : Nat) : reasonCodec.Restores Eq room reason :=
  Codec.variant_restores reasons Reason.text room reason (by cases reason <;> rfl)

theorem statsRecord_restores {s : EpochStats} (h : ∀ v ∈ s.decimals, v.ModerateScale) (room : Nat) :
    statsRecord.codec.Restores EpochStats.SameValue (room + 1) s := by
  have hratio : ∀ v ∈ s.confirmationRatio, v.ModerateScale :=
    fun v hv => h v (List.mem_append_left _ (Option.mem_toList.mpr hv))
  have hinvalid : s.invalidLlr.ModerateScale := h _ (by simp [EpochStats.decimals])
  have hinactive : s.inactiveLlr.ModerateScale := h _ (by simp [EpochStats.decimals])
  refine Record.restores (by decide) ?_
  refine .field (Codec.u64_restores room _) fun _ h₁ => ?_
  refine .field (Codec.u64_restores room _) fun _ h₂ => ?_
  refine .field (Codec.u64_restores room _) fun _ h₃ => ?_
  refine .field (Codec.u64_restores room _) fun _ h₄ => ?_
  refine .field (optional_restores_of_moderate hratio room) fun _ h₅ => ?_
  refine .field (decimal_restores_of_moderate hinvalid room) fun _ h₆ => ?_
  refine .field (decimal_restores_of_moderate hinactive room) fun _ h₇ => ?_
  exact ⟨h₁, h₂, h₃, h₄, h₅, h₆, h₇⟩

theorem participantRecord_restores {p : Participant} (h : ∀ v ∈ p.stats.decimals, v.ModerateScale)
    (room : Nat) : participantRecord.codec.Restores Participant.SameValue (room + 2) p := by
  refine Record.restores (by decide) ?_
  refine .field (Codec.text_restores _ _) fun _ haddress => ?_
  refine .field (statusCodec_restores _ _) fun _ hstatus => ?_
  refine .field (Codec.u32_restores _ _) fun _ hepochs => ?_
  refine .field (Codec.u64_restores _ _) fun _ hstreak => ?_
  refine .field (statsRecord_restores h room) fun _ hstats => ?_
  exact ⟨haddress, hstatus, hepochs, hstreak, hstats⟩

theorem verdictRecord_restores {d : Verdict} (h : ∀ v ∈ d.stats.decimals, v.ModerateScale)
    (room : Nat) : verdictRecord.codec.Restores Verdict.SameValue (room + 2) d := by
  refine Record.restores (by decide) ?_
  refine .field (statusCodec_restores _ _) fun _ hstatus => ?_
  refine .field (reasonCodec_restores _ _) fun _ hreason => ?_
  refine .field (statsRecord_restores h room) fun _ hstats => ?_
  exact ⟨hstatus, hreason, hstats⟩

theorem validationRecord_restores {v : ValidationParams}
    (h : ∀ b ∈ v.bounds, ∀ d ∈ b.value, d.ModerateScale) (room : Nat) :
    validationRecord.codec.Restores ValidationParams.SameValue (room + 1) v := by
  simp only [ValidationParams.bounds, List.forall_mem_cons] at h
  obtain ⟨hrate, hquick, hbad, hthreshold, hgood, hdown, hdownThreshold, hpreserve, -⟩ := h
  refine Record.restores (by decide) ?_
  refine .field (optional_restores_of_moderate hrate room) fun _ h₁ => ?_
  refine .field (optional_restores_of_moderate hquick room) fun _ h₂ => ?_
  refine .field (optional_restores_of_moderate hbad room) fun _ h₃ => ?_
  refine .field (optional_restores_of_moderate hthreshold room) fun _ h₄ => ?_
  refine .field (optional_restores_of_moderate hgood room) fun _ h₅ => ?_
  refine .field (optional_restores_of_moderate hdown room) fun _ h₆ => ?_
  refine .field (optional_restores_of_moderate hdownThreshold room) fun _ h₇ => ?_
  refine .field (Codec.u64_restores room _) fun _ h₈ => ?_
  refine .field (optional_restores_of_moderate hpreserve room) fun _ h₉ => ?_
  exact ⟨h₁, h₂, h₃, h₄, h₅, h₆, h₇, h₈, h₉⟩

theorem confirmationRecord_restores {c : ConfirmationParams}
    (h : ∀ d ∈ c.alphaThreshold, d.ModerateScale) (room : Nat) :
    confirmationRecord.codec.Restores ConfirmationParams.SameValue (room + 1) c :=
  Record.restores (by decide) (.field (optional_restores_of_moderate h room) fun _ hback => ⟨hback⟩)

theorem collateralRecord_restores {c : CollateralParams}
    (h : ∀ d ∈ c.slashFraction, d.ModerateScale) (room : Nat) :
    collateralRecord.codec.Restores CollateralParams.SameValue (room + 1) c :=
  Record.restores (by decide) (.field (optional_restores_of_moderate h room) fun _ hback => ⟨hback⟩)

theorem paramsRecord_restores {p : Params} (h : ∀ v ∈ p.decimals, v.ModerateScale) (room : Nat) :
    paramsRecord.codec.Restores Params.SameValue (room + 2) p := by
  have hbound : ∀ b ∈ p.bounds, ∀ v ∈ b.value, v.ModerateScale :=
    fun b hb v hv => h v (Params.mem_decimals_of_mem hb hv)
  rw [Params.bounds, List.forall_mem_append] at hbound
  obtain ⟨hvalidation, hsections⟩ := hbound
  simp only [List.forall_mem_cons] at hsections
  obtain ⟨hconfirmation, hcollateral, -⟩ := hsections
  refine Record.restores (by decide) ?_
  refine .field (validationRecord_restores hvalidation room) fun _ h₁ => ?_
  refine .field (confirmationRecord_restores hconfirmation room) fun _ h₂ => ?_
  refine .field (collateralRecord_restores hcollateral room) fun _ h₃ => ?_
  exact ⟨h₁, h₂, h₃⟩

-- Everything that is stored survives being written and read back, in either layout: texts with any
-- characters, counters of any size, decimals in each of their notations, and values that are not set. A
-- verdict is rendered in the indented layout.
theorem documents_survive_encoding {layout : Layout}
    (hlayout : layout ∈ [Layout.compact, Layout.indented]) :
    (∀ p : Participant, (∀ v ∈ p.stats.decimals, v.ModerateScale) →
      ∃ p', participantRecord.codec.decode (participantRecord.codec.encode layout p) = .ok p' ∧
        p.SameValue p') ∧
    (∀ s : EpochStats, (∀ v ∈ s.decimals, v.ModerateScale) →
      ∃ s', statsRecord.codec.decode (statsRecord.codec.encode layout s) = .ok s' ∧
        s.SameValue s') ∧
    (∀ d : Verdict, (∀ v ∈ d.stats.decimals, v.ModerateScale) →
      ∀ text ∈ [verdictRecord.codec.encode layout d, d.render],
        ∃ d', verdictRecord.codec.decode text = .ok d' ∧ d.SameValue d') ∧
    (∀ params : Params, (∀ v ∈ params.decimals, v.ModerateScale) →
      ∃ params', paramsRecord.codec.decode (paramsRecord.codec.encode layout params) = .ok params' ∧
        params.SameValue params') := by
  have hspaces : layout.Spaces := by
    rcases List.mem_cons.mp hlayout with rfl | hindented
    · exact Layout.compact_spaces
    · rw [List.mem_singleton.mp hindented]
      exact Layout.indented_spaces
  refine ⟨fun p hp => ?_, fun s hs => ?_, fun d hd text htext => ?_, fun params hparams => ?_⟩
  · exact (participantRecord_restores hp 125).decode_encode hspaces
  · exact (statsRecord_restores hs 126).decode_encode hspaces
  · have hrestores := verdictRecord_restores hd 125
    rcases List.mem_cons.mp htext with rfl | hrender
    · exact hrestores.decode_encode hspaces
    · rw [List.mem_singleton.mp hrender]
      exact hrestores.decode_encode Layout.indented_spaces
  · exact (paramsRecord_restores hparams 125).decode_encode hspaces

-- Every kind of escape, full counters, and scales at both ends.
def Participant.extreme : Participant where
  address := "\"gonka\" \\ \x08\x0c\r\n\t\x1f \u03c0"
  status := .inactive
  epochsCompleted := 4294967295
  streak := 18446744073709551615
  stats := ⟨0, 1, 2, 18446744073709551615, some ⟨-123, 40⟩, ⟨7, -2 ^ 62⟩, ⟨-5, 2 ^ 62⟩⟩

theorem documents_survive_encoding_extreme :
    (∃ p', participantRecord.codec.decode (participantRecord.codec.encode .compact .extreme) = .ok p' ∧
      Participant.extreme.SameValue p') ∧
    (∃ s', statsRecord.codec.decode (statsRecord.codec.encode .compact Participant.extreme.stats) =
      .ok s' ∧ Participant.extreme.stats.SameValue s') ∧
    (∃ d', verdictRecord.codec.decode
        (Verdict.render ⟨.active, .unremarkable, Participant.extreme.stats⟩) = .ok d' ∧
      Verdict.SameValue ⟨.active, .unremarkable, Participant.extreme.stats⟩ d') ∧
    ∃ params', paramsRecord.codec.decode
        (paramsRecord.codec.encode .compact ⟨.unset, .genesis, ⟨some ⟨5, -20⟩⟩⟩) = .ok params' ∧
      Params.SameValue ⟨.unset, .genesis, ⟨some ⟨5, -20⟩⟩⟩ params' := by
  have hlayout : Layout.compact ∈ [Layout.compact, Layout.indented] := List.mem_cons_self ..
  obtain ⟨hparticipant, hstats, hverdict, hparams⟩ := documents_survive_encoding hlayout
  have hscales : ∀ v ∈ Participant.extreme.stats.decimals, v.ModerateScale := by decide
  refine ⟨hparticipant _ hscales, hstats _ hscales, ?_, hparams _ (by decide)⟩
  exact hverdict _ hscales _ (List.mem_cons_of_mem _ (List.mem_cons_self ..))

end ParticipantTrust
