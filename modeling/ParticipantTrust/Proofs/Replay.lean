import ParticipantTrust.Replay
import ParticipantTrust.Registry.Basic
import ParticipantTrust.Proofs.Transition.Update
import ParticipantTrust.Proofs.Verdict.Repetition

namespace ParticipantTrust

-- The documents of a replay, read.
structure ReadsAs (paramsText participantText : String) (previousText : Option String)
    (params : Params) (p : Participant) (previous : EpochStats) : Prop where
  params : paramsRecord.codec.decode paramsText = .ok params
  participant : participantRecord.codec.decode participantText = .ok p
  previous : match previousText with
    | none => previous = .zero
    | some text => statsRecord.codec.decode text = .ok previous

section Replay

variable {paramsText participantText : String} {previousText : Option String} {params : Params}
  {p : Participant} {previous : EpochStats}

theorem ReadsAs.replay_eq
    (h : ReadsAs paramsText participantText previousText params p previous) :
    replay paramsText participantText previousText = .ok (p.verdict params previous) := by
  obtain ⟨hparams, hparticipant, hprevious⟩ := h
  cases previousText with
  | none =>
      simp only [] at hprevious
      simp only [replay, hparams, hparticipant, Except.mapError, hprevious]
      rfl
  | some text =>
      simp only [] at hprevious
      simp only [replay, hparams, hparticipant, Except.mapError, hprevious]
      rfl

-- A replay has the evaluation of an update but not its guard of sticky statuses. The two tell the same
-- counters always, and the same status unless a sticky one meets parameters with nothing to judge by:
-- there the replay answers `active`, and the update keeps the status.
theorem replay_agrees_with_update_iff {σ : Type}
    (h : ReadsAs paramsText participantText previousText params p previous)
    (services : Services σ) (block : Block) (s : σ) :
    let after := ((p.update params services previous block).run s).1.1
    ∃ verdict, replay paramsText participantText previousText = .ok verdict ∧
      verdict.stats = after.stats ∧
      (verdict.status = after.status ↔ (p.status.isSticky = true → params.validation.Judges)) ∧
      (verdict.status ≠ after.status → verdict.status = .active ∧ after.status = p.status) := by
  intro after
  refine ⟨_, h.replay_eq, ?_⟩
  by_cases hsticky : p.status.isSticky = true
  · have hafter : after = p := by
      simp only [after, p.update_of_isSticky params services previous block s hsticky]
    rw [hafter]
    refine ⟨evaluate_stats_of_isSticky _ _ p previous hsticky, ?_⟩
    by_cases hjudges : params.validation.Judges
    · have hverdict : p.verdict params previous = ⟨p.status, .alreadySet, p.stats⟩ :=
        evaluate_of_isSticky params.validation _ p previous hjudges hsticky
      simp [hverdict, hjudges]
    · have hverdict : p.verdict params previous = ⟨.active, .unremarkable, p.stats⟩ :=
        evaluate_of_not_judges params.validation _ p previous hjudges
      have hactive : Status.active ≠ p.status := by
        intro hactive
        rw [← hactive] at hsticky
        cases hsticky
      simp [hverdict, hjudges, hsticky, hactive]
  · have hafter : after = _ := p.update_participant params services previous block s
      (Bool.eq_false_iff.mpr hsticky)
    simp [hafter, hsticky]

end Replay

-- A rare streak convicts in both, although the participant is in no group that it could be removed from.
theorem replay_agrees_with_failed_update :
    let p : Participant := { Participant.new "gonka1alice" .active with streak := 20 }
    let result := (p.update .genesis Registry.services .zero ⟨120, some 7⟩).run .empty
    let record := "\x7b\"address\": \"gonka1alice\", \"consecutive_invalid_inferences\": 20\x7d"
    ReadsAs "\x7b\x7d" record none .genesis p .zero ∧ result.1.2.toOption = none ∧
      result.1.1.status = .invalid ∧
      ∃ verdict, replay "\x7b\x7d" record none = .ok verdict ∧ verdict.stats = result.1.1.stats ∧
        verdict.status = result.1.1.status := by
  intro p result record
  have hreads : ReadsAs "\x7b\x7d" record none .genesis p .zero :=
    ⟨rfl, by dsimp only [record]; rfl, rfl⟩
  obtain ⟨verdict, hreplay, hstats, hstatus, -⟩ :=
    replay_agrees_with_update_iff hreads Registry.services ⟨120, some 7⟩ .empty
  have hfree : ¬p.status.isSticky = true := by decide
  refine ⟨hreads, by decide +kernel, by decide +kernel, verdict, hreplay, hstats, ?_⟩
  exact hstatus.mpr fun h => absurd h hfree

-- Without parameters the replay of an invalid participant tells an active one.
theorem replay_disagrees_without_parameters :
    let p := Participant.new "gonka1alice" .invalid
    let params := { Params.genesis with validation := .unset }
    let after := ((p.update params Registry.services .zero ⟨120, some 7⟩).run .empty).1.1
    let document := "\x7b\"validation\": \x7b\x7d\x7d"
    let record := "\x7b\"address\": \"gonka1alice\", \"status\": \"INVALID\"\x7d"
    ReadsAs document record none params p .zero ∧
      ∃ verdict, replay document record none = .ok verdict ∧ verdict.status ≠ after.status := by
  intro p params after document record
  have hreads : ReadsAs document record none params p .zero :=
    ⟨by dsimp only [document]; rfl, by dsimp only [record]; rfl, rfl⟩
  have hdiffer : (p.verdict params .zero).status ≠ after.status := by decide +kernel
  exact ⟨hreads, _, hreads.replay_eq, hdiffer⟩

end ParticipantTrust
