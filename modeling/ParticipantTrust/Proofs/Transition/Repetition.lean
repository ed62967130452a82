import ParticipantTrust.Proofs.Transition.Update
import ParticipantTrust.Proofs.Verdict.Repetition

namespace ParticipantTrust.Participant

variable {σ τ : Type} (p : Participant) (params : Params) (services : Services σ)
  (previous : EpochStats) (block : Block) (s : σ)

theorem isSticky_update (h : p.status.isSticky = true) :
    ((p.update params services previous block).run s).1.1.status.isSticky = true := by
  rw [update_of_isSticky p params services previous block s h]
  exact h

-- As long as no sticky status is reached, the verdict on the outcome of an update is the one that led
-- to it, also where the status has changed from `ramping` to `active`.
theorem verdict_update (hp : p.status.isSticky = false) :
    let q := ((p.update params services previous block).run s).1.1
    q.status.isSticky = false → q.verdict params q.stats = p.verdict params previous := by
  intro q hq
  have hverdict : q = _ := update_participant p params services previous block s hp
  have hstats : q.stats = (p.verdict params previous).stats := by rw [hverdict]
  have hstreak : q.streak = p.streak := by rw [hverdict]
  unfold verdict
  rw [evaluate_congr params.validation (some params.confirmation)
    { p with stats := (p.verdict params previous).stats } q.stats hp hq hstreak hstats, hstats]
  exact evaluate_again params.validation (some params.confirmation) p previous

-- An update that follows another with nothing recorded in between neither changes the participant nor
-- asks anything of the services, however the first one has ended.
theorem update_again_changes_nothing (later : Services τ) (next : Block) (t : τ) :
    let q := ((p.update params services previous block).run s).1.1
    ∃ reason, (q.update params later q.stats next).run t =
      ((q, .ok ⟨q.status, q.status, reason, none⟩), t) := by
  intro q
  refine ⟨(q.verdict params q.stats).reason, ?_⟩
  by_cases hq : q.status.isSticky = true
  · exact update_of_isSticky q params later q.stats next t hq
  have hp : p.status.isSticky = false :=
    Bool.eq_false_iff.mpr fun h => hq (isSticky_update p params services previous block s h)
  rw [Bool.not_eq_true] at hq
  have hagain : q.verdict params q.stats = p.verdict params previous :=
    verdict_update p params services previous block s hp hq
  have hverdict : q = _ := update_participant p params services previous block s hp
  have hstatus : (q.verdict params q.stats).status = q.status := by rw [hagain, hverdict]
  have hstats : (q.verdict params q.stats).stats = q.stats := by rw [hagain, hverdict]
  rw [update_of_kept q params later q.stats next t (.inl hstatus), hstats]

end ParticipantTrust.Participant
