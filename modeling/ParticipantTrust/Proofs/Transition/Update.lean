import ParticipantTrust.Transition
import ParticipantTrust.Settlement

namespace ParticipantTrust

variable {σ : Type}

-- What an update goes by.
def Participant.verdict (p : Participant) (params : Params) (previous : EpochStats) : Verdict :=
  evaluate (some params.validation) (some params.confirmation) p previous

-- A sticky status shuts every check off, with or without parameters.
theorem evaluate_stats_of_isSticky (params : Option ValidationParams)
    (confirmation : Option ConfirmationParams) (p : Participant) (previous : EpochStats)
    (h : p.status.isSticky = true) : (evaluate params confirmation p previous).stats = p.stats := by
  unfold evaluate
  split
  · rfl
  · split
    · rw [if_pos h]
    · rfl

namespace Transition

theorem invalidate_run (params : Params) (services : Services σ) (block : Block) (reason : Reason)
    (p : Participant) (s : σ) :
    (invalidate params services block reason p).run s =
      let slash := (slashOnce services params.collateral.slashFraction block.effectiveEpoch
        p.address).run s
      let exclusion := (excludeOnce services block reason p.address).run slash.2
      let removal := (leaveGroups services reason p.address).run exclusion.2
      let epochs := preservedReputation p.epochsCompleted params.validation.reputationPreserve
      (({ p with epochsCompleted := epochs },
        { slashed := slash.1.1
          exclusionRecorded := exclusion.1.1
          epochsBefore := p.epochsCompleted
          epochsAfter := epochs
          removedFromGroups := removal.1.1 },
        slash.1.2 ++ exclusion.1.2 ++ removal.1.2), removal.2) := rfl

end Transition

namespace Participant

theorem update_of_kept (p : Participant) (params : Params) (services : Services σ)
    (previous : EpochStats) (block : Block) (s : σ)
    (h : (p.verdict params previous).status = p.status ∨ p.status.isSticky = true) :
    (p.update params services previous block).run s =
      (({ p with stats := (p.verdict params previous).stats },
        .ok ⟨p.status, p.status, (p.verdict params previous).reason, none⟩), s) := by
  unfold update
  exact congrArg (fun x => StateT.run x s) (if_pos h)

theorem update_of_isSticky (p : Participant) (params : Params) (services : Services σ)
    (previous : EpochStats) (block : Block) (s : σ) (h : p.status.isSticky = true) :
    (p.update params services previous block).run s =
      ((p, .ok ⟨p.status, p.status, (p.verdict params previous).reason, none⟩), s) := by
  rw [update_of_kept p params services previous block s (.inr h)]
  have hstats : (p.verdict params previous).stats = p.stats :=
    evaluate_stats_of_isSticky _ _ _ _ h
  rw [hstats]

theorem update_of_moved (p : Participant) (params : Params) (services : Services σ)
    (previous : EpochStats) (block : Block) (s : σ)
    (hmove : (p.verdict params previous).status ≠ p.status) (hsticky : p.status.isSticky = false)
    (hvalid : (p.verdict params previous).status ≠ .invalid) :
    (p.update params services previous block).run s =
      let verdict := p.verdict params previous
      (({ p with stats := verdict.stats, status := verdict.status },
        .ok ⟨p.status, verdict.status, verdict.reason, none⟩), s) := by
  have hgo : ¬((p.verdict params previous).status = p.status ∨ p.status.isSticky = true) := by
    simp [hmove, hsticky]
  unfold update
  refine congrArg (fun x => StateT.run x s) ((if_neg hgo).trans ?_)
  exact if_neg hvalid

theorem update_of_invalid (p : Participant) (params : Params) (services : Services σ)
    (previous : EpochStats) (block : Block) (s : σ) (hsticky : p.status.isSticky = false)
    (hinvalid : (p.verdict params previous).status = .invalid) :
    (p.update params services previous block).run s =
      let verdict := p.verdict params previous
      let done := (Transition.invalidate params services block verdict.reason
        { p with stats := verdict.stats, status := verdict.status }).run s
      ((done.1.1,
        if done.1.2.2.isEmpty then
          .ok ⟨p.status, verdict.status, verdict.reason, some done.1.2.1⟩
        else .error ⟨done.1.1.address, done.1.1.status, done.1.2.2⟩), done.2) := by
  have hmove : (p.verdict params previous).status ≠ p.status := by
    intro h
    rw [← h, hinvalid] at hsticky
    cases hsticky
  have hgo : ¬((p.verdict params previous).status = p.status ∨ p.status.isSticky = true) := by
    simp [hmove, hsticky]
  extract_lets verdict done
  unfold update
  refine (congrArg (fun x => StateT.run x s) ((if_neg hgo).trans (if_pos hinvalid))).trans ?_
  by_cases hempty : done.1.2.2.isEmpty = true
  · rw [if_pos hempty]
    exact congrArg (fun x => StateT.run x done.2) (if_pos hempty)
  · rw [if_neg hempty]
    exact congrArg (fun x => StateT.run x done.2) (if_neg hempty)

-- Without a move to `invalid` neither the services nor the reputation are touched.
theorem update_of_spared (p : Participant) (params : Params) (services : Services σ)
    (previous : EpochStats) (block : Block) (s : σ)
    (h : ¬(p.status.isSticky = false ∧ (p.verdict params previous).status = .invalid)) :
    ((p.update params services previous block).run s).1.1.epochsCompleted = p.epochsCompleted ∧
      ((p.update params services previous block).run s).2 = s := by
  by_cases hkept : (p.verdict params previous).status = p.status ∨ p.status.isSticky = true
  · rw [p.update_of_kept params services previous block s hkept]
    exact ⟨rfl, rfl⟩
  · obtain ⟨hmove, hsticky⟩ := not_or.mp hkept
    have hsticky : p.status.isSticky = false := Bool.eq_false_iff.mpr hsticky
    have hvalid : (p.verdict params previous).status ≠ .invalid := fun hi => h ⟨hsticky, hi⟩
    rw [p.update_of_moved params services previous block s hmove hsticky hvalid]
    exact ⟨rfl, rfl⟩

-- The participant that an update leaves behind does not depend on what the services answer.
theorem update_participant (p : Participant) (params : Params) (services : Services σ)
    (previous : EpochStats) (block : Block) (s : σ) (hsticky : p.status.isSticky = false) :
    ((p.update params services previous block).run s).1.1 =
      let verdict := p.verdict params previous
      { p with
        status := verdict.status
        stats := verdict.stats
        epochsCompleted :=
          if verdict.status = .invalid then
            preservedReputation p.epochsCompleted params.validation.reputationPreserve
          else p.epochsCompleted } := by
  extract_lets verdict
  by_cases hinvalid : verdict.status = .invalid
  · rw [update_of_invalid p params services previous block s hsticky hinvalid, if_pos hinvalid]
    exact congrArg (·.1.1) (Transition.invalidate_run params services block verdict.reason
      { p with stats := verdict.stats, status := verdict.status } s)
  rw [if_neg hinvalid]
  by_cases hkept : verdict.status = p.status
  · rw [update_of_kept p params services previous block s (.inl hkept), hkept]
  · rw [update_of_moved p params services previous block s hkept hsticky hinvalid]

end Participant

end ParticipantTrust
