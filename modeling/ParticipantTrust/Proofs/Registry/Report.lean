import ParticipantTrust.Proofs.Registry.Collateral

namespace ParticipantTrust

-- A report comes from an invalidation without failures.
theorem Participant.invalidation_of_report {σ : Type} (p : Participant) (params : Params)
    (services : Services σ) (previous : EpochStats) (block : Block) (s : σ)
    {transition : Transition} {report : InvalidationReport}
    (hok : ((p.update params services previous block).run s).1.2 = .ok transition)
    (hreport : transition.invalidation = some report) :
    let verdict := p.verdict params previous
    let done := (Transition.invalidate params services block verdict.reason
      { p with stats := verdict.stats, status := verdict.status }).run s
    p.status.isSticky = false ∧ verdict.status = .invalid ∧ done.1.2 = (report, []) := by
  intro verdict done
  by_cases hkept : verdict.status = p.status ∨ p.status.isSticky = true
  · rw [update_of_kept p params services previous block s hkept] at hok
    cases hok
    cases hreport
  obtain ⟨hmove, hsticky⟩ := not_or.mp hkept
  have hsticky : p.status.isSticky = false := Bool.eq_false_iff.mpr hsticky
  by_cases hinvalid : verdict.status = .invalid
  · rw [update_of_invalid p params services previous block s hsticky hinvalid] at hok
    simp only [] at hok
    split at hok
    · rename_i hnone
      cases hok
      cases hreport
      exact ⟨hsticky, hinvalid, Prod.ext rfl (List.isEmpty_iff.mp hnone)⟩
    · cases hok
  · rw [update_of_moved p params services previous block s hmove hsticky hinvalid] at hok
    cases hok
    cases hreport

-- What follows an order and only looks at its answer.
theorem state_bind_value {σ α β γ : Type} (program : StateM σ α) (rest : α → StateM σ β)
    (view : β → γ) (f : α → γ) (h : ∀ a s, view ((rest a).run s).1 = f a) (s : σ) :
    view ((program >>= rest).run s).1 = f (program.run s).1 := h _ _

namespace Registry

@[simp] theorem slashOnce_groups (r : Registry) (fraction : Option Decimal)
    (epoch : Option UInt64) (address : String) :
    (r.slashOnce fraction epoch address).groups = r.groups := by
  unfold slashOnce markSlashed slash
  split
  · rfl
  · rfl
  · split
    · rfl
    · split <;> rfl

@[simp] theorem excludeOnce_groups (r : Registry) (block : Block) (reason : Reason)
    (address : String) : (r.excludeOnce block reason address).groups = r.groups := by
  unfold excludeOnce recordExclusion
  split
  · rfl
  · split <;> rfl

-- In memory a slash that is due is never refused.
theorem slashOnce_slashed_iff (r : Registry) (fraction : Option Decimal) (epoch : Option UInt64)
    (address : String) :
    ((Transition.slashOnce services fraction epoch address).run r).1.1 = true ↔
      r.SlashDue fraction epoch address := by
  cases fraction with
  | none => exact iff_of_false Bool.false_ne_true fun h => Bool.false_ne_true h.1
  | some share =>
      cases epoch with
      | none => exact iff_of_true rfl ⟨rfl, fun e h => nomatch h⟩
      | some epoch =>
          change ((if r.alreadySlashed epoch address = true then _ else _ :
            StateM Registry (Bool × List StepFailure)).run r).1.1 = true ↔ _
          split
          · rename_i hslashed
            exact iff_of_false Bool.false_ne_true fun h =>
              absurd (h.2 epoch rfl) (by simp [hslashed])
          · rename_i hslashed
            refine iff_of_true rfl ⟨rfl, fun e he => ?_⟩
            cases he
            exact Bool.eq_false_iff.mpr hslashed

theorem excludeOnce_recorded_iff (r : Registry) (block : Block) (reason : Reason)
    (address : String) :
    ((Transition.excludeOnce services block reason address).run r).1.1 = true ↔
      ∃ epoch, block.effectiveEpoch = some epoch ∧ r.exclusions.get? epoch address = none := by
  unfold Transition.excludeOnce
  cases block.effectiveEpoch with
  | none => exact iff_of_false Bool.false_ne_true fun ⟨_, h, _⟩ => nomatch h
  | some epoch =>
      change ((if r.exclusions.isExcluded epoch address = true then _ else _ :
        StateM Registry (Bool × List StepFailure)).run r).1.1 = true ↔ _
      split
      · rename_i hexcluded
        refine iff_of_false Bool.false_ne_true ?_
        rintro ⟨e, he, hfree⟩
        cases he
        simp [Exclusions.isExcluded, hfree] at hexcluded
      · rename_i hfree
        exact iff_of_true rfl ⟨epoch, rfl, by simpa [Exclusions.isExcluded] using hfree⟩

theorem leaveGroups_removed_iff (r : Registry) (reason : Reason) (address : String) :
    ((Transition.leaveGroups services reason address).run r).1.1 = true ↔
      r.groups.isMember address = true := by
  have hanswer : ((Transition.leaveGroups services reason address).run r).1.1 =
      (r.removeFromGroups address).1.toBool := by
    refine state_bind_value (services (.removeFromGroups address reason)) _ Prod.fst Except.toBool
      ?_ r
    rintro (error | ⟨⟩) s
    · rfl
    · rfl
  rw [hanswer, removeFromGroups]
  split
  · rename_i hmember
    exact iff_of_true rfl hmember
  · rename_i hmember
    exact iff_of_false Bool.false_ne_true hmember

theorem excludeOnce_get?_of_none (r : Registry) (block : Block) (reason : Reason) (address : String)
    {epoch : UInt64} (hepoch : block.effectiveEpoch = some epoch)
    (h : r.exclusions.get? epoch address = none) :
    (r.excludeOnce block reason address).exclusions.get? epoch address =
      some ⟨address, epoch, reason.text, block.height⟩ := by
  have hfree : ¬r.exclusions.isExcluded epoch address = true := by simp [Exclusions.isExcluded, h]
  simp only [excludeOnce, hepoch, if_neg hfree, recordExclusion]
  exact Exclusions.get?_record_self r.exclusions ⟨address, epoch, reason.text, block.height⟩

-- The flags of an invalidation in memory.
theorem invalidate_report (r : Registry) (params : Params) (block : Block) (reason : Reason)
    (p : Participant) :
    let report := ((Transition.invalidate params services block reason p).run r).1.2.1
    (report.slashed = true ↔
      r.SlashDue params.collateral.slashFraction block.effectiveEpoch p.address) ∧
    (report.exclusionRecorded = true ↔ ∃ epoch, block.effectiveEpoch = some epoch ∧
      r.exclusions.get? epoch p.address = none) ∧
    (report.removedFromGroups = true ↔ r.groups.isMember p.address = true) := by
  intro report
  have hreport : report = _ :=
    congrArg (fun done => done.1.2.1) (Transition.invalidate_run params services block reason p r)
  simp only [slashOnce_run, excludeOnce_run] at hreport
  rw [hreport]
  refine ⟨slashOnce_slashed_iff r _ _ _, ?_, ?_⟩
  · rw [excludeOnce_recorded_iff, slashOnce_exclusions]
  · rw [leaveGroups_removed_iff, excludeOnce_groups, slashOnce_groups]

theorem invalidated_get? (r : Registry) (params : Params) (block : Block) (reason : Reason)
    (address : String) {epoch : UInt64} (hepoch : block.effectiveEpoch = some epoch)
    (h : r.exclusions.get? epoch address = none) :
    (r.invalidated params block reason address).exclusions.get? epoch address =
      some ⟨address, epoch, reason.text, block.height⟩ := by
  obtain ⟨groups, -, heq⟩ := r.invalidated_eq params block reason address
  rw [heq]
  apply excludeOnce_get?_of_none _ _ _ _ hepoch
  rw [slashOnce_exclusions]
  exact h

end Registry

-- The slashes have one more entry, which is of this address.
def Collateral.Appended (before after : Collateral) (address : String) : Prop :=
  ∃ amount, after.slashes = before.slashes ++ [(address, amount)]

theorem Collateral.appended_slash_iff (c : Collateral) (address : String) (fraction : Decimal) :
    c.Appended (c.slash address fraction) address ↔ c.balance? address ≠ none := by
  cases h : c.balance? address with
  | none =>
      rw [slash_of_none c address fraction h]
      refine iff_of_false ?_ (fun hne => hne rfl)
      rintro ⟨amount, hamount⟩
      simpa using congrArg List.length hamount
  | some balance =>
      exact iff_of_true ⟨_, slashes_slash_of_some c address fraction h⟩ (by simp)

-- A report tells of exclusion, removal and reputation what has come about. Of the slash it tells that
-- one was due, which takes nothing from an address without collateral.
theorem Registry.report_tells_effects_iff (r : Registry) (p : Participant) (params : Params)
    (previous : EpochStats) (block : Block) (transition : Transition) (report : InvalidationReport)
    (hok : ((p.update params services previous block).run r).1.2 = .ok transition)
    (hreport : transition.invalidation = some report) :
    let result := (p.update params services previous block).run r
    let due := r.SlashDue params.collateral.slashFraction block.effectiveEpoch p.address
    ((report.slashed = true ↔ r.collateral.Appended result.2.collateral p.address) ↔
      ¬(due ∧ r.collateral.balance? p.address = none)) ∧
    (report.exclusionRecorded = true ↔ ∃ epoch entry, block.effectiveEpoch = some epoch ∧
      r.exclusions.get? epoch p.address = none ∧
      result.2.exclusions.get? epoch p.address = some entry) ∧
    (report.removedFromGroups = true ↔
      r.groups.isMember p.address = true ∧ result.2.groups.isMember p.address = false) ∧
    report.epochsBefore = p.epochsCompleted ∧
    report.epochsAfter = result.1.1.epochsCompleted := by
  intro result due
  obtain ⟨hsticky, hinvalid, hdone⟩ :=
    p.invalidation_of_report params services previous block r hok hreport
  have hresult : result = _ :=
    p.update_of_invalid params services previous block r hsticky hinvalid
  have hafter : result.2 =
      r.invalidated params block (p.verdict params previous).reason p.address :=
    (congrArg Prod.snd hresult).trans (invalidate_run _ _ _ _ _)
  obtain ⟨hslashed, hrecorded, hremoved⟩ :=
    r.invalidate_report params block (p.verdict params previous).reason
      { p with
        stats := (p.verdict params previous).stats
        status := (p.verdict params previous).status }
  rw [hdone] at hslashed hrecorded hremoved
  rw [hafter]
  refine ⟨?_, ?_, ?_, ?_, ?_⟩
  · rw [hslashed, invalidated_collateral]
    rcases r.slashOnce_collateral params.collateral.slashFraction block.effectiveEpoch p.address
      with ⟨share, -, hdue, hcollateral⟩ | ⟨hdue, hcollateral⟩
    · rw [hcollateral, Collateral.appended_slash_iff]
      simp [due, hdue]
    · rw [hcollateral]
      simp [due, hdue, Collateral.Appended]
  · rw [hrecorded]
    constructor
    · rintro ⟨epoch, hepoch, hfree⟩
      exact ⟨epoch, _, hepoch, hfree, r.invalidated_get? params block _ p.address hepoch hfree⟩
    · rintro ⟨epoch, -, hepoch, hfree, -⟩
      exact ⟨epoch, hepoch, hfree⟩
  · rw [hremoved]
    exact (and_iff_left (r.invalidated_isMember params block _ p.address)).symm
  · exact congrArg (fun done => done.1.epochsBefore) hdone.symm
  · refine (congrArg (fun done => done.1.epochsAfter) hdone.symm).trans ?_
    exact (congrArg (fun done => done.1.1.epochsCompleted) hresult).symm

-- A fifth of the stake is slashed, and the report tells of it.
theorem Registry.report_tells_of_slashed_stake :
    let p : Participant :=
      { Participant.new "gonka1alice" .active with streak := 20, epochsCompleted := 7 }
    let r : Registry := {
      Registry.empty with
      collateral := Collateral.empty.deposit "gonka1alice" (Decimal.ofInt 1003)
      groups := Groups.empty.add "parent" "gonka1alice" }
    let result := (p.update .genesis Registry.services .zero ⟨120, some 7⟩).run r
    let report : InvalidationReport := ⟨true, true, 7, 4, true⟩
    result.1.2 = .ok ⟨.active, .invalid, .consecutiveFailures, some report⟩ ∧
      r.collateral.Appended result.2.collateral "gonka1alice" ∧
      result.2.groups.isMember "gonka1alice" = false ∧ result.1.1.epochsCompleted = 4 := by
  intro p r result report
  have hok : result.1.2 = .ok ⟨.active, .invalid, .consecutiveFailures, some report⟩ := by
    decide +kernel
  obtain ⟨hslashed, -, hremoved, -, hepochs⟩ :=
    r.report_tells_effects_iff p .genesis .zero ⟨120, some 7⟩ _ report hok rfl
  have hstake : r.collateral.balance? "gonka1alice" ≠ none := by decide
  exact ⟨hok, (hslashed.mpr fun h => hstake h.2).mp rfl, (hremoved.mp rfl).2, hepochs.symm⟩

-- Without collateral the report tells of a slash that took nothing.
theorem Registry.report_tells_of_no_slash :
    let p : Participant := { Participant.new "gonka1alice" .active with streak := 20 }
    let r : Registry :=
      { Registry.empty with groups := Groups.empty.add "parent" "gonka1alice" }
    let result := (p.update .genesis Registry.services .zero ⟨120, some 7⟩).run r
    let report : InvalidationReport := ⟨true, true, 0, 0, true⟩
    result.1.2 = .ok ⟨.active, .invalid, .consecutiveFailures, some report⟩ ∧
      ¬(report.slashed = true ↔ r.collateral.Appended result.2.collateral "gonka1alice") := by
  intro p r result report
  have hok : result.1.2 = .ok ⟨.active, .invalid, .consecutiveFailures, some report⟩ := by
    decide +kernel
  have hslashes : result.2.collateral.slashes = [] := by decide +kernel
  refine ⟨hok, fun h => ?_⟩
  obtain ⟨amount, hamount⟩ := h.mp rfl
  rw [hslashes] at hamount
  cases hamount

end ParticipantTrust
