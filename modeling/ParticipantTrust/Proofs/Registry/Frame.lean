import ParticipantTrust.Proofs.Registry.Report
import ParticipantTrust.Proofs.Verdict.Evidence

namespace ParticipantTrust

theorem Groups.members_remove (g : Groups) (address group : String) :
    (g.remove address).members group = (g.members group).filter (· ≠ address) := by
  obtain ⟨groups⟩ := g
  simp only [members, remove]
  induction groups with
  | nil => rfl
  | cons entry groups ih =>
      obtain ⟨name, members⟩ := entry
      simp only [List.map_cons, List.lookup_cons]
      cases group == name with
      | true => rfl
      | false => exact ih

theorem Groups.mem_members_remove (g : Groups) (address group : String) {other : String}
    (h : other ≠ address) : other ∈ (g.remove address).members group ↔ other ∈ g.members group := by
  simp [members_remove, h]

theorem Status.ne_ramping_of_isSticky {status : Status} (h : status.isSticky = true) :
    status ≠ .ramping := by
  rintro rfl
  cases h

namespace Verdict

theorem ofConfirmation_ne_ramping (confirmation : Option ConfirmationParams) (stats : EpochStats) :
    (ofConfirmation confirmation stats).status ≠ .ramping := by
  unfold ofConfirmation
  split <;> nofun

theorem ofDowntime_ne_ramping (params : ValidationParams) (confirmation : Option ConfirmationParams)
    (stats previous : EpochStats) :
    (ofDowntime params confirmation stats previous).status ≠ .ramping := by
  unfold ofDowntime
  split
  · nofun
  · simp only []
    split
    · nofun
    · exact ofConfirmation_ne_ramping confirmation _

theorem ofInvalidations_ne_ramping (params : ValidationParams)
    (confirmation : Option ConfirmationParams) (stats previous : EpochStats) :
    (ofInvalidations params confirmation stats previous).status ≠ .ramping := by
  unfold ofInvalidations
  split
  · nofun
  · simp only []
    split
    · nofun
    · exact ofDowntime_ne_ramping params confirmation _ previous

end Verdict

-- A participant is ramping by whoever keeps the participants, never by a verdict.
theorem evaluate_ne_ramping (params : Option ValidationParams)
    (confirmation : Option ConfirmationParams) (p : Participant) (previous : EpochStats) :
    (evaluate params confirmation p previous).status ≠ .ramping := by
  unfold evaluate
  split
  · nofun
  · split
    · split
      · rename_i hsticky
        exact Status.ne_ramping_of_isSticky hsticky
      · unfold Verdict.ofStreak
        split
        · nofun
        · nofun
        · exact Verdict.ofInvalidations_ne_ramping _ confirmation p.stats previous
    · nofun

-- What an evaluation reads and never writes.
structure Participant.SameRecord (before after : Participant) : Prop where
  address : after.address = before.address
  streak : after.streak = before.streak
  inferenceCount : after.stats.inferenceCount = before.stats.inferenceCount
  missedRequests : after.stats.missedRequests = before.stats.missedRequests
  validatedInferences : after.stats.validatedInferences = before.stats.validatedInferences
  invalidatedInferences : after.stats.invalidatedInferences = before.stats.invalidatedInferences
  confirmationRatio : after.stats.confirmationRatio = before.stats.confirmationRatio

theorem Participant.update_sameRecord {σ : Type} (p : Participant) (params : Params)
    (services : Services σ) (previous : EpochStats) (block : Block) (s : σ) :
    p.SameRecord ((p.update params services previous block).run s).1.1 := by
  cases hsticky : p.status.isSticky with
  | true =>
      rw [p.update_of_isSticky params services previous block s hsticky]
      exact ⟨rfl, rfl, rfl, rfl, rfl, rfl, rfl⟩
  | false =>
      obtain ⟨invalid, inactive, hstats⟩ :=
        evaluate_stats (some params.validation) (some params.confirmation) p previous
      rw [p.update_participant params services previous block s hsticky]
      simp only [Participant.verdict, hstats]
      exact ⟨rfl, rfl, rfl, rfl, rfl, rfl, rfl⟩

theorem Participant.update_ne_ramping {σ : Type} (p : Participant) (params : Params)
    (services : Services σ) (previous : EpochStats) (block : Block) (s : σ) :
    ((p.update params services previous block).run s).1.1.status ≠ .ramping := by
  cases hsticky : p.status.isSticky with
  | true =>
      rw [p.update_of_isSticky params services previous block s hsticky]
      exact Status.ne_ramping_of_isSticky hsticky
  | false =>
      rw [p.update_participant params services previous block s hsticky]
      exact evaluate_ne_ramping _ _ p previous

namespace Registry

-- The two registries agree on everything but the stake of `address`, one slash of it, its groups, and
-- its exclusion and its mark in `epoch`.
structure SameElsewhere (epoch : Option UInt64) (address : String) (before after : Registry) :
    Prop where
  balance : ∀ other, other ≠ address →
    after.collateral.balance? other = before.collateral.balance? other
  slashes : after.collateral.slashes = before.collateral.slashes ∨
    before.collateral.Appended after.collateral address
  members : ∀ group other, other ≠ address →
    (other ∈ after.groups.members group ↔ other ∈ before.groups.members group)
  exclusion : ∀ e other, ¬(epoch = some e ∧ other = address) →
    after.exclusions.get? e other = before.exclusions.get? e other
  mark : ∀ e other, ¬(epoch = some e ∧ other = address) →
    after.alreadySlashed e other = before.alreadySlashed e other

variable (r : Registry) (address : String)

theorem sameElsewhere_self (epoch : Option UInt64) : SameElsewhere epoch address r r where
  balance := fun _ _ => rfl
  slashes := .inl rfl
  members := fun _ _ _ => Iff.rfl
  exclusion := fun _ _ _ => rfl
  mark := fun _ _ _ => rfl

theorem slash_balance_of_ne (c : Collateral) (fraction : Decimal) {other : String}
    (h : other ≠ address) : (c.slash address fraction).balance? other = c.balance? other := by
  cases hheld : c.balance? address with
  | none => rw [c.slash_of_none address fraction hheld]
  | some balance => rw [c.balance?_slash_of_some address fraction hheld, if_neg h]

theorem slash_slashes_cases (c : Collateral) (fraction : Decimal) :
    (c.slash address fraction).slashes = c.slashes ∨
      c.Appended (c.slash address fraction) address := by
  by_cases hheld : c.balance? address = none
  · rw [c.slash_of_none address fraction hheld]
    exact .inl rfl
  · exact .inr ((c.appended_slash_iff address fraction).mpr hheld)

theorem slashOnce_alreadySlashed (fraction : Option Decimal) (epoch : Option UInt64) (e : UInt64)
    (other : String) (h : ¬(epoch = some e ∧ other = address)) :
    (r.slashOnce fraction epoch address).alreadySlashed e other = r.alreadySlashed e other := by
  cases fraction with
  | none => rfl
  | some share =>
      cases epoch with
      | none => rfl
      | some current =>
          have hmark : ¬(e = current ∧ other = address) := fun he => h ⟨by rw [he.1], he.2⟩
          simp only [slashOnce]
          split
          · rfl
          · unfold markSlashed slash
            split
            · rfl
            · simp [alreadySlashed, hmark]

theorem excludeOnce_get?_of_ne (block : Block) (reason : Reason) (e : UInt64) (other : String)
    (h : ¬(block.effectiveEpoch = some e ∧ other = address)) :
    (r.excludeOnce block reason address).exclusions.get? e other = r.exclusions.get? e other := by
  unfold excludeOnce recordExclusion
  cases hepoch : block.effectiveEpoch with
  | none => rfl
  | some current =>
      simp only []
      split
      · rfl
      · rw [Exclusions.get?_record_of_not_matches]
        rintro ⟨rfl, rfl⟩
        exact h ⟨hepoch, rfl⟩

theorem leaveGroups_members (group : String) {other : String} (h : other ≠ address) :
    other ∈ (r.leaveGroups address).groups.members group ↔ other ∈ r.groups.members group := by
  unfold leaveGroups removeFromGroups
  split
  · exact r.groups.mem_members_remove address group h
  · rfl

theorem sameElsewhere_invalidated (params : Params) (block : Block) (reason : Reason) :
    SameElsewhere block.effectiveEpoch address r (r.invalidated params block reason address) := by
  have hcollateral := r.invalidated_collateral params block reason address
  obtain ⟨groups, -, heq⟩ := r.invalidated_eq params block reason address
  have hslash := r.slashOnce_collateral params.collateral.slashFraction block.effectiveEpoch address
  constructor
  case balance =>
    intro other hother
    rw [hcollateral]
    rcases hslash with ⟨share, -, -, hshare⟩ | ⟨-, hkept⟩
    · rw [hshare, slash_balance_of_ne address _ share hother]
    · rw [hkept]
  case slashes =>
    rcases hslash with ⟨share, -, -, hshare⟩ | ⟨-, hkept⟩
    · simp only [Collateral.Appended, hcollateral, hshare]
      exact slash_slashes_cases address r.collateral share
    · rw [hcollateral, hkept]
      exact .inl rfl
  case members =>
    intro group other hother
    rw [invalidated, leaveGroups_members _ _ _ hother, excludeOnce_groups, slashOnce_groups]
  case exclusion =>
    intro e other h
    rw [heq]
    exact (excludeOnce_get?_of_ne _ address block reason e other h).trans (by rw [slashOnce_exclusions])
  case mark =>
    intro e other h
    rw [heq]
    exact r.slashOnce_alreadySlashed address _ _ e other h

end Registry

-- An update writes to the participant and to the registry no more than its verdict gives it leave to.
theorem Registry.update_frame (r : Registry) (p : Participant) (params : Params)
    (previous : EpochStats) (block : Block) :
    let result := (p.update params Registry.services previous block).run r
    let after := result.1.1
    p.SameRecord after ∧
    (after.status = p.status ∨ after.status = .active ∨ after.status = .inactive ∨
      after.status = .invalid) ∧
    after.status ≠ .ramping ∧
    (¬(p.status.isSticky = false ∧ after.status = .invalid) →
      after.epochsCompleted = p.epochsCompleted ∧ result.2 = r) ∧
    SameElsewhere block.effectiveEpoch p.address r result.2 := by
  intro result after
  have hramping : after.status ≠ .ramping := p.update_ne_ramping params services previous block r
  refine ⟨p.update_sameRecord params services previous block r, ?_, hramping, ?_, ?_⟩
  · cases hstatus : after.status with
    | active => simp
    | ramping => exact absurd hstatus hramping
    | inactive => simp
    | invalid => simp
  · intro hkeep
    refine p.update_of_spared params services previous block r fun ⟨hsticky, hinvalid⟩ => ?_
    refine hkeep ⟨hsticky, ?_⟩
    exact (congrArg Participant.status
      (p.update_participant params services previous block r hsticky)).trans hinvalid
  · rcases r.update_cases p params previous block with ⟨reason, hafter⟩ | ⟨hafter, -⟩
    · rw [hafter]
      exact r.sameElsewhere_invalidated p.address params block reason
    · rw [hafter]
      exact r.sameElsewhere_self p.address _

-- The other stake and the other member of the group stand as they were.
theorem Registry.update_frame_of_two_stakes :
    let p : Participant := { Participant.new "gonka1alice" .active with streak := 20 }
    let r : Registry := {
      Registry.empty with
      collateral := (Collateral.empty.deposit "gonka1alice" (Decimal.ofInt 1003)).deposit
        "gonka1bob" (Decimal.ofInt 500)
      groups := (Groups.empty.add "parent" "gonka1alice").add "parent" "gonka1bob" }
    let result := (p.update .genesis Registry.services .zero ⟨120, some 7⟩).run r
    result.1.1.status = .invalid ∧ result.1.1.streak = 20 ∧
      result.2.collateral.balance? "gonka1alice" = some (Decimal.ofInt 803) ∧
      result.2.collateral.balance? "gonka1bob" = some (Decimal.ofInt 500) ∧
      result.2.groups.members "parent" = ["gonka1bob"] ∧
      result.2.exclusions.get? 6 "gonka1alice" = none ∧
      result.2.alreadySlashed 7 "gonka1bob" = false := by
  intro p r result
  obtain ⟨hrecord, -, -, -, helsewhere⟩ := r.update_frame p .genesis .zero ⟨120, some 7⟩
  refine ⟨by decide +kernel, hrecord.streak, by decide +kernel, ?_, by decide +kernel, ?_, ?_⟩
  · exact (helsewhere.balance "gonka1bob" (by decide)).trans (by decide)
  · exact (helsewhere.exclusion 6 "gonka1alice" (by decide)).trans (by decide)
  · exact (helsewhere.mark 7 "gonka1bob" (by decide)).trans (by decide)

end ParticipantTrust
