import ParticipantTrust.Proofs.Registry.Exclusions
import ParticipantTrust.Proofs.Transition.Update
import ParticipantTrust.Registry.Basic

namespace ParticipantTrust

theorem Groups.isMember_remove (g : Groups) (address : String) :
    (g.remove address).isMember address = false := by
  simp [isMember, remove]

-- What follows an order without touching the state leaves the state of the order.
theorem state_bind {σ α β : Type} (program : StateM σ α) (rest : α → StateM σ β)
    (h : ∀ a s, ((rest a).run s).2 = s) (s : σ) :
    ((program >>= rest).run s).2 = (program.run s).2 := h _ _

namespace Registry

-- What the orders of an invalidation leave behind, one after the other.
def slashOnce (r : Registry) (fraction : Option Decimal) (epoch : Option UInt64)
    (address : String) : Registry :=
  match fraction, epoch with
  | none, _ => r
  | some fraction, none => r.slash address fraction
  | some fraction, some epoch =>
    if r.alreadySlashed epoch address then r
    else (r.slash address fraction).markSlashed epoch address

def excludeOnce (r : Registry) (block : Block) (reason : Reason) (address : String) : Registry :=
  match block.effectiveEpoch with
  | none => r
  | some epoch =>
    if r.exclusions.isExcluded epoch address then r
    else r.recordExclusion ⟨address, epoch, reason.text, block.height⟩

def leaveGroups (r : Registry) (address : String) : Registry := (r.removeFromGroups address).2

theorem slashOnce_run (r : Registry) (fraction : Option Decimal) (epoch : Option UInt64)
    (address : String) :
    ((Transition.slashOnce services fraction epoch address).run r).2 =
      r.slashOnce fraction epoch address := by
  cases fraction with
  | none => rfl
  | some fraction =>
      cases epoch with
      | none => rfl
      | some epoch =>
          change ((if r.alreadySlashed epoch address = true then _ else _ :
            StateM Registry (Bool × List StepFailure)).run r).2 =
              if r.alreadySlashed epoch address = true then _ else _
          split
          · rfl
          · rfl

theorem excludeOnce_run (r : Registry) (block : Block) (reason : Reason) (address : String) :
    ((Transition.excludeOnce services block reason address).run r).2 =
      r.excludeOnce block reason address := by
  unfold excludeOnce Transition.excludeOnce
  cases block.effectiveEpoch with
  | none => rfl
  | some epoch =>
      change ((if r.exclusions.isExcluded epoch address = true then _ else _ :
        StateM Registry (Bool × List StepFailure)).run r).2 =
          if r.exclusions.isExcluded epoch address = true then _ else _
      split
      · rfl
      · rfl

theorem leaveGroups_run (r : Registry) (reason : Reason) (address : String) :
    ((Transition.leaveGroups services reason address).run r).2 = r.leaveGroups address := by
  refine state_bind (services (.removeFromGroups address reason)) _ ?_ r
  rintro (error | ⟨⟩) s
  · rfl
  · rfl

def invalidated (r : Registry) (params : Params) (block : Block) (reason : Reason)
    (address : String) : Registry :=
  ((r.slashOnce params.collateral.slashFraction block.effectiveEpoch address).excludeOnce block
    reason address).leaveGroups address

theorem invalidate_run (r : Registry) (params : Params) (block : Block) (reason : Reason)
    (p : Participant) :
    ((Transition.invalidate params services block reason p).run r).2 =
      r.invalidated params block reason p.address := by
  rw [Transition.invalidate_run]
  simp only [slashOnce_run, excludeOnce_run, leaveGroups_run, invalidated]

@[simp] theorem slashOnce_exclusions (r : Registry) (fraction : Option Decimal)
    (epoch : Option UInt64) (address : String) :
    (r.slashOnce fraction epoch address).exclusions = r.exclusions := by
  unfold slashOnce markSlashed slash
  split
  · rfl
  · rfl
  · split
    · rfl
    · split <;> rfl

@[simp] theorem excludeOnce_collateral (r : Registry) (block : Block) (reason : Reason)
    (address : String) : (r.excludeOnce block reason address).collateral = r.collateral := by
  unfold excludeOnce recordExclusion
  split
  · rfl
  · split <;> rfl

@[simp] theorem excludeOnce_slashed (r : Registry) (block : Block) (reason : Reason)
    (address : String) : (r.excludeOnce block reason address).slashed = r.slashed := by
  unfold excludeOnce recordExclusion
  split
  · rfl
  · split <;> rfl

theorem leaveGroups_eq (r : Registry) (address : String) :
    ∃ groups, groups.isMember address = false ∧
      r.leaveGroups address = { r with groups := groups } := by
  unfold leaveGroups removeFromGroups
  by_cases hmember : r.groups.isMember address = true
  · rw [if_pos hmember]
    exact ⟨r.groups.remove address, r.groups.isMember_remove address, rfl⟩
  · rw [if_neg hmember]
    exact ⟨r.groups, Bool.eq_false_iff.mpr hmember, rfl⟩

theorem mem_slashed_slashOnce (r : Registry) (fraction : Option Decimal) (epoch : Option UInt64)
    (address : String) {mark : UInt64 × String} (h : mark ∈ r.slashed) :
    mark ∈ (r.slashOnce fraction epoch address).slashed := by
  unfold slashOnce markSlashed slash
  split
  · exact h
  · exact h
  · split
    · exact h
    · split
      · exact h
      · exact List.mem_cons_of_mem _ h

-- Slashing under a mark that is not set yet sets it.
theorem slashOnce_grows (r : Registry) (fraction : Option Decimal) (epoch : UInt64)
    (address : String)
    (h : r.collateral.slashes.length <
      (r.slashOnce fraction (some epoch) address).collateral.slashes.length) :
    (epoch, address) ∉ r.slashed ∧
      (epoch, address) ∈ (r.slashOnce fraction (some epoch) address).slashed := by
  cases fraction with
  | none => exact absurd h (Nat.lt_irrefl _)
  | some fraction =>
      by_cases hslashed : r.alreadySlashed epoch address = true
      · simp only [slashOnce, if_pos hslashed, Nat.lt_irrefl] at h
      · have hmark : (epoch, address) ∉ r.slashed := by simpa [alreadySlashed] using hslashed
        have hafter : (r.slash address fraction).alreadySlashed epoch address ≠ true := hslashed
        refine ⟨hmark, ?_⟩
        simp only [slashOnce, if_neg hslashed, markSlashed, if_neg hafter]
        exact List.mem_cons_self

theorem get?_excludeOnce (r : Registry) (block : Block) (reason : Reason) (address : String)
    {epoch : UInt64} {other : String} {entry : Exclusion}
    (h : r.exclusions.get? epoch other = some entry) :
    (r.excludeOnce block reason address).exclusions.get? epoch other = some entry := by
  unfold excludeOnce recordExclusion
  cases block.effectiveEpoch with
  | none => exact h
  | some current =>
      simp only []
      split
      · exact h
      · rename_i hfree
        rw [Exclusions.get?_record_of_not_matches, h]
        rintro ⟨rfl, rfl⟩
        exact hfree (by simp [Exclusions.isExcluded, h])

theorem excludeOnce_isExcluded (r : Registry) (block : Block) (reason : Reason) (address : String)
    {epoch : UInt64} (h : block.effectiveEpoch = some epoch) :
    ((r.excludeOnce block reason address).exclusions.isExcluded epoch address) = true := by
  unfold excludeOnce recordExclusion
  rw [h]
  simp only []
  split
  · assumption
  · simp only [Exclusions.isExcluded]
    rw [Exclusions.get?_record_self r.exclusions ⟨address, epoch, reason.text, block.height⟩]
    rfl

section Invalidated

variable (r : Registry) (params : Params) (block : Block) (reason : Reason) (address : String)

theorem invalidated_eq :
    let slashed := r.slashOnce params.collateral.slashFraction block.effectiveEpoch address
    ∃ groups, groups.isMember address = false ∧
      r.invalidated params block reason address =
        { slashed with
          exclusions := (slashed.excludeOnce block reason address).exclusions
          groups := groups } := by
  intro slashed
  obtain ⟨groups, hmember, hgroups⟩ :=
    (slashed.excludeOnce block reason address).leaveGroups_eq address
  refine ⟨groups, hmember, hgroups.trans ?_⟩
  simp

theorem mem_slashed_invalidated {mark : UInt64 × String} (h : mark ∈ r.slashed) :
    mark ∈ (r.invalidated params block reason address).slashed := by
  obtain ⟨groups, -, heq⟩ := r.invalidated_eq params block reason address
  rw [heq]
  exact r.mem_slashed_slashOnce _ _ address h

theorem invalidated_grows {epoch : UInt64} (hepoch : block.effectiveEpoch = some epoch)
    (h : r.collateral.slashes.length <
      (r.invalidated params block reason address).collateral.slashes.length) :
    (epoch, address) ∉ r.slashed ∧
      (epoch, address) ∈ (r.invalidated params block reason address).slashed := by
  obtain ⟨groups, -, heq⟩ := r.invalidated_eq params block reason address
  rw [heq] at h ⊢
  rw [hepoch] at h ⊢
  exact r.slashOnce_grows _ epoch address h

theorem get?_invalidated {epoch : UInt64} {other : String} {entry : Exclusion}
    (h : r.exclusions.get? epoch other = some entry) :
    (r.invalidated params block reason address).exclusions.get? epoch other = some entry := by
  obtain ⟨groups, -, heq⟩ := r.invalidated_eq params block reason address
  rw [heq]
  apply get?_excludeOnce
  rw [slashOnce_exclusions]
  exact h

theorem invalidated_isExcluded {epoch : UInt64} (h : block.effectiveEpoch = some epoch) :
    (r.invalidated params block reason address).exclusions.isExcluded epoch address = true := by
  obtain ⟨groups, -, heq⟩ := r.invalidated_eq params block reason address
  rw [heq]
  exact excludeOnce_isExcluded _ block reason address h

theorem invalidated_isMember :
    (r.invalidated params block reason address).groups.isMember address = false := by
  obtain ⟨groups, hmember, heq⟩ := r.invalidated_eq params block reason address
  rw [heq]
  exact hmember

end Invalidated

-- The registry is only touched by a move to `invalid`.
theorem update_cases (r : Registry) (p : Participant) (params : Params) (previous : EpochStats)
    (block : Block) :
    let after := (p.update params services previous block).run r
    (∃ reason, after.2 = r.invalidated params block reason p.address) ∨
      (after.2 = r ∧ (p.status ≠ .invalid → after.1.1.status ≠ .invalid)) := by
  by_cases hkept : (p.verdict params previous).status = p.status ∨ p.status.isSticky = true
  · rw [Participant.update_of_kept _ _ _ _ _ _ hkept]
    exact .inr ⟨rfl, id⟩
  obtain ⟨hmove, hsticky⟩ := not_or.mp hkept
  rw [Bool.not_eq_true] at hsticky
  by_cases hinvalid : (p.verdict params previous).status = .invalid
  · rw [Participant.update_of_invalid _ _ _ _ _ _ hsticky hinvalid]
    exact .inl ⟨_, invalidate_run _ _ _ _ _⟩
  · rw [Participant.update_of_moved _ _ _ _ _ _ hmove hsticky hinvalid]
    exact .inr ⟨rfl, fun _ => hinvalid⟩

end Registry

end ParticipantTrust
