import ParticipantTrust.Transition

namespace ParticipantTrust

def Request.isRemoval : Request → Bool
  | .removeFromGroups .. => true
  | _ => false

variable {σ α β : Type}

-- The program makes `n` requests of this kind, whatever it is answered.
def Makes (kind : Request → Bool) (n : Nat) (program : StateM (σ × List Request) α) : Prop :=
  ∀ s, (program.run s).2.2.countP kind = s.2.countP kind + n

theorem makes_pure (kind : Request → Bool) (a : α) :
    Makes kind 0 (pure a : StateM (σ × List Request) α) := fun _ => rfl

theorem Makes.then {kind : Request → Bool} {n : Nat} {program : StateM (σ × List Request) α}
    {rest : α → StateM (σ × List Request) β} (h : Makes kind n program)
    (hrest : ∀ a, Makes kind 0 (rest a)) : Makes kind n (program >>= rest) :=
  fun s => (hrest _ _).trans (h s)

theorem Makes.before {kind : Request → Bool} {n : Nat} {program : StateM (σ × List Request) α}
    {rest : α → StateM (σ × List Request) β} (h : Makes kind 0 program)
    (hrest : ∀ a, Makes kind n (rest a)) : Makes kind n (program >>= rest) := by
  intro s
  calc ((program >>= rest).run s).2.2.countP kind = (program.run s).2.2.countP kind + n :=
        hrest _ _
    _ = s.2.countP kind + n := congrArg (· + n) (h s)

theorem makes_request {kind : Request → Bool} {n : Nat} (services : Services σ) (request : Request)
    (h : (if kind request then 1 else 0) = n) : Makes kind n (services.journaled request) := by
  intro s
  rw [← h]
  exact List.countP_cons

-- An invalidation ends with one removal, and makes none before.
theorem slashOnce_makes (services : Services σ) (fraction : Option Decimal)
    (epoch : Option UInt64) (address : String) :
    Makes Request.isRemoval 0
      (Transition.slashOnce services.journaled fraction epoch address) := by
  cases fraction with
  | none => exact makes_pure _ _
  | some fraction =>
      cases epoch with
      | none =>
          refine (makes_request services _ rfl).then ?_
          rintro (error | ⟨⟩)
          · exact makes_pure _ _
          · exact makes_pure _ _
      | some epoch =>
          refine (makes_request services _ rfl).then ?_
          intro already
          cases already with
          | true => exact makes_pure _ _
          | false =>
              refine (makes_request services _ rfl).then ?_
              rintro (error | ⟨⟩)
              · exact makes_pure _ _
              · exact (makes_request services _ rfl).then fun _ => makes_pure _ _

theorem excludeOnce_makes (services : Services σ) (block : Block) (reason : Reason)
    (address : String) :
    Makes Request.isRemoval 0
      (Transition.excludeOnce services.journaled block reason address) := by
  unfold Transition.excludeOnce
  cases block.effectiveEpoch with
  | none => exact makes_pure _ _
  | some epoch =>
      refine (makes_request services _ rfl).then ?_
      intro excluded
      cases excluded with
      | true => exact makes_pure _ _
      | false =>
          refine (makes_request services _ rfl).then ?_
          rintro (error | ⟨⟩)
          · exact makes_pure _ _
          · exact makes_pure _ _

theorem leaveGroups_makes (services : Services σ) (reason : Reason) (address : String) :
    Makes Request.isRemoval 1 (Transition.leaveGroups services.journaled reason address) := by
  refine (makes_request services _ rfl).then ?_
  rintro (error | ⟨⟩)
  · exact makes_pure _ _
  · exact makes_pure _ _

theorem invalidate_makes (params : Params) (services : Services σ) (block : Block)
    (reason : Reason) (p : Participant) :
    Makes Request.isRemoval 1
      (Transition.invalidate params services.journaled block reason p) := by
  refine (slashOnce_makes services _ _ _).before ?_
  rintro ⟨slashed, slashFailures⟩
  refine (excludeOnce_makes services _ _ _).before ?_
  rintro ⟨excluded, exclusionFailures⟩
  refine (leaveGroups_makes services _ _).then ?_
  rintro ⟨removed, groupFailures⟩
  exact makes_pure _ _

end ParticipantTrust
