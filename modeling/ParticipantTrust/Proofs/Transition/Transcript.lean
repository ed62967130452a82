import ParticipantTrust.Proofs.Transition.Update

namespace ParticipantTrust

variable {σ α β : Type}

structure Exchange where
  request : Request
  answer : request.Answer

-- The services with a transcript of all exchanges, first one first.
def Services.transcribed (services : Services σ) : Services (σ × List Exchange) :=
  fun request state =>
    let (answer, after) := services request state.1
    (answer, after, state.2 ++ [⟨request, answer⟩])

-- `program` does what `plain` does and adds exchanges to the transcript that fit its result.
def Records (program : StateM (σ × List Exchange) α) (plain : StateM σ α)
    (fits : α → List Exchange → Prop) : Prop :=
  ∀ s t, ∃ exchanges,
    program.run (s, t) = ((plain.run s).1, (plain.run s).2, t ++ exchanges) ∧
      fits (plain.run s).1 exchanges

namespace Records

theorem pure {fits : α → List Exchange → Prop} (a : α) (h : fits a []) :
    Records (Pure.pure a : StateM (σ × List Exchange) α) (Pure.pure a) fits :=
  fun s t => ⟨[], by rw [List.append_nil]; rfl, h⟩

theorem request {fits : α → List Exchange → Prop} (services : Services σ) (request : Request)
    {rest : request.Answer → StateM (σ × List Exchange) α} {rest' : request.Answer → StateM σ α}
    (h : ∀ answer, Records (rest answer) (rest' answer)
      fun a exchanges => fits a (⟨request, answer⟩ :: exchanges)) :
    Records (services.transcribed request >>= rest) (services request >>= rest') fits := by
  intro s t
  obtain ⟨exchanges, hrun, hfits⟩ := h (services request s).1 (services request s).2
    (t ++ [⟨request, (services request s).1⟩])
  refine ⟨⟨request, (services request s).1⟩ :: exchanges, ?_, hfits⟩
  rw [List.append_assoc, List.singleton_append] at hrun
  exact hrun

theorem bind {first : α → List Exchange → Prop} {fits : β → List Exchange → Prop}
    {program : StateM (σ × List Exchange) α} {plain : StateM σ α}
    {rest : α → StateM (σ × List Exchange) β} {rest' : α → StateM σ β}
    (h : Records program plain first)
    (hrest : ∀ a earlier, first a earlier →
      Records (rest a) (rest' a) fun b later => fits b (earlier ++ later)) :
    Records (program >>= rest) (plain >>= rest') fits := by
  intro s t
  obtain ⟨earlier, hrun, hfirst⟩ := h s t
  obtain ⟨later, hlater, hfits⟩ := hrest _ earlier hfirst (plain.run s).2 (t ++ earlier)
  refine ⟨earlier ++ later, ?_, hfits⟩
  rw [← List.append_assoc]
  refine Eq.trans ?_ hlater
  change (rest (program.run (s, t)).1).run (program.run (s, t)).2 = _
  rw [hrun]

end Records

-- The ways that slashing can go. A slash that is carried out is marked where there is an epoch.
inductive SlashCourse (address : String) :
    Option Decimal → Option UInt64 → List Exchange → Bool → List StepFailure → Prop where
  | unset (epoch : Option UInt64) : SlashCourse address none epoch [] false []
  | refusedOutside (fraction : Decimal) (error : ServiceError) :
      SlashCourse address (some fraction) none
        [⟨.slashCollateral address fraction, .error error⟩] false [⟨.slashCollateral, error⟩]
  | slashedOutside (fraction : Decimal) : SlashCourse address (some fraction) none
      [⟨.slashCollateral address fraction, .ok ()⟩] true []
  | already (fraction : Decimal) (epoch : UInt64) : SlashCourse address (some fraction) (some epoch)
      [⟨.alreadySlashed epoch address, true⟩] false []
  | refused (fraction : Decimal) (epoch : UInt64) (error : ServiceError) :
      SlashCourse address (some fraction) (some epoch)
        [⟨.alreadySlashed epoch address, false⟩, ⟨.slashCollateral address fraction, .error error⟩]
        false [⟨.slashCollateral, error⟩]
  | unmarked (fraction : Decimal) (epoch : UInt64) (error : ServiceError) :
      SlashCourse address (some fraction) (some epoch)
        [⟨.alreadySlashed epoch address, false⟩, ⟨.slashCollateral address fraction, .ok ()⟩,
          ⟨.markSlashed epoch address, .error error⟩] true [⟨.markSlashed, error⟩]
  | marked (fraction : Decimal) (epoch : UInt64) : SlashCourse address (some fraction) (some epoch)
      [⟨.alreadySlashed epoch address, false⟩, ⟨.slashCollateral address fraction, .ok ()⟩,
        ⟨.markSlashed epoch address, .ok ()⟩] true []

inductive ExclusionCourse (height : UInt64) (reason : Reason) (address : String) :
    Option UInt64 → List Exchange → Bool → List StepFailure → Prop where
  | outside : ExclusionCourse height reason address none [] false []
  | already (epoch : UInt64) : ExclusionCourse height reason address (some epoch)
      [⟨.isExcluded epoch address, true⟩] false []
  | refused (epoch : UInt64) (error : ServiceError) :
      ExclusionCourse height reason address (some epoch)
        [⟨.isExcluded epoch address, false⟩,
          ⟨.recordExclusion ⟨address, epoch, reason.text, height⟩, .error error⟩]
        false [⟨.recordExclusion, error⟩]
  | recorded (epoch : UInt64) : ExclusionCourse height reason address (some epoch)
      [⟨.isExcluded epoch address, false⟩,
        ⟨.recordExclusion ⟨address, epoch, reason.text, height⟩, .ok ()⟩] true []

inductive RemovalCourse (reason : Reason) (address : String) :
    List Exchange → Bool → List StepFailure → Prop where
  | refused (error : ServiceError) : RemovalCourse reason address
      [⟨.removeFromGroups address reason, .error error⟩] false [⟨.removeFromGroups, error⟩]
  | removed : RemovalCourse reason address [⟨.removeFromGroups address reason, .ok ()⟩] true []

theorem slashOnce_records (services : Services σ) (fraction : Option Decimal)
    (epoch : Option UInt64) (address : String) :
    Records (Transition.slashOnce services.transcribed fraction epoch address)
      (Transition.slashOnce services fraction epoch address)
      fun result exchanges => SlashCourse address fraction epoch exchanges result.1 result.2 := by
  cases fraction with
  | none => exact .pure _ (.unset epoch)
  | some fraction =>
      cases epoch with
      | none =>
          refine .request services _ ?_
          rintro (error | ⟨⟩)
          · exact .pure _ (.refusedOutside fraction error)
          · exact .pure _ (.slashedOutside fraction)
      | some epoch =>
          refine .request services _ ?_
          intro already
          cases already with
          | true => exact .pure _ (.already fraction epoch)
          | false =>
              refine .request services _ ?_
              rintro (error | ⟨⟩)
              · exact .pure _ (.refused fraction epoch error)
              · refine .request services _ ?_
                rintro (error | ⟨⟩)
                · exact .pure _ (.unmarked fraction epoch error)
                · exact .pure _ (.marked fraction epoch)

theorem excludeOnce_records (services : Services σ) (block : Block) (reason : Reason)
    (address : String) :
    Records (Transition.excludeOnce services.transcribed block reason address)
      (Transition.excludeOnce services block reason address)
      fun result exchanges => ExclusionCourse block.height reason address block.effectiveEpoch
        exchanges result.1 result.2 := by
  unfold Transition.excludeOnce
  cases block.effectiveEpoch with
  | none => exact .pure _ .outside
  | some epoch =>
      refine .request services _ ?_
      intro excluded
      cases excluded with
      | true => exact .pure _ (.already epoch)
      | false =>
          refine .request services _ ?_
          rintro (error | ⟨⟩)
          · exact .pure _ (.refused epoch error)
          · exact .pure _ (.recorded epoch)

theorem leaveGroups_records (services : Services σ) (reason : Reason) (address : String) :
    Records (Transition.leaveGroups services.transcribed reason address)
      (Transition.leaveGroups services reason address)
      fun result exchanges => RemovalCourse reason address exchanges result.1 result.2 := by
  refine .request services _ ?_
  rintro (error | ⟨⟩)
  · exact .pure _ (.refused error)
  · exact .pure _ .removed

end ParticipantTrust
