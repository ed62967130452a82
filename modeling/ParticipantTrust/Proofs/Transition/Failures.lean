import ParticipantTrust.Proofs.Transition.Transcript
import Mathlib.Control.Monad.Basic

namespace ParticipantTrust

variable {σ : Type}

def Asked (t : List Exchange) (request : Request) : Prop := ∃ answer, ⟨request, answer⟩ ∈ t

theorem asked_nil (request : Request) : ¬Asked [] request :=
  fun ⟨_, hmem⟩ => List.not_mem_nil hmem

theorem asked_cons (x : Exchange) (t : List Exchange) (request : Request) :
    Asked (x :: t) request ↔ request = x.request ∨ Asked t request := by
  constructor
  · rintro ⟨answer, hmem⟩
    rcases List.mem_cons.mp hmem with rfl | hmem
    · exact .inl rfl
    · exact .inr ⟨answer, hmem⟩
  · rintro (rfl | ⟨answer, hmem⟩)
    · exact ⟨x.answer, List.mem_cons_self⟩
    · exact ⟨answer, List.mem_cons_of_mem x hmem⟩

@[simp] def Request.place : Request → Nat
  | .alreadySlashed .. => 0
  | .slashCollateral .. => 1
  | .markSlashed .. => 2
  | .isExcluded .. => 3
  | .recordExclusion .. => 4
  | .removeFromGroups .. => 5

def Exchange.failure? : Exchange → Option StepFailure
  | ⟨.slashCollateral .., .error error⟩ => some ⟨.slashCollateral, error⟩
  | ⟨.markSlashed .., .error error⟩ => some ⟨.markSlashed, error⟩
  | ⟨.recordExclusion _, .error error⟩ => some ⟨.recordExclusion, error⟩
  | ⟨.removeFromGroups .., .error error⟩ => some ⟨.removeFromGroups, error⟩
  | _ => none

-- Exchanges with places from `low` up to `high`, in step order and no place twice, with their failures.
structure Stage (low high : Nat) (t : List Exchange) (failures : List StepFailure) : Prop where
  within : ∀ x ∈ t, low ≤ x.request.place ∧ x.request.place < high
  ordered : t.Pairwise fun x y => x.request.place < y.request.place
  failures_eq : t.filterMap Exchange.failure? = failures

namespace Stage

variable {low middle high : Nat} {t t' : List Exchange} {failures failures' : List StepFailure}

theorem append (h : Stage low middle t failures) (h' : Stage middle high t' failures')
    (hlow : low ≤ middle) (hhigh : middle ≤ high) :
    Stage low high (t ++ t') (failures ++ failures') where
  within := by
    intro x hx
    rcases List.mem_append.mp hx with hx | hx
    · have hplace := h.within x hx
      omega
    · have hplace := h'.within x hx
      omega
  ordered := by
    refine List.pairwise_append.mpr ⟨h.ordered, h'.ordered, ?_⟩
    intro x hx y hy
    have hbefore := h.within x hx
    have hafter := h'.within y hy
    omega
  failures_eq := by rw [List.filterMap_append, h.failures_eq, h'.failures_eq]

theorem not_mem (h : Stage low high t failures) {x : Exchange}
    (hx : x.request.place < low ∨ high ≤ x.request.place) : x ∉ t := by
  intro hmem
  have hplace := h.within x hmem
  omega

end Stage

-- The slash is asked for where a fraction is set, unless the epoch has seen one. It is marked where
-- it was carried out in an epoch.
structure SlashOrders (address : String) (fraction : Option Decimal) (epoch : Option UInt64)
    (t : List Exchange) : Prop where
  question : ∀ e a, Asked t (.alreadySlashed e a) ↔
    a = address ∧ epoch = some e ∧ fraction.isSome = true
  slash : ∀ a f, Asked t (.slashCollateral a f) ↔
    a = address ∧ fraction = some f ∧
      ¬∃ e, epoch = some e ∧ ⟨.alreadySlashed e address, true⟩ ∈ t
  mark : ∀ e a, Asked t (.markSlashed e a) ↔
    a = address ∧ epoch = some e ∧ ∃ f, ⟨.slashCollateral address f, .ok ()⟩ ∈ t

-- An exclusion is recorded in an epoch that has none yet.
structure ExclusionOrders (height : UInt64) (reason : Reason) (address : String)
    (epoch : Option UInt64) (t : List Exchange) : Prop where
  question : ∀ e a, Asked t (.isExcluded e a) ↔ a = address ∧ epoch = some e
  record : ∀ entry, Asked t (.recordExclusion entry) ↔
    ∃ e, epoch = some e ∧ ⟨.isExcluded e address, true⟩ ∉ t ∧
      entry = ⟨address, e, reason.text, height⟩

theorem SlashOrders.congr {address : String} {fraction : Option Decimal} {epoch : Option UInt64}
    {t t' : List Exchange} (h : SlashOrders address fraction epoch t)
    (hmem : ∀ x : Exchange, x.request.place < 3 → (x ∈ t' ↔ x ∈ t)) :
    SlashOrders address fraction epoch t' := by
  have hasked : ∀ request : Request, request.place < 3 → (Asked t' request ↔ Asked t request) :=
    fun request hplace => exists_congr fun answer => hmem ⟨request, answer⟩ hplace
  constructor
  · intro e a
    rw [hasked _ (by simp)]
    exact h.question e a
  · intro a f
    have hslashed := fun e => hmem ⟨.alreadySlashed e address, true⟩ (by simp)
    simp only [hslashed]
    rw [hasked _ (by simp)]
    exact h.slash a f
  · intro e a
    have hdone := fun f => hmem ⟨.slashCollateral address f, .ok ()⟩ (by simp)
    simp only [hdone]
    rw [hasked _ (by simp)]
    exact h.mark e a

theorem ExclusionOrders.congr {height : UInt64} {reason : Reason} {address : String}
    {epoch : Option UInt64} {t t' : List Exchange}
    (h : ExclusionOrders height reason address epoch t)
    (hmem : ∀ x : Exchange, 3 ≤ x.request.place → x.request.place < 5 → (x ∈ t' ↔ x ∈ t)) :
    ExclusionOrders height reason address epoch t' := by
  have hasked : ∀ request : Request, 3 ≤ request.place → request.place < 5 →
      (Asked t' request ↔ Asked t request) :=
    fun request hlow hhigh => exists_congr fun answer => hmem ⟨request, answer⟩ hlow hhigh
  constructor
  · intro e a
    rw [hasked _ (by simp) (by simp)]
    exact h.question e a
  · intro entry
    have hexcluded := fun e => hmem ⟨.isExcluded e address, true⟩ (by simp) (by simp)
    simp only [hexcluded]
    rw [hasked _ (by simp) (by simp)]
    exact h.record entry

namespace SlashCourse

variable {address : String} {fraction : Option Decimal} {epoch : Option UInt64}
  {t : List Exchange} {slashed : Bool} {failures : List StepFailure}

theorem stage (h : SlashCourse address fraction epoch t slashed failures) :
    Stage 0 3 t failures where
  within := by cases h <;> simp
  ordered := by cases h <;> simp
  failures_eq := by cases h <;> rfl

theorem orders (h : SlashCourse address fraction epoch t slashed failures) :
    SlashOrders address fraction epoch t := by
  cases h <;> constructor <;> intros <;>
    simp [asked_cons, asked_nil, and_comm, eq_comm]

theorem slashed_iff (h : SlashCourse address fraction epoch t slashed failures) :
    slashed = true ↔ ∃ a f, ⟨.slashCollateral a f, .ok ()⟩ ∈ t := by
  cases h <;> simp

end SlashCourse

namespace ExclusionCourse

variable {height : UInt64} {reason : Reason} {address : String} {epoch : Option UInt64}
  {t : List Exchange} {recorded : Bool} {failures : List StepFailure}

theorem stage (h : ExclusionCourse height reason address epoch t recorded failures) :
    Stage 3 5 t failures where
  within := by cases h <;> simp
  ordered := by cases h <;> simp
  failures_eq := by cases h <;> rfl

theorem orders (h : ExclusionCourse height reason address epoch t recorded failures) :
    ExclusionOrders height reason address epoch t := by
  cases h <;> constructor <;> intros <;>
    simp [asked_cons, asked_nil, and_comm, eq_comm]

theorem recorded_iff (h : ExclusionCourse height reason address epoch t recorded failures) :
    recorded = true ↔ ∃ entry, ⟨.recordExclusion entry, .ok ()⟩ ∈ t := by
  cases h <;> simp

end ExclusionCourse

namespace RemovalCourse

variable {reason : Reason} {address : String} {t : List Exchange} {removed : Bool}
  {failures : List StepFailure}

theorem stage (h : RemovalCourse reason address t removed failures) : Stage 5 6 t failures where
  within := by cases h <;> simp
  ordered := by cases h <;> simp
  failures_eq := by cases h <;> rfl

theorem asked_iff (h : RemovalCourse reason address t removed failures) (a : String) (r : Reason) :
    Asked t (.removeFromGroups a r) ↔ a = address ∧ r = reason := by
  cases h <;> simp [asked_cons, asked_nil]

theorem removed_iff (h : RemovalCourse reason address t removed failures) :
    removed = true ↔ ∃ a r, ⟨.removeFromGroups a r, .ok ()⟩ ∈ t := by
  cases h <;> simp

end RemovalCourse

-- All that an invalidation asks for, in step order and nothing twice.
structure InvalidationOrders (params : Params) (block : Block) (reason : Reason) (address : String)
    (t : List Exchange) : Prop where
  ordered : t.Pairwise fun x y => x.request.place < y.request.place
  slash : SlashOrders address params.collateral.slashFraction block.effectiveEpoch t
  exclusion : ExclusionOrders block.height reason address block.effectiveEpoch t
  removal : ∀ a r, Asked t (.removeFromGroups a r) ↔ a = address ∧ r = reason

structure InvalidationReport.Tells (report : InvalidationReport) (params : Params)
    (completed : UInt32) (t : List Exchange) : Prop where
  slashed_iff : report.slashed = true ↔ ∃ a f, ⟨.slashCollateral a f, .ok ()⟩ ∈ t
  recorded_iff : report.exclusionRecorded = true ↔ ∃ entry, ⟨.recordExclusion entry, .ok ()⟩ ∈ t
  removed_iff : report.removedFromGroups = true ↔ ∃ a r, ⟨.removeFromGroups a r, .ok ()⟩ ∈ t
  epochsBefore_eq : report.epochsBefore = completed
  epochsAfter_eq :
    report.epochsAfter = preservedReputation completed params.validation.reputationPreserve

namespace Transition

theorem invalidate_records (params : Params) (services : Services σ) (block : Block)
    (reason : Reason) (p : Participant) :
    Records (invalidate params services.transcribed block reason p)
      (invalidate params services block reason p)
      fun result t =>
        result.1 = { p with
          epochsCompleted :=
            preservedReputation p.epochsCompleted params.validation.reputationPreserve } ∧
        InvalidationOrders params block reason p.address t ∧
        result.2.1.Tells params p.epochsCompleted t ∧
        result.2.2 = t.filterMap Exchange.failure? := by
  refine .bind (slashOnce_records services _ _ _) ?_
  rintro ⟨slashed, slashFailures⟩ t₁ h₁
  refine .bind (excludeOnce_records services _ _ _) ?_
  rintro ⟨recorded, exclusionFailures⟩ t₂ h₂
  refine .bind (leaveGroups_records services _ _) ?_
  rintro ⟨removed, groupFailures⟩ t₃ h₃
  have whole : Stage 0 6 (t₁ ++ t₂ ++ t₃) (slashFailures ++ exclusionFailures ++ groupFailures) :=
    (h₁.stage.append h₂.stage (by omega) (by omega)).append h₃.stage (by omega) (by omega)
  -- the place of an exchange says which of the three stages it is from
  have early : ∀ x : Exchange, x.request.place < 3 → (x ∈ t₁ ++ t₂ ++ t₃ ↔ x ∈ t₁) := by
    intro x hx
    have h₂ := h₂.stage.not_mem (.inl hx)
    have h₃ := h₃.stage.not_mem (x := x) (.inl (by omega))
    simp [h₂, h₃]
  have middle : ∀ x : Exchange, 3 ≤ x.request.place → x.request.place < 5 →
      (x ∈ t₁ ++ t₂ ++ t₃ ↔ x ∈ t₂) := by
    intro x hlow hhigh
    have h₁ := h₁.stage.not_mem (.inr hlow)
    have h₃ := h₃.stage.not_mem (.inl hhigh)
    simp [h₁, h₃]
  have late : ∀ x : Exchange, 5 ≤ x.request.place → (x ∈ t₁ ++ t₂ ++ t₃ ↔ x ∈ t₃) := by
    intro x hx
    have h₁ := h₁.stage.not_mem (x := x) (.inr (by omega))
    have h₂ := h₂.stage.not_mem (.inr hx)
    simp [h₁, h₂]
  refine .pure _ ?_
  rw [List.append_nil, ← List.append_assoc]
  refine ⟨rfl, ⟨whole.ordered, h₁.orders.congr early, h₂.orders.congr middle, ?_⟩,
    ⟨?_, ?_, ?_, rfl, rfl⟩, whole.failures_eq.symm⟩
  · intro a r
    exact (exists_congr fun answer => late _ (by simp)).trans (h₃.asked_iff a r)
  · exact h₁.slashed_iff.trans
      (exists_congr fun a => exists_congr fun f => (early _ (by simp)).symm)
  · exact h₂.recorded_iff.trans
      (exists_congr fun entry => (middle _ (by simp) (by simp)).symm)
  · exact h₃.removed_iff.trans
      (exists_congr fun a => exists_congr fun r => (late _ (by simp)).symm)

end Transition

namespace Participant

theorem verdict_of_update_into_invalid (p : Participant) (params : Params) (services : Services σ)
    (previous : EpochStats) (block : Block) (s : σ) (hsource : p.status ≠ .invalid)
    (htarget : ((p.update params services previous block).run s).1.1.status = .invalid) :
    p.status.isSticky = false ∧ (p.verdict params previous).status = .invalid := by
  have hkept : ¬((p.verdict params previous).status = p.status ∨ p.status.isSticky = true) := by
    intro h
    rw [update_of_kept p params services previous block s h] at htarget
    exact hsource htarget
  obtain ⟨hmove, hsticky⟩ := not_or.mp hkept
  have hsticky : p.status.isSticky = false := Bool.eq_false_iff.mpr hsticky
  refine ⟨hsticky, ?_⟩
  refine Decidable.byContradiction fun hvalid => ?_
  rw [update_of_moved p params services previous block s hmove hsticky hvalid] at htarget
  exact hvalid htarget

-- A move into `invalid`, whatever the services answer: all that can be tried is tried once, the
-- participant is the same after success and failure, and the failures are told in step order.
theorem update_into_invalid_under_failures (p : Participant) (params : Params)
    (services : Services σ) (previous : EpochStats) (block : Block) (s : σ)
    (hsource : p.status ≠ .invalid)
    (htarget : ((p.update params services previous block).run s).1.1.status = .invalid) :
    let verdict := p.verdict params previous
    let result := (p.update params services previous block).run s
    ∃ t : List Exchange,
      (p.update params services.transcribed previous block).run (s, []) =
        (result.1, result.2, t) ∧
      InvalidationOrders params block verdict.reason p.address t ∧
      result.1.1 = { p with
        status := .invalid
        stats := verdict.stats
        epochsCompleted :=
          preservedReputation p.epochsCompleted params.validation.reputationPreserve } ∧
      ((∃ error, result.1.2 = .error error) ↔ ∃ x ∈ t, x.failure?.isSome = true) ∧
      (∀ error, result.1.2 = .error error →
        error = ⟨p.address, .invalid, t.filterMap Exchange.failure?⟩) ∧
      ∀ transition, result.1.2 = .ok transition → ∃ report : InvalidationReport,
        report.Tells params p.epochsCompleted t ∧
        transition = ⟨p.status, .invalid, verdict.reason, some report⟩ := by
  intro verdict result
  obtain ⟨hsticky, hinvalid⟩ :=
    verdict_of_update_into_invalid p params services previous block s hsource htarget
  have hresult : result = _ :=
    update_of_invalid p params services previous block s hsticky hinvalid
  have hrecorded :=
    update_of_invalid p params services.transcribed previous block (s, []) hsticky hinvalid
  obtain ⟨t, hrun, hfits⟩ := Transition.invalidate_records params services block verdict.reason
    { p with stats := verdict.stats, status := verdict.status } s []
  rcases hdone : (Transition.invalidate params services block verdict.reason
    { p with stats := verdict.stats, status := verdict.status }).run s with
    ⟨⟨after, report, failures⟩, final⟩
  rw [hdone] at hrun hfits
  obtain ⟨rfl, horders, htells, rfl⟩ := hfits
  simp only [verdict] at hrun hdone
  simp only [hrun, hdone] at hrecorded hresult
  rw [hinvalid] at hrecorded hresult
  refine ⟨t, hrecorded.trans ?_, horders, congrArg (·.1.1) hresult, ?_, ?_, ?_⟩
  · rw [hresult]
    rfl
  · have hfailed : (∃ x ∈ t, x.failure?.isSome = true) ↔
        (t.filterMap Exchange.failure?).isEmpty = false := by
      simp [Option.isSome_iff_ne_none]
    rw [hfailed, hresult]
    cases (t.filterMap Exchange.failure?).isEmpty with
    | true => simp
    | false => simp
  · intro error herror
    rw [hresult] at herror
    split at herror
    · cases herror
    · injection herror with herror
      exact herror.symm
  · intro transition hok
    rw [hresult] at hok
    split at hok
    · injection hok with hok
      exact ⟨report, htells, hok.symm⟩
    · cases hok

-- The slash is taken, and all that comes after it fails.
theorem update_into_invalid_with_three_failures :
    let p : Participant :=
      { Participant.new "gonka1alice" .active with streak := 20, epochsCompleted := 7 }
    let down (step : Step) : StepFailure := ⟨step, .unavailable "store"⟩
    let services : Services Unit
      | .alreadySlashed .. | .isExcluded .. => pure false
      | .slashCollateral .. => pure (.ok ())
      | .markSlashed .. | .recordExclusion _ | .removeFromGroups .. =>
        pure (.error (.unavailable "store"))
    let result := (p.update .genesis services .zero ⟨120, some 7⟩).run ()
    p.status ≠ .invalid ∧ result.1.1.status = .invalid ∧ result.1.1.epochsCompleted = 4 ∧
      ∃ t : List Exchange,
        InvalidationOrders .genesis ⟨120, some 7⟩ .consecutiveFailures "gonka1alice" t ∧
        t.filterMap Exchange.failure? =
          [down .markSlashed, down .recordExclusion, down .removeFromGroups] := by
  intro p down services result
  have hsource : p.status ≠ .invalid := by decide
  have htarget : result.1.1.status = .invalid := by decide +kernel
  have hreason : (p.verdict .genesis .zero).reason = .consecutiveFailures := by decide +kernel
  have hresult : result.1.2 = .error ⟨"gonka1alice", .invalid,
      [down .markSlashed, down .recordExclusion, down .removeFromGroups]⟩ := by decide +kernel
  obtain ⟨t, -, horders, hparticipant, -, hfailures, -⟩ :=
    update_into_invalid_under_failures p .genesis services .zero ⟨120, some 7⟩ () hsource htarget
  refine ⟨hsource, htarget, ?_, t, hreason ▸ horders, ?_⟩
  · rw [hparticipant]
    decide +kernel
  · exact (congrArg TransitionError.failures (hfailures _ hresult)).symm

end Participant

end ParticipantTrust
