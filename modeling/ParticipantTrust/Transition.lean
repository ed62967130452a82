import ParticipantTrust.Services

namespace ParticipantTrust

structure Block where
  height : UInt64
  -- the epoch in effect, once the chain has started one
  effectiveEpoch : Option UInt64

-- The orders of an invalidation.
inductive Step where
  | slashCollateral
  | markSlashed
  | recordExclusion
  | removeFromGroups
deriving DecidableEq

structure StepFailure where
  step : Step
  error : ServiceError
deriving DecidableEq

-- What an invalidation did.
structure InvalidationReport where
  slashed : Bool
  exclusionRecorded : Bool
  epochsBefore : UInt32
  epochsAfter : UInt32
  removedFromGroups : Bool
deriving DecidableEq

structure Transition where
  source : Status
  target : Status
  reason : Reason
  -- present on a move to `invalid` only
  invalidation : Option InvalidationReport
deriving DecidableEq

def Transition.changed (t : Transition) : Bool := t.source ≠ t.target

-- Orders of an invalidation have failed. The participant has its new status all the same.
structure TransitionError where
  address : String
  status : Status
  failures : List StepFailure
deriving DecidableEq

def Status.name : Status → String
  | .active => "Active"
  | .ramping => "Ramping"
  | .inactive => "Inactive"
  | .invalid => "Invalid"

def TransitionError.message (e : TransitionError) : String :=
  toString e.failures.length ++ " invalidation side effect(s) failed for " ++ e.address ++
    "; status is " ++ e.status.name

-- The share `preserve` of the completed epochs, to the nearest whole; all of them without a share in
-- `[0, 1]`.
def preservedReputation (completed : UInt32) (preserve : Option Decimal) : UInt32 :=
  match preserve with
  | none => completed
  | some share =>
    if Domain.closedUnit.Contains share then
      UInt32.ofNat ((Decimal.ofInt completed.toNat * share).round 0).mantissa.toNat
    else completed

namespace Transition

variable {σ : Type}

def failureOf (step : Step) : Except ServiceError Unit → List StepFailure
  | .ok () => []
  | .error error => [⟨step, error⟩]

-- Asks for a slash unless the epoch has seen one, and marks a slash that was carried out. Without an
-- epoch nothing is asked or marked.
def slashOnce (services : Services σ) (fraction : Option Decimal) (epoch : Option UInt64)
    (address : String) : StateM σ (Bool × List StepFailure) := do
  match fraction, epoch with
  | none, _ => return (false, [])
  | some fraction, none =>
    match ← services (.slashCollateral address fraction) with
    | .ok () => return (true, [])
    | .error error => return (false, [⟨.slashCollateral, error⟩])
  | some fraction, some epoch =>
    if ← services (.alreadySlashed epoch address) then return (false, [])
    match ← services (.slashCollateral address fraction) with
    | .ok () => return (true, failureOf .markSlashed (← services (.markSlashed epoch address)))
    | .error error => return (false, [⟨.slashCollateral, error⟩])

-- Records an exclusion from the epoch unless there is one.
def excludeOnce (services : Services σ) (block : Block) (reason : Reason) (address : String) :
    StateM σ (Bool × List StepFailure) := do
  match block.effectiveEpoch with
  | none => return (false, [])
  | some epoch =>
    if ← services (.isExcluded epoch address) then return (false, [])
    match ← services (.recordExclusion ⟨address, epoch, reason.text, block.height⟩) with
    | .ok () => return (true, [])
    | .error error => return (false, [⟨.recordExclusion, error⟩])

def leaveGroups (services : Services σ) (reason : Reason) (address : String) :
    StateM σ (Bool × List StepFailure) := do
  match ← services (.removeFromGroups address reason) with
  | .ok () => return (true, [])
  | .error error => return (false, [⟨.removeFromGroups, error⟩])

-- Carries out an invalidation. A failed order does not keep the later ones from being tried.
def invalidate (params : Params) (services : Services σ) (block : Block) (reason : Reason)
    (p : Participant) : StateM σ (Participant × InvalidationReport × List StepFailure) := do
  let (slashed, slashFailures) ←
    slashOnce services params.collateral.slashFraction block.effectiveEpoch p.address
  let (excluded, exclusionFailures) ← excludeOnce services block reason p.address
  let epochs := preservedReputation p.epochsCompleted params.validation.reputationPreserve
  let (removed, groupFailures) ← leaveGroups services reason p.address
  let report := {
    slashed
    exclusionRecorded := excluded
    epochsBefore := p.epochsCompleted
    epochsAfter := epochs
    removedFromGroups := removed }
  return ({ p with epochsCompleted := epochs }, report,
    slashFailures ++ exclusionFailures ++ groupFailures)

end Transition

-- Evaluates a participant and applies the verdict. The evidence is always stored, a sticky status is
-- never left, and a move to `invalid` carries out an invalidation.
def Participant.update {σ : Type} (p : Participant) (params : Params) (services : Services σ)
    (previous : EpochStats) (block : Block) :
    StateM σ (Participant × Except TransitionError Transition) := do
  let verdict := evaluate (some params.validation) (some params.confirmation) p previous
  let judged := { p with stats := verdict.stats }
  if verdict.status = p.status ∨ p.status.isSticky then
    return (judged, .ok ⟨p.status, p.status, verdict.reason, none⟩)
  let moved := { judged with status := verdict.status }
  if verdict.status = .invalid then
    let (after, report, failures) ←
      Transition.invalidate params services block verdict.reason moved
    if failures.isEmpty then
      return (after, .ok ⟨p.status, verdict.status, verdict.reason, some report⟩)
    else return (after, .error ⟨after.address, after.status, failures⟩)
  else return (moved, .ok ⟨p.status, verdict.status, verdict.reason, none⟩)

end ParticipantTrust
