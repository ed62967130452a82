import ParticipantTrust.Params
import ParticipantTrust.Participant
import ParticipantTrust.Statistics.SequentialTest
import ParticipantTrust.Statistics.Streak

namespace ParticipantTrust

-- Why a status is given.
inductive Reason where
  | unremarkable
  | consecutiveFailures
  | ramping
  | statisticalInvalidations
  | downtime
  | failedConfirmation
  -- parameters that no check can work with
  | algorithmError
  -- the status was sticky already
  | alreadySet
deriving DecidableEq

-- Stored with exclusions, so the texts are fixed.
def Reason.text : Reason → String
  | .unremarkable => ""
  | .consecutiveFailures => "consecutive_failures"
  | .ramping => "ramping"
  | .statisticalInvalidations => "statistical_invalidations"
  | .downtime => "downtime"
  | .failedConfirmation => "failed_confirmation_poc"
  | .algorithmError => "algorithm_error"
  | .alreadySet => "already_set"

-- Outcome of one evaluation: a status, its reason, and the counters with the evidence brought up to
-- date.
structure Verdict where
  status : Status
  reason : Reason
  stats : EpochStats
deriving DecidableEq

-- Growth of a counter as a signed 64-bit number; a counter that was reset has grown by less than zero.
def growth (current previous : UInt64) : Int :=
  max Int64.minValue.toInt
    (min ((current.toNat : Int) - previous.toNat) Int64.maxValue.toInt)

-- The sequential test of `good` against `bad` after one more batch, or `none` if it cannot be set up.
def testAfter (good bad threshold : Option Decimal) (prior : Decimal) (failures passes : Int) :
    Option SequentialTest := do
  let test ←
    (SequentialTest.create (← good) (← bad) (← threshold) prior SequentialTest.logPrecision).toOption
  return test.observe failures passes

-- Invalidated against validated inferences since `previous`.
def invalidationTest (params : ValidationParams) (stats previous : EpochStats) :
    Option SequentialTest :=
  testAfter params.falsePositiveRate params.badInvalidationRate params.invalidationThreshold
    stats.invalidLlr
    (growth stats.invalidatedInferences previous.invalidatedInferences)
    (growth stats.validatedInferences previous.validatedInferences)

-- Missed requests against inferences since `previous`.
def downtimeTest (params : ValidationParams) (stats previous : EpochStats) : Option SequentialTest :=
  testAfter params.downtimeGoodRate params.downtimeBadRate params.downtimeThreshold
    stats.inactiveLlr
    (growth stats.missedRequests previous.missedRequests)
    (growth stats.inferenceCount previous.inferenceCount)

-- Whether a recorded ratio falls short of an alpha that is set and not zero.
def failsConfirmation (confirmation : Option ConfirmationParams) (stats : EpochStats) : Bool :=
  match confirmation.bind (·.alphaThreshold), stats.confirmationRatio with
  | some alpha, some ratio => !alpha.isZero && ratio < alpha
  | _, _ => false

namespace Verdict

-- Last of the checks, for a participant that passed the ones before.
def ofConfirmation (confirmation : Option ConfirmationParams) (stats : EpochStats) : Verdict :=
  if failsConfirmation confirmation stats then ⟨.inactive, .failedConfirmation, stats⟩
  else ⟨.active, .unremarkable, stats⟩

def ofDowntime (params : ValidationParams) (confirmation : Option ConfirmationParams)
    (stats previous : EpochStats) : Verdict :=
  match downtimeTest params stats previous with
  | none => ⟨.active, .algorithmError, stats⟩
  | some test =>
    let stats := { stats with inactiveLlr := test.llr }
    if test.decision = .fail then ⟨.inactive, .downtime, stats⟩
    else ofConfirmation confirmation stats

def ofInvalidations (params : ValidationParams) (confirmation : Option ConfirmationParams)
    (stats previous : EpochStats) : Verdict :=
  match invalidationTest params stats previous with
  | none => ⟨.active, .algorithmError, stats⟩
  | some test =>
    let stats := { stats with invalidLlr := test.llr }
    if test.decision = .fail then ⟨.invalid, .statisticalInvalidations, stats⟩
    else ofDowntime params confirmation stats previous

-- First of the checks: a streak that is too rare for an honest participant.
def ofStreak (params : ValidationParams) (confirmation : Option ConfirmationParams)
    (rate cutoff : Decimal) (p : Participant) (previous : EpochStats) : Verdict :=
  match Streak.isRare rate p.streak.toNat cutoff with
  | .error _ => ⟨.active, .algorithmError, p.stats⟩
  | .ok true => ⟨.invalid, .consecutiveFailures, p.stats⟩
  | .ok false => ofInvalidations params confirmation p.stats previous

end Verdict

-- The verdict on `p`, where `previous` holds its counters at the evaluation before. Without the
-- parameters of the first check there is nothing to judge by; a sticky status is confirmed as it is;
-- else the checks run in order, and a check that cannot be set up ends them in favour of `p`.
def evaluate (params : Option ValidationParams) (confirmation : Option ConfirmationParams)
    (p : Participant) (previous : EpochStats) : Verdict :=
  match params with
  | none => ⟨.active, .unremarkable, p.stats⟩
  | some params =>
    match params.falsePositiveRate, params.quickFailureThreshold with
    | some rate, some cutoff =>
      if p.status.isSticky then ⟨p.status, .alreadySet, p.stats⟩
      else Verdict.ofStreak params confirmation rate cutoff p previous
    | _, _ => ⟨.active, .unremarkable, p.stats⟩

end ParticipantTrust
