import ParticipantTrust.Elementary

namespace ParticipantTrust.Streak

-- Decimal places of a streak probability.
def precision : Int := 30

-- The usual cut-off below which a streak is too rare for an honest participant: one in a million.
def defaultCutoff : Decimal := Decimal.unitAt 6

-- The probability of `count` failures in a row at the failure rate `rate`.
def probability (rate : Decimal) (count : Nat) : Except DomainError Decimal := do
  Domain.closedUnit.require "expected_failure_rate" rate
  Elementary.pow rate count precision

-- Places at which a streak probability is compared with `cutoff`: always some more than the cut-off
-- is written with, so that a fine cut-off never meets a probability rounded to zero. The sum has no
-- limit: a cut-off is assumed to leave room in the 64 bits of a scale (`Decimal.ScaleFits`) for the
-- guard digits, once here and once more in the power.
def comparisonPrecision (cutoff : Decimal) : Int :=
  max precision (cutoff.scale + Decimal.guardDigits)

def isRare (rate : Decimal) (count : Nat) (cutoff : Decimal) : Except DomainError Bool := do
  Domain.closedUnit.require "expected_failure_rate" rate
  let p ← Elementary.pow rate count (comparisonPrecision cutoff)
  return p < cutoff

end ParticipantTrust.Streak
