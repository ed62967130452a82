import ParticipantTrust.Statistics.Streak

namespace ParticipantTrust.Observation

-- Counts saturate at the largest 64-bit number.
def maxCount : Nat := UInt64.size - 1

def zScorePrecision : Int := 16

-- How many standard deviations the observed failure rate lies above `rate`. No observation or no
-- variance gives a neutral zero.
def zScore (rate : Decimal) (valid invalid : Nat) : Decimal :=
  let total := min (valid + invalid) maxCount
  if total = 0 then Decimal.zero
  else
    let working := zScorePrecision + Decimal.guardDigits
    let n := Decimal.ofInt total
    let observed := (Decimal.ofInt invalid).divAt n working
    let variance := (rate * rate.complement).divAt n working
    if variance ≤ Decimal.zero then Decimal.zero
    else
      match Elementary.sqrt variance working with
      | .error _ => Decimal.zero
      | .ok deviation =>
        if deviation.isZero then Decimal.zero
        else (observed - rate).divAt deviation zScorePrecision

-- `(3 + √5) / 2`, the larger root of `y² - 3 y + 1`.
def singleFailureBound : Except DomainError Decimal := do
  let root ← Elementary.sqrt (Decimal.ofInt 5) Streak.precision
  return (Decimal.ofInt 3 + root).divAt (Decimal.ofInt 2) Streak.precision

-- The number of measurements from which one failure stays within a standard deviation of what `rate`
-- leads to expect, at most `limit`. One failure among `n` does so iff `|1 - y| ≤ √(y (1 - rate))`
-- for `y = n · rate`.
def measurementsNeeded (rate : Decimal) (limit : Nat) : Except DomainError Nat := do
  Domain.openUnit.require "expected_failure_rate" rate
  let bound ← singleFailureBound
  let n := bound.divAt rate Streak.precision
  return min (n.roundWith .ceiling 0).mantissa.toNat limit

end ParticipantTrust.Observation
