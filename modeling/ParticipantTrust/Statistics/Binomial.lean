import ParticipantTrust.Elementary

namespace ParticipantTrust.Binomial

-- Decimal places of the p-value that a miss rate is judged by.
def pValuePrecision : Int := 16

def defaultSignificance : Decimal := ⟨5, 2⟩

-- `n choose i`, built up factor by factor. Every partial product is itself a binomial coefficient, so
-- no division leaves a remainder.
def runningCoefficient (n : Nat) : Nat → Nat
  | 0 => 1
  | i + 1 => runningCoefficient n i * (n - i) / (i + 1)

-- `n choose k` along the shorter side.
def coefficient (n k : Nat) : Nat := runningCoefficient n (min k (n - k))

-- Probability of exactly `k` hits among `n`, to `digits` significant digits.
def pointProbability (n k : Nat) (p q : Decimal) (digits : Int) : Decimal :=
  let powers := p.powSignificant k digits * q.powSignificant (n - k) digits
  (Decimal.ofInt (coefficient n k) * powers).roundSignificant digits

-- Terms after the one for `i` hits, each from the one before it, added to `sum`. Terms carry `working`
-- significant digits and sums `working` decimal places.
def ascendingSum (n : Nat) (ratio : Decimal) (working : Int) (i : Nat) (term sum : Decimal) :
    Decimal :=
  if i < n then
    let factor := (Decimal.ofInt ((n - i : Nat) : Int)).divSignificant (Decimal.ofInt (i + 1)) working
    let term := (term * factor * ratio).roundSignificant working
    ascendingSum n ratio working (i + 1) term ((sum + term).round working)
  else sum
termination_by n - i

-- The same towards fewer hits, down to none.
def descendingSum (n : Nat) (ratio : Decimal) (working : Int) : Nat → (term sum : Decimal) → Decimal
  | 0, _, sum => sum
  | i + 1, term, sum =>
    let factor :=
      (Decimal.ofInt (i + 1)).divSignificant (Decimal.ofInt ((n - (i + 1) + 1 : Nat) : Int)) working
    let term := (term * factor * ratio).roundSignificant working
    descendingSum n ratio working i term ((sum + term).round working)

-- Probability of `k` hits or more, for `k` above the mean.
def upperTail (n k : Nat) (p q : Decimal) (working : Int) : Decimal :=
  let term := pointProbability n k p q working
  ascendingSum n (p.divSignificant q working) working k term (term.round working)

-- Probability of `j` hits or fewer.
def lowerTail (n j : Nat) (p q : Decimal) (working : Int) : Decimal :=
  let term := pointProbability n j p q working
  descendingSum n (q.divSignificant p working) working j term (term.round working)

def clampUnit (v : Decimal) : Decimal :=
  if v < Decimal.zero then Decimal.zero else if Decimal.one < v then Decimal.one else v

-- Probability of `k` hits or more among `n` at the rate `p`. The side of the mean without the bulk is
-- summed: from `k` upwards when `k` lies above the mean, else from `k - 1` downwards.
def pValue (n k : Nat) (p : Decimal) (precision : Int) : Except DomainError Decimal := do
  if n < k then throw (.counts k n)
  Domain.openUnit.require "p0" p
  if k = 0 then return Decimal.one
  let working := precision + Decimal.guardDigits
  let q := p.complement
  let tail :=
    if Decimal.ofInt n * p < Decimal.ofInt k then upperTail n k p q working
    else Decimal.one - lowerTail n (k - 1) p q working
  return (clampUnit tail).round precision

-- Whether `missed` of `total` is still plausible at the miss rate `p`; nothing asked is plausible.
def plausibleMisses (missed total : Nat) (p significance : Decimal) : Except DomainError Bool := do
  if total = 0 then return true
  if total < missed then throw (.counts missed total)
  let value ← pValue total missed p pValuePrecision
  return significance ≤ value

end ParticipantTrust.Binomial
