import ParticipantTrust.Decimal.Power

namespace ParticipantTrust.Decimal

-- `x = mantissa · 2 ^ exponent` with the mantissa in `[1/2, 2)` and the least `|exponent|`.
structure BinarySplit where
  mantissa : Decimal
  exponent : Int

def two : Decimal := ofInt 2

-- `⌊x⌋`, for `0 < x`.
def floorOfPos (x : Decimal) : Nat := x.toInt.toNat

-- `⌈1 / x⌉ - 1`, for `0 < x < 1`.
def reciprocalBelow (x : Decimal) : Nat := (tenTo x.scale.toNat - 1) / x.mantissa.natAbs

def halveTimes (x : Decimal) : Nat → Decimal
  | 0 => x
  | k + 1 => halveTimes (x * half) k

def doubleTimes (x : Decimal) : Nat → Decimal
  | 0 => x
  | k + 1 => doubleTimes (x * two) k

-- From `2` on `x` is halved `⌊log2 x⌋` times, below `1/2` it is doubled until it reaches `1/2`.
def binarySplit (x : Decimal) : BinarySplit :=
  if two ≤ x then
    let k := (floorOfPos x).log2
    ⟨x.halveTimes k, k⟩
  else if x < half then
    let k := (reciprocalBelow x).log2
    ⟨x.doubleTimes k, -k⟩
  else ⟨x, 0⟩

-- The series `t + t³/3 + t⁵/5 + …` from the term after `power` on, added to `sum`, up to the first
-- term below the unit of `scale`.
def atanhSeries (scale : Int) (tSquared : Decimal) :
    Nat → (power sum : Decimal) → (denominator : Nat) → Decimal
  | 0, _, sum, _ => sum
  | steps + 1, power, sum, denominator =>
    let power := (power * tSquared).round scale
    let denominator := denominator + 2
    let term := power.divAt (ofInt denominator) scale
    if term.abs < unitAt scale then sum
    else atanhSeries scale tSquared steps power (sum + term) denominator

-- A power falls to a fifth or less at each step, so it rounds to zero within this many.
def atanhSteps (scale : Int) : Nat := 2 * scale.toNat + 2

-- `2 · atanh ((m - 1) / (m + 1))` at `scale`, which is the logarithm of `m` in `[1/2, 2]`.
def lnReduced (m : Decimal) (scale : Int) : Decimal :=
  let t := (m - one).divAt (m + one) scale
  let tSquared := (t * t).round scale
  (atanhSeries scale tSquared (atanhSteps scale) t t 1 * two).round scale

-- Natural logarithm of a positive number to `precision` places.
def ln (x : Decimal) (precision : Int) : Decimal :=
  if x.SameValue one then zero.round precision
  else
    let working := precision + guardDigits
    let split := binarySplit x
    let reduced := lnReduced split.mantissa working
    let total :=
      if split.exponent = 0 then reduced
      else reduced + lnReduced two working * ofInt split.exponent
    total.round precision

end ParticipantTrust.Decimal
