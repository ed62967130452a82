import ParticipantTrust.Decimal.Power

namespace ParticipantTrust.Decimal

-- One Newton step towards the root of `x`. Zero has no next step, since `x` cannot be divided by it.
def newtonStep (x current : Decimal) (scale : Int) : Option Decimal :=
  if current.isZero then none
  else some (((current + x.divAt current scale) * half).round scale)

-- Newton steps until one of them stops falling, at most `steps` of them.
def newtonDescent (x : Decimal) (scale : Int) : Nat → Decimal → Option Decimal
  | 0, current => some current
  | steps + 1, current =>
    match newtonStep x current scale with
    | none => none
    | some next => if current ≤ next then some current else newtonDescent x scale steps next

def newtonSteps : Nat := 512

-- The larger one of `x` and one, which is never below the root of `x`.
def newtonStart (x : Decimal) : Decimal := if one < x then x else one

-- Square root of a number that is not negative, to `precision` places. None if the descent comes to a
-- division by zero.
def sqrt (x : Decimal) (precision : Int) : Option Decimal :=
  if x.isZero then some (zero.round precision)
  else
    (newtonDescent x (precision + guardDigits) newtonSteps (newtonStart x)).map (·.round precision)

end ParticipantTrust.Decimal
