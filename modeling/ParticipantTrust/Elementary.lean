import ParticipantTrust.Decimal.Logarithm
import ParticipantTrust.Decimal.Root
import ParticipantTrust.Domain

namespace ParticipantTrust.Elementary

-- Powers, logarithms and roots that refuse an argument outside their domain.

def pow (base : Decimal) (exponent : Nat) (precision : Int) : Except DomainError Decimal := do
  Domain.closedUnit.require "base" base
  return base.pow exponent precision

def ln (x : Decimal) (precision : Int) : Except DomainError Decimal :=
  if x ≤ Decimal.zero then .error (.logarithm x) else .ok (x.ln precision)

def sqrt (x : Decimal) (precision : Int) : Except DomainError Decimal :=
  if x < Decimal.zero then .error (.squareRoot x)
  else
    match x.sqrt precision with
    | some root => .ok root
    | none => .error .divisionByZero

end ParticipantTrust.Elementary
