import ParticipantTrust.Decimal.Text

namespace ParticipantTrust

-- The ranges that rates, thresholds and fractions are held to.
inductive Domain where
  | openUnit
  | closedUnit
  | positive
deriving DecidableEq

namespace Domain

def Contains : Domain → Decimal → Prop
  | .openUnit, v => Decimal.zero < v ∧ v < Decimal.one
  | .closedUnit, v => Decimal.zero ≤ v ∧ v ≤ Decimal.one
  | .positive, v => Decimal.zero < v

instance (domain : Domain) (v : Decimal) : Decidable (domain.Contains v) := by
  cases domain <;> unfold Contains <;> infer_instance

def text : Domain → String
  | .openUnit => "(0, 1)"
  | .closedUnit => "[0, 1]"
  | .positive => "(0, inf)"

end Domain

-- Why a statistic has no value.
inductive DomainError where
  | outside (name : String) (value : Decimal) (domain : Domain)
  | counts (part whole : Nat)
  | logarithm (argument : Decimal)
  | squareRoot (argument : Decimal)
  -- an intermediate result was rounded to zero and then divided by
  | divisionByZero
deriving DecidableEq

namespace DomainError

def message : DomainError → String
  | .outside name value domain => name ++ " = " ++ value.text ++ " is outside " ++ domain.text
  | .counts part whole =>
    "invalid counts: requires k <= n (k = " ++ toString part ++ ", n = " ++ toString whole ++ ")"
  | .logarithm argument => "logarithm undefined for non-positive argument " ++ argument.text
  | .squareRoot argument => "square root undefined for negative argument " ++ argument.text
  | .divisionByZero => "Division by zero"

end DomainError

def Domain.require (domain : Domain) (name : String) (v : Decimal) : Except DomainError Unit :=
  if domain.Contains v then .ok () else .error (.outside name v domain)

end ParticipantTrust
