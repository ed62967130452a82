import ParticipantTrust.Decimal.Quotient

namespace ParticipantTrust.Decimal

-- Guard digits that intermediate results carry beyond the digits asked for.
def guardDigits : Int := 10

-- `v` with at most `digits` significant digits; what is short enough stays as written.
def roundSignificant (v : Decimal) (digits : Int) : Decimal :=
  if v.isZero then zero
  else
    let target := v.scale - digitCount v.mantissa.natAbs + digits
    if v.scale ≤ target then v else v.round target

def divSignificant (a b : Decimal) (digits : Int) : Decimal := (a / b).roundSignificant digits

-- Binary exponentiation from the low bit up: `result · square ^ exponent` where every product is
-- passed through `trim`, and the square is only formed while bits remain.
def powLoop (trim : Decimal → Decimal) (result square : Decimal) (exponent : Nat) : Decimal :=
  if exponent = 0 then result
  else
    let next := if exponent % 2 = 1 then trim (result * square) else result
    if exponent / 2 = 0 then next
    else powLoop trim next (trim (square * square)) (exponent / 2)
termination_by exponent
decreasing_by omega

-- Every product is rounded to `scale` places.
def powAt (base : Decimal) (exponent : Nat) (scale : Int) : Decimal :=
  powLoop (·.round scale) one base exponent

-- Every product is rounded to `digits` significant digits, so that a small power keeps its digits.
def powSignificant (base : Decimal) (exponent : Nat) (digits : Int) : Decimal :=
  powLoop (·.roundSignificant digits) one base exponent

-- `base ^ exponent` to `precision` places.
def pow (base : Decimal) (exponent : Nat) (precision : Int) : Decimal :=
  (powAt base exponent (precision + guardDigits)).round precision

end ParticipantTrust.Decimal
