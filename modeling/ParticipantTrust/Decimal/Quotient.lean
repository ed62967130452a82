import ParticipantTrust.Decimal.Basic

namespace ParticipantTrust.Decimal

-- Significant digits that a quotient carries before it is rounded to a scale.
def quotientDigits : Nat := 100

-- A number of decimal places that `m` lacks at least to reach `target`, for `0 < m < target`: ten
-- binary digits are worth more than three decimal ones.
def placesAtLeast (target m : Nat) : Nat := max 1 (3 * ((target.log2 - m.log2 - 1) / 10))

-- The least `k` with `target ≤ m · 10 ^ k`, for `0 < m`.
def placesToReach (target m : Nat) : Nat :=
  if target ≤ m ∨ m = 0 then 0
  else
    let places := placesAtLeast target m
    placesToReach target (m * tenTo places) + places
termination_by target - m
decreasing_by
  have h : 1 < tenTo (placesAtLeast target m) :=
    Nat.one_lt_pow (by unfold placesAtLeast; omega) (by decide)
  have : m < m * tenTo (placesAtLeast target m) := (Nat.lt_mul_iff_one_lt_right (by omega)).2 h
  omega

-- `m / n` with enough decimal places for `quotientDigits` digits, the last one rounded half up. A
-- dividend that is much longer than the divisor gets no places.
def quotientOfNat (m n : Nat) : Nat × Nat :=
  let places := placesToReach (tenTo (quotientDigits - 1) * n) m
  let shifted := m * tenTo places
  (shifted / n + (if n ≤ 2 * (shifted % n) then 1 else 0), places)

-- Division by a nonzero number. Dividing by one returns the dividend as it is, also when it is longer
-- than `quotientDigits`.
protected def div (a b : Decimal) : Decimal :=
  if a.isZero ∨ b.SameValue one then a
  else
    let (digits, places) := quotientOfNat a.mantissa.natAbs b.mantissa.natAbs
    ⟨a.mantissa.sign * b.mantissa.sign * digits, a.scale - b.scale + places⟩

instance : Div Decimal := ⟨Decimal.div⟩

def divAt (a b : Decimal) (scale : Int) : Decimal := (a / b).round scale

end ParticipantTrust.Decimal
