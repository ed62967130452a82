import ParticipantTrust.Decimal.Basic

namespace ParticipantTrust

-- A finite double-precision number `± mantissa · 2 ^ exponent`. Numbers made by `nearest` are
-- normalised: the mantissa has 53 bits, or fewer at the least exponent.
structure Binary64 where
  negative : Bool
  mantissa : Nat
  exponent : Int
deriving DecidableEq

namespace Binary64

def mantissaBits : Nat := 53

def leastExponent : Int := -1074

def greatestExponent : Int := 971

-- `num / den · 2 ^ (-shift)` as a quotient of naturals.
def scaledRatio (num den : Nat) (shift : Int) : Nat × Nat :=
  (num <<< (-shift).toNat, den <<< shift.toNat)

-- `⌊log2 (num / den)⌋`, for positive arguments.
def floorLog2 (num den : Nat) : Int :=
  let guess := (num.log2 : Int) - den.log2
  let (n, d) := scaledRatio num den guess
  if n < d then guess - 1 else guess

-- A quotient to the nearest integer, a tie to the even one.
def roundEven (n d : Nat) : Nat :=
  let q := n / d
  let r := n % d
  if d < 2 * r ∨ (2 * r = d ∧ q % 2 = 1) then q + 1 else q

-- The double nearest to `num / den`, unless that lies beyond the largest one.
def nearest (negative : Bool) (num den : Nat) : Option Binary64 :=
  if num = 0 then some ⟨negative, 0, leastExponent⟩
  else
    let exponent := max leastExponent (floorLog2 num den - (mantissaBits - 1))
    let (n, d) := scaledRatio num den exponent
    let mantissa := roundEven n d
    let carried := mantissa = 1 <<< mantissaBits
    let mantissa := if carried then 1 <<< (mantissaBits - 1) else mantissa
    let exponent := if carried then exponent + 1 else exponent
    if greatestExponent < exponent then none else some ⟨negative, mantissa, exponent⟩

-- `num / den · 2 ^ exponent` to the nearest double.
def nearestScaled (negative : Bool) (num den : Nat) (exponent : Int) : Option Binary64 :=
  let (n, d) := scaledRatio num den (-exponent)
  nearest negative n d

-- The largest power of ten that is a finite double.
def tenLimit : Nat := 308

-- Product with the double nearest to `10 ^ k`, for `k ≤ tenLimit`.
def timesTen (x : Binary64) (k : Nat) : Option Binary64 := do
  let ten ← nearest false (Decimal.tenTo k) 1
  nearestScaled x.negative (x.mantissa * ten.mantissa) 1 (x.exponent + ten.exponent)

-- Quotient by the double nearest to `10 ^ k`, for `k ≤ tenLimit`.
def overTen (x : Binary64) (k : Nat) : Option Binary64 := do
  let ten ← nearest false (Decimal.tenTo k) 1
  nearestScaled x.negative x.mantissa ten.mantissa (x.exponent - ten.exponent)

-- `x / 10 ^ k`, in steps of `tenLimit` until nothing is left of `x`.
def overTens (x : Binary64) (k : Nat) : Option Binary64 :=
  if k ≤ tenLimit then x.overTen k
  else if x.mantissa = 0 then some x
  else do
    let x ← x.overTen tenLimit
    overTens x (k - tenLimit)
termination_by k
decreasing_by simp only [tenLimit] at *; omega

-- `± significand · 10 ^ k` in doubles: the significand and the power of ten are rounded first, and the
-- result once more. `none` beyond the largest double.
def ofScientific (negative : Bool) (significand : Nat) (k : Int) : Option Binary64 := do
  let x ← nearest negative significand 1
  if k < 0 then x.overTens (-k).toNat
  else if k ≤ tenLimit then x.timesTen k.toNat
  else if x.mantissa = 0 then return x
  else none

-- `m · 2 ^ (-places)` with as few factors of two in the denominator as `m` allows.
def lowestTerms (m : Nat) : Nat → Nat × Nat
  | 0 => (m, 0)
  | places + 1 => if m % 2 = 0 then lowestTerms (m / 2) places else (m, places + 1)

-- Numbers below the normal range have less than the full mantissa.
def isSubnormal (x : Binary64) : Bool := x.mantissa < 1 <<< (mantissaBits - 1)

-- The exact value: every binary fraction ends in decimal notation too. It has the fewest decimal
-- places, but below the normal range always as many as the least exponent has.
def toDecimal (x : Binary64) : Decimal :=
  if x.mantissa = 0 then Decimal.zero
  else
    let (m, places) :=
      if x.isSubnormal then (x.mantissa, (-x.exponent).toNat)
      else lowestTerms (x.mantissa <<< x.exponent.toNat) (-x.exponent).toNat
    let magnitude : Int := (m * Nat.pow 5 places : Nat)
    ⟨if x.negative then -magnitude else magnitude, places⟩

end Binary64

end ParticipantTrust
