import ParticipantTrust.Binary64.Basic

namespace ParticipantTrust.Binary64

-- Digits `0.d₁d₂… · 10 ^ point` of a positive decimal fraction.
structure DigitString where
  digits : List Char
  point : Int

-- The interval of reals that round to a double, in quarters of its unit, with the double itself. The
-- ends belong to it iff the mantissa is even, and the lower half is halved at a power of two.
structure RoundingInterval where
  low : Nat
  value : Nat
  high : Nat
  closed : Bool

def roundingInterval (x : Binary64) : RoundingInterval :=
  let value := 4 * x.mantissa
  let below :=
    if x.mantissa = 1 <<< (mantissaBits - 1) ∧ leastExponent < x.exponent then 1 else 2
  ⟨value - below, value, value + 2, x.mantissa % 2 = 0⟩

-- The least `e` with `num / den < 10 ^ e`, for positive arguments.
def decimalPoint (num den : Nat) : Int :=
  if den ≤ num then Decimal.digitCount (num / den)
  else 1 - (Decimal.digitCount ((den - 1) / num) : Int)

-- `candidate · den` against the interval scaled by `num`.
def RoundingInterval.holds (interval : RoundingInterval) (num den candidate : Nat) : Bool :=
  if interval.closed then
    interval.low * num ≤ candidate * den && candidate * den ≤ interval.high * num
  else
    interval.low * num < candidate * den && candidate * den < interval.high * num

-- The multiple of `10 ^ unit` in the interval that is nearest to the value, if there is one, and of two
-- equally near the even one. The interval counts in units of `2 ^ exponent`.
def gridPoint? (interval : RoundingInterval) (exponent unit : Int) : Option Nat :=
  let num := Decimal.tenTo (-unit).toNat <<< exponent.toNat
  let den := Decimal.tenTo unit.toNat <<< (-exponent).toNat
  let below := interval.value * num / den
  let above := below + 1
  match interval.holds num den below, interval.holds num den above with
  | true, true =>
    let twice := 2 * (interval.value * num)
    let middle := (below + above) * den
    if twice < middle ∨ (twice = middle ∧ below % 2 = 0) then some below else some above
  | true, false => some below
  | false, true => some above
  | false, false => none

-- The first grid of one, two, … digits below `point` that meets the interval.
def shortestFrom (interval : RoundingInterval) (exponent point : Int) : Nat → Nat → Nat × Int
  | 0, count => ((gridPoint? interval exponent (point - count)).getD 0, point - count)
  | more + 1, count =>
    match gridPoint? interval exponent (point - count) with
    | some candidate => (candidate, point - count)
    | none => shortestFrom interval exponent point more (count + 1)

-- Seventeen digits tell any two doubles apart.
def mostDigits : Nat := 17

def dropTrailingZeros (digits : List Char) : List Char :=
  (digits.reverse.dropWhile (· == '0')).reverse

-- The fewest digits that read back as `x`, and of those the nearest, for `x` other than zero.
def shortest (x : Binary64) : DigitString :=
  let interval := x.roundingInterval
  let point := decimalPoint (x.mantissa <<< x.exponent.toNat) (1 <<< (-x.exponent).toNat)
  let (candidate, unit) := shortestFrom interval (x.exponent - 2) point (mostDigits - 1) 1
  let digits := Nat.toDigits 10 candidate
  ⟨dropTrailingZeros digits, unit + digits.length⟩

-- Positional notation from five zeros after the point up to sixteen digits before it, with a digit on
-- either side of the point; else one digit, the others after a point, and a signed exponent.
def DigitString.render (s : DigitString) : List Char :=
  let count : Int := s.digits.length
  if s.point ≤ -5 ∨ 16 < s.point then
    let fraction := s.digits.drop 1
    let exponent := s.point - 1
    s.digits.take 1 ++ (if fraction.isEmpty then [] else '.' :: fraction) ++
      'e' :: (if exponent < 0 then '-' else '+') :: Nat.toDigits 10 exponent.natAbs
  else if s.point ≤ 0 then '0' :: '.' :: List.replicate (-s.point).toNat '0' ++ s.digits
  else if count ≤ s.point then s.digits ++ List.replicate (s.point - count).toNat '0' ++ ['.', '0']
  else s.digits.take s.point.toNat ++ '.' :: s.digits.drop s.point.toNat

def text (x : Binary64) : String :=
  let magnitude := if x.mantissa = 0 then ['0', '.', '0'] else x.shortest.render
  String.ofList (if x.negative then '-' :: magnitude else magnitude)

end ParticipantTrust.Binary64
