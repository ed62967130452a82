namespace ParticipantTrust

-- The number `mantissa · 10 ^ (-scale)`. One number has many written forms (`0.5`, `0.50`), so `=`
-- compares written forms and `SameValue` below compares numbers.
structure Decimal where
  mantissa : Int
  scale : Int
deriving DecidableEq, Inhabited

-- How a quotient of integers becomes an integer.
inductive Rounding where
  | halfUp
  | ceiling
  | down
deriving DecidableEq

-- `m / d` as an integer, for `0 < d`; `halfUp` sends a tie away from zero.
def Rounding.quotient (mode : Rounding) (m : Int) (d : Nat) : Int :=
  match mode with
  | .halfUp => m.sign * ((2 * m.natAbs + d) / (2 * d) : Nat)
  | .ceiling => -(-m / d)
  | .down => m.tdiv d

namespace Decimal

def ofInt (n : Int) : Decimal := ⟨n, 0⟩

def zero : Decimal := ofInt 0

def one : Decimal := ofInt 1

def half : Decimal := ⟨5, 1⟩

-- The smallest positive number with `scale` decimal places.
def unitAt (scale : Int) : Decimal := ⟨1, scale⟩

def isZero (v : Decimal) : Bool := v.mantissa == 0

-- Powers of ten.
def tenTo (k : Nat) : Nat := Nat.pow 10 k

-- Decimal digits of a natural number, at least one.
def digitCount (n : Nat) : Nat := (Nat.toDigits 10 n).length

-- The order of `m · 10 ^ k` and `n`. A power of ten above `|n|` already decides by the sign of `m`,
-- which keeps far apart scales from being aligned.
def compareShifted (m : Int) (k : Nat) (n : Int) : Ordering :=
  if m = 0 then Ord.compare 0 n
  else if n.natAbs.log2 < k then Ord.compare m 0
  else Ord.compare (m * tenTo k) n

protected def compare (a b : Decimal) : Ordering :=
  if a.scale ≤ b.scale then compareShifted a.mantissa (b.scale - a.scale).toNat b.mantissa
  else (compareShifted b.mantissa (a.scale - b.scale).toNat a.mantissa).swap

instance : Ord Decimal := ⟨Decimal.compare⟩

instance : LT Decimal := ⟨fun a b => a.compare b = .lt⟩

instance : LE Decimal := ⟨fun a b => a.compare b ≠ .gt⟩

instance (a b : Decimal) : Decidable (a < b) :=
  inferInstanceAs (Decidable (a.compare b = .lt))

instance (a b : Decimal) : Decidable (a ≤ b) :=
  inferInstanceAs (Decidable (a.compare b ≠ .gt))

-- Equality of the numbers, whatever their written forms.
def SameValue (a b : Decimal) : Prop := a.compare b = .eq

instance (a b : Decimal) : Decidable (a.SameValue b) :=
  inferInstanceAs (Decidable (a.compare b = .eq))

-- The mantissa of `v` written with `scale` places, for `v.scale ≤ scale`.
def mantissaAt (v : Decimal) (scale : Int) : Int :=
  if v.mantissa = 0 then 0 else v.mantissa * tenTo (scale - v.scale).toNat

-- `a + b` with the places of the operand that has more of them.
def alignedSum (a b : Decimal) : Decimal :=
  let scale := max a.scale b.scale
  ⟨a.mantissaAt scale + b.mantissaAt scale, scale⟩

-- `v` with up to fifteen more decimal places, to reach `scale`.
def widen (v : Decimal) (scale : Int) : Decimal :=
  let places := min 15 (scale - v.scale)
  if places ≤ 0 then v else ⟨v.mantissaAt (v.scale + places), v.scale + places⟩

-- Adding zero leaves a number as it is, but for some of the decimal places that the zero is written
-- with, which may be far too many to align to.
protected def add (a b : Decimal) : Decimal :=
  if b.isZero then a.widen b.scale
  else if a.isZero then b.widen a.scale
  else a.alignedSum b

protected def neg (v : Decimal) : Decimal := ⟨-v.mantissa, v.scale⟩

protected def sub (a b : Decimal) : Decimal := a.alignedSum b.neg

protected def mul (a b : Decimal) : Decimal := ⟨a.mantissa * b.mantissa, a.scale + b.scale⟩

instance : Add Decimal := ⟨Decimal.add⟩

instance : Neg Decimal := ⟨Decimal.neg⟩

instance : Sub Decimal := ⟨Decimal.sub⟩

instance : Mul Decimal := ⟨Decimal.mul⟩

def abs (v : Decimal) : Decimal := ⟨v.mantissa.natAbs, v.scale⟩

-- `1 - v`. As in a sum, a zero is not aligned to.
def complement (v : Decimal) : Decimal := if v.isZero then one else one - v

-- `v` written with exactly `scale` places. When the dropped places outnumber the binary digits of
-- the mantissa, `v` is closer to zero than half a unit and rounds as a tenth of its sign does.
def roundWith (mode : Rounding) (v : Decimal) (scale : Int) : Decimal :=
  if v.scale ≤ scale then ⟨v.mantissaAt scale, scale⟩
  else
    let dropped := (v.scale - scale).toNat
    if v.mantissa.natAbs.log2 < dropped then ⟨mode.quotient v.mantissa.sign 10, scale⟩
    else ⟨mode.quotient v.mantissa (tenTo dropped), scale⟩

def round (v : Decimal) (scale : Int) : Decimal := v.roundWith .halfUp scale

-- Whole part of a number that needs no rounding any more.
def toInt (v : Decimal) : Int :=
  (v.roundWith .down 0).mantissa

end Decimal

end ParticipantTrust
