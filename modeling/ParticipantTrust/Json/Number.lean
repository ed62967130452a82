import ParticipantTrust.Json.Scan

namespace ParticipantTrust.Json

-- A number is an integer of 64 bits, signed or not, or a double.
inductive Number where
  | integer (n : Int)
  | binary (x : Binary64)

-- The parts of a number as they are written.
structure NumberText where
  negative : Bool
  whole : List Char
  fraction : List Char
  -- sign and digits of the exponent
  exponent : Option (Bool × List Char)

-- The longest run of digits, which may not be empty. A text that ends before it is refused as `atEnd`.
def readDigitRun (atEnd : ReadError) : Reader (List Char)
  | [] => .error atEnd
  | c :: rest =>
    if c.isDigit then .ok (c :: rest.takeWhile Char.isDigit, rest.dropWhile Char.isDigit)
    else .error .malformed

-- Digits before the point; a zero stands alone.
def readWhole (atEnd : ReadError) (cs : List Char) : Except ReadError (List Char × List Char) := do
  let (digits, rest) ← readDigitRun atEnd cs
  if digits.head? = some '0' ∧ 1 < digits.length then throw .malformed
  return (digits, rest)

def readFraction (atEnd : ReadError) : Reader (List Char)
  | '.' :: rest => readDigitRun atEnd rest
  | rest => .ok ([], rest)

def readExponentSign : List Char → Bool × List Char
  | '-' :: rest => (true, rest)
  | '+' :: rest => (false, rest)
  | rest => (false, rest)

def readExponentPart (atEnd : ReadError) : Reader (Option (Bool × List Char))
  | [] => .ok (none, [])
  | c :: rest =>
    if Decimal.isExponentMark c then do
      let (negative, rest) := readExponentSign rest
      let (digits, rest) ← readDigitRun atEnd rest
      return (some (negative, digits), rest)
    else .ok (none, c :: rest)

def readSign : List Char → Bool × List Char
  | '-' :: rest => (true, rest)
  | rest => (false, rest)

def readNumberText (atEnd : ReadError) (cs : List Char) :
    Except ReadError (NumberText × List Char) := do
  let (negative, rest) := readSign cs
  let (whole, rest) ← readWhole atEnd rest
  let (fraction, rest) ← readFraction atEnd rest
  let (exponent, rest) ← readExponentPart atEnd rest
  return (⟨negative, whole, fraction, exponent⟩, rest)

-- Significands are limited to 64 bits.
def significandLimit : Nat := UInt64.size

def digitValue (c : Char) : Nat := c.toNat - '0'.toNat

-- Digits before the point while they fit, and the number of those that do not.
def absorbWhole : List Char → Nat → Nat × Nat
  | [], significand => (significand, 0)
  | c :: rest, significand =>
    let next := 10 * significand + digitValue c
    if next < significandLimit then absorbWhole rest next else (significand, rest.length + 1)

-- Digits after the point while they fit, and the number of those that do.
def absorbFraction : List Char → Nat → Nat × Nat
  | [], significand => (significand, 0)
  | c :: rest, significand =>
    let next := 10 * significand + digitValue c
    if next < significandLimit then
      let (significand, count) := absorbFraction rest next
      (significand, count + 1)
    else (significand, 0)

-- Exponents have 32 bits with their sign.
def exponentLimit : Nat := 1 <<< 31

def NumberText.exponentValue (t : NumberText) : Int :=
  match t.exponent with
  | none => 0
  | some (negative, digits) =>
    let n : Int := Nat.ofDigitChars 10 digits 0
    if negative then -n else n

-- The double of a written number. Digits that a 64-bit significand cannot take in count as zeros
-- before the point and are dropped after it; an exponent of more than 31 bits makes zero or infinity.
def NumberText.toBinary (t : NumberText) : Option Binary64 :=
  let (significand, dropped) := absorbWhole t.whole 0
  let (significand, places) := absorbFraction t.fraction significand
  let exponent := t.exponentValue
  if exponentLimit ≤ exponent.natAbs then
    if significand ≠ 0 ∧ 0 < exponent then none else Binary64.nearest t.negative 0 1
  else Binary64.ofScientific t.negative significand (dropped - places + exponent)

-- A number without fraction and exponent is an integer if it fits; minus zero is a double.
def NumberText.value (t : NumberText) : Option Number :=
  let n := Nat.ofDigitChars 10 t.whole 0
  if t.fraction = [] ∧ t.exponent = none ∧ ¬t.negative ∧ n < UInt64.size then some (.integer n)
  else if t.fraction = [] ∧ t.exponent = none ∧ t.negative ∧ 0 < n ∧
      Int64.minValue.toInt ≤ -(n : Int) then
    some (.integer (-n))
  else t.toBinary.map .binary

def readNumber (cs : List Char) : Except ReadError (Number × List Char) := do
  let (written, rest) ← readNumberText .endOfText cs
  match written.value with
  | some number => return (number, rest)
  | none => throw .malformed

-- Passes over a number of any size. One that is cut short is no JSON, also at the end of the text.
def skipNumber (cs : List Char) : Except ReadError (List Char) := do
  let (_, rest) ← readNumberText .malformed cs
  return rest

end ParticipantTrust.Json
