import ParticipantTrust.Decimal.Basic

namespace ParticipantTrust

-- Why a text is not a decimal.
inductive DecimalTextError where
  | noDigits
  | badDigit
  | exponentTooLarge
  | exponentTooSmall
  | emptyText
  | scaleOutOfRange (text : String)
deriving DecidableEq

def DecimalTextError.message : DecimalTextError → String
  | .noDigits => "cannot parse integer from empty string"
  | .badDigit => "invalid digit found in string"
  | .exponentTooLarge => "number too large to fit in target type"
  | .exponentTooSmall => "number too small to fit in target type"
  | .emptyText => "Failed to parse empty string"
  | .scaleOutOfRange text => "Exponent overflow when parsing '" ++ text ++ "'"

namespace Decimal

-- Exponents have 128 bits with their sign.
def exponentLimit : Nat := 1 <<< 127

-- Scales have 64 bits with their sign.
def ScaleFits (scale : Int) : Prop :=
  Int64.minValue.toInt ≤ scale ∧ scale ≤ Int64.maxValue.toInt

instance (scale : Int) : Decidable (ScaleFits scale) := by
  unfold ScaleFits; infer_instance

-- Digits of an exponent, added to `value`, up to `limit`. The first character that is no digit and the
-- first digit that leads past the limit compete from the left.
def readExponentDigits (limit : Nat) (tooFar : DecimalTextError) :
    List Char → Nat → Except DecimalTextError Nat
  | [], value => .ok value
  | c :: rest, value =>
    if c.isDigit then
      let next := 10 * value + (c.toNat - '0'.toNat)
      if limit < next then .error tooFar else readExponentDigits limit tooFar rest next
    else .error .badDigit

-- An exponent has one optional sign and at least one digit.
def readExponent : List Char → Except DecimalTextError Int
  | [] => .error .noDigits
  | ['+'] => .error .badDigit
  | ['-'] => .error .badDigit
  | '-' :: digits => do
    let value ← readExponentDigits exponentLimit .exponentTooSmall digits 0
    return -(value : Int)
  | '+' :: digits => do
    let value ← readExponentDigits (exponentLimit - 1) .exponentTooLarge digits 0
    return value
  | digits => do
    let value ← readExponentDigits (exponentLimit - 1) .exponentTooLarge digits 0
    return value

-- Digits with underscores between or after them.
def readDigits : List Char → Nat → Except DecimalTextError Nat
  | [], value => .ok value
  | c :: rest, value =>
    if c = '_' then readDigits rest value
    else if c.isDigit then readDigits rest (10 * value + (c.toNat - '0'.toNat))
    else .error .badDigit

-- An unsigned mantissa may carry one plus sign.
def readMagnitude (cs : List Char) : Except DecimalTextError Nat :=
  let digits :=
    match cs with
    | '+' :: '+' :: _ => cs
    | '+' :: rest => rest
    | _ => cs
  match digits with
  | [] => .error .noDigits
  | '_' :: _ => .error .badDigit
  | _ => readDigits digits 0

-- A mantissa with an optional minus sign, which a plus sign may not follow.
def readMantissa : List Char → Except DecimalTextError Int
  | '-' :: '+' :: _ => .error .badDigit
  | '-' :: rest => do
    let value ← readMagnitude rest
    return -(value : Int)
  | cs => do
    let value ← readMagnitude cs
    return value

-- The digits of a mantissa text without its first point, and how many of them follow it.
def splitPoint (cs : List Char) : List Char × Nat :=
  let whole := cs.takeWhile (· ≠ '.')
  let places := (cs.dropWhile (· ≠ '.')).drop 1
  (whole ++ places, places.countP (· ≠ '_'))

def isExponentMark (c : Char) : Bool := c == 'e' || c == 'E'

-- `<mantissa>[.<places>][e<exponent>]`. The exponent is judged before the rest.
def readText (cs : List Char) : Except DecimalTextError Decimal := do
  let base := cs.takeWhile (! isExponentMark ·)
  let exponent ←
    match cs.dropWhile (! isExponentMark ·) with
    | [] => .ok 0
    | _ :: digits => readExponent digits
  if base.isEmpty then throw .emptyText
  let (digits, places) := splitPoint base
  let scale := (places : Int) - exponent
  if ¬ScaleFits scale then throw (.scaleOutOfRange (String.ofList cs))
  let mantissa ← readMantissa digits
  return ⟨mantissa, scale⟩

def ofText (text : String) : Except DecimalTextError Decimal := readText text.toList

-- Positional notation of `digits` with `places` of them after the point.
def positional (digits : List Char) (places : Nat) : List Char :=
  if digits.length ≤ places then
    '0' :: '.' :: List.replicate (places - digits.length) '0' ++ digits
  else
    digits.take (digits.length - places) ++ '.' :: digits.drop (digits.length - places)

-- More than five zeros between the point and the first digit give scientific notation, more than
-- fifteen zeros to append give an exponent, all else is positional.
def magnitudeText (digits : List Char) (scale : Int) : List Char :=
  if 0 < scale then
    if 5 < scale - digits.length then
      let fraction := digits.drop 1
      digits.take 1 ++ (if fraction.isEmpty then [] else '.' :: fraction) ++
        'E' :: '-' :: Nat.toDigits 10 (scale + 1 - digits.length).toNat
    else positional digits scale.toNat
  else if scale < -15 then digits ++ 'e' :: '+' :: Nat.toDigits 10 (-scale).toNat
  else digits ++ List.replicate (-scale).toNat '0'

def textChars (v : Decimal) : List Char :=
  if v.mantissa = 0 then ['0']
  else
    let magnitude := magnitudeText (Nat.toDigits 10 v.mantissa.natAbs) v.scale
    if v.mantissa < 0 then '-' :: magnitude else magnitude

def text (v : Decimal) : String := String.ofList v.textChars

end Decimal

end ParticipantTrust
