import ParticipantTrust.Json.Skip
import ParticipantTrust.Json.Value

namespace ParticipantTrust.Json

-- A reader of values, which may contain as many brackets inside each other as there is `room`.
abbrev ValueReader (α : Type) := (room : Nat) → Reader α

-- How values of a type are written, and how they are read back.
structure Codec (α : Type) where
  read : ValueReader α
  write : α → Value

-- The next value as far as its kind shows: a scalar as a whole, a list or an object up to its bracket.
def readSeen (cs : List Char) : Except ReadError (Seen × List Char) :=
  match skipBlanks cs with
  | [] => .error .endOfText
  | 'n' :: rest => (readKeyword ['u', 'l', 'l'] rest).map (.null, ·)
  | 't' :: rest => (readKeyword ['r', 'u', 'e'] rest).map (.boolean true, ·)
  | 'f' :: rest => (readKeyword ['a', 'l', 's', 'e'] rest).map (.boolean false, ·)
  | '"' :: rest => (readStringBody rest).map fun (s, rest) => (.text (String.ofList s), rest)
  | '[' :: rest => .ok (.sequence, rest)
  | '\x7b' :: rest => .ok (.map, rest)
  | c :: rest =>
    if c = '-' ∨ c.isDigit then do
      let (number, rest) ← readNumber (c :: rest)
      match number with
      | .integer n => return (.integer n, rest)
      | .binary x => return (.binary x, rest)
    else .error .malformed

-- Reads a scalar that `accept` takes; a refusal of `none` says that the kind is wrong.
def readScalar {α : Type} (expected : String) (accept : Seen → Except (Option Mismatch) α) :
    Reader α := fun cs => do
  let (seen, rest) ← readSeen cs
  match accept seen with
  | .ok value => return (value, rest)
  | .error (some cause) => throw (.mismatch cause)
  | .error none => throw (.mismatch (.unexpectedType seen expected))

namespace Codec

def unsigned (type : String) (limit : Nat) : Reader Nat :=
  readScalar type fun
    | .integer n =>
      if 0 ≤ n ∧ n < limit then .ok n.toNat else .error (some (.unexpectedValue (.integer n) type))
    | _ => .error none

def u64 : Codec UInt64 where
  read _ cs := (unsigned "u64" UInt64.size cs).map fun (n, rest) => (UInt64.ofNat n, rest)
  write n := .integer n.toNat

def u32 : Codec UInt32 where
  read _ cs := (unsigned "u32" UInt32.size cs).map fun (n, rest) => (UInt32.ofNat n, rest)
  write n := .integer n.toNat

def boolean : Codec Bool where
  read _ := readScalar "a boolean" fun
    | .boolean b => .ok b
    | _ => .error none
  write := .boolean

def text : Codec String where
  read _ := readScalar "a string" fun
    | .text s => .ok s
    | _ => .error none
  write := .text

def decimalOf : Seen → Except Mismatch Decimal
  | .text s => (Decimal.ofText s).mapError .decimal
  | .integer n => .ok (Decimal.ofInt n)
  | .binary x => .ok x.toDecimal
  | seen => .error (.unexpectedType seen "a number or formatted decimal string")

-- The key of an object that stands for the decimal under it.
def numberKey : List Char := "$serde_json::private::Number".toList

-- What follows the key at the front of an object, when it is written as it is, without escapes.
def afterNumberKey? (cs : List Char) : Option (List Char) :=
  let key := '"' :: numberKey ++ ['"']
  let cs := skipBlanks cs
  if key.isPrefixOf cs then some (cs.drop key.length) else none

def readObjectEnd (cs : List Char) : Except ReadError (List Char) :=
  match skipBlanks cs with
  | [] => .error .endOfText
  | '\x7d' :: rest => .ok rest
  | _ => .error .malformed

def readDecimal : ValueReader Decimal
  | 0, cs => do
    let (seen, rest) ← readSeen cs
    if seen = .sequence ∨ seen = .map then throw .malformed
    let value ← (decimalOf seen).mapError .mismatch
    return (value, rest)
  | room + 1, cs => do
    let (seen, rest) ← readSeen cs
    match seen, afterNumberKey? rest with
    | .map, some rest =>
      let rest ← readColon rest
      let (value, rest) ← readDecimal room rest
      let rest ← readObjectEnd rest
      return (value, rest)
    | seen, _ =>
      let value ← (decimalOf seen).mapError .mismatch
      return (value, rest)

-- Decimals are written as strings and read from strings, numbers and objects with the one key.
def decimal : Codec Decimal where
  read := readDecimal
  write v := .text v.text

def optional {α : Type} (codec : Codec α) : Codec (Option α) where
  read room cs :=
    match skipBlanks cs with
    | 'n' :: rest => (readKeyword ['u', 'l', 'l'] rest).map (none, ·)
    | cs => (codec.read room cs).map fun (value, rest) => (some value, rest)
  write
    | none => .null
    | some value => codec.write value

def findVariant {α : Type} (variants : List (String × α)) (name : List Char) : Except ReadError α :=
  match variants.lookup (String.ofList name) with
  | some value => .ok value
  | none =>
    .error (.mismatch (.unknownVariant (String.ofList name) (variants.map Prod.fst)))

-- The object form of a variant, from behind its brace: the name as key, and `null`.
def readVariantObject {α : Type} (variants : List (String × α)) (cs : List Char) :
    Except ReadError (α × List Char) :=
  match skipBlanks cs with
  | [] => .error .endOfText
  | '"' :: rest => do
    let (name, rest) ← readStringBody rest
    let value ← findVariant variants name
    let rest ← readColon rest
    let (seen, rest) ← readSeen rest
    if seen ≠ .null then throw (.mismatch (.unexpectedType seen "unit"))
    let rest ← readObjectEnd rest
    return (value, rest)
  | _ => .error .malformed

-- One of a list of names. Anything but a string or an object is no JSON in its place.
def variant {α : Type} (variants : List (String × α)) (name : α → String) : Codec α where
  read room cs :=
    match skipBlanks cs with
    | [] => .error .endOfText
    | '"' :: rest => do
      let (s, rest) ← readStringBody rest
      let value ← findVariant variants s
      return (value, rest)
    | '\x7b' :: rest => if room = 0 then .error .malformed else readVariantObject variants rest
    | _ => .error .malformed
  write value := .text (name value)

end Codec

-- Brackets in a document may stand inside each other this many times, where they are not passed over.
def mostBrackets : Nat := 127

-- A whole text: one value with nothing but blanks around it.
def Codec.decode {α : Type} (codec : Codec α) (s : String) : Except ReadError α := do
  let (value, rest) ← codec.read mostBrackets s.toList
  if skipBlanks rest = [] then return value else throw .malformed

def Codec.encode {α : Type} (codec : Codec α) (layout : Layout) (value : α) : String :=
  (codec.write value).write layout

end ParticipantTrust.Json
