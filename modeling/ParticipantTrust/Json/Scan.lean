import ParticipantTrust.Json.Error

namespace ParticipantTrust.Json

-- A reader takes a value off the front of a text.
abbrev Reader (α : Type) := List Char → Except ReadError (α × List Char)

def isBlank (c : Char) : Bool := c == ' ' || c == '\n' || c == '\t' || c == '\r'

def skipBlanks (cs : List Char) : List Char := cs.dropWhile isBlank

-- The rest of a keyword. A text that ends inside it ends too early, another letter is no JSON.
def readKeyword : List Char → List Char → Except ReadError (List Char)
  | [], rest => .ok rest
  | _ :: _, [] => .error .endOfText
  | k :: keyword, c :: rest => if k = c then readKeyword keyword rest else .error .malformed

def byteCount (cs : List Char) : Nat := cs.foldl (fun count c => count + c.utf8Size) 0

def hexValue (c : Char) : Option Nat :=
  if c.isDigit then some (c.toNat - '0'.toNat)
  else if 'a' ≤ c ∧ c ≤ 'f' then some (c.toNat - 'a'.toNat + 10)
  else if 'A' ≤ c ∧ c ≤ 'F' then some (c.toNat - 'A'.toNat + 10)
  else none

-- The code unit in four hexadecimal digits.
def codeUnit (a b c d : Char) : Option Nat := do
  return ((← hexValue a) * 16 + (← hexValue b)) * 256 + ((← hexValue c) * 16 + (← hexValue d))

-- Refusal of what follows the letter of a numeric escape: fewer than four bytes end the text too early.
def numericEscapeError (cs : List Char) : ReadError :=
  if byteCount cs < 4 then .endOfText else .malformed

-- The character of a one-letter escape.
def letterEscape (c : Char) : Option Char :=
  if c = '"' ∨ c = '\\' ∨ c = '/' then some c
  else if c = 'b' then some '\x08'
  else if c = 'f' then some '\x0c'
  else if c = 'n' then some '\n'
  else if c = 'r' then some '\r'
  else if c = 't' then some '\t'
  else none

def isLeadUnit (n : Nat) : Bool := 0xD800 ≤ n && n < 0xDC00

def isTrailUnit (n : Nat) : Bool := 0xDC00 ≤ n && n < 0xE000

def joinUnits (lead trail : Nat) : Char :=
  Char.ofNat (0x10000 + (lead - 0xD800) * 0x400 + (trail - 0xDC00))

-- Refusal of what follows a lead unit and is no second numeric escape.
def loneLeadError : List Char → ReadError
  | [] => .endOfText
  | ['\\'] => .endOfText
  | '\\' :: 'u' :: rest => numericEscapeError rest
  | _ => .malformed

-- The contents of a string from behind its opening quote to its closing quote. Control characters have
-- to be escaped, and the two halves of a character beyond the basic plane have to stand together.
def readStringBody : Reader (List Char)
  | [] => .error .endOfText
  | '"' :: rest => .ok ([], rest)
  | '\\' :: 'u' :: a :: b :: c :: d :: rest =>
    match codeUnit a b c d with
    | none => .error (numericEscapeError (a :: b :: c :: d :: rest))
    | some unit =>
      if isTrailUnit unit then .error .malformed
      else if isLeadUnit unit then
        match rest with
        | '\\' :: 'u' :: e :: f :: g :: h :: rest =>
          match codeUnit e f g h with
          | none => .error (numericEscapeError (e :: f :: g :: h :: rest))
          | some trail =>
            if isTrailUnit trail then
              (readStringBody rest).map fun (cs, rest) => (joinUnits unit trail :: cs, rest)
            else .error .malformed
        | other => .error (loneLeadError other)
      else (readStringBody rest).map fun (cs, rest) => (Char.ofNat unit :: cs, rest)
  | '\\' :: 'u' :: rest => .error (numericEscapeError rest)
  | ['\\'] => .error .endOfText
  | '\\' :: c :: rest =>
    match letterEscape c with
    | none => .error .malformed
    | some c => (readStringBody rest).map fun (cs, rest) => (c :: cs, rest)
  | c :: rest =>
    if c.toNat < 32 then .error .malformed
    else (readStringBody rest).map fun (cs, rest) => (c :: cs, rest)

-- Passes over a string whose contents do not matter: its numeric escapes need not be characters.
def skipStringBody : List Char → Except ReadError (List Char)
  | [] => .error .endOfText
  | '"' :: rest => .ok rest
  | '\\' :: 'u' :: a :: b :: c :: d :: rest =>
    match codeUnit a b c d with
    | none => .error (numericEscapeError (a :: b :: c :: d :: rest))
    | some _ => skipStringBody rest
  | '\\' :: 'u' :: rest => .error (numericEscapeError rest)
  | ['\\'] => .error .endOfText
  | '\\' :: c :: rest => if (letterEscape c).isSome then skipStringBody rest else .error .malformed
  | c :: rest => if c.toNat < 32 then .error .malformed else skipStringBody rest

end ParticipantTrust.Json
