import ParticipantTrust.Json.Number

namespace ParticipantTrust.Json

inductive Bracket where
  | list
  | object

def Bracket.closing : Bracket → Char
  | .list => ']'
  | .object => '\x7d'

-- Where skipping stands: before a value, behind an opening bracket, or behind a value.
inductive SkipPlace where
  | value
  | opened
  | filled

def readColon (cs : List Char) : Except ReadError (List Char) :=
  match skipBlanks cs with
  | [] => .error .endOfText
  | ':' :: rest => .ok rest
  | _ => .error .malformed

def skipScalar : List Char → Except ReadError (List Char)
  | [] => .error .endOfText
  | 'n' :: rest => readKeyword ['u', 'l', 'l'] rest
  | 't' :: rest => readKeyword ['r', 'u', 'e'] rest
  | 'f' :: rest => readKeyword ['a', 'l', 's', 'e'] rest
  | '"' :: rest => skipStringBody rest
  | c :: rest => if c = '-' ∨ c.isDigit then skipNumber (c :: rest) else .error .malformed

-- What precedes a value inside a bracket: the key and colon of a member, nothing in a list.
def skipKey (bracket : Bracket) (cs : List Char) : Except ReadError (List Char) :=
  match bracket with
  | .list => .ok cs
  | .object =>
    match skipBlanks cs with
    | [] => .error .endOfText
    | '"' :: rest => do
      let rest ← skipStringBody rest
      readColon rest
    | _ => .error .malformed

-- Passes over a value inside the brackets `stack`, innermost first, and over all that closes them.
-- Every second step takes a character, so twice the length of the text is fuel enough.
def skipLoop : Nat → SkipPlace → List Bracket → List Char → Except ReadError (List Char)
  | 0, _, _, _ => .error .malformed
  | _ + 1, .filled, [], cs => .ok cs
  | fuel + 1, .filled, bracket :: stack, cs =>
    match skipBlanks cs with
    | [] => .error .endOfText
    | c :: rest =>
      if c = ',' then do
        let rest ← skipKey bracket rest
        skipLoop fuel .value (bracket :: stack) rest
      else if c = bracket.closing then skipLoop fuel .filled stack rest
      else .error .malformed
  | fuel + 1, .opened, [], cs => skipLoop fuel .value [] cs
  | fuel + 1, .opened, bracket :: stack, cs =>
    match skipBlanks cs with
    | [] => .error .endOfText
    | c :: rest =>
      if c = bracket.closing then skipLoop fuel .filled stack rest
      else do
        let rest ← skipKey bracket (c :: rest)
        skipLoop fuel .value (bracket :: stack) rest
  | fuel + 1, .value, stack, cs =>
    match skipBlanks cs with
    | '[' :: rest => skipLoop fuel .opened (.list :: stack) rest
    | '\x7b' :: rest => skipLoop fuel .opened (.object :: stack) rest
    | cs => do
      let rest ← skipScalar cs
      skipLoop fuel .filled stack rest

-- Passes over one value of any kind and depth.
def skipValue (cs : List Char) : Except ReadError (List Char) :=
  skipLoop (2 * cs.length + 2) .value [] cs

end ParticipantTrust.Json
