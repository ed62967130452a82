namespace ParticipantTrust.Json

-- A document to be written. Members keep their order.
inductive Value where
  | null
  | boolean (b : Bool)
  | integer (n : Int)
  | text (s : String)
  | array (items : List Value)
  | object (members : List (String × Value))

-- Blanks between the tokens of a document: what precedes a line at some depth, and what follows the
-- colon of a member.
structure Layout where
  line : Nat → List Char
  gap : List Char

def Layout.compact : Layout := ⟨fun _ => [], []⟩

-- Every member on a line of its own, two spaces deeper than its object.
def Layout.indented : Layout := ⟨fun depth => '\n' :: List.replicate (2 * depth) ' ', [' ']⟩

def hexDigit (n : Nat) : Char := Nat.digitChar n

-- Quotes, backslashes and control characters are escaped, the latter by a letter where there is one.
def escape (c : Char) : List Char :=
  if c = '"' then ['\\', '"']
  else if c = '\\' then ['\\', '\\']
  else if c = '\n' then ['\\', 'n']
  else if c = '\r' then ['\\', 'r']
  else if c = '\t' then ['\\', 't']
  else if c = '\x08' then ['\\', 'b']
  else if c = '\x0c' then ['\\', 'f']
  else if c.toNat < 32 then ['\\', 'u', '0', '0', hexDigit (c.toNat / 16), hexDigit (c.toNat % 16)]
  else [c]

def quote (s : String) : List Char := '"' :: s.toList.flatMap escape ++ ['"']

def integerText (n : Int) : List Char :=
  if n < 0 then '-' :: Nat.toDigits 10 n.natAbs else Nat.toDigits 10 n.natAbs

-- Written items, one to a line, the closing bracket on a line at the depth of the opening one.
def bracketed (layout : Layout) (depth : Nat) (opening closing : Char) :
    List (List Char) → List Char
  | [] => [opening, closing]
  | first :: others =>
    opening :: layout.line (depth + 1) ++ first ++
      others.flatMap (fun item => ',' :: layout.line (depth + 1) ++ item) ++
      layout.line depth ++ [closing]

mutual

def Value.render (layout : Layout) (depth : Nat) : Value → List Char
  | .null => ['n', 'u', 'l', 'l']
  | .boolean true => ['t', 'r', 'u', 'e']
  | .boolean false => ['f', 'a', 'l', 's', 'e']
  | .integer n => integerText n
  | .text s => quote s
  | .array items => bracketed layout depth '[' ']' (renderItems layout (depth + 1) items)
  | .object members => bracketed layout depth '\x7b' '\x7d' (renderMembers layout (depth + 1) members)

def renderItems (layout : Layout) (depth : Nat) : List Value → List (List Char)
  | [] => []
  | item :: items => item.render layout depth :: renderItems layout depth items

def renderMembers (layout : Layout) (depth : Nat) : List (String × Value) → List (List Char)
  | [] => []
  | (name, value) :: members =>
    (quote name ++ ':' :: layout.gap ++ value.render layout depth) ::
      renderMembers layout depth members

end

def Value.write (layout : Layout) (v : Value) : String := String.ofList (v.render layout 0)

end ParticipantTrust.Json
