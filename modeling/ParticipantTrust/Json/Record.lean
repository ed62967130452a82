import ParticipantTrust.Json.Codec

namespace ParticipantTrust.Json

-- What a record does without one of its fields.
inductive Absence where
  -- refuse to be read
  | refused
  -- an object may leave the field unset, a list has to give it
  | unset
  -- take a default
  | defaulted
deriving DecidableEq

-- A named part of a record: how it is read into the record, and how it is written.
structure Field (τ : Type) where
  name : String
  absence : Absence
  read : ValueReader (τ → τ)
  write : τ → Value

def Codec.field {α τ : Type} (codec : Codec α) (name : String) (absence : Absence)
    (get : τ → α) (set : α → τ → τ) : Field τ where
  name
  absence
  read room cs := (codec.read room cs).map fun (value, rest) => (set value, rest)
  write record := codec.write (get record)

-- A record with its fields in order. `blank` holds what absent fields have.
structure Record (τ : Type) where
  name : String
  fields : List (Field τ)
  blank : τ

namespace Record

variable {τ : Type}

-- Position of the first field that a list may not lack.
def firstIndispensable (index : Nat) : List (Field τ) → Option Nat
  | [] => none
  | field :: fields =>
    if field.absence = .defaulted then firstIndispensable (index + 1) fields else some index

-- What a list holds at the place of its next element.
inductive NextElement where
  | closed (rest : List Char)
  | element (rest : List Char)

def nextElement (first : Bool) (cs : List Char) : Except ReadError NextElement :=
  match skipBlanks cs with
  | [] => .error .endOfText
  | ']' :: rest => .ok (.closed rest)
  | c :: rest =>
    if first then .ok (.element (c :: rest))
    else if c = ',' then
      match skipBlanks rest with
      | [] => .error .endOfText
      | ']' :: _ => .error .malformed
      | rest => .ok (.element rest)
    else .error .malformed

-- A list ends right behind its last field.
def readListEnd (cs : List Char) : Except ReadError (List Char) :=
  match skipBlanks cs with
  | [] => .error .endOfText
  | ']' :: rest => .ok rest
  | _ => .error .malformed

-- The fields of a record in list form, from behind the opening bracket.
def readElements (r : Record τ) (room : Nat) : List (Field τ) → Nat → τ → Reader τ
  | [], _, record, cs => (readListEnd cs).map (record, ·)
  | field :: fields, index, record, cs => do
    match ← nextElement (index == 0) cs with
    | .closed rest =>
      match firstIndispensable index (field :: fields) with
      | some missing =>
        throw (.mismatch (.unexpectedLength missing r.name r.fields.length))
      | none => return (record, rest)
    | .element rest =>
      let (update, rest) ← field.read room rest
      readElements r room fields (index + 1) (update record) rest

-- What an object holds at the place of its next key.
inductive NextKey where
  | closed (rest : List Char)
  | key (name : String) (rest : List Char)

def readKey (rest : List Char) : Except ReadError NextKey := do
  let (name, rest) ← readStringBody rest
  return .key (String.ofList name) rest

def nextKey (first : Bool) (cs : List Char) : Except ReadError NextKey :=
  match skipBlanks cs with
  | [] => .error .endOfText
  | '\x7d' :: rest => .ok (.closed rest)
  | '"' :: rest => if first then readKey rest else .error .malformed
  | ',' :: rest =>
    if first then .error .malformed
    else
      match skipBlanks rest with
      | [] => .error .endOfText
      | '"' :: rest => readKey rest
      | _ => .error .malformed
  | _ => .error .malformed

-- The members of a record in object form with the names met so far. Unknown ones are passed over, a
-- repeated one is refused at its key. Every member takes characters, so the length of the text is fuel
-- enough.
def readMembers (r : Record τ) (room : Nat) : Nat → List String → Bool → τ → Reader τ
  | 0, _, _, _, _ => .error .malformed
  | fuel + 1, met, first, record, cs => do
    match ← nextKey first cs with
    | .closed rest =>
      match r.fields.find? fun field => field.absence = .refused ∧ field.name ∉ met with
      | some field => throw (.mismatch (.missingField field.name))
      | none => return (record, rest)
    | .key name rest =>
      match r.fields.find? fun field => field.name = name with
      | some field =>
        if name ∈ met then throw (.mismatch (.duplicateField name))
        let rest ← readColon rest
        let (update, rest) ← field.read room rest
        readMembers r room fuel (name :: met) false (update record) rest
      | none =>
        let rest ← readColon rest
        let rest ← skipValue rest
        readMembers r room fuel met false record rest

def read (r : Record τ) : ValueReader τ := fun room cs => do
  let (seen, rest) ← readSeen cs
  match seen, room with
  | .sequence, room + 1 => readElements r room r.fields 0 r.blank rest
  | .map, room + 1 => readMembers r room (rest.length + 1) [] true r.blank rest
  | .sequence, 0 | .map, 0 => throw .malformed
  | seen, _ => throw (.mismatch (.unexpectedType seen ("struct " ++ r.name)))

def write (r : Record τ) (record : τ) : Value :=
  .object (r.fields.map fun field => (field.name, field.write record))

def codec (r : Record τ) : Codec τ := ⟨r.read, r.write⟩

end Record

end ParticipantTrust.Json
