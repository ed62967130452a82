import ParticipantTrust.Binary64.Shortest
import ParticipantTrust.Decimal.Text
import ParticipantTrust.Text.Debug

namespace ParticipantTrust.Json

-- The kind of a value that stands where another kind is expected.
inductive Seen where
  | null
  | boolean (b : Bool)
  | integer (n : Int)
  | binary (x : Binary64)
  | text (s : String)
  | sequence
  | map
deriving DecidableEq

def Seen.message : Seen → String
  | .null => "null"
  | .boolean b => "boolean `" ++ toString b ++ "`"
  | .integer n => "integer `" ++ toString n ++ "`"
  | .binary x => "floating point `" ++ x.text ++ "`"
  | .text s => "string " ++ Text.debugQuote s
  | .sequence => "sequence"
  | .map => "map"

-- Why a well-formed document is refused.
inductive Mismatch where
  | unexpectedType (seen : Seen) (expected : String)
  | unexpectedValue (seen : Seen) (expected : String)
  | missingField (name : String)
  | duplicateField (name : String)
  | unknownVariant (name : String) (variants : List String)
  | unexpectedLength (length : Nat) (type : String) (fields : Nat)
  | decimal (error : DecimalTextError)
deriving DecidableEq

def backquoted (name : String) : String := "`" ++ name ++ "`"

def Mismatch.message : Mismatch → String
  | .unexpectedType seen expected => "invalid type: " ++ seen.message ++ ", expected " ++ expected
  | .unexpectedValue seen expected => "invalid value: " ++ seen.message ++ ", expected " ++ expected
  | .missingField name => "missing field " ++ backquoted name
  | .duplicateField name => "duplicate field " ++ backquoted name
  | .unknownVariant name variants =>
    "unknown variant " ++ backquoted name ++ ", expected one of " ++
      ", ".intercalate (variants.map backquoted)
  | .unexpectedLength length type fields =>
    "invalid length " ++ toString length ++ ", expected struct " ++ type ++ " with " ++
      toString fields ++ (if fields = 1 then " element" else " elements")
  | .decimal error => error.message

-- Why a document cannot be read: it ends too early, it is no JSON, or it is another document than the
-- one expected.
inductive ReadError where
  | endOfText
  | malformed
  | mismatch (cause : Mismatch)
deriving DecidableEq

end ParticipantTrust.Json
