import ClusterClient.Json.Value
import ClusterClient.Calendar.Timestamp
import ClusterClient.Numeric.Shortest
import ClusterClient.Text.Quoted

/-!
# Problems of a body

Why bytes do not decode: they are no JSON text, or the text does not have the shape asked for.
The second kind names what was found and what was expected.
-/

namespace ClusterClient.Json

/-- What was found in the place of something else. -/
inductive Found where
  | null
  | bool (b : Bool)
  | number (n : Number)
  | string (s : String)
  | sequence
  | map
  deriving DecidableEq, Repr

/-- What a value is, without the parts of an array or object. -/
def Value.found : Value → Found
  | .null => .null
  | .bool b => .bool b
  | .number n => .number n
  | .string s => .string s
  | .array _ => .sequence
  | .object _ => .map

def Found.message : Found → String
  | .null => "null"
  | .bool b => "boolean `" ++ (if b then "true" else "false") ++ "`"
  | .number (.integer i) => "integer `" ++ toString i ++ "`"
  | .number (.real x) => "floating point `" ++ String.ofList x.text ++ "`"
  | .string s => "string " ++ quoted s
  | .sequence => "sequence"
  | .map => "map"

/-- What is wrong with the shape of a text. -/
inductive Cause where
  | missingField (name : String)
  | duplicateField (name : String)
  | invalidType (found : Found) (expected : String)
  | invalidValue (i : Int) (expected : String)
  | invalidLength (length : Nat) (expected : String)
  | unknownVariant (name : String) (known : List String)
  | invalidUuid
  | invalidTime (fault : TimeFault)
  deriving DecidableEq, Repr

def backquoted (name : String) : String :=
  "`" ++ name ++ "`"

def Cause.message : Cause → String
  | .missingField name => "missing field " ++ backquoted name
  | .duplicateField name => "duplicate field " ++ backquoted name
  | .invalidType found expected => "invalid type: " ++ found.message ++ ", expected " ++ expected
  | .invalidValue i expected =>
    "invalid value: integer " ++ backquoted (toString i) ++ ", expected " ++ expected
  | .invalidLength length expected =>
    "invalid length " ++ toString length ++ ", expected " ++ expected
  | .unknownVariant name known =>
    "unknown variant " ++ backquoted name ++ ", expected one of " ++
      String.intercalate ", " (known.map backquoted)
  | .invalidUuid => "UUID parsing failed"
  | .invalidTime fault => fault.message

/-- Why bytes do not decode. -/
inductive Problem where
  /-- They are no JSON text, or a number or a nesting is beyond the limits. -/
  | malformed
  | data (cause : Cause)
  deriving DecidableEq, Repr

end ClusterClient.Json
