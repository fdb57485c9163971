import ClusterClient.Json.Value
import ClusterClient.Numeric.Shortest
import ClusterClient.Text.Hex
import ClusterClient.Text.Utf8

/-!
# Writing

The compact text of a value: no white space, members in the order in which the value keeps them,
and in strings only those escapes that the grammar demands.
-/

namespace ClusterClient.Json

/-- How one character stands in a string. Control characters without a letter of their own are
written by number. -/
def writtenChar (c : Char) : List Char :=
  if c = '"' then ['\\', '"']
  else if c = '\\' then ['\\', '\\']
  else if c = '\x08' then ['\\', 'b']
  else if c = '\x0c' then ['\\', 'f']
  else if c = '\n' then ['\\', 'n']
  else if c = '\r' then ['\\', 'r']
  else if c = '\t' then ['\\', 't']
  else if c.toNat < 32 then '\\' :: 'u' :: hexText c.toNat 4
  else [c]

def writtenString (s : String) : List Char :=
  '"' :: (s.toList.flatMap writtenChar ++ ['"'])

def writtenInt (i : Int) : List Char :=
  if i < 0 then '-' :: decimalDigits i.natAbs else decimalDigits i.natAbs

def Number.written : Number → List Char
  | .integer i => writtenInt i
  | .real x => x.text

namespace Value

mutual

def written : Value → List Char
  | .null => ['n', 'u', 'l', 'l']
  | .bool true => ['t', 'r', 'u', 'e']
  | .bool false => ['f', 'a', 'l', 's', 'e']
  | .number n => n.written
  | .string s => writtenString s
  | .array items => '[' :: writtenItems items ++ [']']
  | .object ms => '\x7b' :: writtenMembers ms ++ ['\x7d']

/-- The items of an array with commas between them. -/
def writtenItems : List Value → List Char
  | [] => []
  | [v] => written v
  | v :: vs => written v ++ ',' :: writtenItems vs

/-- The members of an object with commas between them. -/
def writtenMembers : List (String × Value) → List Char
  | [] => []
  | [(name, v)] => writtenString name ++ ':' :: written v
  | (name, v) :: ms => writtenString name ++ ':' :: written v ++ ',' :: writtenMembers ms

end

def toBytes (v : Value) : List UInt8 :=
  Utf8.encodeChars v.written

end Value

end ClusterClient.Json
