/-!
# Tokens

What a JSON text is made of. A token keeps what was written and judges only the grammar: a string
may still hold bytes that are no text and lone surrogates, and a numeral may still be too large.
Whoever asks for its value decides about that, and members that nobody asks for may hold such
tokens.
-/

namespace ClusterClient.Json

/-- A piece of a string between its quotes: a byte that stands for itself, or a UTF-16 code unit
that was escaped. -/
inductive Piece where
  | byte (b : UInt8)
  | codeUnit (n : Nat)
  deriving DecidableEq, Repr

/-- A numeral by its parts. -/
structure Numeral where
  negative : Bool
  /-- The digits before the point. -/
  whole : List Nat
  /-- The digits after the point, none when there is no point. -/
  fraction : List Nat
  exponent : Option Int
  deriving DecidableEq, Repr

/-- A value without parts. -/
inductive Scalar where
  | null
  | bool (b : Bool)
  | number (n : Numeral)
  | string (pieces : List Piece)
  deriving DecidableEq, Repr

/-- A token. After a `flaw` there is no other. -/
inductive Token where
  | scalar (s : Scalar)
  | openArray
  | closeArray
  | openObject
  | closeObject
  | comma
  | colon
  | flaw
  deriving DecidableEq, Repr

end ClusterClient.Json
