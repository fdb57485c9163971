import ClusterClient.Json.Token
import ClusterClient.Json.Problem
import ClusterClient.Numeric.Decimal
import ClusterClient.Text.Utf8

/-!
# What scalars denote

The grammar lets strings and numerals pass that denote nothing: bytes that are no UTF-8, half a
surrogate pair, a number beyond the doubles. Their values are computed here.

* `Numeral.number?`: an integer where 64 bits hold it, else a double;
* `textOfPieces?`: the text of a string;
* `Scalar.value`: the value of a scalar.
-/

namespace ClusterClient.Json

/-! ## Numbers -/

namespace Numeral

/-- Whether the numeral has a fraction or an exponent. -/
def isFractional (n : Numeral) : Bool :=
  !n.fraction.isEmpty || n.exponent.isSome

/-- The gathered digits and the power of ten that scales them. -/
def significand (n : Numeral) : Significand :=
  let s := (Significand.ofWhole 0 n.whole).withFraction n.fraction
  ⟨s.digits, s.exponent + n.exponent.getD 0⟩

/-- The double that is read for the numeral, `none` beyond the finite ones. -/
def real? (n : Numeral) : Option Number :=
  (doubleOfDecimal? n.significand.digits n.significand.exponent).map fun magnitude =>
    .real ⟨n.negative, magnitude⟩

/-- The number of a numeral. Without fraction and exponent it is an integer if one of 64 bits has
that value; a negative zero is none. -/
def number? (n : Numeral) : Option Number :=
  let value : Nat := n.whole.foldl (fun v d => v * 10 + d) 0
  if n.isFractional then n.real?
  else if n.negative then
    if 0 < value ∧ value ≤ Nat.pow 2 63 then some (.integer (-value)) else n.real?
  else if value < Nat.pow 2 64 then some (.integer value)
  else n.real?

end Numeral

/-! ## Strings -/

/-- The bytes of a string. A high surrogate and the low one right after it are one character;
any other surrogate is a fault. -/
def bytesOfPieces? : List Piece → Option (List UInt8)
  | [] => some []
  | .byte b :: ps => (bytesOfPieces? ps).map (b :: ·)
  | .codeUnit high :: .codeUnit low :: ps =>
    if 0xD800 ≤ high ∧ high < 0xDC00 then
      if 0xDC00 ≤ low ∧ low < 0xE000 then
        let c := Char.ofNat ((high - 0xD800) * 0x400 + (low - 0xDC00) + 0x10000)
        (bytesOfPieces? ps).map (String.utf8EncodeChar c ++ ·)
      else none
    else if 0xDC00 ≤ high ∧ high < 0xE000 then none
    else (bytesOfPieces? (.codeUnit low :: ps)).map (String.utf8EncodeChar (Char.ofNat high) ++ ·)
  | .codeUnit n :: ps =>
    if 0xD800 ≤ n ∧ n < 0xE000 then none
    else (bytesOfPieces? ps).map (String.utf8EncodeChar (Char.ofNat n) ++ ·)

/-- The text of a string, `none` if its bytes are no UTF-8 or it holds half a surrogate pair. -/
def textOfPieces? (ps : List Piece) : Option String :=
  (bytesOfPieces? ps).bind Utf8.decode?

/-! ## Values -/

def Scalar.value : Scalar → Except Problem Value
  | .null => .ok .null
  | .bool b => .ok (.bool b)
  | .number n =>
    match n.number? with
    | some x => .ok (.number x)
    | none => .error .malformed
  | .string ps =>
    match textOfPieces? ps with
    | some s => .ok (.string s)
    | none => .error .malformed

/-- The name of a member. What is no string names none. -/
def Token.name : Token → Except Problem String
  | .scalar (.string ps) =>
    match textOfPieces? ps with
    | some s => .ok s
    | none => .error .malformed
  | _ => .error .malformed

end ClusterClient.Json
