import ClusterClient.Numeric.Binary

/-!
# Reading decimals into double precision

A decimal `s · 10 ^ e` is read as the product or the quotient of two doubles: the one nearest to
`s` and the one nearest to the power of ten. Each of the at most three roundings is to nearest,
which is fast and for long numerals may miss the nearest double by a last bit.

* `Significand`: how far the digits of a numeral are gathered into 64 bits;
* `doubleOfDecimal?`: the magnitude of a decimal, `none` when it is beyond the finite doubles.
-/

namespace ClusterClient

/-- The gathered digits of a numeral as an integer below `2 ^ 64`, and the power of ten by which
it falls short of what was read. -/
structure Significand where
  digits : Nat
  exponent : Int
  deriving DecidableEq, Repr

namespace Significand

/-- The significand with one more digit, if 64 bits hold it. -/
def extend? (digits digit : Nat) : Option Nat :=
  if digits * 10 + digit < Nat.pow 2 64 then some (digits * 10 + digit) else none

/-- Gathers the digits before the point. From the first digit that does not fit on, a digit only
counts as one power of ten. -/
def ofWhole (digits : Nat) : List Nat → Significand
  | [] => ⟨digits, 0⟩
  | d :: ds =>
    match extend? digits d with
    | some more => ofWhole more ds
    | none => ⟨digits, ds.length + 1⟩

/-- Gathers the digits after the point as far as they fit; the rest is dropped. -/
def withFraction (s : Significand) : List Nat → Significand
  | [] => s
  | d :: ds =>
    match extend? s.digits d with
    | some more => withFraction ⟨more, s.exponent - 1⟩ ds
    | none => s

end Significand

def doublePowerOfTen (e : Nat) : Nat :=
  BinaryFormat.double.round (Nat.pow 10 e) 1

/-- The magnitude of the double read for `digits · 10 ^ exponent`, `none` beyond the finite ones.
Exponents below -308 are reached by two divisions, and below -616 nothing is left. -/
def doubleOfDecimal? (digits : Nat) (exponent : Int) : Option Nat :=
  let start := BinaryFormat.double.round digits 1
  if 308 < exponent then
    if digits = 0 then some 0 else none
  else if 0 ≤ exponent then
    let magnitude := BinaryFormat.double.mul start (doublePowerOfTen exponent.toNat)
    if magnitude < BinaryFormat.double.infinite then some magnitude else none
  else if -308 ≤ exponent then
    some (BinaryFormat.double.div start (doublePowerOfTen (-exponent).toNat))
  else if -616 ≤ exponent then
    let lowered := BinaryFormat.double.div start (doublePowerOfTen 308)
    some (BinaryFormat.double.div lowered (doublePowerOfTen (-exponent - 308).toNat))
  else
    some 0

end ClusterClient
