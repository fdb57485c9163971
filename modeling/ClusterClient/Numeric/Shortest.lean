import ClusterClient.Numeric.Binary

/-!
# Shortest decimal text

The decimal of a double has the fewest digits that read back as that double; of several such
decimals it is the nearest one, and of two equally near ones the even one.

* `shortestDecimal`: the digits and the power of ten, found by testing the two neighbours of the
  number on the grids of one, two, … seventeen digits in exact arithmetic;
* `DecimalLayout`: where the point goes and when an exponent is written;
* `Binary64.text`: the text of a double in JSON bodies and messages.
-/

namespace ClusterClient

/-- The decimal digits of a number, most significant first. -/
def decimalDigits (n : Nat) : List Char :=
  Nat.toDigits 10 n

/-- The reals that round to one magnitude, and its own value, over a common denominator. -/
structure RoundingInterval where
  value : Nat
  low : Nat
  high : Nat
  /-- Whether the ends themselves round to the magnitude. -/
  closed : Bool

namespace RoundingInterval

/-- Decimal places kept by the common denominator: more than any double needs. -/
def places : Nat := 400

/-- The interval of a finite positive double, over `4 · 2 ^ scale · 10 ^ (-places)`. Below the
least significand of an exponent the numbers lie twice as close. -/
def ofDouble (magnitude : Nat) : RoundingInterval :=
  let f := BinaryFormat.double
  let s := f.significand magnitude
  let unit := Nat.pow 2 (f.shift magnitude) * Nat.pow 10 places
  let below := if s = Nat.pow 2 f.fractionBits ∧ 0 < f.shift magnitude then 1 else 2
  ⟨4 * s * unit, (4 * s - below) * unit, (4 * s + 2) * unit, magnitude % 2 = 0⟩

/-- Whether a point of the common denominator rounds to the magnitude. -/
def contains (i : RoundingInterval) (point : Nat) : Bool :=
  if i.closed then i.low ≤ point ∧ point ≤ i.high else i.low < point ∧ point < i.high

/-- The better of the two multiples of `step` around the value that lie in the interval. -/
def neighbour? (i : RoundingInterval) (step : Nat) : Option Nat :=
  let lower := i.value / step
  let upper := lower + 1
  let rest := i.value % step
  match i.contains (lower * step), i.contains (upper * step) with
  | true, true =>
    some (if 2 * rest < step ∨ (2 * rest = step ∧ lower % 2 = 0) then lower else upper)
  | true, false => some lower
  | false, true => some upper
  | false, false => none

end RoundingInterval

/-- A positive decimal `digits · 10 ^ exponent`. -/
structure Decimal where
  digits : Nat
  exponent : Int
  deriving DecidableEq, Repr

/-- Tries the grids of `n`, `n + 1`, … digits, `fuel` of them. -/
def shortestFrom (i : RoundingInterval) (top : Int) : Nat → Nat → Decimal
  | 0, n =>
    let exponent := top - n
    let step := 4 * Nat.pow 2 BinaryFormat.double.scale *
      Nat.pow 10 (RoundingInterval.places + exponent).toNat
    ⟨i.value / step, exponent⟩
  | fuel + 1, n =>
    let exponent := top - n
    let step := 4 * Nat.pow 2 BinaryFormat.double.scale *
      Nat.pow 10 (RoundingInterval.places + exponent).toNat
    match i.neighbour? step with
    | some digits => ⟨digits, exponent⟩
    | none => shortestFrom i top fuel (n + 1)

/-- The shortest decimal of a finite positive double. Seventeen digits always suffice. -/
def shortestDecimal (magnitude : Nat) : Decimal :=
  let i := RoundingInterval.ofDouble magnitude
  let ones := i.value / (4 * Nat.pow 2 BinaryFormat.double.scale)
  shortestFrom i ((decimalDigits ones).length - RoundingInterval.places) 17 1

/-- How a decimal is laid out as text. -/
structure DecimalLayout where
  /-- The least exponent of the first digit that is written without exponent. -/
  leastPositional : Int
  /-- The greatest one. -/
  mostPositional : Int
  /-- The least number of digits of a written exponent. -/
  exponentWidth : Nat

namespace DecimalLayout

/-- Digits are written in place for `1e-5` up to `1e15`; an exponent has a sign and two digits. -/
def json : DecimalLayout := ⟨-5, 15, 2⟩

/-- The exponent part: a mark, a sign and the padded digits. -/
def exponentText (l : DecimalLayout) (e : Int) : List Char :=
  let digits := decimalDigits e.natAbs
  'e' :: (if e < 0 then '-' else '+') ::
    (List.replicate (l.exponentWidth - digits.length) '0' ++ digits)

/-- The text of the number whose first digit has the given exponent. -/
def place (l : DecimalLayout) (digits : List Char) (top : Int) : List Char :=
  if top < l.leastPositional ∨ l.mostPositional < top then
    let tail := digits.drop 1
    digits.take 1 ++ (if tail.isEmpty then [] else '.' :: tail) ++ l.exponentText top
  else if top < 0 then
    '0' :: '.' :: (List.replicate (-top - 1).toNat '0' ++ digits)
  else
    let whole := top.toNat + 1
    let tail := digits.drop whole
    digits.take whole ++ List.replicate (whole - digits.length) '0' ++
      '.' :: (if tail.isEmpty then ['0'] else tail)

/-- The text of a decimal. Zeros at the end of its digits are not significant. -/
def render (l : DecimalLayout) (d : Decimal) : List Char :=
  let digits := decimalDigits d.digits
  let significant := (digits.reverse.dropWhile (· == '0')).reverse
  l.place significant (d.exponent + digits.length - 1)

end DecimalLayout

/-- The text of a finite double: the shortest decimal, with a point or an exponent at all times. -/
def Binary64.text (x : Binary64) : List Char :=
  let body := if x.magnitude = 0 then ['0', '.', '0']
    else DecimalLayout.json.render (shortestDecimal x.magnitude)
  if x.negative then '-' :: body else body

end ClusterClient
