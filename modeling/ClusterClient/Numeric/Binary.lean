/-!
# Binary floating point

A number of a binary format is a sign and a *magnitude*: its exponent field and fraction bits
read as one natural number. The order of magnitudes is the order of the absolute values, so
rounding to the nearest number is one division whose remainder decides the last bit.

* `BinaryFormat`: how many bits the two fields have, and what a magnitude is worth;
* `BinaryFormat.round`: the nearest magnitude of a quotient, a tie going to the even one;
* `Binary`: a signed number of a format, with `Binary64` and `Binary32`.
-/

namespace ClusterClient

/-- The quotient rounded to the nearest integer, a tie going to the even one. -/
def roundHalfEven (num den : Nat) : Nat :=
  let quotient := num / den
  let rest := num % den
  if den < 2 * rest ∨ (2 * rest = den ∧ quotient % 2 = 1) then quotient + 1 else quotient

/-- The widths of the fraction and exponent fields of a binary format. -/
structure BinaryFormat where
  fractionBits : Nat
  exponentBits : Nat
  deriving DecidableEq, Repr

namespace BinaryFormat

/-- Double precision: 64 bits. -/
def double : BinaryFormat := ⟨52, 11⟩

/-- Single precision: 32 bits. -/
def single : BinaryFormat := ⟨23, 8⟩

/-- The least positive number of the format is `2 ^ (-scale)`: its unit. -/
def scale (f : BinaryFormat) : Nat :=
  Nat.pow 2 (f.exponentBits - 1) + f.fractionBits - 2

/-- The first magnitude that stands for no finite number: all exponent bits set. It is infinity;
the ones above it are not numbers. -/
def infinite (f : BinaryFormat) : Nat :=
  (Nat.pow 2 f.exponentBits - 1) * Nat.pow 2 f.fractionBits

/-- The integer that a magnitude scales: the fraction, with the leading bit of a normal number. -/
def significand (f : BinaryFormat) (magnitude : Nat) : Nat :=
  if magnitude < Nat.pow 2 f.fractionBits then magnitude
  else Nat.pow 2 f.fractionBits + magnitude % Nat.pow 2 f.fractionBits

/-- The power of two by which a magnitude scales its significand, counted in units. -/
def shift (f : BinaryFormat) (magnitude : Nat) : Nat :=
  magnitude / Nat.pow 2 f.fractionBits - 1

/-- The worth of a finite magnitude in units. -/
def units (f : BinaryFormat) (magnitude : Nat) : Nat :=
  f.significand magnitude * Nat.pow 2 (f.shift magnitude)

/-- The magnitude nearest to `num / den`. The shift is the least at which the quotient fits into
the significand; a quotient that rounds up past the significand carries into the exponent field,
which is the next magnitude. What exceeds the finite numbers is infinite. -/
def round (f : BinaryFormat) (num den : Nat) : Nat :=
  let scaled := num * Nat.pow 2 f.scale
  let shift := (scaled / den).log2 - f.fractionBits
  min (shift * Nat.pow 2 f.fractionBits + roundHalfEven scaled (den * Nat.pow 2 shift)) f.infinite

/-- The product of two finite magnitudes, rounded. -/
def mul (f : BinaryFormat) (a b : Nat) : Nat :=
  f.round (f.units a * f.units b) (Nat.pow 2 (2 * f.scale))

/-- The quotient of two finite magnitudes, rounded. -/
def div (f : BinaryFormat) (a b : Nat) : Nat :=
  f.round (f.units a) (f.units b)

end BinaryFormat

/-- A signed number of a binary format. -/
structure Binary (f : BinaryFormat) where
  negative : Bool
  magnitude : Nat
  deriving DecidableEq, Repr

abbrev Binary64 := Binary .double

abbrev Binary32 := Binary .single

namespace Binary

variable {f : BinaryFormat}

/-- Whether the number is neither infinite nor a not-a-number. -/
def isFinite (x : Binary f) : Bool :=
  x.magnitude < f.infinite

/-- The number nearest to an integer. Zero is positive. -/
def ofInt (i : Int) : Binary f :=
  ⟨i < 0, f.round i.natAbs 1⟩

def infinity (negative : Bool) : Binary f :=
  ⟨negative, f.infinite⟩

/-- The positive quiet not-a-number. -/
def nan : Binary f :=
  ⟨false, f.infinite + Nat.pow 2 (f.fractionBits - 1)⟩

/-- The number of another format nearest to this one; what is not finite stays so. -/
def convert (g : BinaryFormat) (x : Binary f) : Binary g :=
  ⟨x.negative, if x.isFinite then g.round (f.units x.magnitude) (Nat.pow 2 f.scale) else g.infinite⟩

/-- The number as one bit pattern, the sign in front. -/
def bits (x : Binary f) : Nat :=
  x.negative.toNat * Nat.pow 2 (f.exponentBits + f.fractionBits) + x.magnitude

end Binary

end ClusterClient
