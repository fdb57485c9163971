import ClusterClient.Calendar.Instant
import ClusterClient.Text.CharClass

/-!
# Timestamps

The text form of instants. What is written is one form of RFC 3339: universal time, with as many
fraction digits as are exact. What is read is wider: parts may be short, white space may stand
around them, and any offset is understood.

* `Instant.timestamp`: the written form;
* `Timestamp.read`: the reader, a chain of small readers over the remaining characters, which
  stops at the first fault.
-/

namespace ClusterClient

/-- Why a text is no timestamp. -/
inductive TimeFault where
  | outOfRange
  | invalid
  | tooShort
  | trailing
  | impossible
  deriving DecidableEq, Repr

def TimeFault.message : TimeFault → String
  | .outOfRange => "input is out of range"
  | .invalid => "input contains invalid characters"
  | .tooShort => "premature end of input"
  | .trailing => "trailing input"
  | .impossible => "no possible date and time matching input"

/-! ## Writing -/

/-- A number with at least `width` digits. -/
def padded (width n : Nat) : List Char :=
  let digits := Nat.toDigits 10 n
  List.replicate (width - digits.length) '0' ++ digits

/-- A year: four digits, or a sign and at least four digits outside 0 to 9999. -/
def yearText (year : Int) : List Char :=
  if 0 ≤ year ∧ year ≤ 9999 then padded 4 year.toNat
  else (if year < 0 then '-' else '+') :: padded 4 year.natAbs

/-- The fraction of a second, by the shortest of 0, 3, 6 and 9 digits that is exact. -/
def fractionText (nanos : Nat) : List Char :=
  if nanos = 0 then []
  else if nanos % 1000000 = 0 then '.' :: padded 3 (nanos / 1000000)
  else if nanos % 1000 = 0 then '.' :: padded 6 (nanos / 1000)
  else '.' :: padded 9 nanos

/-- The timestamp of an instant, in universal time. -/
def Instant.timestamp (t : Instant) : List Char :=
  let d := t.date
  let second := t.secondOfDay
  let leap := t.nanos / 1000000000
  yearText d.year ++ '-' :: padded 2 d.month ++ '-' :: padded 2 d.day ++
    'T' :: padded 2 (second / 3600) ++ ':' :: padded 2 (second / 60 % 60) ++
    ':' :: padded 2 (second % 60 + leap) ++ fractionText (t.nanos % 1000000000) ++ ['Z']

/-! ## Reading -/

namespace Timestamp

/-- A reader takes characters from the front and returns what it read and what is left. -/
abbrev Reader (α : Type) := List Char → Except TimeFault (α × List Char)

def skipBlanks (cs : List Char) : List Char :=
  cs.dropWhile isBlank

def literal (c : Char) : Reader Unit
  | [] => .error .tooShort
  | x :: rest => if x = c then .ok ((), rest) else .error .invalid

/-- Reads a given character, with white space before it. -/
def spacedLiteral (c : Char) : Reader Unit :=
  fun cs => literal c (skipBlanks cs)

def numberOf (digits : List Char) : Nat :=
  digits.foldl (fun n c => n * 10 + (c.toNat - 48)) 0

/-- Reads at least one digit and at most `most` of them. A number beyond 63 bits is out of
range. -/
def number (most : Option Nat) : Reader Nat
  | [] => .error .tooShort
  | c :: rest =>
    if c.isDigit then
      let all := (c :: rest).takeWhile Char.isDigit
      let digits := match most with
        | none => all
        | some n => all.take n
      if numberOf digits < Nat.pow 2 63 then .ok (numberOf digits, (c :: rest).drop digits.length)
      else .error .outOfRange
    else .error .invalid

/-- Reads a part of one or two digits, with white space before it, between two bounds. -/
def part (least greatest : Nat) : Reader Nat := fun cs => do
  let (n, rest) ← number (some 2) (skipBlanks cs)
  if least ≤ n ∧ n ≤ greatest then .ok (n, rest) else .error .outOfRange

/-- A year that fits into 32 bits. -/
def checkedYear (year : Int) (rest : List Char) : Except TimeFault (Int × List Char) :=
  if -Nat.pow 2 31 ≤ year ∧ year < Nat.pow 2 31 then .ok (year, rest) else .error .outOfRange

/-- Reads a year: any number of digits after a sign, at most four without one. -/
def year : Reader Int := fun cs =>
  match skipBlanks cs with
  | '-' :: rest => do
    let (n, rest) ← number none rest
    checkedYear (-n) rest
  | '+' :: rest => do
    let (n, rest) ← number none rest
    checkedYear n rest
  | rest => do
    let (n, rest) ← number (some 4) rest
    checkedYear n rest

/-- Reads the character between date and time. -/
def separator : Reader Unit
  | [] => .error .tooShort
  | c :: rest => if c = 'T' ∨ c = 't' ∨ c = ' ' then .ok ((), rest) else .error .invalid

/-- Reads an optional fraction as nanoseconds; digits after the ninth do not count. -/
def fraction : Reader Nat
  | '.' :: rest => do
    let (n, after) ← number (some 9) rest
    .ok (n * Nat.pow 10 (9 - (rest.length - after.length)), after.dropWhile Char.isDigit)
  | cs => .ok (0, cs)

/-- Reads exactly two digits. What is left counts as too short when it is less than two bytes
long. -/
def twoDigits : Reader (Nat × Nat)
  | [] => .error .tooShort
  | [c] => if c.toNat < 128 then .error .tooShort else .error .invalid
  | a :: b :: rest =>
    if a.isDigit ∧ b.isDigit then .ok ((a.toNat - 48, b.toNat - 48), rest) else .error .invalid

/-- Reads the digits of an offset as seconds. Colons and white space between hours and minutes
are optional. -/
def offsetDigits : Reader Nat := fun cs => do
  let ((h₁, h₂), rest) ← twoDigits cs
  let ((m₁, m₂), rest) ← twoDigits (rest.dropWhile fun c => c = ':' ∨ isBlank c)
  if 6 ≤ m₁ then .error .outOfRange
  else .ok ((h₁ * 10 + h₂) * 3600 + (m₁ * 10 + m₂) * 60, rest)

/-- Whether a character is the given ASCII letter in either case. -/
def isLetter (upper : Char) (c : Char) : Bool :=
  c.toUpper = upper

/-- Reads the offset from universal time in seconds. -/
def offset : Reader Int
  | [] => .error .tooShort
  | c :: rest =>
    if isLetter 'U' c ∧ (rest.take 2).map Char.toUpper = ['T', 'C'] then .ok (0, rest.drop 2)
    else if isLetter 'Z' c then .ok (0, rest)
    else if c = '+' then do
      let (n, rest) ← offsetDigits rest
      .ok ((n : Int), rest)
    else if c = '-' ∨ c = '\u2212' then do
      let (n, rest) ← offsetDigits rest
      .ok (-(n : Int), rest)
    else .error .invalid

/-- The parts of a timestamp as they were read. -/
structure Parts where
  date : Date
  hour : Nat
  minute : Nat
  second : Nat
  nanos : Nat
  /-- Seconds by which the clock that was read is ahead of universal time. -/
  offset : Int
  deriving DecidableEq, Repr

def parts : Reader Parts := fun cs => do
  let (year, cs) ← year cs
  let ((), cs) ← spacedLiteral '-' cs
  let (month, cs) ← part 1 12 cs
  let ((), cs) ← spacedLiteral '-' cs
  let (day, cs) ← part 1 31 cs
  let ((), cs) ← separator cs
  let (hour, cs) ← part 0 23 cs
  let ((), cs) ← spacedLiteral ':' cs
  let (minute, cs) ← part 0 59 cs
  let ((), cs) ← spacedLiteral ':' cs
  let (second, cs) ← part 0 60 cs
  let (nanos, cs) ← fraction cs
  let (offset, cs) ← offset (skipBlanks cs)
  .ok (⟨⟨year, month, day⟩, hour, minute, second, nanos, offset⟩, cs)

/-- Whether instants can name dates of a year. -/
def yearInRange (year : Int) : Bool :=
  Instant.firstYear ≤ year ∧ year ≤ Instant.lastYear

/-- The instant that the parts name. A second 60 is the leap second after 59. -/
def Parts.instant (p : Parts) : Except TimeFault Instant :=
  if ¬(p.date.isValid ∧ yearInRange p.date.year) then .error .outOfRange
  else if p.offset.natAbs ≥ 86400 then .error .outOfRange
  else
    let clock := p.hour * 3600 + p.minute * 60 + min p.second 59
    let t : Instant := ⟨p.date.dayNumber * 86400 + clock - p.offset,
      p.nanos + (if p.second = 60 then 1000000000 else 0)⟩
    if yearInRange t.date.year then .ok t else .error .impossible

def read (cs : List Char) : Except TimeFault Instant := do
  let (parts, rest) ← parts cs
  if (skipBlanks rest).isEmpty then parts.instant else .error .trailing

end Timestamp

end ClusterClient
