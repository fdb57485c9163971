import Mathlib.Data.List.TakeWhile
import ClusterClient.Calendar.Timestamp
import ClusterClient.Proofs.Dates
import ClusterClient.Proofs.Digits

/-!
# Timestamps, written and read

The timestamp of an instant is read as that instant. Every reader takes from the front what the
writer put there and leaves the rest, so the readers follow the text part by part.

## The architecture

* **`number_append`**: a row of digits, whatever follows it; **`number_padded`** for the rows that
  are written.
* **`part_append`**, **`year_append`**, **`fraction_append`**: the readers of the parts, each on the
  text of its part and whatever follows it.
* **`parts_timestamp`**: all parts.
* **`Instant.Representable`**, **`Instant.Regular`**, **`Instant.settled`**: the instants there are,
  those that a clock shows, and the one that a timestamp names.
* **`read_timestamp`**: what is read of a timestamp.
* **`spec_of_read`**, **`read_again`**: what is read of any text is such an instant, so its own
  timestamp names it.
-/

namespace ClusterClient

namespace Timestamp

/-! ## Digits -/

/-- Digits are read as in the grammar of numerals. -/
theorem numberOf_eq (cs : List Char) : numberOf cs = Json.natOfDigits (digitValues cs) := by
  rw [Json.natOfDigits, digitValues, List.foldl_map]
  rfl

theorem padded_eq_filled (width n : Nat) : padded width n = filled width n :=
  rfl

theorem digitChars_padded (width n : Nat) : DigitChars (padded width n) :=
  digitChars_filled width n

theorem padded_ne_nil (width n : Nat) : padded width n ≠ [] :=
  filled_ne_nil width n

theorem numberOf_padded (width n : Nat) : numberOf (padded width n) = n := by
  rw [numberOf_eq, padded_eq_filled, natOfDigits_filled]

theorem length_padded {width n : Nat} (hwidth : 0 < width) (h : n < 10 ^ width) :
    (padded width n).length = width :=
  length_filled hwidth h

/-- What follows does not go on with a digit. -/
def NoDigitNext (rest : List Char) : Prop :=
  ∀ c ∈ rest.head?, c.isDigit = false

/-- Digits are read up to what follows them. -/
theorem takeWhile_digits {cs rest : List Char} (hcs : DigitChars cs) (hrest : NoDigitNext rest) :
    (cs ++ rest).takeWhile Char.isDigit = cs := by
  rw [List.takeWhile_append_of_pos hcs]
  cases rest with
  | nil => exact List.append_nil cs
  | cons c rest =>
    rw [List.takeWhile_cons_of_neg (by simp [hrest c rfl]), List.append_nil]

/-- The digits in front, at most so many of them. -/
def digitsOf (most : Option Nat) (cs : List Char) : List Char :=
  most.elim (cs.takeWhile Char.isDigit) (cs.takeWhile Char.isDigit).take

/-- A number that begins with a digit is read, unless it is out of range. -/
theorem number_cons (most : Option Nat) {c : Char} (hc : c.isDigit = true) (cs : List Char) :
    number most (c :: cs) =
      if numberOf (digitsOf most (c :: cs)) < Nat.pow 2 63 then
        .ok (numberOf (digitsOf most (c :: cs)),
          (c :: cs).drop (digitsOf most (c :: cs)).length)
      else .error .outOfRange := by
  cases most <;> exact if_pos hc

/-- **A row of digits is read as its number.** -/
theorem number_append {cs rest : List Char} (most : Option Nat) (hcs : DigitChars cs)
    (hne : cs ≠ []) (hrest : NoDigitNext rest) (hmost : ∀ k ∈ most, cs.length ≤ k)
    (hfit : numberOf cs < 2 ^ 63) : number most (cs ++ rest) = .ok (numberOf cs, rest) := by
  have hdigits : digitsOf most (cs ++ rest) = cs := by
    unfold digitsOf
    rw [takeWhile_digits hcs hrest]
    cases most with
    | none => rfl
    | some k => exact List.take_of_length_le (hmost k rfl)
  obtain ⟨c, more, rfl⟩ := List.exists_cons_of_ne_nil hne
  have hc : c.isDigit = true := hcs c List.mem_cons_self
  rw [List.cons_append] at hdigits ⊢
  rw [number_cons most hc, hdigits, Nat.pow_eq, if_pos hfit, ← List.cons_append, List.drop_left]

theorem skipBlanks_of_not_blank {c : Char} (hc : isBlank c = false) (cs : List Char) :
    skipBlanks (c :: cs) = c :: cs :=
  List.dropWhile_cons_of_neg (by simp [hc])

/-- Digits are no blanks. -/
theorem isBlank_of_digit {c : Char} (hc : c.isDigit = true) : isBlank c = false := by
  obtain ⟨hleast, hgreatest⟩ := isDigit_iff.mp hc
  -- the digits lie between the second range and the third
  unfold isBlank CharClass.contains blankCharacters
  rw [CharClass.hasCode, if_neg (by omega), CharClass.hasCode, if_neg (by omega),
    CharClass.hasCode, if_pos (by omega)]
  exact decide_eq_false (by omega)

/-- In front of a padded number there is nothing to skip. -/
theorem skipBlanks_padded (width n : Nat) (rest : List Char) :
    skipBlanks (padded width n ++ rest) = padded width n ++ rest := by
  have hdigits := digitChars_padded width n
  obtain ⟨c, cs, hcons⟩ := List.exists_cons_of_ne_nil (padded_ne_nil width n)
  rw [hcons] at hdigits ⊢
  exact skipBlanks_of_not_blank (isBlank_of_digit (hdigits c List.mem_cons_self)) _

/-- What follows is seen from its first character. -/
theorem noDigitNext_cons {c : Char} (hc : c.isDigit = false) (cs : List Char) :
    NoDigitNext (c :: cs) := by
  intro x hx
  obtain rfl := Option.some.inj hx
  exact hc

/-! ## The parts, one after the other -/

/-- A separator that comes at once is read. -/
theorem spacedLiteral_cons {c : Char} (hc : isBlank c = false) (rest : List Char) :
    spacedLiteral c (c :: rest) = .ok ((), rest) := by
  unfold spacedLiteral
  rw [skipBlanks_of_not_blank hc]
  exact if_pos rfl

/-- A row that the writer filled up with zeros is read as its number. -/
theorem number_padded {width n : Nat} (most : Option Nat) {rest : List Char}
    (hrest : NoDigitNext rest) (hmost : ∀ k ∈ most, (padded width n).length ≤ k)
    (hfit : n < 2 ^ 63) : number most (padded width n ++ rest) = .ok (n, rest) := by
  have hvalue := numberOf_padded width n
  have hread := number_append most (digitChars_padded width n) (padded_ne_nil width n) hrest hmost
    (by rw [hvalue]; exact hfit)
  rwa [hvalue] at hread

/-- A row of exactly the digits that are read at most. -/
theorem number_padded_full {width n : Nat} (hwidth : 0 < width) (hn : n < 10 ^ width)
    (hfit : n < 2 ^ 63) {rest : List Char} (hrest : NoDigitNext rest) :
    number (some width) (padded width n ++ rest) = .ok (n, rest) := by
  apply number_padded (some width) hrest _ hfit
  intro k hk
  obtain rfl := Option.some.inj hk
  exact (length_padded hwidth hn).le

/-- **A part of two digits is read as its number.** -/
theorem part_append {least greatest n : Nat} (hleast : least ≤ n) (hgreatest : n ≤ greatest)
    (htwo : greatest < 100) {rest : List Char} (hrest : NoDigitNext rest) :
    part least greatest (padded 2 n ++ rest) = .ok (n, rest) := by
  unfold part
  rw [skipBlanks_padded, number_padded_full (by decide) (by omega) (by omega) hrest]
  exact if_pos ⟨hleast, hgreatest⟩

theorem bind_ok {α β : Type} (a : α) (f : α → Except TimeFault β) : (Except.ok a >>= f) = f a :=
  rfl

/-- A year without a sign has four digits. -/
theorem year_plain {c : Char} (hc : c.isDigit = true) {cs rest : List Char} {n : Nat}
    (h : number (some 4) (c :: cs) = .ok (n, rest)) : year (c :: cs) = checkedYear n rest := by
  -- a digit is no sign
  have hminus : c ≠ '-' := by
    rintro rfl
    cases hc
  have hplus : c ≠ '+' := by
    rintro rfl
    cases hc
  unfold year
  rw [skipBlanks_of_not_blank (isBlank_of_digit hc)]
  split
  · next heq => exact absurd (List.cons.inj heq).1 hminus
  · next heq => exact absurd (List.cons.inj heq).1 hplus
  · rw [h, bind_ok]

/-- After a minus it may have more, and is negative. -/
theorem year_minus {cs rest : List Char} {n : Nat} (h : number none cs = .ok (n, rest)) :
    year ('-' :: cs) = checkedYear (-(n : Int)) rest := by
  unfold year
  rw [skipBlanks_of_not_blank (by decide)]
  simp only [h]
  exact bind_ok (n, rest) _

/-- After a plus it may have more. -/
theorem year_plus {cs rest : List Char} {n : Nat} (h : number none cs = .ok (n, rest)) :
    year ('+' :: cs) = checkedYear n rest := by
  unfold year
  rw [skipBlanks_of_not_blank (by decide)]
  simp only [h]
  exact bind_ok (n, rest) _

/-- The years that an instant can have. -/
theorem yearInRange_iff {y : Int} : yearInRange y = true ↔ -262143 ≤ y ∧ y ≤ 262142 :=
  decide_eq_true_iff

/-- A year in range is accepted. -/
theorem checkedYear_of_range {y : Int} (hy : yearInRange y = true) (rest : List Char) :
    checkedYear y rest = .ok (y, rest) := by
  have hrange := yearInRange_iff.mp hy
  have hpow : Nat.pow 2 31 = 2147483648 := rfl
  unfold checkedYear
  rw [hpow]
  exact if_pos (by omega)

/-- **A year is read as it was written**, with its sign and all its digits. -/
theorem year_append {y : Int} (hy : yearInRange y = true) {rest : List Char}
    (hrest : NoDigitNext rest) : year (yearText y ++ rest) = .ok (y, rest) := by
  have hrange := yearInRange_iff.mp hy
  have hchecked := checkedYear_of_range hy rest
  unfold yearText
  split
  · next hplain =>
    -- four digits, which are all that is read without a sign
    have hnumber : number (some 4) (padded 4 y.toNat ++ rest) = .ok (y.toNat, rest) :=
      number_padded_full (by decide) (by omega) (by omega) hrest
    have hdigits := digitChars_padded 4 y.toNat
    obtain ⟨c, cs, hcons⟩ := List.exists_cons_of_ne_nil (padded_ne_nil 4 y.toNat)
    rw [hcons] at hnumber hdigits ⊢
    rw [List.cons_append] at hnumber ⊢
    rw [year_plain (hdigits c List.mem_cons_self) hnumber, Int.toNat_of_nonneg hplain.1, hchecked]
  · next hsign =>
    -- after a sign every digit is read
    have hnumber : number none (padded 4 y.natAbs ++ rest) = .ok (y.natAbs, rest) :=
      number_padded none hrest nofun (by omega)
    rw [List.cons_append]
    split
    · next hneg =>
      have hvalue : -(y.natAbs : Int) = y := by omega
      rw [year_minus hnumber, hvalue, hchecked]
    · next hpos =>
      have hvalue : (y.natAbs : Int) = y := by omega
      rw [year_plus hnumber, hvalue, hchecked]

/-- A fraction of a given number of digits is read as that many nanoseconds. -/
theorem fraction_padded {width n : Nat} (hwidth : 0 < width) (hnine : width ≤ 9)
    (hn : n < 10 ^ width) {rest : List Char} (hrest : NoDigitNext rest) :
    fraction ('.' :: padded width n ++ rest) = .ok (n * 10 ^ (9 - width), rest) := by
  have hlength : (padded width n).length = width := length_padded hwidth hn
  have hpow : (10 : Nat) ^ width ≤ 10 ^ 9 := Nat.pow_le_pow_right (by decide) hnine
  have hnumber : number (some 9) (padded width n ++ rest) = .ok (n, rest) := by
    apply number_padded (some 9) hrest _ (by omega)
    intro k hk
    obtain rfl := Option.some.inj hk
    omega
  have hcount : (padded width n ++ rest).length - rest.length = width := by
    rw [List.length_append]
    omega
  have hafter : rest.dropWhile Char.isDigit = rest := by
    cases rest with
    | nil => rfl
    | cons c rest => exact List.dropWhile_cons_of_neg (by simp [hrest c rfl])
  unfold fraction
  simp only [List.cons_append, hnumber, bind_ok, hcount, hafter, Nat.pow_eq]

/-- **The fraction is read as it was written**, however few digits it took. -/
theorem fraction_append {nanos : Nat} (h : nanos < 1000000000) (rest : List Char) :
    fraction (fractionText nanos ++ 'Z' :: rest) = .ok (nanos, 'Z' :: rest) := by
  have hrest : NoDigitNext ('Z' :: rest) := noDigitNext_cons (by decide) rest
  have hall : ∀ width n : Nat, 0 < width → width ≤ 9 → n < 10 ^ width →
      n * 10 ^ (9 - width) = nanos →
      fraction ('.' :: padded width n ++ 'Z' :: rest) = .ok (nanos, 'Z' :: rest) := by
    intro width n hwidth hnine hn hvalue
    rw [fraction_padded hwidth hnine hn hrest, hvalue]
  unfold fractionText
  split
  · next hzero =>
    rw [hzero]
    rfl
  · -- three digits, six, or all nine
    split
    · exact hall 3 _ (by decide) (by decide) (by omega) (by omega)
    · split
      · exact hall 6 _ (by decide) (by decide) (by omega) (by omega)
      · exact hall 9 _ (by decide) (by decide) (by omega) (by omega)

/-- The seconds end where a fraction or the mark of UTC begins. -/
theorem noDigitNext_fraction (nanos : Nat) (rest : List Char) :
    NoDigitNext (fractionText nanos ++ 'Z' :: rest) := by
  unfold fractionText
  repeat' split
  all_goals exact noDigitNext_cons (by decide) _

/-! ## The whole text -/

theorem monthLength_le (year : Int) (month : Nat) : Date.monthLength year month ≤ 31 := by
  unfold Date.monthLength
  repeat' split
  all_goals decide

/-- The month and the day of an instant. -/
theorem date_bounds (t : Instant) :
    1 ≤ t.date.month ∧ t.date.month ≤ 12 ∧ 1 ≤ t.date.day ∧ t.date.day ≤ 31 := by
  obtain ⟨hleast, hmost, hfirst, hlast⟩ :=
    of_decide_eq_true (Date.isValid_ofDayNumber (t.seconds / 86400))
  exact ⟨hleast, hmost, hfirst, hlast.trans (monthLength_le _ _)⟩

theorem secondOfDay_lt (t : Instant) : t.secondOfDay < 86400 := by
  unfold Instant.secondOfDay
  omega

/-- What a clock shows of an instant. -/
def clock (t : Instant) : Parts :=
  ⟨t.date, t.secondOfDay / 3600, t.secondOfDay / 60 % 60,
    t.secondOfDay % 60 + t.nanos / 1000000000, t.nanos % 1000000000, 0⟩

/-- **All parts of a timestamp are read**, and nothing is left. -/
theorem parts_timestamp {t : Instant} (hyear : yearInRange t.date.year = true)
    (hnanos : t.nanos < 2000000000) :
    parts t.timestamp = .ok (clock t, []) := by
  obtain ⟨hmonth, htwelve, hday, hthirtyone⟩ := date_bounds t
  have hclock := secondOfDay_lt t
  have hdash : isBlank '-' = false := by decide
  have hcolon : isBlank ':' = false := by decide
  have hletter : ∀ cs, separator ('T' :: cs) = .ok ((), cs) := fun _ => rfl
  have hend : offset (skipBlanks ['Z']) = .ok (0, []) := by decide
  -- every part ends where a sign, a letter or the fraction begins
  unfold Instant.timestamp parts
  simp only [List.append_assoc, List.cons_append]
  rw [year_append hyear (noDigitNext_cons (by decide) _), bind_ok,
    spacedLiteral_cons hdash, bind_ok,
    part_append hmonth htwelve (by decide) (noDigitNext_cons (by decide) _), bind_ok,
    spacedLiteral_cons hdash, bind_ok,
    part_append hday hthirtyone (by decide) (noDigitNext_cons (by decide) _), bind_ok,
    hletter, bind_ok,
    part_append (Nat.zero_le _) (by omega) (by decide) (noDigitNext_cons (by decide) _), bind_ok,
    spacedLiteral_cons hcolon, bind_ok,
    part_append (Nat.zero_le _) (by omega) (by decide) (noDigitNext_cons (by decide) _), bind_ok,
    spacedLiteral_cons hcolon, bind_ok,
    part_append (Nat.zero_le _) (by omega) (by decide) (noDigitNext_fraction _ _), bind_ok,
    fraction_append (Nat.mod_lt _ (by decide)), bind_ok, hend, bind_ok]
  rfl

end Timestamp

/-! ## The instants there are -/

namespace Instant

/-- The instant has a date that can be named, and its nanoseconds fill at most two seconds. -/
structure Representable (t : Instant) : Prop where
  year : Timestamp.yearInRange t.date.year = true
  nanos : t.nanos < 2000000000

/-- A second of more than a thousand million nanoseconds is the last of its minute, as on a clock
that shows a leap second. -/
def Regular (t : Instant) : Prop :=
  t.nanos < 1000000000 ∨ t.seconds % 60 = 59

instance (t : Instant) : Decidable t.Regular :=
  inferInstanceAs (Decidable (_ ∨ _))

/-- The instant that a timestamp names: a second that is too long, but not the last of its minute,
runs over into the next one. -/
def settled (t : Instant) : Instant :=
  if t.Regular then t else ⟨t.seconds + 1, t.nanos - 1000000000⟩

/-- A regular instant comes back as it is. -/
theorem settled_of_regular {t : Instant} (h : t.Regular) : t.settled = t :=
  if_pos h

/-- Only an instant that no clock shows is named as another one. -/
theorem settled_eq_self_iff {t : Instant} : t.settled = t ↔ t.Regular := by
  refine ⟨fun h => ?_, settled_of_regular⟩
  by_contra hregular
  have hseconds := congrArg Instant.seconds h
  rw [settled, if_neg hregular] at hseconds
  dsimp only at hseconds
  omega

/-- Running over into the next second does not change the date. -/
theorem date_settled (t : Instant) : t.settled.date = t.date := by
  unfold settled
  by_cases h : t.Regular
  · rw [if_pos h]
  · rw [if_neg h]
    unfold Regular at h
    have hday : (t.seconds + 1) / 86400 = t.seconds / 86400 := by omega
    show Date.ofDayNumber ((t.seconds + 1) / 86400) = Date.ofDayNumber (t.seconds / 86400)
    rw [hday]

end Instant

namespace Timestamp

/-- The instant that the parts name, if they name one. -/
def Parts.named (p : Parts) : Instant :=
  ⟨p.date.dayNumber * 86400 + (p.hour * 3600 + p.minute * 60 + min p.second 59 : Nat) - p.offset,
    p.nanos + if p.second = 60 then 1000000000 else 0⟩

/-- **The parts of a text name an instant** exactly if the date exists, the offset is below a day
and both years are in range. -/
theorem Parts.instant_eq_ok {p : Parts} {t : Instant} :
    p.instant = .ok t ↔ (p.date.isValid = true ∧ yearInRange p.date.year = true) ∧
      p.offset.natAbs < 86400 ∧ p.named = t ∧ yearInRange t.date.year = true := by
  -- in the order in which the faults are found
  have hnamed : p.instant =
      if ¬(p.date.isValid = true ∧ yearInRange p.date.year = true) then .error .outOfRange
      else if p.offset.natAbs ≥ 86400 then .error .outOfRange
      else if yearInRange p.named.date.year = true then .ok p.named
      else .error .impossible := rfl
  rw [hnamed]
  constructor
  · intro h
    split at h
    · cases h
    · next hdate =>
      split at h
      · cases h
      · next hoffset =>
        split at h
        · next hyear =>
          obtain rfl := Except.ok.inj h
          exact ⟨not_not.mp hdate, Nat.lt_of_not_le hoffset, rfl, hyear⟩
        · cases h
  · rintro ⟨hdate, hoffset, rfl, hyear⟩
    rw [if_neg (not_not_intro hdate), if_neg (Nat.not_le_of_lt hoffset), if_pos hyear]

/-- The clock time of an instant names the settled one. -/
theorem named_clock {t : Instant} (h : t.nanos < 2000000000) : (clock t).named = t.settled := by
  have hday : t.date.dayNumber = t.seconds / 86400 := Date.dayNumber_ofDayNumber _
  have hclock : (t.secondOfDay : Int) = t.seconds % 86400 := by
    unfold Instant.secondOfDay
    omega
  have hminute : ((t.secondOfDay % 60 : Nat) : Int) = t.seconds % 60 := by omega
  have hsplit : t.secondOfDay / 3600 * 3600 + t.secondOfDay / 60 % 60 * 60 +
      t.secondOfDay % 60 = t.secondOfDay := by omega
  unfold Parts.named clock
  dsimp only
  rw [hday]
  unfold Instant.settled
  by_cases hregular : t.Regular
  · -- a leap second counts as the second before it
    rw [if_pos hregular]
    unfold Instant.Regular at hregular
    generalize t.secondOfDay = second at *
    obtain ⟨seconds, nanos⟩ := t
    rw [Instant.mk.injEq]
    dsimp only at *
    split <;> omega
  · rw [if_neg hregular]
    unfold Instant.Regular at hregular
    rw [Instant.mk.injEq, if_neg (by omega)]
    omega

/-- A text that is read to its end is read as its parts. -/
theorem read_of_parts {cs : List Char} {p : Parts} (h : parts cs = .ok (p, [])) :
    read cs = p.instant := by
  have hempty : (skipBlanks []).isEmpty = true := rfl
  unfold read
  rw [h, bind_ok]
  exact if_pos hempty

/-- **A timestamp is read as the instant that it names.** -/
theorem read_timestamp {t : Instant} (h : t.Representable) :
    read t.timestamp = .ok t.settled := by
  have hvalid : (clock t).date.isValid = true := Date.isValid_ofDayNumber (t.seconds / 86400)
  have hoffset : (clock t).offset.natAbs < 86400 := by
    show Int.natAbs 0 < 86400
    decide
  have hyear : yearInRange t.settled.date.year = true := by
    rw [t.date_settled]
    exact h.year
  rw [read_of_parts (parts_timestamp h.year h.nanos)]
  apply Parts.instant_eq_ok.mpr
  exact ⟨⟨hvalid, h.year⟩, hoffset, named_clock h.nanos, hyear⟩

/-! ## What is read of any text -/

/-- The inversion of reading on: something was read first. -/
theorem bind_eq_ok {α β : Type} {x : Except TimeFault α} {f : α → Except TimeFault β} {b : β}
    (h : (x >>= f) = .ok b) : ∃ a, x = .ok a ∧ f a = .ok b := by
  cases x with
  | error e => cases h
  | ok a => exact ⟨a, rfl, h⟩

/-- A number is below the power of ten of the digits that were taken. -/
theorem number_lt {most : Nat} {cs rest : List Char} {n : Nat}
    (h : number (some most) cs = .ok (n, rest)) :
    n < 10 ^ (cs.length - rest.length) ∧ cs.length - rest.length ≤ most := by
  cases cs with
  | nil => cases h
  | cons c cs =>
    cases hc : c.isDigit with
    | false =>
      unfold number at h
      dsimp only at h
      rw [if_neg (by simp [hc])] at h
      cases h
    | true =>
      have hprefix : digitsOf (some most) (c :: cs) <+: c :: cs :=
        (List.take_prefix _ _).trans (List.takeWhile_prefix _)
      have hmost : (digitsOf (some most) (c :: cs)).length ≤ most := List.length_take_le _ _
      have hdigits : DigitChars (digitsOf (some most) (c :: cs)) :=
        fun x hx => List.mem_takeWhile_imp (List.mem_of_mem_take hx)
      rw [number_cons _ hc] at h
      generalize digitsOf (some most) (c :: cs) = ds at h hprefix hmost hdigits
      split at h
      · obtain ⟨rfl, rfl⟩ := Prod.mk.inj (Except.ok.inj h)
        have hlength := hprefix.length_le
        -- as many characters are gone as there were digits
        have htaken : (c :: cs).length - ((c :: cs).drop ds.length).length = ds.length := by
          rw [List.length_drop]
          omega
        have hbelow := natOfDigits_lt hdigits.allDigits
        rw [length_digitValues] at hbelow
        rw [htaken, numberOf_eq]
        exact ⟨hbelow, hmost⟩
      · cases h

/-- Nine digits make less than a second. -/
theorem fraction_lt {cs rest : List Char} {nanos : Nat} (h : fraction cs = .ok (nanos, rest)) :
    nanos < 1000000000 := by
  unfold fraction at h
  split at h
  · next digits =>
    obtain ⟨⟨n, after⟩, hnumber, hread⟩ := bind_eq_ok h
    obtain ⟨rfl, -⟩ := Prod.mk.inj (Except.ok.inj hread)
    obtain ⟨hbelow, hmost⟩ := number_lt hnumber
    rw [Nat.pow_eq]
    calc n * 10 ^ (9 - (digits.length - after.length))
        < 10 ^ (digits.length - after.length) * 10 ^ (9 - (digits.length - after.length)) :=
          Nat.mul_lt_mul_of_pos_right hbelow (Nat.pow_pos (by decide))
      _ = 1000000000 := by rw [← Nat.pow_add, Nat.add_sub_cancel' hmost]
  · obtain ⟨rfl, -⟩ := Prod.mk.inj (Except.ok.inj h)
    decide

/-- An offset has no seconds. -/
theorem offsetDigits_mod {cs rest : List Char} {n : Nat} (h : offsetDigits cs = .ok (n, rest)) :
    n % 60 = 0 := by
  unfold offsetDigits at h
  obtain ⟨⟨⟨h₁, h₂⟩, after⟩, -, h⟩ := bind_eq_ok h
  obtain ⟨⟨⟨m₁, m₂⟩, rest⟩, -, h⟩ := bind_eq_ok h
  dsimp only at h
  split at h
  · cases h
  · obtain ⟨rfl, -⟩ := Prod.mk.inj (Except.ok.inj h)
    omega

/-- Offsets are whole minutes. -/
theorem offset_mod {cs rest : List Char} {o : Int} (h : offset cs = .ok (o, rest)) :
    o % 60 = 0 := by
  unfold offset at h
  split at h
  · cases h
  · split at h
    · obtain ⟨rfl, -⟩ := Prod.mk.inj (Except.ok.inj h)
      decide
    · split at h
      · obtain ⟨rfl, -⟩ := Prod.mk.inj (Except.ok.inj h)
        decide
      · split at h
        · -- an offset with a sign
          obtain ⟨⟨n, after⟩, hdigits, hread⟩ := bind_eq_ok h
          obtain ⟨rfl, -⟩ := Prod.mk.inj (Except.ok.inj hread)
          have hminutes := offsetDigits_mod hdigits
          omega
        · split at h
          · obtain ⟨⟨n, after⟩, hdigits, hread⟩ := bind_eq_ok h
            obtain ⟨rfl, -⟩ := Prod.mk.inj (Except.ok.inj hread)
            have hminutes := offsetDigits_mod hdigits
            omega
          · cases h

/-- **What is read of any text**: fewer than a billion nanoseconds, and an offset in whole minutes.
-/
theorem parts_spec {cs rest : List Char} {p : Parts} (h : parts cs = .ok (p, rest)) :
    p.nanos < 1000000000 ∧ p.offset % 60 = 0 := by
  unfold parts at h
  obtain ⟨⟨year, cs⟩, -, h⟩ := bind_eq_ok h
  obtain ⟨⟨_, cs⟩, -, h⟩ := bind_eq_ok h
  obtain ⟨⟨month, cs⟩, -, h⟩ := bind_eq_ok h
  obtain ⟨⟨_, cs⟩, -, h⟩ := bind_eq_ok h
  obtain ⟨⟨day, cs⟩, -, h⟩ := bind_eq_ok h
  obtain ⟨⟨_, cs⟩, -, h⟩ := bind_eq_ok h
  obtain ⟨⟨hour, cs⟩, -, h⟩ := bind_eq_ok h
  obtain ⟨⟨_, cs⟩, -, h⟩ := bind_eq_ok h
  obtain ⟨⟨minute, cs⟩, -, h⟩ := bind_eq_ok h
  obtain ⟨⟨_, cs⟩, -, h⟩ := bind_eq_ok h
  obtain ⟨⟨second, cs⟩, -, h⟩ := bind_eq_ok h
  obtain ⟨⟨nanos, cs⟩, hfraction, h⟩ := bind_eq_ok h
  obtain ⟨⟨offset, cs⟩, hoffset, h⟩ := bind_eq_ok h
  obtain ⟨rfl, -⟩ := Prod.mk.inj (Except.ok.inj h)
  exact ⟨fraction_lt hfraction, offset_mod hoffset⟩

/-- The leap second is the last of its minute, whatever the offset. -/
theorem spec_of_instant {p : Parts} (hnanos : p.nanos < 1000000000) (hoffset : p.offset % 60 = 0)
    {t : Instant} (h : p.instant = .ok t) : t.Representable ∧ t.Regular := by
  obtain ⟨-, -, rfl, hyear⟩ := Parts.instant_eq_ok.mp h
  -- the sixtieth second counts as the one before it, which is the last of its minute
  have hregular : p.named.nanos < 2000000000 ∧
      (p.named.nanos < 1000000000 ∨ p.named.seconds % 60 = 59) := by
    unfold Parts.named
    dsimp only
    split <;> omega
  exact ⟨⟨hyear, hregular.1⟩, hregular.2⟩

/-- **Every instant that is read is one that a clock shows**, in the years that have dates. -/
theorem spec_of_read {cs : List Char} {t : Instant} (h : read cs = .ok t) :
    t.Representable ∧ t.Regular := by
  unfold read at h
  obtain ⟨⟨p, rest⟩, hparts, h⟩ := bind_eq_ok h
  obtain ⟨hnanos, hoffset⟩ := parts_spec hparts
  dsimp only at h
  split at h
  · exact spec_of_instant hnanos hoffset h
  · cases h

/-- **What a text names is written in universal time, and is read again as the same instant.** -/
theorem read_again {cs : List Char} {t : Instant} (h : read cs = .ok t) :
    read t.timestamp = .ok t := by
  obtain ⟨hrepresentable, hregular⟩ := spec_of_read h
  rw [read_timestamp hrepresentable, Instant.settled_of_regular hregular]

theorem getLast?_timestamp (t : Instant) : t.timestamp.getLast? = some 'Z' :=
  List.getLast?_concat

end Timestamp

end ClusterClient
