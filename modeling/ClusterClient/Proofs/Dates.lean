import Mathlib.Tactic.IntervalCases
import ClusterClient.Calendar.Instant

/-!
# Dates and day numbers

Every day number is that of the date that is made for it, and that date is one of the calendar. A
day is counted off in cycles of 400 years, centuries, groups of four years, years and months; the
last century of a cycle and the last year of a group may be one day longer, which is the leap day.

* **`Date.ofYearDay`**: the date of a day of a year that begins in March.
* **`Date.exists_yearDay`**: the counting off.
* **`Date.isValid_ofDayNumber`**, **`Date.dayNumber_ofDayNumber`**: the date of a day number.
-/

namespace ClusterClient

namespace Date

/-- The date that lies a number of days after the first of March of a year. -/
def ofYearDay (year : Int) (day : Nat) : Date :=
  let months := (5 * day + 2) / 153
  let month := if months < 10 then months + 3 else months - 9
  ⟨if month ≤ 2 then year + 1 else year, month, day - daysBeforeMonth months + 1⟩

/-- **A day number, counted off**: whole cycles, and in the last one a century, a group of four
years, a year and a day. Only the last year of a group has a 366th day, and in the last group of a
century only that of the last century. -/
theorem exists_yearDay (n : Int) : ∃ (cycle : Int) (century group year day : Nat),
    century ≤ 3 ∧ group ≤ 24 ∧ year ≤ 3 ∧ day ≤ 365 ∧
    (day = 365 → year = 3 ∧ (group = 24 → century = 3)) ∧
    n + 719468 = cycle * 146097 + 36524 * century + 1461 * group + 365 * year + day ∧
    ofDayNumber n = ofYearDay (cycle * 400 + century * 100 + group * 4 + year) day := by
  have hcycle : (n + 719468) % 146097 =
      (((n + 719468) % 146097).toNat : Int) := by omega
  have hlt : ((n + 719468) % 146097).toNat < 146097 := by omega
  have hsplit : n + 719468 = (n + 719468) / 146097 * 146097 + (n + 719468) % 146097 := by omega
  rw [hcycle] at hsplit
  have hdate : ofDayNumber n = ofYearDay ((n + 719468) / 146097 * 400 + _ * 100 + _ * 4 + _) _ := rfl
  generalize ((n + 719468) % 146097).toNat = day at hlt hsplit hdate
  refine ⟨_, _, _, _, _, ?_, ?_, ?_, ?_, ?_, ?_, hdate⟩
  all_goals omega

/-- The months of a year, from March on: each day lies in one of them. -/
theorem months_spec {day : Nat} (h : day ≤ 365) :
    (5 * day + 2) / 153 ≤ 11 ∧ daysBeforeMonth ((5 * day + 2) / 153) ≤ day ∧
      day < daysBeforeMonth ((5 * day + 2) / 153 + 1) := by
  unfold daysBeforeMonth
  omega

/-- The month of the calendar, of which March is the third. -/
def monthOf (months : Nat) : Nat :=
  if months < 10 then months + 3 else months - 9

/-- The month, counted from March, is one of twelve, and January and February are its last two. -/
theorem monthOf_spec {months : Nat} (h : months ≤ 11) :
    1 ≤ monthOf months ∧ monthOf months ≤ 12 ∧ (monthOf months + 9) % 12 = months := by
  unfold monthOf
  split <;> omega

/-- Every month but February is as long as its row of days. -/
theorem monthLength_monthOf (year : Int) {months : Nat} (h : months ≤ 10) :
    daysBeforeMonth months + monthLength year (monthOf months) = daysBeforeMonth (months + 1) := by
  interval_cases months <;> rfl

/-- The number of a day, by the year that begins in March: 146097 days in 400 years, one leap day in
four years but not in every hundredth. -/
theorem dayNumber_ofYearDay (year : Int) {day : Nat} (h : day ≤ 365) :
    (ofYearDay year day).dayNumber = year / 400 * 146097 + year % 400 * 365 + year % 400 / 4 -
      year % 400 / 100 + day - 719468 := by
  obtain ⟨hmost, hbefore, -⟩ := months_spec h
  have hdate : ofYearDay year day =
      ⟨if monthOf ((5 * day + 2) / 153) ≤ 2 then year + 1 else year, monthOf ((5 * day + 2) / 153),
        day - daysBeforeMonth ((5 * day + 2) / 153) + 1⟩ := rfl
  rw [hdate]
  generalize (5 * day + 2) / 153 = months at *
  obtain ⟨-, -, hmonths⟩ := monthOf_spec hmost
  have hyear : ∀ month : Nat, (if month ≤ 2 then (if month ≤ 2 then year + 1 else year) - 1
      else if month ≤ 2 then year + 1 else year) = year := by
    intro month
    split
    · exact Int.add_sub_cancel year 1
    · rfl
  unfold dayNumber
  dsimp only
  rw [hmonths, hyear]
  omega

/-- A day of a year is a date of the calendar, the 366th only before the end of a leap year. -/
theorem isValid_ofYearDay (year : Int) {day : Nat} (h : day ≤ 365)
    (hleap : day = 365 → isLeapYear (year + 1) = true) : (ofYearDay year day).isValid = true := by
  obtain ⟨hmost, hbefore, hafter⟩ := months_spec h
  have hdate : ofYearDay year day =
      ⟨if monthOf ((5 * day + 2) / 153) ≤ 2 then year + 1 else year, monthOf ((5 * day + 2) / 153),
        day - daysBeforeMonth ((5 * day + 2) / 153) + 1⟩ := rfl
  rw [hdate]
  generalize (5 * day + 2) / 153 = months at *
  obtain ⟨hone, htwelve, -⟩ := monthOf_spec hmost
  refine decide_eq_true ⟨hone, htwelve, Nat.le_add_left 1 _, ?_⟩
  dsimp only
  rcases Nat.lt_or_ge months 11 with hother | hfebruary
  · have hlength := monthLength_monthOf
      (if monthOf months ≤ 2 then year + 1 else year) (Nat.le_of_lt_succ hother)
    omega
  · -- February ends the year, so its length is that of the leap day or of the day before
    obtain rfl : months = 11 := Nat.le_antisymm hmost hfebruary
    have hdays : daysBeforeMonth 11 = 337 := rfl
    show day - daysBeforeMonth 11 + 1 ≤ if isLeapYear (year + 1) = true then 29 else 28
    rw [hdays]
    split
    · omega
    · next hcommon =>
      have hne : day ≠ 365 := fun heq => hcommon (hleap heq)
      omega

/-- **The date that is made for a day number is one of the calendar.** -/
theorem isValid_ofDayNumber (n : Int) : (ofDayNumber n).isValid = true := by
  obtain ⟨cycle, century, group, year, day, hcentury, hgroup, hyear, hday, hlast, -, hdate⟩ :=
    exists_yearDay n
  rw [hdate]
  apply isValid_ofYearDay _ hday
  intro hleap
  obtain ⟨rfl, hgroups⟩ := hlast hleap
  unfold isLeapYear
  rw [decide_eq_true_eq]
  omega

/-- **The date that is made for a day number has that number.** -/
theorem dayNumber_ofDayNumber (n : Int) : (ofDayNumber n).dayNumber = n := by
  obtain ⟨cycle, century, group, year, day, hcentury, hgroup, hyear, hday, -, hsum, hdate⟩ :=
    exists_yearDay n
  rw [hdate, dayNumber_ofYearDay _ hday]
  omega

end Date

end ClusterClient
