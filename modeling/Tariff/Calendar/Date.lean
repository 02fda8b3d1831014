import Tariff.Text.Padded

/-!
# Calendar dates

Dates of the Gregorian calendar, extended backwards to year 1 and ending with
year 9999. A `Date` always exists: the bound on the day is part of the type, so
that no function on dates has to doubt its argument, and everything that could
leave the range (`ofYMD?`, `next?`, `prev?`) says so in its result.

`ordinal` numbers the days from 1, the first of January of year 1. It orders dates
and gives the weekday; dates are never computed back from it, since every shift
this library needs is a few steps of `next?` or `prev?`.
-/

namespace Tariff

/-- Whether a year has a 29th of February. -/
def isLeapYear (year : Nat) : Bool :=
  year % 4 == 0 && (year % 100 != 0 || year % 400 == 0)

/-- The number of days of a month; none outside the twelve. -/
def daysInMonth (year month : Nat) : Nat :=
  match month with
  | 1 | 3 | 5 | 7 | 8 | 10 | 12 => 31
  | 4 | 6 | 9 | 11 => 30
  | 2 => if isLeapYear year then 29 else 28
  | _ => 0

/-- A date from year 1 to year 9999. -/
structure Date where
  year : Nat
  month : Nat
  day : Nat
  year_pos : 1 ≤ year
  year_le : year ≤ 9999
  day_pos : 1 ≤ day
  day_le : day ≤ daysInMonth year month
  deriving DecidableEq

namespace Date

/-- The date of a year, month and day, if there is one. -/
def ofYMD? (year month day : Nat) : Option Date :=
  if h : 1 ≤ year ∧ year ≤ 9999 ∧ 1 ≤ day ∧ day ≤ daysInMonth year month then
    some ⟨year, month, day, h.1, h.2.1, h.2.2.1, h.2.2.2⟩
  else none

/-- The following day; the last date has none. -/
def next? (d : Date) : Option Date :=
  match ofYMD? d.year d.month (d.day + 1) with
  | some next => some next
  | none =>
    match ofYMD? d.year (d.month + 1) 1 with
    | some next => some next
    | none => ofYMD? (d.year + 1) 1 1

/-- The day before; the first date has none. -/
def prev? (d : Date) : Option Date :=
  if d.day ≠ 1 then ofYMD? d.year d.month (d.day - 1)
  else if d.month ≠ 1 then
    ofYMD? d.year (d.month - 1) (daysInMonth d.year (d.month - 1))
  else ofYMD? (d.year - 1) 12 31

/-- The date so many days later, if it is in range. -/
def later? : Nat → Date → Option Date
  | 0, d => some d
  | n + 1, d => d.next?.bind (later? n)

/-- The date so many days earlier, if it is in range. -/
def earlier? : Nat → Date → Option Date
  | 0, d => some d
  | n + 1, d => d.prev?.bind (earlier? n)

/-- The number of days before the first of January of a year. -/
def daysBeforeYear (year : Nat) : Nat :=
  let past := year - 1
  365 * past + past / 4 - past / 100 + past / 400

/-- The number of days of a year before the first of a month. -/
def daysBeforeMonth (year month : Nat) : Nat :=
  (List.range (month - 1)).foldl (fun days n => days + daysInMonth year (n + 1)) 0

/-- The number of a date, counted from the first date, which is number 1. -/
def ordinal (d : Date) : Nat :=
  daysBeforeYear d.year + daysBeforeMonth d.year d.month + d.day

/-- The weekday of the first of January of a year: 1 for Monday up to 7 for
Sunday. -/
def firstWeekday (year : Nat) : Nat := daysBeforeYear year % 7 + 1

/-- Whether a year has a week 53: it starts on a Thursday, or on a Wednesday and is
a leap year. -/
def isLongYear (year : Nat) : Bool :=
  firstWeekday year == 4 || (firstWeekday year == 3 && isLeapYear year)

/-- The date of a day (1 for Monday) of a numbered week. Week 1 is the week with
the first Thursday of the year, so it may start up to three days before the year
or after it. -/
def ofWeek? (year week day : Nat) : Option Date := do
  let newYear ← ofYMD? year 1 1
  if 1 ≤ week ∧ (week ≤ 52 ∨ (week = 53 ∧ isLongYear year)) ∧ 1 ≤ day ∧ day ≤ 7 then
    let weekday := firstWeekday year
    let days := 7 * (week - 1) + day
    if weekday ≤ 4 then
      if weekday ≤ days then newYear.later? (days - weekday) else newYear.earlier? (weekday - days)
    else newYear.later? (days + 7 - weekday)
  else none

/-- A date as year, month and day, four, two and two digits. -/
def chars (d : Date) : List Char :=
  Text.padded 4 d.year ++ '-' :: Text.padded 2 d.month ++ '-' :: Text.padded 2 d.day

/-- The text of a date. -/
def text (d : Date) : String := String.ofList d.chars

theorem month_bounds (d : Date) : 1 ≤ d.month ∧ d.month ≤ 12 := by
  have hle := d.day_le
  have hpos := d.day_pos
  unfold daysInMonth at hle
  split at hle <;> omega

@[simp] theorem ofYMD?_self (d : Date) : ofYMD? d.year d.month d.day = some d := by
  simp [ofYMD?, d.year_pos, d.year_le, d.day_pos, d.day_le]

/-- A date exists exactly for the years in range and the days of the month. -/
theorem ofYMD?_isSome_iff {year month day : Nat} :
    (ofYMD? year month day).isSome ↔
      1 ≤ year ∧ year ≤ 9999 ∧ 1 ≤ day ∧ day ≤ daysInMonth year month := by
  unfold ofYMD?
  split <;> simp_all

/-- A date is that of its own year, month and day, and of no others. -/
theorem ofYMD?_eq_some_iff {year month day : Nat} {d : Date} :
    ofYMD? year month day = some d ↔ d.year = year ∧ d.month = month ∧ d.day = day := by
  constructor
  · intro h
    unfold ofYMD? at h
    split at h
    · cases h
      exact ⟨rfl, rfl, rfl⟩
    · cases h
  · rintro ⟨rfl, rfl, rfl⟩
    exact ofYMD?_self d

end Date

end Tariff
