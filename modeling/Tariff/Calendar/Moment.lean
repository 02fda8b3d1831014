import Tariff.Calendar.Date

/-!
# Moments and instants

A `Moment` is a date, a time of day to the microsecond and possibly the offset of
its clock from UTC. Without an offset it names no point in time; such a moment is
called naive. An `Instant` is a point in time, held as the date and time that a UTC
clock shows.

A time of day is its number of microseconds since midnight, an offset its number
of microseconds; both are less than a day, so converting a moment to UTC moves the
date by one day at most.
-/

namespace Tariff

/-- The number of microseconds of a day. -/
def dayLength : Nat := 86400000000

/-- The time of day, in microseconds since midnight. -/
abbrev TimeOfDay := Fin dayLength

namespace TimeOfDay

/-- Midnight. -/
def midnight : TimeOfDay := ⟨0, by decide⟩

/-- The time of an hour, minute, second and microsecond, if the clock shows such a
time: there is no hour 24 and no second 60. -/
def ofParts? (hour minute second microsecond : Nat) : Option TimeOfDay :=
  if h : hour < 24 ∧ minute < 60 ∧ second < 60 ∧ microsecond < 1000000 then
    some ⟨((hour * 60 + minute) * 60 + second) * 1000000 + microsecond, by
      unfold dayLength
      omega⟩
  else none

/-- The hour of a time. -/
def hour (t : TimeOfDay) : Nat := t.val / 3600000000

/-- The minute of a time within its hour. -/
def minute (t : TimeOfDay) : Nat := t.val / 60000000 % 60

/-- The second of a time within its minute. -/
def second (t : TimeOfDay) : Nat := t.val / 1000000 % 60

/-- The microsecond of a time within its second. -/
def microsecond (t : TimeOfDay) : Nat := t.val % 1000000

/-- The fraction of a second: a point and six digits, or nothing when it is zero. -/
def fractionChars (microseconds : Nat) : List Char :=
  if microseconds = 0 then [] else '.' :: Text.padded 6 microseconds

/-- Hours, minutes and seconds between colons. -/
def secondChars (t : TimeOfDay) : List Char :=
  Text.padded 2 t.hour ++ ':' :: Text.padded 2 t.minute ++ ':' :: Text.padded 2 t.second

/-- A time, its fraction shown only if it is not zero. -/
def chars (t : TimeOfDay) : List Char := t.secondChars ++ fractionChars t.microsecond

end TimeOfDay

/-- How far a clock is ahead of UTC, in microseconds: less than a day either way. -/
structure Offset where
  microseconds : Int
  lower : -(dayLength : Int) < microseconds
  upper : microseconds < dayLength
  deriving DecidableEq

namespace Offset

/-- The offset of UTC itself. -/
def utc : Offset := ⟨0, by decide, by decide⟩

/-- The offset of so many microseconds, if it is less than a day. -/
def ofMicroseconds? (microseconds : Int) : Option Offset :=
  if h : -(dayLength : Int) < microseconds ∧ microseconds < dayLength then
    some ⟨microseconds, h.1, h.2⟩
  else none

/-- A sign, hours and minutes; seconds and their fraction only if not zero. -/
def chars (o : Offset) : List Char :=
  let size := o.microseconds.natAbs
  let seconds := size / 1000000 % 60
  let fraction := size % 1000000
  (if o.microseconds < 0 then '-' else '+') ::
    (Text.padded 2 (size / 3600000000) ++ ':' :: Text.padded 2 (size / 60000000 % 60) ++
      (if seconds = 0 ∧ fraction = 0 then []
        else ':' :: Text.padded 2 seconds ++ TimeOfDay.fractionChars fraction))

end Offset

/-- A date and time, with the offset of its clock if it is known. -/
structure Moment where
  date : Date
  time : TimeOfDay
  offset : Option Offset
  deriving DecidableEq

/-- A point in time: the date and time in UTC. -/
structure Instant where
  date : Date
  time : TimeOfDay
  deriving DecidableEq

namespace Moment

/-- Whether no offset is known. -/
def isNaive (m : Moment) : Bool := m.offset.isNone

/-- The start of a day, with no offset. -/
def ofDate (d : Date) : Moment := ⟨d, .midnight, none⟩

/-- Microseconds on the UTC clock since the day before the first date. A naive
moment counts as UTC. -/
def utcMicroseconds (m : Moment) : Int :=
  m.date.ordinal * dayLength + m.time.val - (m.offset.getD .utc).microseconds

/-- The point in time of a moment, a naive one taken as UTC; nothing if the date in
UTC is out of range. -/
def toInstant? (m : Moment) : Option Instant :=
  let offset := m.offset.getD .utc
  let shifted : Int := m.time.val - offset.microseconds
  have lower := offset.lower
  have upper := offset.upper
  if below : shifted < 0 then
    m.date.prev?.map fun d => ⟨d, ⟨(shifted + dayLength).toNat, by omega⟩⟩
  else if above : dayLength ≤ shifted then
    m.date.next?.map fun d => ⟨d, ⟨(shifted - dayLength).toNat, by omega⟩⟩
  else some ⟨m.date, ⟨shifted.toNat, by omega⟩⟩

/-- A moment with the given character between date and time. -/
def chars (separator : Char) (m : Moment) : List Char :=
  m.date.chars ++ separator :: m.time.chars ++ m.offset.elim [] Offset.chars

/-- The standard text of a moment. -/
def isoText (m : Moment) : String := String.ofList (m.chars 'T')

end Moment

namespace Instant

/-- The moment that a UTC clock shows. -/
def toMoment (i : Instant) : Moment := ⟨i.date, i.time, some .utc⟩

/-- Microseconds since the day before the first date. -/
def microseconds (i : Instant) : Int := i.toMoment.utcMicroseconds

/-- Whether one instant is strictly before another. -/
def before (i j : Instant) : Bool := decide (i.microseconds < j.microseconds)

/-- The standard text of an instant, with the offset of UTC. -/
def isoText (i : Instant) : String := i.toMoment.isoText

/-- The text of an instant in a current document: whole seconds and a final `Z`.
The year is not filled to four digits. -/
def stamp (i : Instant) : String :=
  String.ofList (Nat.toDigits 10 i.date.year ++ '-' :: Text.padded 2 i.date.month ++
    '-' :: Text.padded 2 i.date.day ++ 'T' :: i.time.secondChars ++ ['Z'])

end Instant

end Tariff
