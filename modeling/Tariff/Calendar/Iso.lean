import Tariff.Calendar.Moment
import Tariff.Text.Digit

/-!
# Reading dates and moments

Dates and moments are written in the forms of ISO 8601 that this module accepts:

* dates as `YYYY-MM-DD`, `YYYYMMDD`, `YYYY-Www`, `YYYY-Www-D`, `YYYYWww` and
  `YYYYWwwD`;
* times as `hh`, `hh:mm`, `hh:mm:ss` or the same without colons, followed by an
  optional fraction of a second of any length, cut to microseconds;
* offsets as a sign and a time, or a `Z`.

Between date and time stands any one character. Where the date ends is therefore
not always clear from its form; `dateLength` decides it, in favour of a week
without a day if what follows looks like an even number of digits. Digits are
ASCII only.

More than these forms is accepted. A fraction may follow any part of a time, and after
the seconds a third colon or, where there are no colons, nothing at all announces it. A
time before an offset need not be read to its end: one character of ASCII after its last
part, or anything after its fraction, is passed over. The text of a date is measured in
bytes, and one of ten bytes that begins with a compact date is that date. The character
of code zero ends a text.
-/

namespace Tariff.Iso

open Text (asciiDigitValue? isAsciiDigit)

/-- The number that ASCII digits denote; nothing if one is no digit. -/
def digits? (cs : List Char) : Option Nat :=
  cs.foldlM (fun value c => (asciiDigitValue? c).map (10 * value + ·)) 0

/-- The number of bytes that characters take. -/
def byteCount (cs : List Char) : Nat := cs.foldl (fun count c => count + c.utf8Size) 0

/-- The date written by a text of seven, eight or ten bytes. After a compact form the
rest of ten bytes is not looked at. -/
def dateChars? : List Char → Option Date
  | [y1, y2, y3, y4, '-', 'W', w1, w2] => do
    Date.ofWeek? (← digits? [y1, y2, y3, y4]) (← digits? [w1, w2]) 1
  | [y1, y2, y3, y4, '-', 'W', w1, w2, '-', d] => do
    Date.ofWeek? (← digits? [y1, y2, y3, y4]) (← digits? [w1, w2]) (← digits? [d])
  | [y1, y2, y3, y4, 'W', w1, w2] => do
    Date.ofWeek? (← digits? [y1, y2, y3, y4]) (← digits? [w1, w2]) 1
  | [y1, y2, y3, y4, '-', m1, m2, '-', d1, d2] => do
    Date.ofYMD? (← digits? [y1, y2, y3, y4]) (← digits? [m1, m2]) (← digits? [d1, d2])
  | y1 :: y2 :: y3 :: y4 :: 'W' :: w1 :: w2 :: d :: rest => do
    if byteCount rest = 0 ∨ byteCount rest = 2 then
      Date.ofWeek? (← digits? [y1, y2, y3, y4]) (← digits? [w1, w2]) (← digits? [d])
    else none
  | y1 :: y2 :: y3 :: y4 :: m1 :: m2 :: d1 :: d2 :: rest => do
    if byteCount rest = 0 ∨ byteCount rest = 2 then
      Date.ofYMD? (← digits? [y1, y2, y3, y4]) (← digits? [m1, m2]) (← digits? [d1, d2])
    else none
  | _ => none

/-- Where the date ends in a text that may go on with a time. -/
def dateLength (cs : List Char) : Nat :=
  match cs[4]?, cs[5]? with
  | some '-', some 'W' =>
    if cs[8]? = some '-' ∧ ¬ (cs[10]?.any isAsciiDigit) then 10 else 8
  | some '-', _ => 10
  | some 'W', _ =>
    let stop := 7 + ((cs.drop 7).takeWhile isAsciiDigit).length
    if stop < 9 then stop else if stop % 2 = 0 then 7 else 8
  | _, _ => 8

/-- Whether a text is at its end. -/
def isOver : List Char → Bool
  | [] => true
  | c :: _ => c == '\x00'

/-- A written time, not yet checked against the clock. -/
structure Clock where
  hour : Nat := 0
  minute : Nat := 0
  second : Nat := 0
  microsecond : Nat := 0
  /-- Whether the text was read to its end. -/
  isWhole : Bool := true

namespace Clock

/-- The two digits at the front of a text. -/
def pair? : List Char → Option (Nat × List Char)
  | a :: b :: rest => do return (← digits? [a, b], rest)
  | _ => none

/-- The microseconds that digits denote, of which the first six count, and whether nothing
follows the digits. -/
def fraction? (cs : List Char) : Option (Nat × Bool) := do
  let microseconds ← digits? ((cs ++ List.replicate 6 '0').take 6)
  return (microseconds, isOver ((cs.drop 6).dropWhile isAsciiDigit))

/-- What follows two digits of a time. -/
inductive Next where
  /-- Nothing that is looked at; the text may be at its end. -/
  | over (isWhole : Bool)
  /-- Another part of the time. -/
  | part (cs : List Char)
  /-- A fraction of a second. -/
  | fraction (cs : List Char)

/-- What follows two digits of a time that has colons or has none. -/
def next? (colons : Bool) : List Char → Option Next
  | [] => some (.over true)
  | [c] => if c.toNat < 128 then some (.over (c == '\x00')) else none
  | c :: rest =>
    if colons ∧ c = ':' then some (.part rest)
    else if c = '.' ∨ c = ',' then some (.fraction rest)
    else if colons then none
    else some (.part (c :: rest))

/-- The parts of a time, of which there are at most so many before a fraction, with the
microseconds and whether the text was read to its end. -/
def parts? (colons : Bool) : Nat → List Char → Option (List Nat × Nat × Bool)
  | 0, cs => do
    let (microseconds, isWhole) ← fraction? cs
    return ([], microseconds, isWhole)
  | most + 1, cs => do
    let (part, rest) ← pair? cs
    match ← next? colons rest with
    | .over isWhole => return ([part], 0, isWhole)
    | .fraction rest =>
      let (microseconds, isWhole) ← fraction? rest
      return ([part], microseconds, isWhole)
    | .part rest =>
      let (parts, microseconds, isWhole) ← parts? colons most rest
      return (part :: parts, microseconds, isWhole)

/-- The time at the front of a text. It has colons if one follows the hour. -/
def ofChars? (cs : List Char) : Option Clock := do
  let (parts, microsecond, isWhole) ← parts? (cs[2]? == some ':') 3 cs
  return {
    hour := parts.getD 0 0, minute := parts.getD 1 0, second := parts.getD 2 0
    microsecond, isWhole }

/-- The whole seconds of a written time, whatever its parts. -/
def seconds (c : Clock) : Nat := (c.hour * 60 + c.minute) * 60 + c.second

end Clock

/-- The offset written after its sign. Less than a second is no offset. -/
def offset? (negative : Bool) (cs : List Char) : Option Offset := do
  let clock ← Clock.ofChars? cs
  if clock.isWhole then
    let size : Int := if clock.seconds = 0 then 0 else clock.seconds * 1000000 + clock.microsecond
    Offset.ofMicroseconds? (if negative then -size else size)
  else none

/-- The time of day that a written time denotes. -/
def timeOfDay? (clock : Clock) : Option TimeOfDay :=
  TimeOfDay.ofParts? clock.hour clock.minute clock.second clock.microsecond

/-- Whether a character begins an offset. -/
def isMark (c : Char) : Bool := c == '+' || c == '-' || c == 'Z'

/-- The time and offset written after the date. Only a time without an offset has to be
read to its end. -/
def timeChars? (cs : List Char) : Option (TimeOfDay × Option Offset) := do
  let clock ← Clock.ofChars? (cs.takeWhile fun c => !isMark c)
  let time ← timeOfDay? clock
  match cs.dropWhile fun c => !isMark c with
  | [] => if clock.isWhole then some (time, none) else none
  | mark :: rest =>
    if mark = 'Z' then if isOver rest then some (time, some .utc) else none
    else return (time, some (← offset? (mark == '-') rest))

/-- The date that a text denotes. -/
def date? (text : String) : Option Date := dateChars? text.toList

/-- The moment that characters denote; a date alone is its midnight. -/
def momentChars? (cs : List Char) : Option Moment :=
  if cs.length < 7 then none
  else
    let length := dateLength cs
    match cs.drop length with
    | [] => (dateChars? (cs.take length)).map .ofDate
    | _ :: rest => do
      let date ← dateChars? (cs.take length)
      let (time, offset) ← timeChars? rest
      return ⟨date, time, offset⟩

/-- A final `Z`, of either case, spelled as an offset. -/
def spellZulu (cs : List Char) : List Char :=
  match cs.getLast? with
  | some 'Z' | some 'z' => cs.dropLast ++ "+00:00".toList
  | _ => cs

/-- The moment that a text denotes, a final `Z` standing for the offset of UTC. -/
def moment? (text : String) : Option Moment := momentChars? (spellZulu text.toList)

end Tariff.Iso
