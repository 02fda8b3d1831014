import Tariff.Calendar.Iso
import Tariff.Error.Config
import Tariff.Text.Blank

/-!
# Dates and instants of a document

A document gives the date of its creation and the instants of its validity. Old
documents may give them in many forms, as dates and moments of the loader or as texts,
blank space around them aside; `normalizeDate` and `normalizeInstant` bring every form
to the one text that current documents have. Current documents are read by
`canonicalDate` and `canonicalInstant`, which take texts only and take them as they
are; an instant must have an offset there.
-/

namespace Tariff.Temporal

/-- The shape of a date in messages. -/
def dateShape : String := "an ISO-8601 date"

/-- The shape of an instant in messages. -/
def instantShape : String := "an ISO-8601 instant"

/-- The moment that a text denotes, blank space around it aside. -/
def looseMoment? (text : String) : Option Moment :=
  Iso.moment? (String.ofList (Text.trim text.toList))

/-- The point in time of a moment in the field of a name, a naive one taken as UTC.
Only a moment with an offset can have a date in UTC that is out of range. -/
def instantOf (field : String) (m : Moment) : Except ConfigError Instant :=
  match m.toInstant? with
  | some instant => .ok instant
  | none => .error (.invalid field (.beyondRange m))

/-- The date part of a value as the text of a date. It is the date as written, not
that in UTC. -/
def normalizeDate (field : String) (v : Value) : Except ConfigError String :=
  let date? :=
    match v with
    | .moment m => some m.date
    | .date d => some d
    | .text s => (looseMoment? s).map Moment.date
    | _ => none
  match date? with
  | some d => .ok d.text
  | none => .error (.typeMismatch field v.kindName dateShape)

/-- The point in time of a value as the text of an instant. A date is its midnight;
without an offset the time is that of UTC; fractions of a second are dropped. -/
def normalizeInstant (field : String) (v : Value) : Except ConfigError String := do
  let moment? :=
    match v with
    | .moment m => some m
    | .date d => some (.ofDate d)
    | .text s => looseMoment? s
    | _ => none
  match moment? with
  | some m => return (← instantOf field m).stamp
  | none => .error (.typeMismatch field v.kindName instantShape)

/-- The date that a text of a current document denotes. -/
def canonicalDate (field text : String) : Except ConfigError Date :=
  match Iso.date? text with
  | some d => .ok d
  | none => .error (.typeMismatch field "text" dateShape)

/-- The instant that a text of a current document denotes. -/
def canonicalInstant (field text : String) : Except ConfigError Instant :=
  match Iso.moment? text with
  | none => .error (.typeMismatch field "text" instantShape)
  | some m =>
    if m.isNaive then .error (.typeMismatch field "text without offset" instantShape)
    else instantOf field m

end Tariff.Temporal
