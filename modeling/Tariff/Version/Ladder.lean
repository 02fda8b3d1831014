import Tariff.Document.Temporal
import Tariff.Error.Config

/-!
# Bringing a document to the current version

A document declares the version of its syntax, and is then brought to the current
version one step at a time. `declared` finds the version: an untagged document has the
oldest one, versions before 2.0 are declared with "version", and later ones with
"syntaxVersion". `fromV1_0` and `fromV1_1` are the steps. A step changes the fields it
is about and carries all others along with their values and in their order.

The numbers of a version and the parts of a legacy date are integers of any size. Where one
has too many digits to be read or shown, the document is refused without a cause.
-/

namespace Tariff

namespace Version

/-- The version that a tag in the field of a name denotes. -/
def parse (field : String) (raw : Value) : Except (Refusal ConfigError) Version :=
  match read? raw with
  | some v => .ok v
  | none =>
    if (runs? raw).isSome then .error .overlong
    else .error (ConfigError.version (.malformed field raw)).refusal

/-- Refuses a version that cannot be read. -/
def ensureSupported (v : Version) : Except (Refusal ConfigError) Version :=
  if v ∈ supported then .ok v else .error (ConfigError.version (.unsupported v)).refusal

end Version

namespace Fields

/-- Refuses a document that has fields its version does not have. -/
def checkWindows (fields : Fields) (v : Version) : Except (Refusal ConfigError) Unit :=
  match fields.misplaced v with
  | [] => .ok ()
  | names => .error (ConfigError.version (.mixedFields names v)).refusal

/-- The version that the fields of a document declare. -/
def declared (fields : Fields) : Except (Refusal ConfigError) Version := do
  match fields.present? "syntaxVersion" with
  | some raw =>
    let v ← (← Version.parse "syntaxVersion" raw).ensureSupported
    if v.older .v2_0 then .error (ConfigError.version (.legacyUnderSyntaxVersion v)).refusal
    else return v
  | none =>
    match fields.present? "version" with
    | some raw =>
      let v ← (← Version.parse "version" raw).ensureSupported
      if v.older .v2_0 then return v
      else .error (ConfigError.version (.currentUnderVersion v)).refusal
    | none => return .v1_0

/-- The fields of a legacy date, merged into "createdAt" by the first step. -/
def legacyDateFields : List String := ["day", "month", "year"]

/-- A part of a legacy date: a positive integer. -/
def datePart (fields : Fields) (name : String) : Except (Refusal ConfigError) Int :=
  match fields.present? name with
  | none => .error (.because (.missing name))
  | some (.int n) =>
    if 0 < n then .ok n else .error (ConfigError.invalid name (.notPositive n)).refusal
  | some v => .error (.because (.typeMismatch name v.kindName "a positive integer"))

/-- The step from version 1.0 to 1.1: day, month and year become one date. -/
def fromV1_0 (fields : Fields) : Except (Refusal ConfigError) Fields := do
  fields.checkWindows .v1_0
  let day ← fields.datePart "day"
  let month ← fields.datePart "month"
  let year ← fields.datePart "year"
  match Date.ofYMD? year.toNat month.toNat day.toNat with
  | none => .error (ConfigError.invalid "day" (.noSuchDate year month day)).refusal
  | some date =>
    return ((fields.without legacyDateFields).set "version" (.text Version.v1_1.text)).set
      "createdAt" (.text date.text)

/-- The fields with a bound of the validity, if it is there, brought to the text of
an instant. -/
def normalizeBound (source migrated : Fields) (name : String) :
    Except ConfigError Fields :=
  match source.present? name with
  | none => .ok migrated
  | some v => (Temporal.normalizeInstant name v).map fun stamp => migrated.set name (.text stamp)

/-- The fields with the tag of version 2.0 in front and without the old one. A
"syntaxVersion" that is there already, which can only be null, keeps its value. -/
def retagged (fields : Fields) : Fields :=
  let tag := (fields.get? "syntaxVersion").getD (.text Version.v2_0.text)
  (.text "syntaxVersion", tag) :: fields.without ["version", "syntaxVersion"]

/-- The step from version 1.1 to 2.0: the tag moves to "syntaxVersion", which comes
first, and dates and instants get their one form. -/
def fromV1_1 (fields : Fields) : Except (Refusal ConfigError) Fields := do
  fields.checkWindows .v1_1
  match fields.present? "createdAt" with
  | none => .error (.because (.missing "createdAt"))
  | some created => Refusal.lift do
    let date ← Temporal.normalizeDate "createdAt" created
    let dated := fields.retagged.set "createdAt" (.text date)
    normalizeBound fields (← normalizeBound fields dated "starts") "ends"

end Fields

/-- A step of the ladder. -/
structure Migration where
  source : Version
  target : Version
  step : Fields → Except (Refusal ConfigError) Fields

namespace Migration

/-- The steps, from the oldest version on. -/
def ladder : List Migration :=
  [⟨.v1_0, .v1_1, Fields.fromV1_0⟩, ⟨.v1_1, .v2_0, Fields.fromV1_1⟩]

end Migration

end Tariff
