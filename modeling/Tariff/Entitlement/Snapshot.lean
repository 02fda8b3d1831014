import Tariff.Document.Fields
import Tariff.Error.Evaluation

/-!
# Snapshots

The answer to a request: what a customer with a plan and some add-ons is entitled to. A
snapshot gives one value to every feature and one to every usage limit. That a value is
`false`, zero or empty says that the feature is there but not granted; only an identifier
that the snapshot does not have is an error.

The identifiers of a snapshot that answers a request are texts. One that a caller has put
together may have other keys beside them, which no identifier finds.
-/

namespace Tariff

/-- What somebody is entitled to. -/
structure Snapshot where
  /-- The plan, if the pricing has plans. -/
  plan : Option String
  /-- The active add-ons in order. -/
  addOns : List String
  /-- The values of the features. -/
  features : Fields
  /-- The values of the usage limits. -/
  usageLimits : Fields

namespace Snapshot

/-- The values of a sort of capability. -/
def values (s : Snapshot) : Capability → Fields
  | .feature => s.features
  | .usageLimit => s.usageLimits

/-- The value of a capability. -/
def value (s : Snapshot) (sort : Capability) (id : String) : Except EvaluationError Value :=
  match (s.values sort).get? id with
  | some v => .ok v
  | none => .error (.unknownCapability sort id)

/-- Whether a feature is granted: its value is not null and counts as true. -/
def isEnabled (s : Snapshot) (id : String) : Except EvaluationError Bool :=
  (s.value .feature id).map Value.isTruthy

end Snapshot

end Tariff
