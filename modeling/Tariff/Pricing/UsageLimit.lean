import Tariff.Pricing.Feature
import Tariff.Pricing.Reference

/-!
# Usage limits

How far features may be used. A usage limit has a value of its own, a boolean or a
number, which always has a default, and a unit that the value counts. It may be linked to
features of the same pricing.
-/

namespace Tariff

/-- The sorts of usage limits. -/
inductive UsageLimitType where
  | renewable
  | nonRenewable
  | responseDriven
  | timeDriven
  deriving DecidableEq

namespace UsageLimitType

/-- The literal of a sort. -/
def name : UsageLimitType → String
  | .renewable => "RENEWABLE"
  | .nonRenewable => "NON_RENEWABLE"
  | .responseDriven => "RESPONSE_DRIVEN"
  | .timeDriven => "TIME_DRIVEN"

/-- The sorts by their literals. -/
def all : Table UsageLimitType :=
  [renewable, nonRenewable, responseDriven, timeDriven].map fun t => (t.name, t)

end UsageLimitType

/-- A bound on the use of features. -/
structure UsageLimit where
  /-- The identifier, under which the catalog holds the usage limit. -/
  id : String
  /-- The name to be shown. -/
  name : String
  type : UsageLimitType
  valueType : ValueType
  /-- The value where neither the plan nor an add-on overrides it. -/
  defaultValue : Scalar
  /-- What the value counts. -/
  unit : String
  description : Option String
  /-- The features that are bounded. -/
  linkedFeatures : List String

namespace UsageLimit

/-- The types that the value of a usage limit can have. -/
def valueTypes : List ValueType := [.boolean, .numeric]

/-- The type of the value of an entry. -/
def valueTypeOf (entry : Node) : Except ConfigError ValueType := do
  let valueType ← entry.choice "valueType" ValueType.all
  if valueTypes.contains valueType then return valueType
  else .error (.unknownLiteral (Node.fieldPath entry.path "valueType") valueType.name
    (valueTypes.map ValueType.name))

/-- The usage limit that an entry of the catalog describes. -/
def ofNode (features : Table Feature) (id : String) (entry : Node) :
    Except ConfigError UsageLimit := do
  let type ← entry.choice "type" UsageLimitType.all
  let valueType ← valueTypeOf entry
  let linkedFeatures ← entry.references "linkedFeatures" features.has "features"
  let name ← Feature.nameOf id entry
  let defaultValue ← (← entry.require "defaultValue").typed valueType
  let unit ← (← entry.require "unit").asText
  let description ← entry.optional "description" Node.asText
  return { id, name, type, valueType, defaultValue, unit, description, linkedFeatures }

/-- The usage limits of a catalog. -/
def catalogOf (features : Table Feature) (entries : Table Node) :
    Except ConfigError (Table UsageLimit) :=
  entries.traverse (ofNode features)

end UsageLimit

end Tariff
