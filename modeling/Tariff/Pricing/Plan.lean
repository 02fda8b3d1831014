import Tariff.Pricing.Price
import Tariff.Pricing.UsageLimit

/-!
# Plans

A plan is what a customer subscribes to. It has a price and overrides the values of some
features and usage limits; for all others those of the catalog hold.
-/

namespace Tariff

/-- The features and usage limits that plans and add-ons refer to. -/
structure Catalog where
  features : Table Feature
  usageLimits : Table UsageLimit

namespace Catalog

/-- The type of the value of a feature. -/
def featureType? (catalog : Catalog) (id : String) : Option ValueType :=
  (catalog.features.get? id).map Feature.valueType

/-- The type of the value of a usage limit. -/
def usageLimitType? (catalog : Catalog) (id : String) : Option ValueType :=
  (catalog.usageLimits.get? id).map UsageLimit.valueType

end Catalog

/-- Values that take the place of those of the catalog. -/
structure Overrides where
  features : Table Scalar
  usageLimits : Table Scalar

namespace Overrides

/-- No values. -/
def empty : Overrides := ⟨[], []⟩

/-- The values that an entry overrides. -/
def ofEntry (catalog : Catalog) (entry : Node) : Except ConfigError Overrides := do
  let features ← entry.overrides catalog.featureType? "features"
  let usageLimits ← entry.overrides catalog.usageLimitType? "usageLimits"
  return ⟨features, usageLimits⟩

end Overrides

/-- Something to subscribe to. -/
structure Plan where
  /-- The name, under which the pricing holds the plan. -/
  name : String
  description : Option String
  price : Option Price
  /-- What the price is for. -/
  unit : Option String
  /-- Whether the plan is not offered to everyone. -/
  isPrivate : Bool
  overrides : Overrides

namespace Plan

/-- The plan that an entry describes. -/
def ofNode (limits : Limits) (catalog : Catalog) (bindings : Table Scalar) (name : String)
    (entry : Node) : Except ParseError Plan := do
  let description ← ParseError.ofConfig (entry.optional "description" Node.asText)
  let price ← Price.ofEntry limits bindings entry
  let unit ← ParseError.ofConfig (entry.optional "unit" Node.asText)
  let isPrivate? ← ParseError.ofConfig (entry.optional "private" Node.asBool)
  let overrides ← ParseError.ofConfig (Overrides.ofEntry catalog entry)
  return { name, description, price, unit, isPrivate := isPrivate?.getD false, overrides }

/-- The plans of a pricing. -/
def catalogOf (limits : Limits) (catalog : Catalog) (bindings : Table Scalar)
    (entries : Table Node) : Except ParseError (Table Plan) :=
  entries.traverse (ofNode limits catalog bindings)

end Plan

end Tariff
