import Tariff.Pricing.Plan

/-!
# Add-ons

An add-on can be booked beside a plan and overrides values as a plan does, with
precedence over it. It may be available for some plans only, depend on other add-ons, and
exclude other add-ons.
-/

namespace Tariff

/-- Something to book beside a plan. -/
structure AddOn where
  /-- The name, under which the pricing holds the add-on. -/
  name : String
  description : Option String
  price : Option Price
  /-- What the price is for. -/
  unit : Option String
  /-- The plans beside which it can be booked; all, if none is named. -/
  availableFor : List String
  /-- The add-ons that have to be booked with it. -/
  dependsOn : List String
  /-- The add-ons that cannot be booked with it. -/
  excludes : List String
  overrides : Overrides

namespace AddOn

/-- Whether an add-on can be booked beside a plan. -/
def isAvailableFor (addOn : AddOn) (plan : String) : Bool :=
  addOn.availableFor.isEmpty || addOn.availableFor.contains plan

/-- The references of an add-on to others, of which it cannot be one itself. -/
def otherAddOns (known : String → Bool) (name key : String) (entry : Node) :
    Except ConfigError (List String) := do
  let found ← entry.references key known "addOns"
  if found.contains name then
    .error (.invalid (Node.fieldPath entry.path key) (.selfReference name))
  else return found

/-- The add-on that an entry describes. Of the plans and add-ons of the pricing only the
names matter. -/
def ofNode (limits : Limits) (catalog : Catalog) (bindings : Table Scalar)
    (isPlan isAddOn : String → Bool) (name : String) (entry : Node) : Except ParseError AddOn := do
  let description ← ParseError.ofConfig (entry.optional "description" Node.asText)
  let price ← Price.ofEntry limits bindings entry
  let unit ← ParseError.ofConfig (entry.optional "unit" Node.asText)
  let availableFor ← ParseError.ofConfig (entry.references "availableFor" isPlan "plans")
  let dependsOn ← ParseError.ofConfig (otherAddOns isAddOn name "dependsOn" entry)
  let excludes ← ParseError.ofConfig (otherAddOns isAddOn name "excludes" entry)
  let overrides ← ParseError.ofConfig (Overrides.ofEntry catalog entry)
  return { name, description, price, unit, availableFor, dependsOn, excludes, overrides }

/-- The add-ons of a pricing. -/
def catalogOf (limits : Limits) (catalog : Catalog) (bindings : Table Scalar)
    (plans : Table Plan) (entries : Table Node) : Except ParseError (Table AddOn) :=
  entries.traverse (ofNode limits catalog bindings plans.has entries.has)

end AddOn

end Tariff
