import Tariff.Pricing.AddOn
import Tariff.Pricing.Attributes
import Tariff.Version.Resolved

/-!
# Pricings

A pricing is a document that has been read and checked in full. Reading goes through the
document in phases: attributes, features, usage limits, plans, add-ons; the first error
of the first phase that has one ends it. Each phase refers only to what earlier phases
have read, so no reference is ever open. The sections that were read are reported.

`ofNode` reads the tree of a document in the current syntax, `ofCanonical` such a
document, and `ofValue` a document in any syntax that there is.
-/

namespace Tariff

/-- A pricing in full. -/
structure Pricing extends Attributes, Catalog where
  /-- The version of the syntax that the document had when it was read. -/
  version : Version
  plans : Table Plan
  addOns : Table AddOn

/-- The field of a document that holds a section. -/
def Section.key : Section → String
  | .features => "features"
  | .usageLimits => "usageLimits"
  | .plans => "plans"
  | .addOns => "addOns"

namespace Pricing

/-- The outcome of a phase with what it reports. -/
def phase {α : Type} (outcome : Except ParseError α) : Logged ParseError α :=
  (Logged.ofExcept outcome).onError ParseError.events

/-- A section that is there. -/
def sectionOf {α : Type} (part : Section) (read : Table Node → Except ParseError (Table α))
    (node : Node) : Logged ParseError (Table α) := do
  let entries ← phase (ParseError.ofConfig node.asMapping)
  let made ← phase (read entries)
  Logged.emit (.sectionParsed part made.length)
  return made

/-- A section that may be absent, and then is empty and not reported. -/
def optionalSection {α : Type} (part : Section)
    (read : Table Node → Except ParseError (Table α)) (root : Node) :
    Logged ParseError (Table α) := do
  match ← phase (ParseError.ofConfig (root.get? part.key)) with
  | some node => sectionOf part read node
  | none => return []

/-- The pricing in the root of a document. -/
def ofNode (limits : Limits) (version : Version) (root : Node) : Logged ParseError Pricing := do
  let attributes ← phase (ParseError.ofRefusal (Attributes.ofNode root))
  let node ← phase (ParseError.ofConfig (root.require Section.features.key))
  let features ←
    sectionOf .features (fun entries => ParseError.ofRefusal (Feature.catalogOf limits entries)) node
  let usageLimits ← optionalSection .usageLimits
    (fun entries => ParseError.ofConfig (UsageLimit.catalogOf features entries)) root
  let catalog : Catalog := ⟨features, usageLimits⟩
  let plans ← optionalSection .plans (Plan.catalogOf limits catalog attributes.bindings) root
  let addOns ←
    optionalSection .addOns (AddOn.catalogOf limits catalog attributes.bindings plans) root
  if plans.isEmpty && addOns.isEmpty then
    phase (.error (.config .nothingOffered))
  else return { toAttributes := attributes, toCatalog := catalog, version, plans, addOns }

/-- The pricing of a document in the current syntax. -/
def ofCanonical (limits : Limits) (document : Value) (version : Version := Version.current) :
    Logged ParseError Pricing := do
  let root ← phase (ParseError.ofRefusal (Node.ofValue document))
  let _ ← phase (ParseError.ofConfig root.asMapping)
  ofNode limits version root

/-- The pricing of a document in any syntax. Its arrival is reported, and so is every error
that has a report. -/
def ofValue (limits : Limits) (document : Value) : Logged ParseError Pricing := do
  let pricing ← (do
    let resolved ← (Resolved.ofValue document).mapError ParseError.refused
    ofCanonical limits (.mapping resolved.fields) resolved.version
    : Logged ParseError Pricing).onError fun e => e.report?.toList.map Event.parseFailed
  Logged.emit (.pricingParsed pricing.saasName pricing.version pricing.features.length
    pricing.usageLimits.length pricing.plans.length pricing.addOns.length)
  return pricing

/-- Whether a pricing is in force at a moment, both bounds included. A pricing that has a
bound is not to be compared with a naive moment. -/
def isActiveAt? (pricing : Pricing) (m : Moment) : Option Bool :=
  if m.isNaive && (pricing.starts.isSome || pricing.ends.isSome) then none
  else some (pricing.starts.all (fun starts => decide (starts.microseconds ≤ m.utcMicroseconds)) &&
    pricing.ends.all fun ends => decide (m.utcMicroseconds ≤ ends.microseconds))

end Pricing

end Tariff
