import Tariff.Error.Config
import Tariff.Error.Evaluation

/-!
# Log events

What the library reports while it works. An event is a value: the functions that read
and evaluate answer the events beside their result, in the order in which they arose,
and whoever calls them decides what becomes of them.

Each event belongs to one of four components and has a level. Its `record` is what a
log line is made from: the name of the event, its component's logger, its level, and
the fields it carries.
-/

namespace Tariff

/-- How important an event is. -/
inductive Level where
  | debug
  | info
  | warning
  deriving DecidableEq

/-- The name of a level in a record. -/
def Level.name : Level → String
  | .debug => "debug"
  | .info => "info"
  | .warning => "warning"

/-- The sections of a document whose reading is reported. -/
inductive Section where
  | features
  | usageLimits
  | plans
  | addOns
  deriving DecidableEq

/-- The title of a section. -/
def Section.title : Section → String
  | .features => "Features"
  | .usageLimits => "Usage limits"
  | .plans => "Plans"
  | .addOns => "Add-ons"

/-- Something that happened. -/
inductive Event where
  /-- A step of the version ladder was completed. -/
  | documentMigrated (source target : Version)
  /-- A document of an old version is now current. -/
  | legacyResolved (declared version : Version)
  /-- A section of the document was read. -/
  | sectionParsed (part : Section) (count : Nat)
  /-- A pricing was read; the numbers are those of its catalogs. -/
  | pricingParsed (saasName : String) (version : Version)
      (features usageLimits plans addOns : Nat)
  /-- A pricing was refused. -/
  | parseFailed (report : Report)
  /-- A formula has no value. -/
  | formulaFailed (source : String) (fault : FormulaFault)
  /-- A request was answered. -/
  | entitlementsEvaluated (saasName : String) (plan : Value) (addOns : List String)

namespace Event

/-- The name of an event. -/
def name : Event → String
  | .documentMigrated _ _ => "Document migrated"
  | .legacyResolved _ _ => "Legacy document resolved"
  | .sectionParsed part _ => part.title ++ " parsed"
  | .pricingParsed .. => "Pricing parsed"
  | .parseFailed _ => "Pricing parse failed"
  | .formulaFailed _ _ => "Formula evaluation failed"
  | .entitlementsEvaluated .. => "Entitlements evaluated"

/-- The level of an event. -/
def level : Event → Level
  | .legacyResolved _ _ => .info
  | .pricingParsed .. => .info
  | .parseFailed _ => .warning
  | _ => .debug

/-- The logger of the component that an event belongs to. -/
def logger : Event → String
  | .documentMigrated _ _ => "pricing.versioning"
  | .legacyResolved _ _ => "pricing.versioning"
  | .formulaFailed _ _ => "pricing.expressions"
  | .entitlementsEvaluated .. => "pricing.entitlements"
  | _ => "pricing.parser"

/-- The fields that an event carries. -/
def fields : Event → Table Value
  | .documentMigrated source target =>
    [("from_version", .text source.text), ("to_version", .text target.text)]
  | .legacyResolved declared version =>
    [("declared_version", .text declared.text), ("version", .text version.text)]
  | .sectionParsed _ count => [("count", .int count)]
  | .pricingParsed saasName version features usageLimits plans addOns =>
    [("saas_name", .text saasName), ("version", .text version.text),
     ("features", .int features), ("usage_limits", .int usageLimits),
     ("plans", .int plans), ("add_ons", .int addOns)]
  | .parseFailed report => [("code", .text report.code), ("error", .text report.message)]
  | .formulaFailed source fault =>
    [("formula", .text source), ("error", .text fault.message)]
  | .entitlementsEvaluated saasName plan addOns =>
    [("saas_name", .text saasName), ("plan", plan), ("add_ons", .texts addOns)]

/-- The record of an event. -/
def record (e : Event) : Table Value :=
  e.fields ++ [("event", .text e.name), ("logger", .text e.logger), ("level", .text e.level.name)]

end Event

/-- What is reported of an error of a formula beside the error itself: that the formula
has no value, if it has none. -/
def FormulaError.events : FormulaError → List Event
  | .fault source reason => [.formulaFailed source reason]
  | _ => []

end Tariff
