import Tariff.Formula.Compiled
import Tariff.Pricing.Typed

/-!
# Features

What a pricing grants. The value of a feature is a default, or what its formula gives
when a request is answered; a feature may have both, and then the formula counts. One
of them it must have.
-/

namespace Tariff

/-- The sorts of features. -/
inductive FeatureType where
  | capability
  | automation
  | guarantee
  | support
  | payment
  | information
  deriving DecidableEq

namespace FeatureType

/-- The literal of a sort. -/
def name : FeatureType → String
  | .capability => "CAPABILITY"
  | .automation => "AUTOMATION"
  | .guarantee => "GUARANTEE"
  | .support => "SUPPORT"
  | .payment => "PAYMENT"
  | .information => "INFORMATION"

/-- The sorts by their literals. -/
def all : Table FeatureType :=
  [capability, automation, guarantee, support, payment, information].map fun t => (t.name, t)

end FeatureType

/-- Something that a pricing grants. -/
structure Feature where
  /-- The identifier, under which the catalog holds the feature. -/
  id : String
  /-- The name to be shown. -/
  name : String
  type : FeatureType
  valueType : ValueType
  /-- The value when there is no formula. -/
  defaultValue : Option Scalar
  description : Option String
  /-- The formula that the value is calculated by. -/
  formula : Option Formula
  /-- The values of the variables that only this feature's formula sees. -/
  bindings : Table Scalar
  tags : List String

namespace Feature

/-- The name of an entry: the one it gives, unless that is empty, else its identifier. -/
def nameOf (id : String) (entry : Node) : Except ConfigError String := do
  match ← entry.optional "name" Node.asText with
  | some name => return if name = "" then id else name
  | none => return id

/-- The formula of an entry. -/
def formulaOf (limits : Limits) (entry : Node) : Except (Refusal ConfigError) (Option Formula) :=
  entry.optionalLifted "formula" fun node => do
    Formula.compile limits node.path (← Refusal.lift node.asText)

/-- The default of an entry, which only an entry with a formula may do without. -/
def defaultOf (valueType : ValueType) (hasFormula : Bool) (entry : Node) :
    Except ConfigError (Option Scalar) := do
  match ← entry.optional "defaultValue" (Node.typed valueType) with
  | some s => return some s
  | none =>
    if hasFormula then return none
    else .error (.missing (Node.fieldPath entry.path "defaultValue"))

/-- The feature that an entry of the catalog describes. -/
def ofNode (limits : Limits) (id : String) (entry : Node) :
    Except (Refusal ConfigError) Feature := do
  let type ← Refusal.lift (entry.choice "type" FeatureType.all)
  let valueType ← Refusal.lift (entry.choice "valueType" ValueType.all)
  let formula ← formulaOf limits entry
  let defaultValue ← Refusal.lift (defaultOf valueType formula.isSome entry)
  let name ← Refusal.lift (nameOf id entry)
  let description ← Refusal.lift (entry.optional "description" Node.asText)
  let bindings ← Refusal.lift entry.declaredBindings
  let tags ← Refusal.lift (entry.optionalTexts "tags")
  return { id, name, type, valueType, defaultValue, description, formula, bindings, tags }

/-- The features of a catalog. -/
def catalogOf (limits : Limits) (entries : Table Node) :
    Except (Refusal ConfigError) (Table Feature) :=
  entries.traverse (ofNode limits)

end Feature

end Tariff
