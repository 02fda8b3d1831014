import Tariff.Entitlement.Activation
import Tariff.Entitlement.Snapshot

/-!
# Evaluation of entitlements

A request names a plan and a set of add-ons and may give values to variables. It is
answered by a snapshot, in which every feature and usage limit of the pricing has the
value of the highest precedence:

1. that of an active add-on that overrides it, the last in the order of the document,
2. that of the plan, if it overrides it,
3. that of the catalog: what the formula gives, if there is one, else the default.

The formula of a feature sees the variables of the pricing and those of the feature,
which hide the former. A request can give other values to these variables, but cannot
add any. What the formula gives must be of the feature's type.
-/

namespace Tariff

/-- The value that overrides a capability: that of the last add-on that has one, else
that of the plan. -/
def overriding? (id : String) (plan : Table Scalar) (addOns : List (Table Scalar)) :
    Option Scalar :=
  (addOns.reverse.findSome? fun overrides => overrides.get? id).or (plan.get? id)

namespace Feature

/-- The variables that the formula of a feature sees. -/
def scope (f : Feature) (outer : Table Scalar) (request : Formula.Scope) : Formula.Scope :=
  ((Formula.Scope.ofTable f.bindings).within (.ofTable outer)).rebind request

/-- The value of a formula, if it is of the type of the feature. -/
def checked (f : Feature) (v : Value) : Except FormulaError Value :=
  match v with
  | .scalar s =>
    if f.valueType.accepts s then .ok v
    else .error (.featureMismatch f.id v.operandKind f.valueType.shape)
  | v => .error (.featureMismatch f.id v.operandKind f.valueType.shape)

/-- The value of a feature that nothing overrides. -/
def catalogValue (f : Feature) (outer : Table Scalar) (request : Formula.Scope) :
    Except FormulaError Value :=
  match f.formula with
  | some formula => do f.checked (← formula.evaluate (f.scope outer request))
  | none => .ok (f.defaultValue.elim .null .scalar)

end Feature

namespace Pricing

/-- The values that a plan overrides. Having no plan is a choice only where there are no
plans. -/
def planOverrides (pricing : Pricing) : Option String → Except EvaluationError Overrides
  | some name =>
    match pricing.plans.get? name with
    | some plan => .ok plan.overrides
    | none => .error (.unknownPlan (.text name))
  | none => if pricing.plans.isEmpty then .ok .empty else .error (.unknownPlan .null)

/-- The value of a feature beside overrides. -/
def featureValue (pricing : Pricing) (plan : Overrides) (active : List AddOn)
    (request : Formula.Scope) (id : String) (f : Feature) : Except FormulaError Value :=
  match overriding? id plan.features (active.map fun addOn => addOn.overrides.features) with
  | some s => .ok (.scalar s)
  | none => f.catalogValue pricing.bindings request

/-- The value of a usage limit beside overrides. -/
def usageLimitValue (plan : Overrides) (active : List AddOn) (id : String) (u : UsageLimit) :
    Value :=
  .scalar ((overriding? id plan.usageLimits
    (active.map fun addOn => addOn.overrides.usageLimits)).getD u.defaultValue)

/-- What a plan and active add-ons entitle to. -/
def grant (pricing : Pricing) (plan : Option String) (overrides : Overrides) (active : List AddOn)
    (request : Formula.Scope) : Except FormulaError Snapshot := do
  let features ← pricing.features.traverse (pricing.featureValue overrides active request)
  return {
    plan
    addOns := Text.sorted (active.map AddOn.name)
    features := Fields.ofTable features
    usageLimits := Fields.ofTable (pricing.usageLimits.map fun entry =>
      (entry.1, usageLimitValue overrides active entry.1 entry.2)) }

end Pricing

end Tariff
