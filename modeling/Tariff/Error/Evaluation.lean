import Tariff.Error.Report

/-!
# Errors of evaluation

The causes for which an evaluation against a pricing fails. Those of formulas have a
type of their own, `FormulaError`, since a formula is evaluated both while a document
is read, for prices, and while a request is answered, for features. The others concern
what a request names: a plan, an add-on, or a feature or usage limit of a snapshot.
-/

namespace Tariff

/-- Why a formula has no value. Kinds are the operand kinds of formulas. -/
inductive FormulaFault where
  /-- A variable that the scope does not have. -/
  | undeclared (name : String)
  /-- A variable whose value is neither boolean, numeric nor text. -/
  | unsupportedVariable (name kind : String)
  /-- An operand of the wrong kind. -/
  | unaryOperand (operator kind : String)
  /-- Two operands of which one has the wrong kind. -/
  | binaryOperands (operator left right : String)
  /-- An operator that there is not. -/
  | unknownOperator (operator : String)
  | divisionByZero
  /-- A result beyond the finite numbers. -/
  | outOfRange (operator left right : String)
  /-- A whole formula with an infinite value or none. -/
  | notFinite (source : String)
  /-- A tree that holds something other than expressions. -/
  | unsupportedNode (typeName : String)
  deriving DecidableEq

/-- Why an add-on cannot be combined with the rest of a request. -/
inductive AddOnConflict where
  /-- The plan is not among those the add-on is available for. -/
  | unavailable (plan : String)
  /-- An add-on that it depends on is not requested. -/
  | requires (other : String)
  /-- An add-on that it excludes is requested. -/
  | excludes (other : String)
  deriving DecidableEq

/-- Why a formula of a pricing is of no use. -/
inductive FormulaError where
  /-- The formula has no value. -/
  | fault (source : String) (fault : FormulaFault)
  /-- A price formula has a value that is no number. -/
  | priceNotNumeric (path kind : String)
  /-- The formula of a feature has a value that is not of the feature's type. -/
  | featureMismatch (feature kind shape : String)
  deriving DecidableEq

/-- The two sorts of things that a snapshot grants. Their identifiers are apart: one
text can be both a feature and a usage limit. -/
inductive Capability where
  | feature
  | usageLimit
  deriving DecidableEq

/-- What messages call a sort of capability. -/
def Capability.name : Capability → String
  | .feature => "feature"
  | .usageLimit => "usage limit"

/-- Why an evaluation fails. -/
inductive EvaluationError where
  /-- A formula is of no use. -/
  | formula (error : FormulaError)
  /-- A snapshot has no capability of that identifier. -/
  | unknownCapability (sort : Capability) (id : String)
  /-- The plan is not defined. -/
  | unknownPlan (plan : Value)
  /-- A requested add-on is not defined. -/
  | unknownAddOn (addOn : Value)
  /-- A requested add-on cannot be combined with the rest. -/
  | incompatible (addOn : String) (conflict : AddOnConflict)

namespace FormulaFault

/-- The message of a formula fault. -/
def message : FormulaFault → String
  | .undeclared name => s!"Variable '{name}' is not declared"
  | .unsupportedVariable name kind => s!"Variable '{name}' has unsupported type '{kind}'"
  | .unaryOperand operator kind =>
    s!"The operator '{operator}' is not supported for an operand of type '{kind}'"
  | .binaryOperands operator left right =>
    s!"The operator '{operator}' is not supported between operands of type '{left}' and '{right}'"
  | .unknownOperator operator => s!"Unknown operator '{operator}'"
  | .divisionByZero => "Division by zero: the right operand of '/' evaluated to 0"
  | .outOfRange operator left right =>
    s!"The operator '{operator}' produced a result outside the finite numeric range " ++
      s!"for operands of type '{left}' and '{right}'"
  | .notFinite source => s!"Formula '{source}' evaluated to a non-finite number"
  | .unsupportedNode typeName => s!"Unsupported expression node '{typeName}'"

/-- The details of a formula fault. -/
def details : FormulaFault → Table Value
  | .undeclared name => [("variable", .text name)]
  | .unsupportedVariable name kind => [("variable", .text name), ("type", .text kind)]
  | .unaryOperand operator kind => [("operator", .text operator), ("operand", .text kind)]
  | .binaryOperands operator left right =>
    [("operator", .text operator), ("left", .text left), ("right", .text right)]
  | .unknownOperator operator => [("operator", .text operator)]
  | .divisionByZero => [("operator", .text "/")]
  | .outOfRange operator left right =>
    [("operator", .text operator), ("left", .text left), ("right", .text right)]
  | .notFinite source => [("formula", .text source)]
  | .unsupportedNode _ => []

end FormulaFault

namespace AddOnConflict

/-- The message of a conflict of an add-on. -/
def message (addOn : String) : AddOnConflict → String
  | .unavailable plan => s!"The add-on {addOn} is not available for the plan {plan}"
  | .requires other => s!"The add-on {addOn} requires the add-on {other} to be active"
  | .excludes other => s!"The add-on {addOn} cannot be combined with the add-on {other}"

end AddOnConflict

namespace FormulaError

/-- The code of every error of a formula. -/
def code : String := "EXPRESSION_EVALUATION_ERROR"

/-- The report of a formula that is of no use. -/
def report : FormulaError → Report
  | .fault _ reason => ⟨code, reason.message, reason.details⟩
  | .priceNotNumeric path kind =>
    ⟨code, s!"Price formula of \"{path}\" evaluated to {kind} and must be numeric",
      [("path", .text path), ("type", .text kind)]⟩
  | .featureMismatch feature kind shape =>
    ⟨code, s!"Formula of feature '{feature}' evaluated to {kind} and must be {shape}",
      [("feature", .text feature), ("type", .text kind)]⟩

end FormulaError

namespace EvaluationError

/-- The report of a failed evaluation. -/
def report : EvaluationError → Report
  | .formula error => error.report
  | .unknownCapability sort id =>
    let kind := sort.name
    ⟨"UNKNOWN_CAPABILITY",
      s!"The {kind} {id} does not exist in the current pricing configuration",
      [("kind", .text kind), ("id", .text id)]⟩
  | .unknownPlan plan =>
    let shown := plan.display
    ⟨"UNKNOWN_PLAN", s!"The plan {shown} does not exist in the current pricing configuration",
      [("plan", .text shown)]⟩
  | .unknownAddOn addOn =>
    let shown := addOn.display
    ⟨"UNKNOWN_ADD_ON", s!"The add-on {shown} does not exist in the current pricing configuration",
      [("add_on", addOn)]⟩
  | .incompatible addOn conflict =>
    ⟨"INCOMPATIBLE_ADD_ON", conflict.message addOn, [("add_on", .text addOn)]⟩

end EvaluationError

end Tariff
