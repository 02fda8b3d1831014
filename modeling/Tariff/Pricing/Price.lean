import Tariff.Error.Parse
import Tariff.Formula.Evaluation
import Tariff.Pricing.Typed

/-!
# Prices

What a plan or an add-on costs: a number, or a formula that is evaluated once, while the
document is read. Such a formula sees the variables of the pricing and those of its own
entry, which hide the former; its value must be a number.
-/

namespace Tariff

/-- What something costs. -/
structure Price where
  amount : Number
  /-- The formula that the amount was calculated by. -/
  formula : Option Formula
  /-- The values of the variables that only this price's formula sees. -/
  bindings : Table Scalar

namespace Price

/-- The variables that the formula of a price sees. -/
def scope (own outer : Table Scalar) : Formula.Scope :=
  (Formula.Scope.ofTable own).within (.ofTable outer)

/-- The amount that a formula in the field at a path gives. -/
def amountOf (path : String) (f : Formula) (scope : Formula.Scope) : Except FormulaError Number := do
  match ← f.evaluate scope with
  | .number n => return n
  | v => .error (.priceNotNumeric path v.operandKind)

/-- The price that a node describes. -/
def ofNode (limits : Limits) (outer own : Table Scalar) : Node → Except ParseError Price
  | .scalar path (.number n) => do
    let _ ← ParseError.ofConfig (Node.finite path (.number n))
    return ⟨n, none, own⟩
  | .scalar path (.text source) => do
    let f ← ParseError.ofRefusal (Formula.compile limits path source)
    let amount ← (amountOf path f (scope own outer)).mapError ParseError.formula
    return ⟨amount, some f, own⟩
  | node => .error (.config (.typeMismatch node.path node.kind.name "a number or a formula"))

/-- The price of an entry, if it has one. The variables of the entry are read in any
case. -/
def ofEntry (limits : Limits) (outer : Table Scalar) (entry : Node) :
    Except ParseError (Option Price) := do
  let node? ← ParseError.ofConfig (entry.get? "price")
  let own ← ParseError.ofConfig entry.declaredBindings
  match node? with
  | some node => return some (← ofNode limits outer own node)
  | none => return none

end Price

end Tariff
