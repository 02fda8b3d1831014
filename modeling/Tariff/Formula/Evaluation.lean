import Tariff.Document.Same
import Tariff.Error.Evaluation
import Tariff.Formula.Compiled

/-!
# Evaluation of formulas

A formula is evaluated in a scope, which gives values to names. Evaluation is strict and
typed: both operands of every operator are evaluated, from left to right, also those of
`and` and `or`; arithmetic and ordering take numbers, logic takes booleans, and equality
takes two operands of one kind. Nothing is ever converted to make an operator apply.

An arithmetic operation has a value only within the finite numbers. Infinite numbers,
which a literal can denote and a scope can hold, may be compared, but they are no result
of an operation, and no value of a whole formula.
-/

namespace Tariff.Formula

/-- The values of names. -/
abbrev Scope := String → Option Value

namespace Scope

/-- The scope of a table of scalars. -/
def ofTable (t : Table Scalar) : Scope := fun name => (t.get? name).map .scalar

/-- A scope inside another: its own names hide those outside. -/
def within (inner outer : Scope) : Scope := fun name => (inner name).or (outer name)

/-- A scope in which the names that it has are given the values of another, as far as
that one has them. No name is added. -/
def rebind (scope values : Scope) : Scope := fun name =>
  (scope name).map fun v => (values name).getD v

@[simp] theorem ofTable_apply (t : Table Scalar) (name : String) :
    ofTable t name = (t.get? name).map .scalar := rfl

/-- Rebinding declares nothing. -/
@[simp] theorem isSome_rebind (scope values : Scope) (name : String) :
    (rebind scope values name).isSome = (scope name).isSome := by
  simp [rebind]

end Scope

/-- The value of a name, which must be a boolean, a number or a text. -/
def lookUp (scope : Scope) (name : String) : Except FormulaFault Value :=
  match scope name with
  | none => .error (.undeclared name)
  | some (.scalar s) => .ok (.scalar s)
  | some v => .error (.unsupportedVariable name v.operandKind)

/-- What an operator makes of one operand. -/
def applyUnary (operator : UnaryOperator) (v : Value) : Except FormulaFault Value :=
  match operator, v with
  | .negate, .number n => .ok (.number n.neg)
  | .negate, v => .error (.unaryOperand operator.symbol v.operandKind)
  | _, .bool b => .ok (.bool !b)
  | _, v => .error (.unaryOperand operator.symbol v.operandKind)

/-- The two numbers that an operator needs. -/
def twoNumbers (operator : BinaryOperator) (v w : Value) : Except FormulaFault (Number × Number) :=
  match v, w with
  | .number m, .number n => .ok (m, n)
  | v, w => .error (.binaryOperands operator.symbol v.operandKind w.operandKind)

/-- The two booleans that an operator needs. -/
def twoBooleans (operator : BinaryOperator) (v w : Value) : Except FormulaFault (Bool × Bool) :=
  match v, w with
  | .bool a, .bool b => .ok (a, b)
  | v, w => .error (.binaryOperands operator.symbol v.operandKind w.operandKind)

/-- The result of arithmetic, if there is one. -/
def arithmetic (operator : BinaryOperator) (operation : Number → Number → Option Number)
    (v w : Value) : Except FormulaFault Value := do
  let (m, n) ← twoNumbers operator v w
  match operation m n with
  | some result => return .number result
  | none => .error (.outOfRange operator.symbol v.operandKind w.operandKind)

/-- The quotient. Dividing by zero is an error of its own. -/
def divide (v w : Value) : Except FormulaFault Value := do
  let (_, n) ← twoNumbers .div v w
  if n.isZero then .error .divisionByZero else arithmetic .div Number.div? v w

/-- Whether two numbers stand in one of some orders. Numbers that are not comparable
stand in none. -/
def ordered (operator : BinaryOperator) (orders : List Ordering) (v w : Value) :
    Except FormulaFault Value := do
  let (m, n) ← twoNumbers operator v w
  return .bool ((m.compare? n).any orders.contains)

/-- Whether two operands of one kind are the same. -/
def sameKindEqual (operator : BinaryOperator) (v w : Value) : Except FormulaFault Bool :=
  if v.operandKind = w.operandKind then .ok (v.same w)
  else .error (.binaryOperands operator.symbol v.operandKind w.operandKind)

/-- What an operator makes of two operands. -/
def applyBinary (operator : BinaryOperator) (v w : Value) : Except FormulaFault Value :=
  match operator with
  | .add => arithmetic .add Number.add? v w
  | .sub => arithmetic .sub Number.sub? v w
  | .mul => arithmetic .mul Number.mul? v w
  | .div => divide v w
  | .less => ordered .less [.lt] v w
  | .lessEqual => ordered .lessEqual [.lt, .eq] v w
  | .greater => ordered .greater [.gt] v w
  | .greaterEqual => ordered .greaterEqual [.gt, .eq] v w
  | .equal => return .bool (← sameKindEqual .equal v w)
  | .notEqual => return .bool !(← sameKindEqual .notEqual v w)
  | .and => do
    let (a, b) ← twoBooleans .and v w
    return .bool (a && b)
  | .or => do
    let (a, b) ← twoBooleans .or v w
    return .bool (a || b)
  | .other symbol => .error (.unknownOperator symbol)

/-- The value of a tree. -/
def Expr.value (scope : Scope) : Expr → Except FormulaFault Value
  | .literal v => .ok v
  | .name text => lookUp scope text
  | .unary operator operand _ => do applyUnary operator (← operand.value scope)
  | .binary operator left right _ => do
    let v ← left.value scope
    let w ← right.value scope
    applyBinary operator v w
  | .foreign typeName => .error (.unsupportedNode typeName)

/-- Whether a value is a number that is infinite or "not a number". -/
def isNotFinite : Value → Bool
  | .number n => !n.isFinite
  | _ => false

/-- The value of a formula. -/
def value (f : Formula) (scope : Scope) : Except FormulaFault Value := do
  let v ← f.root.value scope
  if isNotFinite v then .error (.notFinite f.source) else return v

/-- The value of a formula, or the error that it has none. -/
def evaluate (f : Formula) (scope : Scope) : Except FormulaError Value :=
  (f.value scope).mapError (.fault f.source)

/-- The value of a tree depends only on the values of the names in it. -/
theorem Expr.value_congr {scope scope' : Scope} {e : Expr}
    (h : ∀ name ∈ e.names, scope name = scope' name) : e.value scope = e.value scope' := by
  induction e with
  | literal v => rfl
  | name text => simp [Expr.value, lookUp, h text (by simp [Expr.names])]
  | unary operator operand depth ih => simp [Expr.value, ih h]
  | binary operator left right depth ihLeft ihRight =>
    rw [Expr.value, Expr.value,
      ihLeft fun name hname => h name (by simp [Expr.names, hname]),
      ihRight fun name hname => h name (by simp [Expr.names, hname])]
  | foreign typeName => rfl

/-- The value of a formula depends only on the values of its variables. -/
theorem value_congr {scope scope' : Scope} {f : Formula}
    (h : ∀ name ∈ f.variableNames, scope name = scope' name) : f.value scope = f.value scope' := by
  have htree : f.root.value scope = f.root.value scope' :=
    Expr.value_congr fun name hname => h name (Text.mem_sortUnique.2 hname)
  simp [value, htree]

/-- The value of a formula is finite. -/
theorem isNotFinite_of_value {f : Formula} {scope : Scope} {v : Value}
    (h : f.value scope = .ok v) : isNotFinite v = false := by
  unfold value at h
  cases htree : f.root.value scope with
  | error fault => simp [htree, bind, Except.bind] at h
  | ok w =>
    cases hw : isNotFinite w with
    | false =>
      simp only [htree, bind, Except.bind, hw, Bool.false_eq_true, ↓reduceIte, pure, Except.pure,
        Except.ok.injEq] at h
      exact h ▸ hw
    | true => simp [htree, bind, Except.bind, hw] at h

end Tariff.Formula
