import Tariff.Proofs.Formula.Finite
import Tariff.Proofs.Formula.Typing

/-!
# The guards of evaluation

A tree that a caller has put together may have operators that no formula has, or nodes that are
no expressions. Evaluation guards against both, with faults of their own. No formula reaches
these guards: the parts of a compiled formula have the operators and the literals of the grammar
alone, and so evaluating it ends with a scalar or with a fault of another sort, whatever the
names in it stand for (`compile_reaches_no_guard`).

Faults are followed through the operators by `Outcome.FailsOnly`. That a value is a scalar can be
seen from the last operator, whatever its operands are.
-/

namespace Tariff

/-! ## Literals -/

namespace Binary64

/-- Whether a number has a minus sign. -/
def isNegative : Binary64 → Bool
  | .nan => false
  | .infinity negative => negative
  | .finite negative _ => negative

/-- Whether a value has a sign, and which. -/
def HasSign (negative : Bool) (x : Binary64) : Prop := x.isNaN = false ∧ x.isNegative = negative

theorem hasSign_nearest (negative : Bool) (num den : Nat) :
    (nearest negative num den).HasSign negative := by
  unfold nearest
  dsimp only
  split <;> exact ⟨rfl, rfl⟩

/-- What is read of a decimal has the sign that was asked for. -/
theorem hasSign_ofDecimal (negative : Bool) (d : Decimal) :
    (ofDecimal negative d).HasSign negative := by
  unfold ofDecimal
  split
  · exact ⟨rfl, rfl⟩
  · split
    · exact ⟨rfl, rfl⟩
    · split
      · exact ⟨rfl, rfl⟩
      · unfold ofDecimalExact
        split <;> exact hasSign_nearest _ _ _

end Binary64

namespace Formula

/-- Whether a value can be written in a formula by itself: a boolean, an integer that is not
negative, or a floating-point number that is neither negative nor "not a number". -/
def IsLiteralValue (v : Value) : Prop :=
  (∃ b, v = .bool b) ∨ (∃ n : Int, v = .int n ∧ 0 ≤ n) ∨
    ∃ x : Binary64, v = .float x ∧ x.isNaN = false ∧ x.isNegative = false

theorem isLiteralValue_value (numeral : Numeral) : IsLiteralValue (.number numeral.value) := by
  unfold Numeral.value Numeral.signedValue
  split
  · exact .inr (.inl ⟨_, rfl, Int.natCast_nonneg _⟩)
  · exact .inr (.inr ⟨_, rfl, Binary64.hasSign_ofDecimal false numeral.decimal⟩)

theorem Leaf.isLiteralValue {l : Lexeme} {v : Value} (h : Leaf l (.literal v)) :
    IsLiteralValue v := by
  cases h with
  | number numeral => exact isLiteralValue_value numeral
  | true => exact .inl ⟨Bool.true, rfl⟩
  | false => exact .inl ⟨Bool.false, rfl⟩

/-! ## Parts of a formula -/

namespace Expr

variable {part e : Expr}

/-- The parts of a regular expression are regular. -/
theorem isRegular_of_within (h : part.Within e) (he : e.IsRegular) : part.IsRegular := by
  induction h with
  | whole => exact he
  | operand _ ih =>
    cases he with
    | leaf h => cases h
    | unary _ hoperand => exact ih hoperand
  | left _ ih =>
    cases he with
    | leaf h => cases h
    | binary _ hleft _ => exact ih hleft
  | right _ ih =>
    cases he with
    | leaf h => cases h
    | binary _ _ hright => exact ih hright

end Expr

/-- The operators with one operand, as formulas that were read spell them. -/
def unarySymbols : List String := ["-", "not"]

/-- The operators with two operands, as formulas that were read spell them. -/
def binarySymbols : List String :=
  ["+", "-", "*", "/", "<", "<=", ">", ">=", "==", "!=", "and", "or"]

theorem Tier.Precedes.exists_symbol {tier : Tier} {l : Lexeme} {operator : UnaryOperator}
    (h : tier.Precedes l operator) : ∃ symbol ∈ unarySymbols, operator = .ofSymbol symbol := by
  refine ⟨operator.symbol, ?_⟩
  cases h <;> decide

theorem Tier.Joins.exists_symbol {tier : Tier} {l : Lexeme} {operator : BinaryOperator}
    (h : tier.Joins l operator) : ∃ symbol ∈ binarySymbols, operator = .ofSymbol symbol := by
  refine ⟨operator.symbol, ?_⟩
  cases h <;> decide

/-! ## Faults of evaluation -/

open Outcome (FailsOnly failsOnly_ok failsOnly_error)

variable {operator : BinaryOperator} {scope : Scope} {v w u : Value}

/-- Whether a fault is none of the guards against operators and nodes that there are not. -/
def IsUnguarded : FormulaFault → Prop
  | .unknownOperator _ | .unsupportedNode _ => False
  | _ => True

theorem failsOnly_lookUp (scope : Scope) (name : String) :
    FailsOnly IsUnguarded (lookUp scope name) := by
  unfold lookUp
  split
  · exact failsOnly_error trivial
  · exact failsOnly_ok _
  · exact failsOnly_error trivial

theorem failsOnly_applyUnary (operator : UnaryOperator) (v : Value) :
    FailsOnly IsUnguarded (applyUnary operator v) := by
  unfold applyUnary
  split
  · exact failsOnly_ok _
  · exact failsOnly_error trivial
  · exact failsOnly_ok _
  · exact failsOnly_error trivial

theorem failsOnly_twoNumbers : FailsOnly IsUnguarded (twoNumbers operator v w) := by
  unfold twoNumbers
  split
  · exact failsOnly_ok _
  · exact failsOnly_error trivial

theorem failsOnly_twoBooleans : FailsOnly IsUnguarded (twoBooleans operator v w) := by
  unfold twoBooleans
  split
  · exact failsOnly_ok _
  · exact failsOnly_error trivial

theorem failsOnly_arithmetic {operation : Number → Number → Option Number} :
    FailsOnly IsUnguarded (arithmetic operator operation v w) := by
  refine failsOnly_twoNumbers.bind fun numbers _ => ?_
  dsimp only
  split
  · exact failsOnly_ok _
  · exact failsOnly_error trivial

theorem failsOnly_divide : FailsOnly IsUnguarded (divide v w) := by
  refine failsOnly_twoNumbers.bind fun numbers _ => ?_
  dsimp only
  split
  · exact failsOnly_error trivial
  · exact failsOnly_arithmetic

theorem failsOnly_ordered {orders : List Ordering} :
    FailsOnly IsUnguarded (ordered operator orders v w) :=
  failsOnly_twoNumbers.bind fun _ _ => failsOnly_ok _

theorem failsOnly_sameKindEqual : FailsOnly IsUnguarded (sameKindEqual operator v w) := by
  unfold sameKindEqual
  split
  · exact failsOnly_ok _
  · exact failsOnly_error trivial

/-- The operators that can be written do not run into a guard. -/
theorem failsOnly_applyBinary {tier : Tier} {l : Lexeme} (h : tier.Joins l operator) (v w : Value) :
    FailsOnly IsUnguarded (applyBinary operator v w) := by
  cases h with
  | plus | minus | times => exact failsOnly_arithmetic
  | divide => exact failsOnly_divide
  | less | lessEqual | greater | greaterEqual => exact failsOnly_ordered
  | equal | notEqual => exact failsOnly_sameKindEqual.bind fun _ _ => failsOnly_ok _
  | and | both | or | either => exact failsOnly_twoBooleans.bind fun _ _ => failsOnly_ok _

/-- Evaluating a regular expression does not run into a guard. -/
theorem Expr.IsRegular.failsOnly_value {e : Expr} (h : e.IsRegular) (scope : Scope) :
    FailsOnly IsUnguarded (e.value scope) := by
  induction h with
  | leaf h =>
    cases h with
    | name text => exact failsOnly_lookUp scope text
    | _ => exact failsOnly_ok _
  | @unary _ _ operator _ _ _ _ ih => exact ih.bind fun v _ => failsOnly_applyUnary operator v
  | binary h _ _ ihLeft ihRight =>
    exact ihLeft.bind fun v _ => ihRight.bind fun w _ => failsOnly_applyBinary h v w

/-! ## Values -/

/-- What an operator makes of an operand is a scalar. -/
theorem exists_scalar_of_applyUnary {operator : UnaryOperator} (h : applyUnary operator v = .ok u) :
    ∃ s, u = .scalar s := by
  unfold applyUnary at h
  split at h <;> cases h <;> exact ⟨_, rfl⟩

theorem exists_scalar_of_applyBinary (h : applyBinary operator v w = .ok u) :
    ∃ s, u = .scalar s := by
  cases operator with
  | add | sub | mul =>
    obtain ⟨-, -, result, -, -, -, rfl⟩ := arithmetic_eq_ok_iff.1 h
    exact ⟨_, rfl⟩
  | div =>
    obtain ⟨-, -, result, -, -, -, -, rfl⟩ := divide_eq_ok_iff.1 h
    exact ⟨_, rfl⟩
  | other symbol => cases h
  | _ =>
    obtain ⟨_, -, hdone⟩ := Outcome.bind_eq_ok_iff.1 h
    cases hdone
    exact ⟨_, rfl⟩

/-- The value of a regular expression is a scalar, whatever its names stand for. -/
theorem Expr.IsRegular.exists_scalar {e : Expr} (h : e.IsRegular) (hv : e.value scope = .ok v) :
    ∃ s, v = .scalar s := by
  cases h with
  | leaf h =>
    cases h with
    | name text =>
      obtain ⟨s, -, rfl⟩ := lookUp_eq_ok_iff.1 hv
      exact ⟨s, rfl⟩
    | _ =>
      cases hv
      exact ⟨_, rfl⟩
  | unary =>
    obtain ⟨_, -, happly⟩ := Outcome.bind_eq_ok_iff.1 hv
    exact exists_scalar_of_applyUnary happly
  | binary =>
    obtain ⟨_, -, hrest⟩ := Outcome.bind_eq_ok_iff.1 hv
    obtain ⟨_, -, happly⟩ := Outcome.bind_eq_ok_iff.1 hrest
    exact exists_scalar_of_applyBinary happly

/-! ## Whole formulas -/

/-- The fault of a formula without a value is one that its expression has, or that the value is
not finite. -/
theorem failsOnly_value {f : Formula} (h : f.root.IsRegular) (scope : Scope) :
    FailsOnly IsUnguarded (f.value scope) := by
  refine (h.failsOnly_value scope).bind fun v _ => ?_
  split
  · exact failsOnly_error trivial
  · exact failsOnly_ok v

/-- A compiled formula has no operators and literals but those of the grammar and no foreign
nodes. In no scope does evaluating it fail for an operator or a node that there is not, nor does
it give null. -/
theorem compile_reaches_no_guard {limits : Limits} {path source : String} {f : Formula}
    (h : compile limits path source = .ok f) :
    (∀ operator operand depth, (Expr.unary operator operand depth).Within f.root →
      ∃ symbol ∈ ["-", "not"], operator = .ofSymbol symbol) ∧
    (∀ operator left right depth, (Expr.binary operator left right depth).Within f.root →
      ∃ symbol ∈ ["+", "-", "*", "/", "<", "<=", ">", ">=", "==", "!=", "and", "or"],
        operator = .ofSymbol symbol) ∧
    (∀ v, (Expr.literal v).Within f.root → (∃ b, v = .bool b) ∨ (∃ n : Int, v = .int n ∧ 0 ≤ n) ∨
      ∃ x : Binary64, v = .float x ∧ x.isNaN = false ∧ x.isNegative = false) ∧
    (∀ typeName, ¬(Expr.foreign typeName).Within f.root) ∧
    ∀ scope,
      (∀ e, f.evaluate scope = .error e → ∃ fault, e = .fault f.source fault ∧
        (∀ symbol, fault ≠ .unknownOperator symbol) ∧
        ∀ typeName, fault ≠ .unsupportedNode typeName) ∧
      f.evaluate scope ≠ .ok .null := by
  have hregular := isRegular_of_compile h
  refine ⟨fun operator operand depth hpart => ?_, fun operator left right depth hpart => ?_,
    fun v hpart => ?_, fun typeName hpart => ?_, fun scope => ⟨fun e he => ?_, fun hnull => ?_⟩⟩
  · cases Expr.isRegular_of_within hpart hregular with
    | leaf h => cases h
    | unary h _ => exact h.exists_symbol
  · cases Expr.isRegular_of_within hpart hregular with
    | leaf h => cases h
    | binary h _ _ => exact h.exists_symbol
  · cases Expr.isRegular_of_within hpart hregular with
    | leaf h => exact h.isLiteralValue
  · cases Expr.isRegular_of_within hpart hregular with
    | leaf h => cases h
  · obtain ⟨fault, hfault, rfl⟩ := Outcome.mapError_eq_error_iff.1 he
    have hunguarded := failsOnly_value hregular scope fault hfault
    exact ⟨fault, rfl, fun symbol heq => (heq ▸ hunguarded).elim,
      fun typeName heq => (heq ▸ hunguarded).elim⟩
  · obtain ⟨s, hs⟩ := hregular.exists_scalar (evaluate_eq_ok_iff.1 hnull).1
    cases hs

/-- The tree of `!(1 < x) && -2 != y`. -/
def guardedTree : Expr :=
  .binaryOf .and
    (.unaryOf .not (.binaryOf .less (.literal (.int 1)) (.name "x")))
    (.binaryOf .notEqual (.unaryOf .negate (.literal (.int 2))) (.name "y"))

/-- In that formula the negation is told from the minus sign however it is written, and there is
no scope that makes the formula null. -/
theorem compile_reaches_no_guard_negated :
    compile ⟨64, 1024⟩ "formula" "!(1 < x) && -2 != y" =
      .ok ⟨"!(1 < x) && -2 != y", guardedTree⟩ ∧
    (∀ operator operand depth, (Expr.unary operator operand depth).Within guardedTree →
      ∃ symbol ∈ ["-", "not"], operator = .ofSymbol symbol) ∧
    ∀ scope, Formula.evaluate ⟨"!(1 < x) && -2 != y", guardedTree⟩ scope ≠ .ok .null := by
  have htokens : Token.ofFormula "!(1 < x) && -2 != y" =
      .ok [⟨.symbol .bang, 0⟩, ⟨.opening, 1⟩, ⟨.number ⟨['1'], none, none⟩, 2⟩,
        ⟨.symbol .less, 4⟩, ⟨.name "x", 6⟩, ⟨.closing, 7⟩, ⟨.symbol .both, 9⟩,
        ⟨.symbol .minus, 12⟩, ⟨.number ⟨['2'], none, none⟩, 13⟩, ⟨.symbol .notEqual, 15⟩,
        ⟨.name "y", 18⟩, ⟨.finish, 19⟩] := by decide +kernel
  have hcompile : compile ⟨64, 1024⟩ "formula" "!(1 < x) && -2 != y" =
      .ok ⟨"!(1 < x) && -2 != y", guardedTree⟩ :=
    compile_of_readAll (by decide) htokens (by with_unfolding_all rfl)
  obtain ⟨hunary, -, -, -, hscope⟩ := compile_reaches_no_guard hcompile
  exact ⟨hcompile, hunary, fun scope => (hscope scope).2⟩

end Formula

end Tariff
