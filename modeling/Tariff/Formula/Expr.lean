import Tariff.Document.Value
import Tariff.Text.Sorted

/-!
# Expression trees

The tree of a formula. Inner nodes record their depth, one more than that of their
deepest operand, so that the depth of a tree can be bounded while it is built; the
smart constructors `unaryOf` and `binaryOf` are how trees are built here.

A tree may also be put together by a caller. Then an operator can be one that no
formula has, which `other` stands for, and a node can be no expression at all, which
`foreign` stands for; evaluating them is an error with a message of its own.
-/

namespace Tariff.Formula

/-- The operators with one operand. -/
inductive UnaryOperator where
  | negate
  | not
  | other (symbol : String)
  deriving DecidableEq

/-- The operators with two operands. -/
inductive BinaryOperator where
  | add
  | sub
  | mul
  | div
  | less
  | lessEqual
  | greater
  | greaterEqual
  | equal
  | notEqual
  | and
  | or
  | other (symbol : String)
  deriving DecidableEq

namespace UnaryOperator

/-- How an operator is written in trees and messages. -/
def symbol : UnaryOperator → String
  | .negate => "-"
  | .not => "not"
  | .other symbol => symbol

/-- The operator that is so written. -/
def ofSymbol (s : String) : UnaryOperator :=
  ([negate, not].find? fun operator => operator.symbol == s).getD (.other s)

end UnaryOperator

namespace BinaryOperator

/-- How an operator is written in trees and messages. -/
def symbol : BinaryOperator → String
  | .add => "+"
  | .sub => "-"
  | .mul => "*"
  | .div => "/"
  | .less => "<"
  | .lessEqual => "<="
  | .greater => ">"
  | .greaterEqual => ">="
  | .equal => "=="
  | .notEqual => "!="
  | .and => "and"
  | .or => "or"
  | .other symbol => symbol

/-- The operator that is so written. -/
def ofSymbol (s : String) : BinaryOperator :=
  ([add, sub, mul, div, less, lessEqual, greater, greaterEqual, equal, notEqual, and, or].find?
    fun operator => operator.symbol == s).getD (.other s)

end BinaryOperator

/-- A node of the tree of a formula. -/
inductive Expr where
  | literal (value : Value)
  | name (text : String)
  | unary (operator : UnaryOperator) (operand : Expr) (depth : Nat)
  | binary (operator : BinaryOperator) (left right : Expr) (depth : Nat)
  | foreign (typeName : String)

namespace Expr

instance : Inhabited Expr := ⟨.literal .null⟩

/-- The depth that a node records; that of a leaf is one. -/
def depth : Expr → Nat
  | .unary _ _ depth => depth
  | .binary _ _ _ depth => depth
  | _ => 1

/-- A node with one operand. -/
def unaryOf (operator : UnaryOperator) (operand : Expr) : Expr :=
  .unary operator operand (operand.depth + 1)

/-- A node with two operands. -/
def binaryOf (operator : BinaryOperator) (left right : Expr) : Expr :=
  .binary operator left right (max left.depth right.depth + 1)

/-- The names in a tree, from left to right. -/
def names : Expr → List String
  | .name text => [text]
  | .unary _ operand _ => operand.names
  | .binary _ left right _ => left.names ++ right.names
  | _ => []

/-- The names in a tree in order, each once. -/
def variableNames (e : Expr) : List String := Text.sortUnique e.names

@[simp] theorem depth_unaryOf (operator : UnaryOperator) (operand : Expr) :
    (unaryOf operator operand).depth = operand.depth + 1 := rfl

@[simp] theorem depth_binaryOf (operator : BinaryOperator) (left right : Expr) :
    (binaryOf operator left right).depth = max left.depth right.depth + 1 := rfl

end Expr

end Tariff.Formula
