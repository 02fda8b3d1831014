import Tariff.Error.Config
import Tariff.Formula.Expr
import Tariff.Formula.Token

/-!
# The grammar of formulas

Tokens are read into a tree by the grammar

    disjunction := conjunction (("or" | "||") conjunction)*
    conjunction := negation (("and" | "&&") negation)*
    negation    := ("not" | "!") negation | comparison
    comparison  := sum (("<" | "<=" | ">" | ">=" | "==" | "!=") sum)?
    sum         := product (("+" | "-") product)*
    product     := sign (("*" | "/") sign)*
    sign        := "-" sign | atom
    atom        := number | "true" | "false" | name | "(" disjunction ")"

Chains group to the left, and a parenthesis leaves no trace in the tree. Each line is a
`Tier` of the grammar: `read` reads an operand at a tier, and `chain` goes on with the
operators of a tier after a first operand.

Nesting is bounded twice by one limit. An operand inside more open parentheses, minus
signs and negations than the limit is refused before it is read, and so is every inner
node deeper than the limit when it is built. The fault reported is the first one met
from the left. An integer with too many digits ends the reading at its token, without a fault.

Each reading consumes at least one token, which is in the type of its result, and at
the same tokens only goes to tighter tiers; so the reading of any tokens ends.
-/

namespace Tariff.Formula

/-- The levels of the grammar, the loosest first. -/
inductive Tier where
  | disjunction
  | conjunction
  | negation
  | comparison
  | sum
  | product
  | sign
  | atom
  deriving DecidableEq

namespace Tier

/-- How many tiers are tighter. -/
@[simp] def height : Tier → Nat
  | .disjunction => 7
  | .conjunction => 6
  | .negation => 5
  | .comparison => 4
  | .sum => 3
  | .product => 2
  | .sign => 1
  | .atom => 0

theorem height_lt (tier : Tier) : tier.height < 8 := by
  cases tier <;> decide

/-- The next tighter tier. -/
def tighter : Tier → Tier
  | .disjunction => .conjunction
  | .conjunction => .negation
  | .negation => .comparison
  | .comparison => .sum
  | .sum => .product
  | .product => .sign
  | .sign => .atom
  | .atom => .atom

/-- The operator of a tier with two operands that a lexeme is. -/
def binary? : Tier → Lexeme → Option BinaryOperator
  | .disjunction, .keyword .or => some .or
  | .disjunction, .symbol .either => some .or
  | .conjunction, .keyword .and => some .and
  | .conjunction, .symbol .both => some .and
  | .comparison, .symbol .less => some .less
  | .comparison, .symbol .lessEqual => some .lessEqual
  | .comparison, .symbol .greater => some .greater
  | .comparison, .symbol .greaterEqual => some .greaterEqual
  | .comparison, .symbol .equal => some .equal
  | .comparison, .symbol .notEqual => some .notEqual
  | .sum, .symbol .plus => some .add
  | .sum, .symbol .minus => some .sub
  | .product, .symbol .times => some .mul
  | .product, .symbol .divide => some .div
  | _, _ => none

/-- The operator of a tier with one operand that a lexeme is. -/
def unary? : Tier → Lexeme → Option UnaryOperator
  | .negation, .keyword .not => some .not
  | .negation, .symbol .bang => some .not
  | .sign, .symbol .minus => some .negate
  | _, _ => none

end Tier

/-- Refuses a depth beyond the limit. -/
def checkDepth (limit : Int) (depth : Nat) : Except (Refusal SyntaxFault) Unit :=
  if limit < depth then .error (SyntaxFault.tooDeep limit).refusal else .ok ()

/-- A tree no deeper than the limit. -/
def bounded (limit : Int) (e : Expr) : Except (Refusal SyntaxFault) Expr := do
  checkDepth limit e.depth
  return e

/-- The literal or name that a lexeme is by itself. -/
def leaf? : Lexeme → Option Expr
  | .number numeral => some (.literal (.number numeral.value))
  | .keyword .true => some (.literal (.bool true))
  | .keyword .false => some (.literal (.bool false))
  | .name text => some (.name text)
  | _ => none

/-- Whether a lexeme is an integer with too many digits to be read. -/
def Lexeme.isOverlong : Lexeme → Bool
  | .number numeral => numeral.isOverlong
  | _ => false

/-- The fault of a token that cannot stand where it does. -/
def unexpected (t : Token) : SyntaxFault :=
  if t.lexeme = .finish then .unexpectedEnd else .unexpectedToken t.text t.position

/-- A tree read from the front of some tokens, with the tokens after it, which are
fewer. -/
abbrev Reading (tokens : List Token) :=
  { r : Expr × List Token // r.2.length < tokens.length }

mutual

/-- Reads an operand at a tier, inside so many open parentheses, signs and
negations. -/
def read (limit : Int) (tier : Tier) (nesting : Nat) (tokens : List Token) :
    Except (Refusal SyntaxFault) (Reading tokens) :=
  match tokens with
  | [] => .error (.because .unexpectedEnd)
  | t :: rest =>
    match tier with
    | .atom =>
      match leaf? t.lexeme with
      | some e => if t.lexeme.isOverlong then .error .overlong else .ok ⟨(e, rest), by simp⟩
      | none =>
        if t.lexeme = .opening then do
          checkDepth limit (nesting + 1)
          match ← read limit .disjunction (nesting + 1) rest with
          | ⟨(e, ⟨.closing, _⟩ :: after), shorter⟩ =>
            return ⟨(e, after), by simp at shorter ⊢; omega⟩
          | _ => .error (.because (.unclosed t.position))
        else .error (.because (unexpected t))
    | .comparison => do
      match ← read limit .sum nesting (t :: rest) with
      | ⟨(left, []), _⟩ => return ⟨(left, []), by simp⟩
      | ⟨(left, next :: beyond), shorter⟩ =>
        match Tier.binary? .comparison next.lexeme with
        | none => return ⟨(left, next :: beyond), shorter⟩
        | some operator =>
          have : beyond.length < rest.length + 1 := by simp at shorter; omega
          let ⟨(right, after), shorter'⟩ ← read limit .sum nesting beyond
          let e ← bounded limit (.binaryOf operator left right)
          return ⟨(e, after), by simp at shorter shorter' ⊢; omega⟩
    | .negation =>
      match Tier.unary? .negation t.lexeme with
      | none => read limit .comparison nesting (t :: rest)
      | some operator => do
        checkDepth limit (nesting + 1)
        let ⟨(operand, after), shorter⟩ ← read limit .negation (nesting + 1) rest
        let e ← bounded limit (.unaryOf operator operand)
        return ⟨(e, after), by simp at shorter ⊢; omega⟩
    | .sign =>
      match Tier.unary? .sign t.lexeme with
      | none => read limit .atom nesting (t :: rest)
      | some operator => do
        checkDepth limit (nesting + 1)
        let ⟨(operand, after), shorter⟩ ← read limit .sign (nesting + 1) rest
        let e ← bounded limit (.unaryOf operator operand)
        return ⟨(e, after), by simp at shorter ⊢; omega⟩
    | .disjunction => do
      let ⟨(first, after), shorter⟩ ← read limit .conjunction nesting (t :: rest)
      let ⟨(e, last), shorter'⟩ ← chain limit .disjunction nesting first after
      return ⟨(e, last), by simp at shorter shorter' ⊢; omega⟩
    | .conjunction => do
      let ⟨(first, after), shorter⟩ ← read limit .negation nesting (t :: rest)
      let ⟨(e, last), shorter'⟩ ← chain limit .conjunction nesting first after
      return ⟨(e, last), by simp at shorter shorter' ⊢; omega⟩
    | .sum => do
      let ⟨(first, after), shorter⟩ ← read limit .product nesting (t :: rest)
      let ⟨(e, last), shorter'⟩ ← chain limit .sum nesting first after
      return ⟨(e, last), by simp at shorter shorter' ⊢; omega⟩
    | .product => do
      let ⟨(first, after), shorter⟩ ← read limit .sign nesting (t :: rest)
      let ⟨(e, last), shorter'⟩ ← chain limit .product nesting first after
      return ⟨(e, last), by simp at shorter shorter' ⊢; omega⟩
-- The token weighs more than all tiers do. One number, not a pair, lets readings be evaluated.
termination_by 8 * tokens.length + tier.height
decreasing_by all_goals simp at * <;> omega

/-- Goes on after an operand with the operators of a tier, as far as they stand
there. -/
def chain (limit : Int) (tier : Tier) (nesting : Nat) (left : Expr) (tokens : List Token) :
    Except (Refusal SyntaxFault) { r : Expr × List Token // r.2.length ≤ tokens.length } :=
  match tokens with
  | [] => .ok ⟨(left, []), by simp⟩
  | t :: rest =>
    match tier.binary? t.lexeme with
    | none => .ok ⟨(left, t :: rest), by simp⟩
    | some operator => do
      let ⟨(right, after), shorter⟩ ← read limit tier.tighter nesting rest
      let e ← bounded limit (.binaryOf operator left right)
      have : after.length < rest.length + 1 := Nat.lt_succ_of_lt shorter
      let ⟨(e, last), shorter'⟩ ← chain limit tier nesting e after
      return ⟨(e, last), Nat.le_succ_of_le (Nat.le_trans shorter' (Nat.le_of_lt shorter))⟩
termination_by 8 * tokens.length
decreasing_by
  · have := tier.tighter.height_lt
    rw [List.length_cons]
    omega
  · rw [List.length_cons]
    omega

end

/-- The tree of all tokens of a formula. -/
def readAll (limit : Int) (tokens : List Token) : Except (Refusal SyntaxFault) Expr :=
  match tokens with
  | ⟨.finish, _⟩ :: _ => .error (.because .empty)
  | tokens => do
    match (← read limit .disjunction 0 tokens).val with
    | (e, t :: _) => if t.lexeme = .finish then return e else .error (.because (unexpected t))
    | (e, []) => return e

end Tariff.Formula
