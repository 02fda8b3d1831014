import Tariff.Binary64.Basic

/-!
# Floating-point arithmetic

Negation, sum, difference, product and quotient. Each finite case computes the
exact result over whole numbers of units and rounds it once; each case with an
infinite operand is the limit of the finite ones, or "not a number" where there
is no limit.
-/

namespace Tariff.Binary64

/-- The number of opposite sign. -/
def neg : Binary64 → Binary64
  | .nan => .nan
  | .infinity negative => .infinity (!negative)
  | .finite negative rank => .finite (!negative) rank

/-- The sum. An exact sum of zero is negative only if both operands are. -/
def add : Binary64 → Binary64 → Binary64
  | .nan, _ => .nan
  | _, .nan => .nan
  | .infinity s, .infinity t => if s = t then .infinity s else .nan
  | .infinity s, .finite _ _ => .infinity s
  | .finite _ _, .infinity t => .infinity t
  | .finite s r, .finite t q =>
    let total := finiteUnits s r + finiteUnits t q
    if total = 0 then zero (s && t) else nearest (decide (total < 0)) total.natAbs 1

/-- The difference, as the sum with the opposite. -/
def sub (x y : Binary64) : Binary64 := add x y.neg

/-- The product. The product of two unit counts counts units of a unit, hence
the divisor. -/
def mul : Binary64 → Binary64 → Binary64
  | .nan, _ => .nan
  | _, .nan => .nan
  | .infinity s, .infinity t => .infinity (s != t)
  | .infinity s, .finite t q => if q.val = 0 then .nan else .infinity (s != t)
  | .finite s r, .infinity t => if r.val = 0 then .nan else .infinity (s != t)
  | .finite s r, .finite t q => nearest (s != t) (unitsAt r * unitsAt q) unitsPerOne

/-- The quotient. A finite number divided by an infinite one is zero. -/
def div : Binary64 → Binary64 → Binary64
  | .nan, _ => .nan
  | _, .nan => .nan
  | .infinity _, .infinity _ => .nan
  | .infinity s, .finite t _ => .infinity (s != t)
  | .finite s _, .infinity t => zero (s != t)
  | .finite s r, .finite t q =>
    if q.val = 0 then (if r.val = 0 then .nan else .infinity (s != t))
    else nearest (s != t) (unitsAt r * unitsPerOne) (unitsAt q)

@[simp] theorem neg_neg (x : Binary64) : x.neg.neg = x := by
  cases x <;> simp [neg]

@[simp] theorem isFinite_neg (x : Binary64) : x.neg.isFinite = x.isFinite := by
  cases x <;> rfl

end Tariff.Binary64
