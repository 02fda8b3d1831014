import Tariff.Document.Value

/-!
# Sameness and order of values

`same` is the equality of values that formulas, sets of add-ons and comparisons of
snapshots use. Numbers are the same when their exact values are, whatever their
type, and a boolean is the same as the number zero or one. Mappings and sets are compared
without regard to order, moments by the point in time if both have an offset.

`less?` orders values of one sort, and nothing else. "Not a number" is of the sort of
numbers, but neither less nor greater than any. `isHashable` says which values may be
members of a set: those without a list, a mapping or a set in them.
-/

namespace Tariff

namespace Scalar

/-- The number that a scalar counts as when it is compared. -/
def number? : Scalar → Option Number
  | .bool b => some (.int (if b then 1 else 0))
  | .number n => some n
  | .text _ => none

/-- Whether two scalars are the same. -/
def same (s t : Scalar) : Bool :=
  match s, t with
  | .text a, .text b => a == b
  | s, t =>
    match s.number?, t.number? with
    | some m, some n => m.same n
    | _, _ => false

/-- Whether the first of two scalars of one sort is less; texts are ordered by code
points. -/
def less? (s t : Scalar) : Option Bool :=
  match s, t with
  | .text a, .text b => some (decide (a < b))
  | s, t => do return (← s.number?).less (← t.number?)

end Scalar

namespace Moment

/-- Whether two moments are the same: if both have an offset, the same point in
time; if neither has, the same date and time. -/
def same (m n : Moment) : Bool :=
  m.isNaive == n.isNaive && m.utcMicroseconds == n.utcMicroseconds

/-- Whether the first of two moments is earlier, if both have an offset or both have
none. -/
def less? (m n : Moment) : Option Bool :=
  if m.isNaive = n.isNaive then some (decide (m.utcMicroseconds < n.utcMicroseconds)) else none

end Moment

namespace Value

mutual

/-- Whether two values are the same. -/
def same : Value → Value → Bool
  | .null, .null => true
  | .scalar s, .scalar t => s.same t
  | .date d, .date e => d == e
  | .moment m, .moment n => m.same n
  | .list xs, .list ys => sameItems xs ys
  | .tuple xs, .tuple ys => sameItems xs ys
  | .mapping es, .mapping fs => es.length == fs.length && sameEntries es fs
  | .bytes a, .bytes b => a == b
  | .set xs, .set ys => xs.length == ys.length && sameMembers xs ys
  | .foreign a, .foreign b => a == b
  | _, _ => false
termination_by structural v => v

/-- Whether two sequences have the same items in the same order. -/
def sameItems : List Value → List Value → Bool
  | [], [] => true
  | x :: xs, y :: ys => same x y && sameItems xs ys
  | _, _ => false
termination_by structural xs => xs

/-- Whether every member of the first set is found in the second. -/
def sameMembers : List Value → List Value → Bool
  | [], _ => true
  | x :: xs, ys => (ys.any fun y => same x y) && sameMembers xs ys
termination_by structural xs => xs

/-- Whether every entry of the first mapping is found in the second. -/
def sameEntries : List (Value × Value) → List (Value × Value) → Bool
  | [], _ => true
  | (k, v) :: es, fs => (fs.any fun (l, w) => same k l && same v w) && sameEntries es fs
termination_by structural es => es

end

mutual

/-- Whether the first of two values of one sort is less. -/
def less? : Value → Value → Option Bool
  | .scalar s, .scalar t => s.less? t
  | .date d, .date e => some (decide (d.ordinal < e.ordinal))
  | .moment m, .moment n => m.less? n
  | .list xs, .list ys => lessItems? xs ys
  | .tuple xs, .tuple ys => lessItems? xs ys
  | .bytes a, .bytes b => some (decide (a.map UInt8.toNat < b.map UInt8.toNat))
  | _, _ => none

/-- Whether the first of two sequences is less: by the first items that differ, else by
the lengths. -/
def lessItems? : List Value → List Value → Option Bool
  | _, [] => some false
  | [], _ :: _ => some true
  | x :: xs, y :: ys => if same x y then lessItems? xs ys else less? x y

end

mutual

/-- Whether a value may be a member of a set. -/
def isHashable : Value → Bool
  | .list _ => false
  | .mapping _ => false
  | .tuple items => areHashable items
  | .set _ => false
  | _ => true

/-- Whether all values may be members of a set. -/
def areHashable : List Value → Bool
  | [] => true
  | x :: xs => isHashable x && areHashable xs

end

@[simp] theorem same_text (a b : String) : same (.text a) (.text b) = (a == b) := by
  simp [same, Scalar.same]

end Value

end Tariff
