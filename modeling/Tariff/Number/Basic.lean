import Tariff.Binary64.Arithmetic
import Tariff.Binary64.Shortest
import Tariff.Text.Digit

/-!
# Numbers of a pricing

A number is an integer of any size or a floating-point number, and stays what it
is: arithmetic over integers is exact, and only a quotient or an operation with a
floating-point operand leaves them.

Two numbers are compared by their exact values, never by converting one to the
type of the other. `position` places every number but "not a number" on one line,
the infinities at its ends; `compare?` is the order of that line.

The arithmetic operations answer nothing when the result is not finite, or when an
integer operand is too large to be converted.
-/

namespace Tariff

/-- An integer or a floating-point number. -/
inductive Number where
  | int (n : Int)
  | float (x : Binary64)
  deriving DecidableEq

/-- A place on the line of all values: a whole number of units, or an end. -/
inductive Extended where
  | bottom
  | units (n : Int)
  | top
  deriving DecidableEq

namespace Extended

/-- The order of the line. -/
def compare : Extended → Extended → Ordering
  | .bottom, .bottom => .eq
  | .bottom, _ => .lt
  | _, .bottom => .gt
  | .top, .top => .eq
  | .top, _ => .gt
  | _, .top => .lt
  | .units m, .units n => Ord.compare m n

theorem compare_units (m n : Int) : (units m).compare (units n) = Ord.compare m n := rfl

end Extended

/-- Where a floating-point number stands on the line; nowhere if it is "not a
number". -/
def Binary64.position? : Binary64 → Option Extended
  | .nan => none
  | .infinity negative => some (if negative then .bottom else .top)
  | .finite negative rank => some (.units (finiteUnits negative rank))

namespace Number

/-- Where a number stands on the line of exact values. -/
def position? : Number → Option Extended
  | .int n => some (.units (n * Binary64.unitsPerOne))
  | .float x => x.position?

/-- The order of two numbers by exact value; nothing if one is "not a number". -/
def compare? (x y : Number) : Option Ordering := do
  return (← x.position?).compare (← y.position?)

/-- Whether one number is less than another by exact value. "Not a number" is neither less
nor greater than any number. -/
def less (x y : Number) : Bool := x.compare? y == some .lt

/-- Whether two numbers have the same exact value. -/
def same (x y : Number) : Bool := x.compare? y == some .eq

/-- Whether a number has a finite value. Integers always do. -/
def isFinite : Number → Bool
  | .int _ => true
  | .float x => x.isFinite

/-- Whether a number is zero, of either type and sign. -/
def isZero : Number → Bool
  | .int n => n == 0
  | .float x => x.isZero

/-- The floating-point number nearest to a number, unless it is an integer beyond
the finite range. -/
def toBinary64? : Number → Option Binary64
  | .int n => Binary64.ofInt? n
  | .float x => some x

/-- The number of opposite sign. -/
def neg : Number → Number
  | .int n => .int (-n)
  | .float x => .float x.neg

/-- A floating-point operation on numbers, at least one of which is not an integer;
nothing unless the result is finite. -/
def viaBinary64 (operation : Binary64 → Binary64 → Binary64) (x y : Number) : Option Number := do
  let result := operation (← x.toBinary64?) (← y.toBinary64?)
  if result.isFinite then some (.float result) else none

/-- The sum. -/
def add? : Number → Number → Option Number
  | .int a, .int b => some (.int (a + b))
  | x, y => viaBinary64 Binary64.add x y

/-- The difference. -/
def sub? : Number → Number → Option Number
  | .int a, .int b => some (.int (a - b))
  | x, y => viaBinary64 Binary64.sub x y

/-- The product. -/
def mul? : Number → Number → Option Number
  | .int a, .int b => some (.int (a * b))
  | x, y => viaBinary64 Binary64.mul x y

/-- The quotient. That of two integers is the exact ratio rounded once, whatever
the size of the operands; it is negative when just one of them is, also at zero. -/
def div? : Number → Number → Option Number
  | .int a, .int b =>
    let result := Binary64.nearest (decide (a < 0) != decide (b < 0))
      (a.natAbs * Binary64.unitsPerOne) b.natAbs
    if result.isFinite then some (.float result) else none
  | x, y => viaBinary64 Binary64.div x y

/-- Whether a number has a text: an integer may have too many digits for one. -/
def isWritable : Number → Bool
  | .int n => Text.isWritable n
  | .float _ => true

/-- How a number is shown. This is the text only of a number that has one (`isWritable`). -/
def text : Number → String
  | .int n => toString n
  | .float x => x.text

@[simp] theorem neg_neg (x : Number) : x.neg.neg = x := by
  cases x <;> simp [neg]

end Number

end Tariff
