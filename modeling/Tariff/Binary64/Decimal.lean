import Tariff.Binary64.Basic

/-!
# Reading decimals

A decimal is a whole number scaled by a power of ten. `ofDecimal` gives the
floating-point number nearest to it, however many digits it has: the exact ratio
is formed and rounded once.

Exponents come from documents and may be astronomically large, so a decimal whose
leading digit lies far outside the finite range is answered without forming any
power of ten: beyond `10 ^ 400` it is infinite, below `10 ^ (-400)` it is zero.
-/

namespace Tariff

/-- The number `significand * 10 ^ exponent`. -/
structure Decimal where
  /-- The digits, as one whole number. -/
  significand : Nat
  /-- The power of ten that scales them. -/
  exponent : Int
  deriving DecidableEq

namespace Decimal

/-- The decimal digits of the significand, the most significant first. -/
def digits (d : Decimal) : List Char := Nat.toDigits 10 d.significand

/-- The number of places of the leading digit before the decimal point; not
positive for a number below one tenth. -/
def pointPosition (d : Decimal) : Int := d.digits.length + d.exponent

end Decimal

namespace Binary64

/-- The number of the given sign nearest to a decimal, computed with whatever
power of ten the exponent asks for. -/
def ofDecimalExact (negative : Bool) (d : Decimal) : Binary64 :=
  match d.exponent with
  | .ofNat e => nearest negative (d.significand * Nat.pow 10 e * unitsPerOne) 1
  | .negSucc e => nearest negative (d.significand * unitsPerOne) (Nat.pow 10 (e + 1))

/-- The number of the given sign nearest to a decimal. -/
def ofDecimal (negative : Bool) (d : Decimal) : Binary64 :=
  if d.significand = 0 then zero negative
  else if 400 < d.pointPosition then .infinity negative
  else if d.pointPosition < -400 then zero negative
  else ofDecimalExact negative d

@[simp] theorem ofDecimal_zero (negative : Bool) (e : Int) :
    ofDecimal negative ⟨0, e⟩ = zero negative := by
  simp [ofDecimal]

end Binary64

end Tariff
