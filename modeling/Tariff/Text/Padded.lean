/-!
# Numbers of fixed width

Dates and times show their parts with zeros in front, up to a width; a number that
is wider is shown in full.
-/

namespace Tariff.Text

/-- The decimal digits of a number, filled with zeros up to a width. -/
def padded (width n : Nat) : List Char :=
  let digits := Nat.toDigits 10 n
  List.replicate (width - digits.length) '0' ++ digits

end Tariff.Text
