/-!
# Binary floating-point numbers of 64 bits

Prices, defaults and formula results may be binary floating-point numbers, and
their sums, comparisons and spellings are all visible in answers. This module
gives them a type of their own, inside the logic, so that each of those can be
computed and reasoned about exactly.

Every finite value is a whole number of *units*, the unit being the smallest
positive value `2 ^ (-1074)`. The finite magnitudes are numbered in increasing
order by their *rank*: rank `0` is zero, rank `1` one unit, and so on up to
`rankCount - 1`. `unitsAt` gives the value that a rank stands for, and
`rankNearest` the rank nearest to any non-negative ratio, ties going to the
even rank. Arithmetic elsewhere is always the same two steps: compute exactly
over whole numbers, then round once with `nearest`.
-/

namespace Tariff

/-- How many finite magnitudes there are: 2046 binades of `2 ^ 52` values each,
and as many subnormal ones. -/
def Binary64.rankCount : Nat := 9218868437227405312

/-- A binary floating-point number. A finite one is a sign and the rank of its
magnitude, so that no number but "not a number" has two representations and
negative zero is kept apart from zero. -/
inductive Binary64 where
  /-- The result of an operation that has no value. -/
  | nan
  /-- A magnitude beyond every finite one. -/
  | infinity (negative : Bool)
  /-- A finite value, by sign and rank. -/
  | finite (negative : Bool) (rank : Fin Binary64.rankCount)
  deriving DecidableEq

namespace Binary64

/-- How many ranks share one spacing, `2 ^ 52`. -/
def binade : Nat := 4503599627370496

/-- How many units make the number one, `2 ^ 1074`. -/
def unitsPerOne : Nat := 1 <<< 1074

/-- The magnitude of rank `rank`, in units. The first `binade` ranks are the
subnormal values, one unit apart; after that the spacing doubles with each
binade. -/
def unitsAt (rank : Nat) : Nat :=
  if rank < binade then rank
  else (binade + rank % binade) * Nat.pow 2 (rank / binade - 1)

/-- The quotient `num / den` rounded to the nearest whole number, a half going
to the even neighbour. -/
def roundDiv (num den : Nat) : Nat :=
  let quotient := num / den
  let doubled := 2 * (num % den)
  if doubled < den then quotient
  else if den < doubled then quotient + 1
  else if quotient % 2 = 0 then quotient else quotient + 1

/-- The rank nearest to `num / den` units. The shift is the number of binary
digits that do not fit; since consecutive ranks are consecutive multiples of
`2 ^ shift`, rounding the shifted quotient is rounding to the nearest rank, also
when it carries into the next binade. The answer may lie beyond the last finite
rank. -/
def rankNearest (num den : Nat) : Nat :=
  let shift := (num / den).log2 - 52
  shift * binade + roundDiv num (den * Nat.pow 2 shift)

/-- The value nearest to `num / den` units with the given sign; a magnitude that
rounds beyond the last finite one is infinite. -/
def nearest (negative : Bool) (num den : Nat) : Binary64 :=
  let rank := rankNearest num den
  if inRange : rank < rankCount then .finite negative ⟨rank, inRange⟩
  else .infinity negative

/-- The zero of the given sign. -/
def zero (negative : Bool) : Binary64 :=
  .finite negative ⟨0, by decide⟩

/-- The exact value of a finite number in units, sign included. -/
def finiteUnits (negative : Bool) (rank : Fin rankCount) : Int :=
  if negative then -(unitsAt rank : Int) else unitsAt rank

/-- Whether the number is neither infinite nor "not a number". -/
def isFinite : Binary64 → Bool
  | .finite _ _ => true
  | _ => false

/-- Whether the number is "not a number". -/
def isNaN : Binary64 → Bool
  | .nan => true
  | _ => false

/-- Whether the number is zero, of either sign. -/
def isZero : Binary64 → Bool
  | .finite _ rank => rank.val == 0
  | _ => false

/-- The number nearest to an integer, or nothing if that lies beyond the finite
range. -/
def ofInt? (n : Int) : Option Binary64 :=
  let rounded := nearest (decide (n < 0)) (n.natAbs * unitsPerOne) 1
  if rounded.isFinite then some rounded else none

@[simp] theorem unitsAt_zero : unitsAt 0 = 0 := by
  simp [unitsAt, binade]

/-- The number nearest to an integer is finite. -/
theorem isFinite_of_ofInt? {n : Int} {x : Binary64} (h : ofInt? n = some x) :
    x.isFinite = true := by
  unfold ofInt? at h
  dsimp only at h
  split at h
  · next hfinite => exact Option.some.inj h ▸ hfinite
  · cases h

/-- Inside the first two binades the rank is the number of units. -/
theorem unitsAt_of_lt {rank : Nat} (h : rank < 2 * binade) : unitsAt rank = rank := by
  unfold unitsAt
  split
  · rfl
  · have hdiv : rank / binade = 1 := by
      unfold binade at *
      omega
    have hmod : rank % binade = rank - binade := by
      unfold binade at *
      omega
    rw [hdiv, hmod, Nat.pow_eq]
    unfold binade at *
    omega

/-- Rounding a whole number changes nothing. -/
theorem roundDiv_one (n : Nat) : roundDiv n 1 = n := by
  simp [roundDiv, Nat.mod_one]

end Binary64

end Tariff
