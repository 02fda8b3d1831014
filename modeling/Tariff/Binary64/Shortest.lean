import Tariff.Binary64.Decimal

/-!
# The shortest decimal of a floating-point number

Numbers are shown with as few digits as identify them: of all decimals that read
back as the number, one with the fewest digits, and of those the nearest to it.

The search is a direct reading of that rule. A finite magnitude has an exact
decimal expansion, since one unit is `5 ^ 1074` times `10 ^ (-1074)`. For one,
two, up to seventeen digits the two neighbours of the number on that decimal grid
are tried with the reader itself, and the first grid with a hit wins. Seventeen
digits always suffice; a number for which they did not would be shown in full, so
that what is shown always reads back.

`text` lays the digits out: positionally from `0.0001` up to `10 ^ 16`, else with
an exponent of at least two digits. Positional numbers always show a point.
-/

namespace Tariff.Binary64

/-- One unit is this many times `10 ^ (-1074)`. -/
def unitScale : Nat := Nat.pow 5 1074

/-- The exact decimal value of the magnitude of a rank. -/
def exactDecimal (rank : Nat) : Decimal :=
  ⟨unitsAt rank * unitScale, -1074⟩

/-- The two neighbours of a decimal on the grid of the decimals that end
`dropped` digits earlier, the nearer one first; of two equally near the one that
ends in an even digit is first. -/
def gridNeighbours (d : Decimal) (dropped : Nat) : List Decimal :=
  let step := Nat.pow 10 dropped
  let below := d.significand / step
  let twice := 2 * (d.significand % step)
  let lower : Decimal := ⟨below, d.exponent + dropped⟩
  let upper : Decimal := ⟨below + 1, d.exponent + dropped⟩
  if twice < step ∨ (twice = step ∧ below % 2 = 0) then [lower, upper] else [upper, lower]

/-- Whether a decimal reads back as the magnitude of a rank. -/
def readsBack (rank : Fin rankCount) (d : Decimal) : Bool :=
  ofDecimal false d == .finite false rank

/-- The first decimal with at most seventeen digits that reads back, digit counts
tried in increasing order; failing that the exact one. -/
def shortest (rank : Fin rankCount) : Decimal :=
  let exact := exactDecimal rank
  let length := exact.digits.length
  let candidates := (List.range 17).flatMap fun n => gridNeighbours exact (length - (n + 1))
  (candidates.find? (readsBack rank)).getD exact

/-- What is shown reads back, unless it is the exact value itself. -/
theorem readsBack_shortest (rank : Fin rankCount) :
    readsBack rank (shortest rank) = true ∨ shortest rank = exactDecimal rank := by
  unfold shortest
  dsimp only
  cases h : List.find? (readsBack rank) _ with
  | none => exact .inr rfl
  | some d => exact .inl (List.find?_some h)

/-- The digits without zeros at the end, keeping at least one digit. -/
def significantDigits (digits : List Char) : List Char :=
  match (digits.reverse.dropWhile (· == '0')).reverse with
  | [] => ['0']
  | kept => kept

/-- The exponent mark, its sign and at least two digits. -/
def exponentText (exponent : Int) : List Char :=
  let digits := Nat.toDigits 10 exponent.natAbs
  'e' :: (if exponent < 0 then '-' else '+') ::
    (if digits.length < 2 then '0' :: digits else digits)

/-- Digits laid out around the decimal point, which stands after the first
`position` of them. -/
def layout (digits : List Char) (position : Int) : List Char :=
  if position < -3 ∨ 16 < position then
    match digits with
    | [] => []
    | [d] => d :: exponentText (position - 1)
    | d :: rest => d :: '.' :: rest ++ exponentText (position - 1)
  else if position ≤ 0 then
    '0' :: '.' :: List.replicate position.natAbs '0' ++ digits
  else
    let whole := position.toNat
    let padded := digits ++ List.replicate (whole - digits.length) '0'
    let fraction := padded.drop whole
    padded.take whole ++ '.' :: (if fraction.isEmpty then ['0'] else fraction)

/-- The text of the magnitude of a rank. -/
def magnitudeText (rank : Fin rankCount) : List Char :=
  if rank.val = 0 then ['0', '.', '0']
  else
    let d := shortest rank
    layout (significantDigits d.digits) d.pointPosition

/-- The text of a floating-point number. -/
def text : Binary64 → String
  | .nan => "nan"
  | .infinity negative => if negative then "-inf" else "inf"
  | .finite negative rank =>
    String.ofList (if negative then '-' :: magnitudeText rank else magnitudeText rank)

end Tariff.Binary64
