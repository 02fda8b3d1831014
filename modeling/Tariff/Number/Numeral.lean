import Tariff.Number.Basic
import Tariff.Text.Digit

/-!
# Numerals

A numeral is a written number before it has a value: whole digits, digits after a
point, and an exponent, the last two optional. Formulas and snapshot texts admit
different numerals, but give them the same value: without a point and an exponent
a numeral is an integer, otherwise the nearest floating-point number. A reader takes
no integer whose digits are too many (`isOverlong`).

`scan?` takes the longest numeral that a formula can hold from the front of a
text. A point needs a digit on one side only, and an exponent mark belongs to the
numeral only if digits follow it.
-/

namespace Tariff

/-- An exponent as it is written. -/
structure Exponent where
  /-- The letter that announces it. -/
  marker : Char
  /-- Its sign, if one is written. -/
  sign : Option Char
  /-- Its digits. -/
  digits : List Char
  deriving DecidableEq

namespace Exponent

/-- The characters of an exponent. -/
def chars (e : Exponent) : List Char := e.marker :: (e.sign.toList ++ e.digits)

/-- The power of ten that an exponent denotes. -/
def value (e : Exponent) : Int :=
  if e.sign = some '-' then -(Text.digitsValue e.digits : Int) else Text.digitsValue e.digits

/-- The sign at the front of a text, if there is one. -/
def splitSign : List Char → Option Char × List Char
  | '+' :: rest => (some '+', rest)
  | '-' :: rest => (some '-', rest)
  | rest => (none, rest)

/-- The exponent at the front of a text: a letter, a sign or none, and at least one
digit. -/
def scan? (isDigit : Char → Bool) : List Char → Option (Exponent × List Char)
  | [] => none
  | c :: rest =>
    if c = 'e' ∨ c = 'E' then
      let (sign, rest) := splitSign rest
      let digits := rest.takeWhile isDigit
      if digits.isEmpty then none else some (⟨c, sign, digits⟩, rest.dropWhile isDigit)
    else none

theorem splitSign_append (text : List Char) :
    (splitSign text).1.toList ++ (splitSign text).2 = text := by
  unfold splitSign
  split <;> rfl

/-- What is scanned and what is left make up the text. -/
theorem chars_append_of_scan? {isDigit : Char → Bool} {text rest : List Char} {e : Exponent}
    (h : scan? isDigit text = some (e, rest)) : e.chars ++ rest = text := by
  cases text with
  | nil => simp [scan?] at h
  | cons c tail =>
    simp only [scan?] at h
    split at h
    · split at h
      · cases h
      · simp only [Option.some.injEq, Prod.mk.injEq] at h
        obtain ⟨rfl, rfl⟩ := h
        simp [chars, List.takeWhile_append_dropWhile, splitSign_append]
    · cases h

end Exponent

/-- A number as it is written. -/
structure Numeral where
  /-- The digits before the point. -/
  whole : List Char
  /-- The digits after the point, if there is a point. -/
  fraction : Option (List Char)
  /-- The exponent, if there is one. -/
  exponent : Option Exponent
  deriving DecidableEq

namespace Numeral

/-- The characters of a numeral. -/
def chars (n : Numeral) : List Char :=
  n.whole ++ (n.fraction.elim [] ('.' :: ·)) ++ (n.exponent.elim [] Exponent.chars)

/-- The decimal that a numeral denotes. -/
def decimal (n : Numeral) : Decimal :=
  let fraction := n.fraction.getD []
  ⟨Text.digitsValue (n.whole ++ fraction), n.exponent.elim 0 Exponent.value - fraction.length⟩

/-- Whether a numeral is an integer with too many digits to be read as one. -/
def isOverlong (n : Numeral) : Bool :=
  n.fraction.isNone && n.exponent.isNone && (Text.integer? n.whole).isNone

/-- The value of a numeral under a sign. A negative sign on an integer zero is
lost; on any other zero it is kept. -/
def signedValue (negative : Bool) (n : Numeral) : Number :=
  match n.fraction, n.exponent with
  | none, none =>
    let magnitude : Int := Text.digitsValue n.whole
    .int (if negative then -magnitude else magnitude)
  | _, _ => .float (Binary64.ofDecimal negative n.decimal)

/-- The value of a numeral. A reader refuses the numerals that are `isOverlong`. -/
def value (n : Numeral) : Number := n.signedValue false

/-- Adds the exponent at the front of the rest, if there is one, to a numeral. -/
def withExponent (isDigit : Char → Bool) (n : Numeral) (rest : List Char) :
    Numeral × List Char :=
  match Exponent.scan? isDigit rest with
  | some (e, rest) => ({ n with exponent := some e }, rest)
  | none => (n, rest)

/-- The longest numeral at the front of a text. -/
def scan? (text : List Char) : Option (Numeral × List Char) :=
  let whole := text.takeWhile Text.isDigit
  match text.dropWhile Text.isDigit with
  | '.' :: rest =>
    let fraction := rest.takeWhile Text.isDigit
    if whole.isEmpty && fraction.isEmpty then none
    else some (withExponent Text.isDigit ⟨whole, some fraction, none⟩
      (rest.dropWhile Text.isDigit))
  | rest =>
    if whole.isEmpty then none
    else some (withExponent Text.isDigit ⟨whole, none, none⟩ rest)

theorem chars_append_of_withExponent {isDigit : Char → Bool} {n m : Numeral}
    {text rest : List Char} (hn : n.exponent = none)
    (h : withExponent isDigit n text = (m, rest)) : m.chars ++ rest = n.chars ++ text := by
  unfold withExponent at h
  split at h
  · next e tail hscan =>
    cases h
    simp [chars, hn, Exponent.chars_append_of_scan? hscan]
  · cases h
    rfl

/-- What is scanned and what is left make up the text. -/
theorem chars_append_of_scan? {text rest : List Char} {n : Numeral}
    (h : scan? text = some (n, rest)) : n.chars ++ rest = text := by
  have hsplit := List.takeWhile_append_dropWhile (p := Text.isDigit) (l := text)
  unfold scan? at h
  dsimp only at h
  split at h
  · next tail hdrop =>
    split at h
    · cases h
    · simp only [Option.some.injEq] at h
      rw [chars_append_of_withExponent rfl h]
      rw [hdrop] at hsplit
      conv => rhs; rw [← hsplit]
      simp [chars, List.takeWhile_append_dropWhile]
  · next hdrop =>
    split at h
    · cases h
    · simp only [Option.some.injEq] at h
      rw [chars_append_of_withExponent rfl h]
      simp [chars, List.takeWhile_append_dropWhile]

/-- A scanned numeral has at least one character. -/
theorem chars_ne_nil_of_scan? {text rest : List Char} {n : Numeral}
    (h : scan? text = some (n, rest)) : n.chars ≠ [] := by
  unfold scan? at h
  dsimp only at h
  split at h <;> split at h
  · cases h
  · simp only [Option.some.injEq, withExponent] at h
    split at h <;> cases h <;> simp [chars]
  · cases h
  · next hwhole =>
    simp only [Option.some.injEq, withExponent] at h
    split at h <;> cases h <;> simp_all [chars]

end Numeral

/-- The floating-point number that a text denotes, in the forms in which such numbers
are shown. -/
def Binary64.read? (text : String) : Option Binary64 :=
  match text with
  | "nan" => some .nan
  | "inf" => some (.infinity false)
  | "-inf" => some (.infinity true)
  | text =>
    let (negative, cs) := match text.toList with
      | '-' :: rest => (true, rest)
      | cs => (false, cs)
    match Numeral.scan? cs with
    | some (numeral, []) => some (.ofDecimal negative numeral.decimal)
    | _ => none

end Tariff
