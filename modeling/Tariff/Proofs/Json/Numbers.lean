import Tariff.Json.Read
import Tariff.Json.Write
import Tariff.Proofs.Number.Spelling

/-!
# Numbers in JSON

The reader takes the whole of a numeral from the front of a text, if the numeral is one
that JSON admits and what follows is the end of a value (`readNumber_signedChars`). So the
text of a finite number is read as that number (`readValue_numberText`): an integer has
neither a point nor an exponent and stays an integer, a floating-point number has one of
them and stays a floating-point number.

`Delimited` is what the writer puts behind a value, a comma or a closing bracket, or
nothing. A digit, a point or an exponent mark there would belong to the number.
-/

namespace Tariff.Json

open Text (isAsciiDigit AreDigits)

/-- Whether a text begins the way that the text of a value can end: not at all, with a
comma or with a closing bracket. -/
def Delimited (rest : List Char) : Prop :=
  ∀ c, rest.head? = some c → c = ',' ∨ c = ']' ∨ c = '\x7d'

variable {rest : List Char}

theorem Delimited.isAsciiDigit_eq (h : Delimited rest) {c : Char} (hc : rest.head? = some c) :
    isAsciiDigit c = false := by
  rcases h c hc with rfl | rfl | rfl <;> rfl

/-! ## The parts of a numeral -/

theorem whole?_append {digits : List Char} (hdigits : AreDigits digits)
    (hleading : digits = ['0'] ∨ digits.head? ≠ some '0')
    (hrest : ∀ c, rest.head? = some c → isAsciiDigit c = false) :
    whole? (digits ++ rest) = some (digits, rest) := by
  obtain ⟨htake, hdrop⟩ := Text.takeWhile_append hdigits.all hrest
  rcases hleading with rfl | hhead
  · rfl
  · unfold whole?
    split
    · next tail htail =>
      rw [← List.head?_append_of_ne_nil digits hdigits.ne_nil, htail] at hhead
      exact absurd rfl hhead
    · rw [htake, hdrop]
      split
      · exact absurd rfl hdigits.ne_nil
      · rfl

/-- The characters of a fraction. -/
def fractionChars (fraction : Option (List Char)) : List Char := fraction.elim [] ('.' :: ·)

/-- The characters of an optional exponent. -/
def exponentChars (exponent : Option Exponent) : List Char := exponent.elim [] Exponent.chars

theorem fraction?_append {fraction : Option (List Char)}
    (hfraction : ∀ digits, fraction = some digits → AreDigits digits)
    (hrest : ∀ c, rest.head? = some c → isAsciiDigit c = false) (hpoint : rest.head? ≠ some '.') :
    fraction? (fractionChars fraction ++ rest) = (fraction, rest) := by
  cases fraction with
  | none =>
    show fraction? rest = (none, rest)
    unfold fraction?
    split
    · next tail => exact absurd rfl hpoint
    · rfl
  | some digits =>
    have hdigits := hfraction digits rfl
    obtain ⟨htake, hdrop⟩ := Text.takeWhile_append hdigits.all hrest
    show fraction? ('.' :: (digits ++ rest)) = (some digits, rest)
    unfold fraction?
    split
    · next tail heq =>
      cases heq
      rw [htake, hdrop]
      split
      · exact absurd rfl hdigits.ne_nil
      · rfl
    · next hnot => exact absurd rfl (hnot (digits ++ rest))

theorem splitSign_append {e : Exponent} (h : e.IsJson) :
    Exponent.splitSign (e.sign.toList ++ (e.digits ++ rest)) = (e.sign, e.digits ++ rest) := by
  rcases h.sign with hsign | hsign | hsign
  · rw [hsign]
    obtain ⟨d, ds, hd, hdigit⟩ := h.digits.exists_cons
    rw [hd]
    show Exponent.splitSign (d :: (ds ++ rest)) = (none, d :: (ds ++ rest))
    unfold Exponent.splitSign
    split
    · next heq =>
      cases heq
      cases hdigit
    · next heq =>
      cases heq
      cases hdigit
    · rfl
  · rw [hsign]
    rfl
  · rw [hsign]
    rfl

theorem scan?_append {e : Exponent} (h : e.IsJson)
    (hrest : ∀ c, rest.head? = some c → isAsciiDigit c = false) :
    Exponent.scan? isAsciiDigit (e.chars ++ rest) = some (e, rest) := by
  obtain ⟨htake, hdrop⟩ := Text.takeWhile_append h.digits.all hrest
  have hne : e.digits.isEmpty = false := List.isEmpty_eq_false_iff.2 h.digits.ne_nil
  unfold Exponent.chars Exponent.scan?
  rw [List.cons_append, List.append_assoc]
  dsimp only
  rw [if_pos h.marker, splitSign_append h]
  dsimp only
  rw [htake, hdrop, hne]
  rfl

/-- Whether a character could follow the digits of a numeral, other than a digit. -/
def isMark (c : Char) : Prop := c = '.' ∨ c = 'e' ∨ c = 'E'

theorem Delimited.not_isMark (h : Delimited rest) {c : Char} (hc : rest.head? = some c) :
    ¬isMark c := by
  intro hmark
  rcases h c hc with rfl | rfl | rfl <;> rcases hmark with hmark | hmark | hmark <;> cases hmark

theorem withExponent_append {n : Numeral} (h : n.IsJson) (hrest : Delimited rest) :
    Numeral.withExponent isAsciiDigit ⟨n.whole, n.fraction, none⟩
      (exponentChars n.exponent ++ rest) = (n, rest) := by
  obtain ⟨whole, fraction, exponent⟩ := n
  unfold Numeral.withExponent
  cases exponent with
  | some e =>
    have hscan : Exponent.scan? isAsciiDigit (exponentChars (some e) ++ rest) = some (e, rest) :=
      scan?_append (h.exponent e rfl) fun c hc => hrest.isAsciiDigit_eq hc
    rw [hscan]
  | none =>
    have hscan : Exponent.scan? isAsciiDigit (exponentChars none ++ rest) = none := by
      cases rest with
      | nil => rfl
      | cons c rest =>
        have hmark := hrest.not_isMark rfl
        have hmarker : ¬(c = 'e' ∨ c = 'E') := fun he => hmark (.inr he)
        exact if_neg hmarker
    rw [hscan]
    rfl

/-- What follows the digits before an exponent is no digit and no point. -/
theorem head?_exponentChars {n : Numeral} (h : n.IsJson) (hrest : Delimited rest) {c : Char}
    (hc : (exponentChars n.exponent ++ rest).head? = some c) :
    isAsciiDigit c = false ∧ c ≠ '.' := by
  cases hexponent : n.exponent with
  | none =>
    rw [hexponent] at hc
    exact ⟨hrest.isAsciiDigit_eq hc, fun hpoint => hrest.not_isMark hc (.inl hpoint)⟩
  | some e =>
    rw [hexponent] at hc
    cases Option.some.inj hc
    rcases (h.exponent e hexponent).marker with hmarker | hmarker
    · rw [hmarker]
      decide
    · rw [hmarker]
      decide

/-- The number after a sign. -/
def readUnsigned (negative : Bool) (cs : List Char) : Except ReadFault (Number × List Char) := do
  let (whole, cs) ← required (whole? cs)
  let (fraction, cs) := fraction? cs
  let (numeral, rest) := Numeral.withExponent isAsciiDigit ⟨whole, fraction, none⟩ cs
  if numeral.isOverlong then .error .overlong
  return (numeral.signedValue negative, rest)

theorem readNumber_eq_readUnsigned {cs : List Char} (hcs : cs.head? ≠ some '-')
    (negative : Bool) :
    readNumber (if negative then '-' :: cs else cs) = readUnsigned negative cs := by
  cases negative with
  | true => rfl
  | false =>
    show readNumber cs = readUnsigned false cs
    unfold readNumber
    split
    · next heq =>
      split at heq
      · exact absurd rfl hcs
      · cases heq
        rfl

/-- Without its sign, a numeral is taken from the front of a text part by part. -/
theorem readUnsigned_chars {n : Numeral} (h : n.IsJson) (hrest : Delimited rest)
    (negative : Bool) :
    readUnsigned negative (n.chars ++ rest) =
      if n.isOverlong then .error .overlong else .ok (n.signedValue negative, rest) := by
  have hexponent : ∀ c, (exponentChars n.exponent ++ rest).head? = some c →
      isAsciiDigit c = false ∧ c ≠ '.' := fun c hc => head?_exponentChars h hrest hc
  have hfraction := fraction?_append h.fraction (fun c hc => (hexponent c hc).1)
    (fun hpoint => (hexponent '.' hpoint).2 rfl)
  have hwhole : whole? (n.whole ++ (fractionChars n.fraction ++
      (exponentChars n.exponent ++ rest))) =
      some (n.whole, fractionChars n.fraction ++ (exponentChars n.exponent ++ rest)) := by
    refine whole?_append h.whole h.leading fun c hc => ?_
    cases hdigits : n.fraction with
    | none =>
      rw [hdigits] at hc
      exact (hexponent c hc).1
    | some digits =>
      rw [hdigits] at hc
      cases hc
      rfl
  have hchars : n.chars ++ rest =
      n.whole ++ (fractionChars n.fraction ++ (exponentChars n.exponent ++ rest)) := by
    unfold Numeral.chars
    rw [List.append_assoc, List.append_assoc]
    rfl
  unfold readUnsigned
  rw [hchars, hwhole, required_some]
  dsimp only [bind, Except.bind]
  rw [hfraction]
  dsimp only
  rw [withExponent_append h hrest]
  dsimp only
  cases n.isOverlong <;> rfl

/-- The reader takes a numeral from the front of a text, unless it is overlong. -/
theorem readNumber_signedChars {n : Numeral} (h : n.IsJson) (hrest : Delimited rest)
    (negative : Bool) :
    readNumber (n.signedChars negative ++ rest) =
      if n.isOverlong then .error .overlong else .ok (n.signedValue negative, rest) := by
  have hsign : (n.chars ++ rest).head? ≠ some '-' := by
    obtain ⟨d, ds, hd, hdigit⟩ := h.exists_cons
    rw [hd]
    intro hminus
    cases hminus
    cases hdigit
  have hsigned : n.signedChars negative ++ rest =
      if negative then '-' :: (n.chars ++ rest) else n.chars ++ rest := by
    cases negative <;> rfl
  rw [hsigned, readNumber_eq_readUnsigned hsign]
  exact readUnsigned_chars h hrest negative

/-! ## Values that are numbers -/

/-- A text that begins with a digit is none of the words. -/
theorem word?_of_isAsciiDigit {c : Char} (hc : isAsciiDigit c = true) (cs : List Char) :
    word? (c :: cs) = none ∧ word? ('-' :: c :: cs) = none := by
  have hne : ∀ d, isAsciiDigit d = false → d ≠ c := by
    intro d hd heq
    rw [heq, hc] at hd
    cases hd
  unfold word? words
  simp [hne 'n' rfl, hne 't' rfl, hne 'f' rfl, hne 'N' rfl, hne 'I' rfl, hne '-' rfl]

theorem readValue_of_isAsciiDigit {c : Char} (hc : isAsciiDigit c = true ∨ c = '-') (bound : Nat)
    (cs : List Char) (hword : word? (c :: cs) = none) :
    readValue (bound + 1) (c :: cs) =
      (readNumber (c :: cs)).map fun (n, rest) => (.number n, rest) := by
  have hne : ∀ d, isAsciiDigit d = false → d ≠ '-' → c ≠ d := by
    intro d hd hminus heq
    rcases hc with hc | hc
    · rw [heq, hd] at hc
      cases hc
    · exact hminus (heq ▸ hc)
  rw [readValue]
  · rw [hword]
  · exact fun rest heq => hne '"' rfl (by decide) (List.cons.inj heq).1
  · exact fun rest heq => hne '[' rfl (by decide) (List.cons.inj heq).1
  · exact fun rest heq => hne '\x7b' rfl (by decide) (List.cons.inj heq).1

/-- Under its sign, a numeral begins with a digit or the sign. -/
theorem exists_cons_of_signedChars {n : Numeral} (h : n.IsJson) (negative : Bool) :
    ∃ c cs, n.signedChars negative = c :: cs ∧ (isAsciiDigit c = true ∨ c = '-') := by
  obtain ⟨d, ds, hd, hdigit⟩ := h.exists_cons
  cases negative with
  | true => exact ⟨'-', n.chars, rfl, .inr rfl⟩
  | false => exact ⟨d, ds, hd, .inl hdigit⟩

theorem word?_signedChars {n : Numeral} (h : n.IsJson) (negative : Bool) (rest : List Char) :
    word? (n.signedChars negative ++ rest) = none := by
  obtain ⟨d, ds, hd, hdigit⟩ := h.exists_cons
  unfold Numeral.signedChars
  rw [hd]
  cases negative with
  | true => exact (word?_of_isAsciiDigit hdigit (ds ++ rest)).2
  | false => exact (word?_of_isAsciiDigit hdigit (ds ++ rest)).1

/-- Finite numbers have texts, if these are not too long. -/
theorem numberText_eq_ok_iff {n : Number} {text : List Char} :
    numberText n = .ok text ↔
      n.isFinite = true ∧ n.isWritable = true ∧ text = n.text.toList := by
  unfold numberText
  split
  · next hfinite =>
    split
    · next hwritable => simp [hfinite, hwritable, eq_comm]
    · next hlong => simp [hlong]
  · next hinfinite => simp [hinfinite]

/-- The text of a number is a numeral of its value. -/
theorem exists_signedChars_of_numberText {n : Number} {text : List Char}
    (h : numberText n = .ok text) :
    ∃ (negative : Bool) (numeral : Numeral), numeral.IsJson ∧
      text = numeral.signedChars negative ∧ numeral.signedValue negative = n ∧
      numeral.isOverlong = false := by
  obtain ⟨hfinite, hwritable, rfl⟩ := numberText_eq_ok_iff.1 h
  obtain ⟨negative, numeral, hjson, hchars, hvalue, hlong⟩ := Number.exists_spelling hfinite
  rw [hwritable] at hlong
  exact ⟨negative, numeral, hjson, hchars, hvalue, hlong⟩

/-- The text of a number begins with a digit or a sign. -/
theorem exists_cons_of_numberText {n : Number} {text : List Char} (h : numberText n = .ok text) :
    ∃ c cs, text = c :: cs ∧ (isAsciiDigit c = true ∨ c = '-') := by
  obtain ⟨negative, numeral, hjson, rfl, -, -⟩ := exists_signedChars_of_numberText h
  exact exists_cons_of_signedChars hjson negative

/-- The text of a number is read as the number. -/
theorem readValue_numberText {n : Number} {text : List Char} (h : numberText n = .ok text)
    (hrest : Delimited rest) (bound : Nat) :
    readValue (bound + 1) (text ++ rest) = .ok (.number n, rest) := by
  obtain ⟨negative, numeral, hjson, rfl, rfl, hlong⟩ := exists_signedChars_of_numberText h
  have hnumber := readNumber_signedChars hjson hrest negative
  rw [hlong] at hnumber
  have hword := word?_signedChars hjson negative rest
  obtain ⟨c, cs, hchars, hc⟩ := exists_cons_of_signedChars hjson negative
  rw [hchars, List.cons_append] at hnumber hword ⊢
  rw [readValue_of_isAsciiDigit hc bound _ hword, hnumber]
  rfl

end Tariff.Json
