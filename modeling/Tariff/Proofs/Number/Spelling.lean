import Mathlib.Data.List.TakeWhile
import Tariff.Number.Numeral
import Tariff.Proofs.Binary64.ReadBack

/-!
# How finite numbers are spelled

The text of a finite number is a sign, if the number has one, and a numeral of the form
that JSON admits, whose value under that sign is the number (`Number.exists_spelling`). An
integer is spelled by its digits alone, a floating-point number always with a point or an
exponent, so that each is read back as what it is.

The layouts of a floating-point number differ from its decimal by zeros only: those in
front, those that were dropped at the end, and those put in up to the point.
-/

namespace Tariff

open Text (isAsciiDigit digitsValue)

/-- Whether characters are ASCII digits, and there are any. -/
structure Text.AreDigits (cs : List Char) : Prop where
  ne_nil : cs ≠ []
  all : ∀ c ∈ cs, isAsciiDigit c = true

/-- Whether an exponent is written the way JSON admits. -/
structure Exponent.IsJson (e : Exponent) : Prop where
  marker : e.marker = 'e' ∨ e.marker = 'E'
  sign : e.sign = none ∨ e.sign = some '+' ∨ e.sign = some '-'
  digits : Text.AreDigits e.digits

/-- Whether a numeral is written the way JSON admits. -/
structure Numeral.IsJson (n : Numeral) : Prop where
  whole : Text.AreDigits n.whole
  /-- Only the digit zero alone begins with a zero. -/
  leading : n.whole = ['0'] ∨ n.whole.head? ≠ some '0'
  fraction : ∀ digits, n.fraction = some digits → Text.AreDigits digits
  exponent : ∀ e, n.exponent = some e → e.IsJson

theorem Text.areDigits_toDigits (n : Nat) : AreDigits (Nat.toDigits 10 n) :=
  ⟨Nat.toDigits_ne_nil, fun _ hc => isAsciiDigit_of_mem_toDigits hc⟩

namespace Text.AreDigits

variable {cs : List Char}

/-- Digits begin with a digit. -/
theorem exists_cons (h : AreDigits cs) : ∃ c rest, cs = c :: rest ∧ isAsciiDigit c = true := by
  obtain ⟨c, rest, rfl⟩ := List.exists_cons_of_ne_nil h.ne_nil
  exact ⟨c, rest, rfl, h.all c List.mem_cons_self⟩

theorem of_subset {other : List Char} (h : AreDigits cs) (hne : other ≠ [])
    (hsubset : ∀ c ∈ other, c ∈ cs) : AreDigits other :=
  ⟨hne, fun c hc => h.all c (hsubset c hc)⟩

/-- Digits stay digits with zeros in front. -/
theorem zeros_append (h : AreDigits cs) (k : Nat) : AreDigits (List.replicate k '0' ++ cs) := by
  refine ⟨by simp [h.ne_nil], fun c hc => ?_⟩
  rcases List.mem_append.1 hc with hc | hc
  · rw [List.eq_of_mem_replicate hc]
    rfl
  · exact h.all c hc

/-- Digits stay digits with zeros at the end. -/
theorem append_zeros (h : AreDigits cs) (k : Nat) : AreDigits (cs ++ List.replicate k '0') := by
  refine ⟨by simp [h.ne_nil], fun c hc => ?_⟩
  rcases List.mem_append.1 hc with hc | hc
  · exact h.all c hc
  · rw [List.eq_of_mem_replicate hc]
    rfl

end Text.AreDigits

/-- A numeral of the JSON form begins with a digit. -/
theorem Numeral.IsJson.exists_cons {n : Numeral} (h : n.IsJson) :
    ∃ c cs, n.chars = c :: cs ∧ isAsciiDigit c = true := by
  obtain ⟨c, rest, hwhole, hdigit⟩ := h.whole.exists_cons
  unfold Numeral.chars
  rw [hwhole]
  exact ⟨c, _, rfl, hdigit⟩

/-- A numeral without an exponent has a JSON form if its parts are digits. -/
theorem Numeral.isJson_of_digits {whole : List Char} {fraction : Option (List Char)}
    (hwhole : Text.AreDigits whole) (hleading : whole = ['0'] ∨ whole.head? ≠ some '0')
    (hfraction : ∀ digits, fraction = some digits → Text.AreDigits digits) :
    Numeral.IsJson ⟨whole, fraction, none⟩ :=
  ⟨hwhole, hleading, hfraction, fun _ hnone => nomatch hnone⟩

/-- A numeral with a fraction and no exponent has a JSON form if both parts are digits. -/
theorem Numeral.isJson_of_fraction {whole fraction : List Char} (hwhole : Text.AreDigits whole)
    (hleading : whole = ['0'] ∨ whole.head? ≠ some '0') (hfraction : Text.AreDigits fraction) :
    Numeral.IsJson ⟨whole, some fraction, none⟩ := by
  refine isJson_of_digits hwhole hleading fun digits hsome => ?_
  cases hsome
  exact hfraction

namespace Binary64

/-! ## Digits that count -/

/-- Digits are those that count, followed by zeros. -/
theorem significantDigits_append {digits : List Char} (hne : digits ≠ [])
    (hhead : digits.head? ≠ some '0') :
    significantDigits digits ≠ [] ∧
      ∃ k, significantDigits digits ++ List.replicate k '0' = digits := by
  have hsplit := List.takeWhile_append_dropWhile (p := (· == '0')) (l := digits.reverse)
  have hzeros : ∃ k, digits.reverse.takeWhile (· == '0') = List.replicate k '0' := by
    refine ⟨_, List.eq_replicate_iff.2 ⟨rfl, ?_⟩⟩
    intro c hc
    have hzero : (c == '0') = true := List.mem_takeWhile_imp (p := (· == '0')) hc
    exact eq_of_beq hzero
  obtain ⟨k, hk⟩ := hzeros
  rw [hk] at hsplit
  have hdigits := congrArg List.reverse hsplit
  rw [List.reverse_append, List.reverse_replicate, List.reverse_reverse] at hdigits
  have hkept : (digits.reverse.dropWhile (· == '0')).reverse ≠ [] := by
    intro hnil
    rw [hnil, List.nil_append] at hdigits
    cases k with
    | zero => exact hne hdigits.symm
    | succ k =>
      rw [← hdigits] at hhead
      exact hhead rfl
  unfold significantDigits
  split
  · next hnil => exact absurd hnil hkept
  · exact ⟨hkept, k, hdigits⟩

/-! ## Layouts -/

/-- The text of an exponent denotes it. -/
theorem exists_exponentText (exponent : Int) :
    ∃ e : Exponent, e.IsJson ∧ e.chars = exponentText exponent ∧ e.value = exponent := by
  have hdigits := Text.areDigits_toDigits exponent.natAbs
  obtain ⟨digits, hpadded, hvalue, htext⟩ : ∃ digits, Text.AreDigits digits ∧
      digitsValue digits = exponent.natAbs ∧
      exponentText exponent = 'e' :: (if exponent < 0 then '-' else '+') :: digits := by
    unfold exponentText
    dsimp only
    by_cases hshort : (Nat.toDigits 10 exponent.natAbs).length < 2
    · rw [if_pos hshort]
      refine ⟨'0' :: Nat.toDigits 10 exponent.natAbs, hdigits.zeros_append 1, ?_, rfl⟩
      exact (Text.digitsValue_zeros_append 1 _).trans (Text.digitsValue_toDigits _)
    · rw [if_neg hshort]
      exact ⟨_, hdigits, Text.digitsValue_toDigits _, rfl⟩
  refine ⟨⟨'e', some (if exponent < 0 then '-' else '+'), digits⟩, ⟨.inl rfl, ?_, hpadded⟩, ?_, ?_⟩
  · by_cases hneg : exponent < 0
    · exact .inr (.inr (by rw [if_pos hneg]))
    · exact .inr (.inl (by rw [if_neg hneg]))
  · rw [htext]
    rfl
  · unfold Exponent.value
    dsimp only
    rw [hvalue]
    by_cases hneg : exponent < 0
    · rw [if_pos hneg, if_pos rfl]
      omega
    · rw [if_neg hneg, if_neg (by decide)]
      omega

/-- Whether a numeral is a spelling of digits around a decimal point: one that JSON admits,
of a floating-point number, and worth the same but for zeros at the end. -/
structure Spells (n : Numeral) (digits : List Char) (position : Int) : Prop where
  isJson : n.IsJson
  isFloat : n.fraction ≠ none ∨ n.exponent ≠ none
  decimal : ∃ k, n.decimal =
    Decimal.extended ⟨digitsValue digits, position - digits.length⟩ k

variable {digits : List Char}

/-- Digits with an exponent, which counts from the point after the first digit. -/
theorem exists_scientific (hdigits : Text.AreDigits digits) (hhead : digits.head? ≠ some '0')
    {position : Int} (hposition : position < -3 ∨ 16 < position) :
    ∃ n : Numeral, n.chars = layout digits position ∧ Spells n digits position := by
  obtain ⟨e, he, hchars, hvalue⟩ := exists_exponentText (position - 1)
  unfold layout
  rw [if_pos hposition]
  cases digits with
  | nil => exact absurd rfl hdigits.ne_nil
  | cons d rest =>
    have hd : Text.AreDigits [d] := hdigits.of_subset (by simp) (by simp)
    cases rest with
    | nil =>
      refine ⟨⟨[d], none, some e⟩, ?_, ⟨hd, .inr hhead, ?_, ?_⟩, .inr (by simp), 0, ?_⟩
      · rw [← hchars]
        rfl
      · intro digits hnone
        cases hnone
      · intro e' he'
        cases he'
        exact he
      · unfold Numeral.decimal Decimal.extended
        simp [hvalue]
    | cons d' rest =>
      have hrest : Text.AreDigits (d' :: rest) :=
        hdigits.of_subset (by simp) fun c hc => List.mem_cons_of_mem d hc
      refine ⟨⟨[d], some (d' :: rest), some e⟩, ?_, ⟨hd, .inr hhead, ?_, ?_⟩, .inr (by simp), 0, ?_⟩
      · rw [← hchars]
        rfl
      · intro digits hsome
        cases hsome
        exact hrest
      · intro e' he'
        cases he'
        exact he
      · unfold Numeral.decimal Decimal.extended
        simp [hvalue]
        omega

/-- Digits on both sides of a point spell what they are worth together, but for zeros at the
end. -/
theorem spells_of_fraction {whole fraction : List Char} {position : Int} {k : Nat}
    (hjson : Numeral.IsJson ⟨whole, some fraction, none⟩)
    (hvalue : digitsValue (whole ++ fraction) = digitsValue digits * 10 ^ k)
    (hplaces : (digits.length : Int) + k = position + fraction.length) :
    Spells ⟨whole, some fraction, none⟩ digits position := by
  refine ⟨hjson, .inl (by simp), k, ?_⟩
  unfold Numeral.decimal Decimal.extended
  dsimp only [Option.getD_some, Option.elim_none]
  rw [hvalue]
  congr 1
  omega

/-- Digits behind the point, with zeros between. -/
theorem exists_fractional (hdigits : Text.AreDigits digits) {position : Int}
    (hposition : ¬(position < -3 ∨ 16 < position)) (hle : position ≤ 0) :
    ∃ n : Numeral, n.chars = layout digits position ∧ Spells n digits position := by
  have hzeros := Text.digitsValue_zeros_append (position.natAbs + 1) digits
  rw [List.replicate_succ, List.cons_append] at hzeros
  unfold layout
  rw [if_neg hposition, if_pos hle]
  refine ⟨⟨['0'], some (List.replicate position.natAbs '0' ++ digits), none⟩,
    by simp [Numeral.chars], spells_of_fraction (k := 0) ?_ ?_ ?_⟩
  · exact Numeral.isJson_of_fraction (Text.areDigits_toDigits 0) (.inl rfl)
      (hdigits.zeros_append _)
  · rw [Nat.pow_zero, Nat.mul_one]
    exact hzeros
  · rw [List.length_append, List.length_replicate]
    omega

/-- Digits before the point, with zeros up to it. -/
theorem exists_padded (hdigits : Text.AreDigits digits) (hhead : digits.head? ≠ some '0')
    {whole : Nat} (hlength : digits.length ≤ whole) :
    ∃ n : Numeral, n.chars = digits ++ List.replicate (whole - digits.length) '0' ++ ['.', '0'] ∧
      Spells n digits whole := by
  refine ⟨⟨digits ++ List.replicate (whole - digits.length) '0', some ['0'], none⟩,
    by simp [Numeral.chars], spells_of_fraction (k := whole - digits.length + 1) ?_ ?_ ?_⟩
  · refine Numeral.isJson_of_fraction (hdigits.append_zeros _) (.inr ?_)
      (Text.areDigits_toDigits 0)
    rw [List.head?_append_of_ne_nil _ hdigits.ne_nil]
    exact hhead
  · have hzeros := Text.digitsValue_append_zeros digits (whole - digits.length + 1)
    rw [List.replicate_succ', ← List.append_assoc] at hzeros
    exact hzeros
  · rw [List.length_singleton]
    omega

/-- Digits on both sides of the point. -/
theorem exists_pointed (hdigits : Text.AreDigits digits) (hhead : digits.head? ≠ some '0')
    {whole : Nat} (hpos : 0 < whole) (hlength : whole < digits.length) :
    ∃ n : Numeral, n.chars = digits.take whole ++ '.' :: digits.drop whole ∧
      Spells n digits whole := by
  have htake : Text.AreDigits (digits.take whole) := by
    apply hdigits.of_subset
    · intro hnil
      rcases List.take_eq_nil_iff.1 hnil with hnil | hnil
      · omega
      · exact hdigits.ne_nil hnil
    · exact fun c hc => List.mem_of_mem_take hc
  have hdrop : Text.AreDigits (digits.drop whole) := by
    apply hdigits.of_subset
    · intro hnil
      have := List.drop_eq_nil_iff.1 hnil
      omega
    · exact fun c hc => List.mem_of_mem_drop hc
  refine ⟨⟨digits.take whole, some (digits.drop whole), none⟩, by simp [Numeral.chars],
    spells_of_fraction (k := 0) ?_ ?_ ?_⟩
  · refine Numeral.isJson_of_fraction htake (.inr ?_) hdrop
    rw [List.head?_take, if_neg (by omega)]
    exact hhead
  · rw [List.take_append_drop, Nat.pow_zero, Nat.mul_one]
  · rw [List.length_drop]
    omega

/-- Digits around the point, with zeros up to it. -/
theorem exists_positional (hdigits : Text.AreDigits digits) (hhead : digits.head? ≠ some '0')
    {position : Int} (hposition : ¬(position < -3 ∨ 16 < position)) (hpos : ¬position ≤ 0) :
    ∃ n : Numeral, n.chars = layout digits position ∧ Spells n digits position := by
  obtain ⟨whole, rfl⟩ := Int.eq_ofNat_of_zero_le (show 0 ≤ position by omega)
  unfold layout
  rw [if_neg hposition, if_neg hpos]
  dsimp only [Int.toNat_natCast]
  by_cases hlength : digits.length ≤ whole
  · have hwhole : (digits ++ List.replicate (whole - digits.length) '0').length = whole := by
      rw [List.length_append, List.length_replicate]
      omega
    rw [List.take_of_length_le (Nat.le_of_eq hwhole), List.drop_of_length_le (Nat.le_of_eq hwhole)]
    exact exists_padded hdigits hhead hlength
  · have hzero : whole - digits.length = 0 := by omega
    have hdrop : digits.drop whole ≠ [] := by
      rw [Ne, List.drop_eq_nil_iff]
      exact hlength
    rw [hzero, List.replicate_zero, List.append_nil, List.isEmpty_eq_false_iff.2 hdrop]
    exact exists_pointed hdigits hhead (by omega) (by omega)

/-- Every layout of digits spells them. -/
theorem exists_layout (hdigits : Text.AreDigits digits) (hhead : digits.head? ≠ some '0')
    (position : Int) :
    ∃ n : Numeral, n.chars = layout digits position ∧ Spells n digits position := by
  by_cases hposition : position < -3 ∨ 16 < position
  · exact exists_scientific hdigits hhead hposition
  · by_cases hle : position ≤ 0
    · exact exists_fractional hdigits hposition hle
    · exact exists_positional hdigits hhead hposition hle

/-- A decimal is what is left of its digits without the zeros at the end, extended by
them. -/
theorem exists_eq_extended {d : Decimal} (h : 0 < d.significand) :
    ∃ k, d = Decimal.extended ⟨digitsValue (significantDigits d.digits),
      d.pointPosition - (significantDigits d.digits).length⟩ k := by
  obtain ⟨-, k, hdigits⟩ :=
    significantDigits_append (Text.areDigits_toDigits d.significand).ne_nil
      (Text.head?_toDigits_ne h)
  refine ⟨k, ?_⟩
  have hvalue := Text.digitsValue_append_zeros (significantDigits d.digits) k
  have hlength := congrArg List.length hdigits
  rw [List.length_append, List.length_replicate] at hlength
  have hsame : digitsValue (significantDigits d.digits ++ List.replicate k '0') = d.significand := by
    unfold Decimal.digits
    rw [hdigits, Text.digitsValue_toDigits]
  rw [hsame] at hvalue
  unfold Decimal.extended
  rw [← hvalue]
  unfold Decimal.pointPosition Decimal.digits
  rw [← hlength]
  obtain ⟨significand, exponent⟩ := d
  congr 1
  dsimp only
  omega

/-- What spells the digits of the decimal that is shown has the value of the magnitude. -/
theorem Spells.signedValue {n : Numeral} {rank : Fin rankCount}
    (h : Spells n (significantDigits (shortest rank).digits) (shortest rank).pointPosition)
    (hpos : 0 < (shortest rank).significand) (negative : Bool) :
    n.signedValue negative = .float (.finite negative rank) := by
  obtain ⟨k, hdecimal⟩ := h.decimal
  obtain ⟨j, hshortest⟩ := exists_eq_extended hpos
  -- Both the numeral and the decimal that is shown are the digits with some zeros at the end.
  have hreads := ofDecimal_eq_finite negative (ofDecimal_shortest rank)
  rw [hshortest, ofDecimal_extended] at hreads
  have hfloat : n.signedValue negative = .float (ofDecimal negative n.decimal) := by
    unfold Numeral.signedValue
    split
    · next hfraction hexponent => exact absurd (h.isFloat) (by simp [hfraction, hexponent])
    · rfl
  rw [hfloat, hdecimal, ofDecimal_extended, hreads]

/-- The text of a magnitude is a numeral of its value. -/
theorem exists_magnitudeText (rank : Fin rankCount) :
    ∃ n : Numeral, n.IsJson ∧ n.chars = magnitudeText rank ∧
      ∀ negative, n.signedValue negative = .float (.finite negative rank) := by
  unfold magnitudeText
  by_cases hzero : rank.val = 0
  · have hrank : rank = ⟨0, by decide⟩ := Fin.ext hzero
    have hdigit : Text.AreDigits ['0'] := Text.areDigits_toDigits 0
    rw [if_pos hzero, hrank]
    refine ⟨⟨['0'], some ['0'], none⟩, Numeral.isJson_of_fraction hdigit (.inl rfl) hdigit, rfl,
      fun negative => ?_⟩
    show Number.float (ofDecimal negative ⟨0, -1⟩) = _
    rw [ofDecimal_zero]
    rfl
  · rw [if_neg hzero]
    have hpos : 0 < (shortest rank).significand := by
      apply Nat.pos_of_ne_zero
      intro hsignificand
      have hreads := ofDecimal_shortest rank
      unfold ofDecimal at hreads
      rw [if_pos hsignificand] at hreads
      cases hreads
      exact hzero rfl
    have hdigits := Text.areDigits_toDigits (shortest rank).significand
    have hhead := Text.head?_toDigits_ne hpos
    obtain ⟨hne, k, happend⟩ := significantDigits_append hdigits.ne_nil hhead
    have hkept : Text.AreDigits (significantDigits (shortest rank).digits) := by
      refine hdigits.of_subset hne fun c hc => ?_
      rw [← happend]
      exact List.mem_append_left _ hc
    rw [← happend, List.head?_append_of_ne_nil _ hne] at hhead
    obtain ⟨n, hchars, hspells⟩ := exists_layout hkept hhead (shortest rank).pointPosition
    exact ⟨n, hspells.isJson, hchars, hspells.signedValue hpos⟩

end Binary64

/-! ## Numbers -/

/-- The characters of a numeral under a sign. -/
def Numeral.signedChars (n : Numeral) (negative : Bool) : List Char :=
  if negative then '-' :: n.chars else n.chars

/-- Digits alone are overlong exactly if the integer of these digits is not writable. -/
theorem Numeral.isOverlong_toDigits (n : Int) :
    Numeral.isOverlong ⟨Nat.toDigits 10 n.natAbs, none, none⟩ = !(Number.int n).isWritable := by
  unfold Numeral.isOverlong Text.integer? Number.isWritable Text.isWritable
  by_cases h : (Nat.toDigits 10 n.natAbs).length ≤ Text.maxDigits <;> simp [h]

/-- A numeral that is no integer is never overlong. -/
theorem Numeral.isOverlong_of_float {n : Numeral} {negative : Bool} {x : Binary64}
    (h : n.signedValue negative = .float x) : n.isOverlong = false := by
  obtain ⟨whole, fraction, exponent⟩ := n
  cases fraction with
  | some digits => rfl
  | none =>
    cases exponent with
    | some e => rfl
    | none => cases h

theorem Number.exists_intText (n : Int) :
    ∃ (negative : Bool) (numeral : Numeral), numeral.IsJson ∧
      (toString n).toList = numeral.signedChars negative ∧
      numeral.signedValue negative = .int n ∧ numeral.isOverlong = !(Number.int n).isWritable := by
  have hjson : ∀ m, Numeral.IsJson ⟨Nat.toDigits 10 m, none, none⟩ := by
    intro m
    apply Numeral.isJson_of_digits (Text.areDigits_toDigits m)
    · rcases Nat.eq_zero_or_pos m with rfl | hpos
      · exact .inl (Nat.toDigits_zero 10)
      · exact .inr (Text.head?_toDigits_ne hpos)
    · intro digits hnone
      cases hnone
  have hchars : ∀ m, (Numeral.mk (Nat.toDigits 10 m) none none).chars = Nat.toDigits 10 m := by
    intro m
    simp [Numeral.chars]
  cases n with
  | ofNat m =>
    refine ⟨false, ⟨Nat.toDigits 10 m, none, none⟩, hjson m, ?_, ?_,
      Numeral.isOverlong_toDigits (m : Int)⟩
    · show (Nat.repr m).toList = _
      rw [Nat.toList_repr]
      exact (hchars m).symm
    · show Number.int (digitsValue (Nat.toDigits 10 m) : Int) = _
      rw [Text.digitsValue_toDigits]
      rfl
  | negSucc m =>
    refine ⟨true, ⟨Nat.toDigits 10 (m + 1), none, none⟩, hjson (m + 1), ?_, ?_,
      Numeral.isOverlong_toDigits (.negSucc m)⟩
    · show ("-" ++ Nat.repr (m + 1)).toList = _
      rw [String.toList_append, Nat.toList_repr]
      exact congrArg _ (hchars (m + 1)).symm
    · show Number.int (-(digitsValue (Nat.toDigits 10 (m + 1)) : Int)) = _
      rw [Text.digitsValue_toDigits]
      rfl

/-- The text of a finite number is a numeral that JSON admits and that has the value of the
number. It is overlong exactly if the number is not writable. -/
theorem Number.exists_spelling {n : Number} (h : n.isFinite = true) :
    ∃ (negative : Bool) (numeral : Numeral), numeral.IsJson ∧
      n.text.toList = numeral.signedChars negative ∧ numeral.signedValue negative = n ∧
      numeral.isOverlong = !n.isWritable := by
  cases n with
  | int n => exact exists_intText n
  | float x =>
    cases x with
    | nan => cases h
    | infinity negative => cases h
    | finite negative rank =>
      obtain ⟨numeral, hjson, hchars, hvalue⟩ := Binary64.exists_magnitudeText rank
      refine ⟨negative, numeral, hjson, ?_, hvalue negative,
        Numeral.isOverlong_of_float (hvalue negative)⟩
      unfold Numeral.signedChars
      rw [hchars]
      exact String.toList_ofList

end Tariff
