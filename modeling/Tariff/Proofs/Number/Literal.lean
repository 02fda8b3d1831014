import Tariff.Number.Numeral
import Tariff.Proofs.Text.Digits

/-!
# Numerals of formulas

How a number is written in a formula (`Numeral.IsLiteral`): digits of any script, a point
with digits before it, after it or on both sides, and an exponent, the last two optional.
Scanning takes a numeral of this form from the front of a text, and no longer one begins
there (`Numeral.IsLiteral.exists_scan?`). If nothing follows that could belong to it, a
numeral is scanned as it was written (`Numeral.IsLiteral.scan?_append`).

Both come from what is scanned of a text that begins with the digits before the exponent
(`scan?_fraction`, `scan?_whole`) or with an exponent (`Exponent.IsLiteral.scan?_append`).
-/

namespace Tariff

open Text (isDigit)

/-- Whether an exponent is written the way formulas admit. -/
structure Exponent.IsLiteral (e : Exponent) : Prop where
  marker : e.marker = 'e' ∨ e.marker = 'E'
  sign : e.sign = none ∨ e.sign = some '+' ∨ e.sign = some '-'
  ne_nil : e.digits ≠ []
  digits : ∀ c ∈ e.digits, isDigit c = true

/-- Whether a numeral is written the way formulas admit. -/
structure Numeral.IsLiteral (n : Numeral) : Prop where
  whole : ∀ c ∈ n.whole, isDigit c = true
  fraction : ∀ digits, n.fraction = some digits → ∀ c ∈ digits, isDigit c = true
  /-- A point alone is no numeral. -/
  has_digit : n.whole ≠ [] ∨ ∃ digits, n.fraction = some digits ∧ digits ≠ []
  exponent : ∀ e, n.exponent = some e → e.IsLiteral

/-! ## Exponents -/

namespace Exponent

variable {e : Exponent} {rest : List Char}

theorem isLiteral_of_scan? {text : List Char} (h : scan? isDigit text = some (e, rest)) :
    e.IsLiteral := by
  unfold scan? at h
  split at h
  · cases h
  · next c tail =>
    split at h
    · next hmarker =>
      dsimp only at h
      split at h
      · cases h
      · next hne =>
        cases h
        refine ⟨hmarker, ?_, by simpa using hne, fun c hc => List.mem_takeWhile_imp hc⟩
        unfold splitSign
        split <;> simp
    · cases h

/-- Digits after the sign of an exponent are not taken for a sign. -/
theorem IsLiteral.splitSign_append (h : e.IsLiteral) :
    splitSign (e.sign.toList ++ (e.digits ++ rest)) = (e.sign, e.digits ++ rest) := by
  rcases h.sign with hsign | hsign | hsign
  · obtain ⟨d, ds, hd⟩ := List.exists_cons_of_ne_nil h.ne_nil
    have hdigit := h.digits d (hd ▸ List.mem_cons_self)
    rw [hsign, hd]
    show splitSign (d :: (ds ++ rest)) = (none, d :: (ds ++ rest))
    unfold splitSign
    split
    · next heq =>
      cases heq
      exact absurd hdigit (by decide)
    · next heq =>
      cases heq
      exact absurd hdigit (by decide)
    · rfl
  · rw [hsign]
    rfl
  · rw [hsign]
    rfl

/-- Of an exponent and what follows it, the exponent is scanned with the digits that
follow. -/
theorem IsLiteral.scan?_append (h : e.IsLiteral) (rest : List Char) :
    scan? isDigit (e.chars ++ rest) =
      some ({ e with digits := e.digits ++ rest.takeWhile isDigit }, rest.dropWhile isDigit) := by
  unfold chars scan?
  rw [List.cons_append, List.append_assoc]
  dsimp only
  rw [if_pos h.marker, h.splitSign_append]
  dsimp only
  rw [List.takeWhile_append_of_pos h.digits, List.dropWhile_append_of_pos h.digits,
    if_neg (by simp [h.ne_nil])]

/-- The letter of an exponent is neither a digit nor a point. -/
theorem IsLiteral.marker_ne (h : e.IsLiteral) : isDigit e.marker = false ∧ e.marker ≠ '.' := by
  rcases h.marker with hmarker | hmarker
  · rw [hmarker]
    decide
  · rw [hmarker]
    decide

end Exponent

/-! ## Numerals -/

namespace Numeral

variable {n : Numeral} {text rest : List Char}

/-- The characters of a numeral before its exponent. -/
def digitChars (n : Numeral) : List Char := n.whole ++ n.fraction.elim [] ('.' :: ·)

/-- The characters of the exponent of a numeral. -/
def exponentChars (n : Numeral) : List Char := n.exponent.elim [] Exponent.chars

theorem chars_eq (n : Numeral) : n.chars = n.digitChars ++ n.exponentChars := rfl

theorem isLiteral_of_withExponent {m : Numeral} (hn : n.IsLiteral)
    (h : withExponent isDigit n text = (m, rest)) : m.IsLiteral := by
  unfold withExponent at h
  split at h
  · next e tail hscan =>
    cases h
    refine { hn with exponent := fun e' he' => ?_ }
    cases he'
    exact Exponent.isLiteral_of_scan? hscan
  · cases h
    exact hn

/-- What is scanned is a numeral of the form that formulas admit. -/
theorem isLiteral_of_scan? (h : scan? text = some (n, rest)) : n.IsLiteral := by
  have hdigits : ∀ cs : List Char, ∀ c ∈ cs.takeWhile isDigit, isDigit c = true :=
    fun cs c hc => List.mem_takeWhile_imp hc
  unfold scan? at h
  dsimp only at h
  split at h
  · next tail hdrop =>
    split at h
    · cases h
    · next hempty =>
      refine isLiteral_of_withExponent (n := ⟨_, some _, none⟩) ?_ (Option.some.inj h)
      refine ⟨hdigits _, ?_, ?_, fun _ hnone => nomatch hnone⟩
      · intro digits hsome
        cases hsome
        exact hdigits _
      · simpa [List.isEmpty_iff, Classical.or_iff_not_imp_left] using hempty
  · split at h
    · cases h
    · next hempty =>
      refine isLiteral_of_withExponent (n := ⟨_, none, none⟩) ?_ (Option.some.inj h)
      refine ⟨hdigits _, (fun _ hnone => nomatch hnone), .inl ?_, fun _ hnone => nomatch hnone⟩
      simpa using hempty

/-- What is scanned of digits with a point among them. -/
theorem scan?_fraction {whole digits : List Char} (hwhole : ∀ c ∈ whole, isDigit c = true)
    (hdigits : ∀ c ∈ digits, isDigit c = true) (hne : whole ≠ [] ∨ digits ≠ [])
    (rest : List Char) :
    scan? (whole ++ '.' :: (digits ++ rest)) =
      some (withExponent isDigit ⟨whole, some (digits ++ rest.takeWhile isDigit), none⟩
        (rest.dropWhile isDigit)) := by
  have hpoint : ∀ c ∈ ('.' :: (digits ++ rest)).head?, isDigit c = false := by
    intro c hc
    cases hc
    decide
  obtain ⟨htake, hdrop⟩ := Text.takeWhile_append hwhole hpoint
  unfold scan?
  dsimp only
  rw [htake, hdrop]
  show (if whole.isEmpty && ((digits ++ rest).takeWhile isDigit).isEmpty then none else some _) = _
  rw [List.takeWhile_append_of_pos hdigits, List.dropWhile_append_of_pos hdigits, if_neg]
  rcases hne with hne | hne <;> simp [hne]

/-- What is scanned of digits that neither a digit nor a point follows. -/
theorem scan?_whole {whole : List Char} (hwhole : ∀ c ∈ whole, isDigit c = true)
    (hne : whole ≠ []) (hrest : ∀ c ∈ rest.head?, isDigit c = false ∧ c ≠ '.') :
    scan? (whole ++ rest) = some (withExponent isDigit ⟨whole, none, none⟩ rest) := by
  obtain ⟨htake, hdrop⟩ := Text.takeWhile_append hwhole fun c hc => (hrest c hc).1
  unfold scan?
  dsimp only
  rw [htake, hdrop]
  split
  · next heq => exact absurd rfl (hrest '.' rfl).2
  · rw [if_neg (by simp [hne])]

/-- No numeral begins with a character that is neither a digit nor a point. -/
theorem scan?_eq_none {c : Char} (hc : isDigit c = false ∧ c ≠ '.') (rest : List Char) :
    scan? (c :: rest) = none := by
  have hdigit : ¬isDigit c = true := by simp [hc.1]
  unfold scan?
  dsimp only
  rw [List.takeWhile_cons_of_neg hdigit, List.dropWhile_cons_of_neg hdigit]
  split
  · next heq =>
    cases heq
    exact absurd rfl hc.2
  · rfl

/-- What follows the digits of a literal, up to its end, begins with no digit and no
point, if nothing of the sort follows the literal. -/
theorem IsLiteral.head?_exponentChars (h : n.IsLiteral)
    (hrest : ∀ c ∈ rest.head?, isDigit c = false ∧ c ≠ '.') :
    ∀ c ∈ (n.exponentChars ++ rest).head?, isDigit c = false ∧ c ≠ '.' := by
  unfold exponentChars
  cases hexponent : n.exponent with
  | none => exact hrest
  | some e =>
    intro c hc
    cases hc
    exact (h.exponent e hexponent).marker_ne

/-! ## The longest numeral -/

/-- A numeral does not get shorter by an exponent. -/
theorem length_le_withExponent (hn : n.exponent = none) (text : List Char) :
    n.chars.length ≤ (withExponent isDigit n text).1.chars.length := by
  unfold withExponent
  split
  · next e tail hscan => simp [chars, hn]
  · exact Nat.le_refl _

/-- What is scanned of a text that begins with the digits of a literal: digits at least as
long, and just these if neither a digit nor a point follows. -/
theorem IsLiteral.exists_scan?_digitChars (h : n.IsLiteral) (rest : List Char) :
    ∃ m tail, scan? (n.digitChars ++ rest) = some (withExponent isDigit m tail) ∧
      m.exponent = none ∧ n.digitChars.length ≤ m.chars.length ∧
      ((∀ c ∈ rest.head?, isDigit c = false ∧ c ≠ '.') →
        m = { n with exponent := none } ∧ tail = rest) := by
  obtain ⟨whole, fraction, exponent⟩ := n
  cases fraction with
  | some digits =>
    have hne : whole ≠ [] ∨ digits ≠ [] := by simpa using h.has_digit
    refine ⟨⟨whole, some (digits ++ rest.takeWhile isDigit), none⟩, rest.dropWhile isDigit, ?_, rfl,
      ?_, fun hrest => ?_⟩
    · show scan? (whole ++ '.' :: digits ++ rest) = _
      rw [List.append_assoc]
      exact scan?_fraction h.whole (h.fraction digits rfl) hne rest
    · simp [digitChars, chars]
    · obtain ⟨htake, hdrop⟩ := Text.takeWhile_of_head fun c hc => (hrest c hc).1
      rw [htake, hdrop, List.append_nil]
      exact ⟨rfl, rfl⟩
  | none =>
    have hne : whole ≠ [] := by simpa using h.has_digit
    show ∃ m tail, scan? (whole ++ [] ++ rest) = _ ∧ _
    rw [List.append_nil]
    -- Further digits belong to the whole part, and after them there may be a point.
    have hlonger : ∀ c ∈ whole ++ rest.takeWhile isDigit, isDigit c = true := fun c hc =>
      (List.mem_append.1 hc).elim (h.whole c) List.mem_takeWhile_imp
    have hlongerNe : whole ++ rest.takeWhile isDigit ≠ [] := by simp [hne]
    have hsplit : whole ++ rest =
        whole ++ rest.takeWhile isDigit ++ rest.dropWhile isDigit := by
      rw [List.append_assoc, List.takeWhile_append_dropWhile]
    have hstop : ∀ c ∈ (rest.dropWhile isDigit).head?, isDigit c = false := by
      intro c hc
      have hnot := List.head?_dropWhile_not isDigit rest
      rw [Option.mem_def.1 hc] at hnot
      simpa using hnot
    have hsame : (∀ c ∈ rest.head?, isDigit c = false ∧ c ≠ '.') →
        rest.takeWhile isDigit = [] ∧ rest.dropWhile isDigit = rest := fun hrest =>
      Text.takeWhile_of_head fun c hc => (hrest c hc).1
    by_cases hpoint : ∃ tail, rest.dropWhile isDigit = '.' :: tail
    · obtain ⟨tail, htail⟩ := hpoint
      refine ⟨⟨whole ++ rest.takeWhile isDigit, some (tail.takeWhile isDigit), none⟩,
        tail.dropWhile isDigit, ?_, rfl, ?_, fun hrest => ?_⟩
      · rw [hsplit, htail]
        exact @scan?_fraction _ [] hlonger (List.forall_mem_nil _) (.inl hlongerNe) tail
      · simp [digitChars, chars]
      · rw [(hsame hrest).2] at htail
        exact absurd rfl (hrest '.' (by simp [htail])).2
    · refine ⟨⟨whole ++ rest.takeWhile isDigit, none, none⟩, rest.dropWhile isDigit, ?_, rfl, ?_,
        fun hrest => ?_⟩
      · rw [hsplit]
        refine scan?_whole hlonger hlongerNe fun c hc => ⟨hstop c hc, ?_⟩
        rintro rfl
        exact hpoint (List.head?_eq_some_iff.1 hc)
      · simp [digitChars, chars]
      · obtain ⟨htake, hdrop⟩ := hsame hrest
        rw [htake, hdrop, List.append_nil]
        exact ⟨rfl, rfl⟩

/-- Whatever numeral a text begins with, one at least as long is scanned. -/
theorem IsLiteral.exists_scan? (h : n.IsLiteral) (rest : List Char) :
    ∃ m tail, scan? (n.chars ++ rest) = some (m, tail) ∧ n.chars.length ≤ m.chars.length := by
  obtain ⟨m, tail, hscan, hm, hdigits, hexact⟩ := h.exists_scan?_digitChars (n.exponentChars ++ rest)
  rw [chars_eq, List.append_assoc, hscan]
  refine ⟨_, _, rfl, ?_⟩
  rw [List.length_append]
  have hlonger := length_le_withExponent hm tail
  unfold exponentChars withExponent at *
  cases hexponent : n.exponent with
  | none => exact Nat.le_trans hdigits hlonger
  | some e =>
    have he := h.exponent e hexponent
    rw [hexponent] at hexact
    obtain ⟨rfl, rfl⟩ := hexact fun c hc => by
      cases hc
      exact he.marker_ne
    rw [Option.elim_some, he.scan?_append]
    simp [chars, digitChars, Exponent.chars]
    omega

/-! ## Numerals that end -/

/-- A literal that nothing follows which could belong to it is scanned as it was written. -/
theorem IsLiteral.scan?_append (h : n.IsLiteral)
    (hrest : ∀ c ∈ rest.head?, isDigit c = false ∧ c ≠ '.' ∧ c ≠ 'e' ∧ c ≠ 'E') :
    scan? (n.chars ++ rest) = some (n, rest) := by
  obtain ⟨m, tail, hscan, -, -, hexact⟩ := h.exists_scan?_digitChars (n.exponentChars ++ rest)
  obtain ⟨rfl, rfl⟩ := hexact (h.head?_exponentChars fun c hc => ⟨(hrest c hc).1, (hrest c hc).2.1⟩)
  rw [chars_eq, List.append_assoc, hscan]
  obtain ⟨whole, fraction, exponent⟩ := n
  unfold withExponent exponentChars
  cases exponent with
  | none =>
    have hnone : Exponent.scan? isDigit rest = none := by
      cases rest with
      | nil => rfl
      | cons c rest =>
        obtain ⟨-, -, hlower, hupper⟩ := hrest c rfl
        exact if_neg (by simp [hlower, hupper])
    rw [Option.elim_none, List.nil_append, hnone]
  | some e =>
    obtain ⟨htake, hdrop⟩ := Text.takeWhile_of_head fun c hc => (hrest c hc).1
    rw [Option.elim_some, (h.exponent e rfl).scan?_append, htake, hdrop, List.append_nil]

end Numeral

end Tariff
