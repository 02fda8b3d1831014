import Tariff.Formula.Token
import Tariff.Proofs.Number.Literal
import Tariff.Proofs.Text.Blank

/-!
# The longest lexeme

Which lexemes there are, said without scanning (`Lexeme.IsProper`): numerals of the form
that formulas admit, words, each of which is a keyword or a name, operator symbols and
parentheses. Scanning takes the longest proper lexeme that a text begins with
(`Lexeme.isLongest_of_scan?`) and takes none only where no proper lexeme begins
(`Lexeme.IsProper.exists_scan?`).

The sorts of lexemes do not get in each other's way, since the first character tells them
apart: a digit or a point, a letter or an underscore, a parenthesis, or something else. That
is why the longest lexeme is the longest of its sort. A lexeme before blank space or the end
of the text is scanned as it was written (`Lexeme.IsProper.scan?_append`).
-/

namespace Tariff

/-! ## Classes of characters -/

namespace Formula

open Text (isDigit isBlank)

theorem code_of_isNameStart {c : Char} (h : isNameStart c = true) :
    (0x61 ≤ c.toNat ∧ c.toNat ≤ 0x7a) ∨ (0x41 ≤ c.toNat ∧ c.toNat ≤ 0x5a) ∨ c.toNat = 0x5f := by
  unfold isNameStart at h
  rw [Bool.or_eq_true, Bool.or_eq_true, decide_eq_true_eq, decide_eq_true_eq, beq_iff_eq] at h
  rcases h with (hlower | hupper) | rfl
  · exact .inl hlower
  · exact .inr (.inl hupper)
  · exact .inr (.inr rfl)

theorem code_of_isAsciiDigit {c : Char} (h : Text.isAsciiDigit c = true) :
    0x30 ≤ c.toNat ∧ c.toNat ≤ 0x39 :=
  of_decide_eq_true h

theorem isDigit_of_isNameStart {c : Char} (h : isNameStart c = true) : isDigit c = false := by
  have hcode := code_of_isNameStart h
  rw [Bool.eq_false_iff]
  intro hdigit
  rcases Text.isAsciiDigit_or_of_isDigit hdigit with hascii | hlarge
  · have hrange := code_of_isAsciiDigit hascii
    omega
  · omega

/-- Blank space ends a word. -/
theorem isNamePart_of_isBlank {c : Char} (h : isBlank c = true) : isNamePart c = false := by
  have hcode := Text.code_of_isBlank h
  rw [Bool.eq_false_iff]
  intro hpart
  unfold isNamePart at hpart
  rcases Bool.or_eq_true_iff.1 hpart with hstart | hdigit
  · have hrange := code_of_isNameStart hstart
    omega
  · have hrange := code_of_isAsciiDigit hdigit
    omega

/-- Blank space is no visible character. -/
theorem ne_of_isBlank {c d : Char} (h : isBlank c = true) (hd : 0x20 < d.toNat ∧ d.toNat < 0x80) :
    c ≠ d := by
  rintro rfl
  have hcode := Text.code_of_isBlank h
  omega

/-! ## Proper lexemes -/

/-- Whether characters are a word: something that begins a name, and goes on with it. -/
def IsWord (cs : List Char) : Prop :=
  ∃ c rest, cs = c :: rest ∧ isNameStart c = true ∧ ∀ d ∈ rest, isNamePart d = true

theorem Keyword.isWord_chars (word : Keyword) : IsWord word.chars := by
  cases word <;> exact ⟨_, _, rfl, by decide, List.all_eq_true.1 (by decide)⟩

theorem Keyword.mem_all (word : Keyword) : word ∈ all := by
  cases word <;> decide

/-- A word is one of the keywords, or none of them. -/
theorem Keyword.ofChars?_eq_some_iff {cs : List Char} {word : Keyword} :
    ofChars? cs = some word ↔ word.chars = cs := by
  refine ⟨chars_of_ofChars?, ?_⟩
  rintro rfl
  cases word <;> rfl

namespace Lexeme

/-- Whether a lexeme can stand in a formula. A name is a word that is no keyword. -/
def IsProper : Lexeme → Prop
  | .number numeral => numeral.IsLiteral
  | .name text => IsWord text.toList ∧ ∀ word : Keyword, word.chars ≠ text.toList
  | .finish => False
  | _ => True

/-- Whether a lexeme is the longest that a text begins with. -/
structure IsLongest (l : Lexeme) (text : List Char) : Prop where
  proper : l.IsProper
  begins : l.chars <+: text
  longest : ∀ other : Lexeme, other.IsProper → other.chars <+: text →
    other.chars.length ≤ l.chars.length

/-- A proper lexeme begins with a character that is not blank. -/
theorem IsProper.exists_cons {l : Lexeme} (h : l.IsProper) :
    ∃ c cs, l.chars = c :: cs ∧ isBlank c = false := by
  have hword : ∀ {cs : List Char}, IsWord cs → ∃ c rest, cs = c :: rest ∧ isBlank c = false := by
    rintro _ ⟨c, rest, rfl, hstart, -⟩
    refine ⟨c, rest, rfl, Bool.eq_false_iff.2 fun hblank => ?_⟩
    have hpart := isNamePart_of_isBlank hblank
    rw [isNamePart, hstart] at hpart
    cases hpart
  cases l with
  | number n =>
    obtain ⟨whole, fraction, exponent⟩ := n
    cases whole with
    | cons c whole =>
      refine ⟨c, _, rfl, Bool.eq_false_iff.2 fun hblank => ?_⟩
      have hdigit := h.whole c List.mem_cons_self
      rw [Text.isDigit_of_isBlank hblank] at hdigit
      cases hdigit
    | nil =>
      obtain ⟨digits, rfl, -⟩ := h.has_digit.resolve_left (absurd rfl)
      exact ⟨'.', _, rfl, by decide⟩
  | name text => exact hword h.1
  | keyword word => exact hword word.isWord_chars
  | symbol mark => cases mark <;> exact ⟨_, _, rfl, by decide⟩
  | opening => exact ⟨'(', [], rfl, by decide⟩
  | closing => exact ⟨')', [], rfl, by decide⟩
  | finish => exact absurd h id

/-- A word is the characters of one lexeme. -/
theorem isProper_ofWord {cs : List Char} (h : IsWord cs) : (ofWord cs).IsProper := by
  unfold ofWord
  split
  · trivial
  · next hnone =>
    rw [IsProper, String.toList_ofList]
    refine ⟨h, fun word hword => ?_⟩
    rw [Keyword.ofChars?_eq_some_iff.2 hword] at hnone
    cases hnone

/-- A keyword or a name is the lexeme of its characters. -/
theorem ofWord_chars {l : Lexeme} (hl : l.IsProper)
    (hsort : (∃ word, l = .keyword word) ∨ ∃ text, l = .name text) :
    IsWord l.chars ∧ ofWord l.chars = l := by
  rcases hsort with ⟨word, rfl⟩ | ⟨text, rfl⟩
  · refine ⟨word.isWord_chars, ?_⟩
    rw [chars, ofWord, Keyword.ofChars?_eq_some_iff.2 rfl]
  · obtain ⟨hword, hnone⟩ := hl
    refine ⟨hword, ?_⟩
    unfold ofWord
    split
    · next word hsome => exact absurd (Keyword.chars_of_ofChars? hsome) (hnone word)
    · rw [chars, String.ofList_toList]

/-! ## Scanning by the first character -/

variable {cs rest : List Char}

/-- What is scanned of a text that begins with a word: the word, and what goes on with it. -/
theorem scan?_word (h : IsWord cs) (rest : List Char) :
    scan? (cs ++ rest) =
      some (ofWord (cs ++ rest.takeWhile isNamePart), rest.dropWhile isNamePart) := by
  obtain ⟨c, tail, rfl, hstart, htail⟩ := h
  have hcode := code_of_isNameStart hstart
  have hopening : c ≠ '(' := by
    rintro rfl
    cases hstart
  have hclosing : c ≠ ')' := by
    rintro rfl
    cases hstart
  rw [List.cons_append, scan?, if_neg hopening, if_neg hclosing, if_pos hstart,
    List.takeWhile_append_of_pos htail, List.dropWhile_append_of_pos htail]
  rfl

/-- A numeral at the front of a text is scanned as one. -/
theorem scan?_of_numeralScan {n : Numeral} (h : Numeral.scan? cs = some (n, rest)) :
    scan? cs = some (.number n, rest) := by
  cases cs with
  | nil => cases h
  | cons c tail =>
    have hstart : isDigit c = true ∨ c = '.' := by
      by_contra hnot
      rw [not_or, Bool.not_eq_true] at hnot
      rw [Numeral.scan?_eq_none hnot] at h
      cases h
    have hopening : c ≠ '(' := by
      rintro rfl
      rcases hstart with hdigit | hpoint
      · exact absurd hdigit (by decide)
      · exact absurd hpoint (by decide)
    have hclosing : c ≠ ')' := by
      rintro rfl
      rcases hstart with hdigit | hpoint
      · exact absurd hdigit (by decide)
      · exact absurd hpoint (by decide)
    have hword : ¬isNameStart c = true := by
      intro hname
      rcases hstart with hdigit | rfl
      · rw [isDigit_of_isNameStart hname] at hdigit
        cases hdigit
      · cases hname
    rw [scan?, if_neg hopening, if_neg hclosing, if_neg hword, h]

/-- No other lexeme begins with the first character of a symbol. -/
theorem scan?_of_symbolScan {mark : Symbol} (h : Symbol.scan? cs = some (mark, rest)) :
    scan? cs = some (.symbol mark, rest) := by
  obtain ⟨c, tail, hchars⟩ := List.exists_cons_of_ne_nil mark.chars_ne_nil
  have hfirst : c ≠ '(' ∧ c ≠ ')' ∧ ¬isNameStart c = true ∧ isDigit c = false ∧ c ≠ '.' := by
    cases mark <;> cases hchars <;> decide
  obtain ⟨hopening, hclosing, hword, hnumeral⟩ := hfirst
  have hsplit := Symbol.chars_append_of_scan? h
  rw [hchars, List.cons_append] at hsplit
  rw [← hsplit, scan?, if_neg hopening, if_neg hclosing, if_neg hword,
    Numeral.scan?_eq_none hnumeral]
  rw [← hsplit] at h
  dsimp only
  rw [h]
  rfl

end Lexeme

/-! ## Symbols -/

namespace Symbol

theorem mem_all (mark : Symbol) : mark ∈ all := by
  cases mark <;> decide

/-- The longer symbols come first. -/
theorem pairwise_all : all.Pairwise fun a b => b.chars.length ≤ a.chars.length := by
  decide

/-- Whatever symbol a text begins with, one at least as long is scanned. -/
theorem exists_scan? (mark : Symbol) (rest : List Char) :
    ∃ found tail, scan? (mark.chars ++ rest) = some (found, tail) ∧
      mark.chars.length ≤ found.chars.length := by
  have hmark : mark.chars.isPrefixOf (mark.chars ++ rest) = true :=
    List.isPrefixOf_iff_prefix.2 (List.prefix_append _ _)
  have hsome : (all.find? fun m => m.chars.isPrefixOf (mark.chars ++ rest)).isSome = true :=
    List.find?_isSome.2 ⟨mark, mark.mem_all, hmark⟩
  obtain ⟨found, hfound⟩ := Option.isSome_iff_exists.1 hsome
  refine ⟨found, _, by rw [scan?, hfound]; rfl, ?_⟩
  obtain ⟨-, before, after, hall, hbefore⟩ := List.find?_eq_some_iff_append.1 hfound
  have hmem := mark.mem_all
  have hpairwise := pairwise_all
  rw [hall] at hmem hpairwise
  rcases List.mem_append.1 hmem with hmem | hmem
  · have hnot := hbefore mark hmem
    rw [hmark] at hnot
    cases hnot
  · rcases List.mem_cons.1 hmem with rfl | hmem
    · exact Nat.le_refl _
    · exact (List.pairwise_cons.1 (List.pairwise_append.1 hpairwise).2.1).1 mark hmem

/-- A symbol before blank space or the end of the text is scanned as it was written. -/
theorem scan?_append (mark : Symbol) {rest : List Char}
    (hrest : ∀ c ∈ rest.head?, isBlank c = true) :
    scan? (mark.chars ++ rest) = some (mark, rest) := by
  cases rest with
  | nil => cases mark <;> rfl
  | cons c rest =>
    have hblank := hrest c rfl
    have hequal : ('=' == c) = false :=
      beq_eq_false_iff_ne.2 (ne_of_isBlank hblank (by decide)).symm
    cases mark <;> simp [scan?, all, chars, List.isPrefixOf, hequal]

end Symbol

/-! ## The longest lexeme -/

namespace Lexeme

variable {l : Lexeme} {text rest : List Char}

/-- Whatever lexeme a text begins with, one at least as long is scanned. -/
theorem IsProper.exists_scan? (h : l.IsProper) (rest : List Char) :
    ∃ found tail, scan? (l.chars ++ rest) = some (found, tail) ∧
      l.chars.length ≤ found.chars.length := by
  have hword : IsWord l.chars → ∃ found tail, scan? (l.chars ++ rest) = some (found, tail) ∧
      l.chars.length ≤ found.chars.length := by
    intro hword
    refine ⟨_, _, scan?_word hword rest, ?_⟩
    rw [chars_ofWord, List.length_append]
    exact Nat.le_add_right _ _
  cases l with
  | number n =>
    obtain ⟨m, tail, hscan, hlength⟩ := Numeral.IsLiteral.exists_scan? h rest
    exact ⟨_, _, scan?_of_numeralScan hscan, hlength⟩
  | name text => exact hword h.1
  | keyword word => exact hword word.isWord_chars
  | symbol mark =>
    obtain ⟨found, tail, hscan, hlength⟩ := mark.exists_scan? rest
    exact ⟨_, _, scan?_of_symbolScan hscan, hlength⟩
  | opening => exact ⟨_, _, rfl, Nat.le_refl _⟩
  | closing => exact ⟨_, _, rfl, Nat.le_refl _⟩
  | finish => exact absurd h id

/-- A lexeme before blank space or the end of the text is scanned as it was written. -/
theorem IsProper.scan?_append (h : l.IsProper) (hrest : ∀ c ∈ rest.head?, isBlank c = true) :
    scan? (l.chars ++ rest) = some (l, rest) := by
  have hword : (∃ word, l = .keyword word) ∨ (∃ text, l = .name text) →
      scan? (l.chars ++ rest) = some (l, rest) := by
    intro hsort
    obtain ⟨hword, hl⟩ := ofWord_chars h hsort
    obtain ⟨htake, hdrop⟩ := Text.takeWhile_of_head fun c hc => isNamePart_of_isBlank (hrest c hc)
    rw [scan?_word hword, htake, hdrop, List.append_nil, hl]
  cases l with
  | number n =>
    refine scan?_of_numeralScan (Numeral.IsLiteral.scan?_append h fun c hc => ?_)
    have hblank := hrest c hc
    exact ⟨Text.isDigit_of_isBlank hblank, ne_of_isBlank hblank (by decide),
      ne_of_isBlank hblank (by decide), ne_of_isBlank hblank (by decide)⟩
  | name text => exact hword (.inr ⟨text, rfl⟩)
  | keyword word => exact hword (.inl ⟨word, rfl⟩)
  | symbol mark => exact scan?_of_symbolScan (mark.scan?_append hrest)
  | opening => rfl
  | closing => rfl
  | finish => exact absurd h id

/-- A proper lexeme is known by its characters. -/
theorem IsProper.eq_of_chars {other : Lexeme} (h : l.IsProper) (hother : other.IsProper)
    (hchars : l.chars = other.chars) : l = other := by
  have hend : ∀ c ∈ ([] : List Char).head?, isBlank c = true := fun c hc => nomatch hc
  have hscan := h.scan?_append hend
  rw [hchars, hother.scan?_append hend] at hscan
  cases hscan
  rfl

theorem isProper_of_scan? (h : scan? text = some (l, rest)) : l.IsProper := by
  cases text with
  | nil => cases h
  | cons c tail =>
    rw [scan?] at h
    split at h
    · cases h
      trivial
    · split at h
      · cases h
        trivial
      · split at h
        · next hstart =>
          cases h
          exact isProper_ofWord ⟨c, _, rfl, hstart, fun d hd => List.mem_takeWhile_imp hd⟩
        · split at h
          · next hscan =>
            cases h
            exact Numeral.isLiteral_of_scan? hscan
          · obtain ⟨⟨mark, tail⟩, -, heq⟩ := Option.map_eq_some_iff.1 h
            cases heq
            trivial

/-- What is scanned is the longest lexeme that the text begins with. -/
theorem isLongest_of_scan? (h : scan? text = some (l, rest)) : l.IsLongest text where
  proper := isProper_of_scan? h
  begins := ⟨rest, chars_append_of_scan? h⟩
  longest := by
    rintro other hother ⟨tail, rfl⟩
    obtain ⟨found, _, hscan, hlength⟩ := hother.exists_scan? tail
    cases hscan.symm.trans h
    exact hlength

/-- Where nothing is scanned no lexeme begins. -/
theorem not_begins_of_scan? (h : scan? text = none) (hl : l.IsProper) : ¬l.chars <+: text := by
  rintro ⟨tail, rfl⟩
  obtain ⟨found, _, hscan, -⟩ := hl.exists_scan? tail
  cases hscan.symm.trans h

end Lexeme

end Formula

end Tariff
