import Mathlib.Data.List.Basic
import Mathlib.Tactic.SplitIfs
import Tariff.Json.Read
import Tariff.Json.Write

/-!
# Texts in JSON

The reader undoes every spelling of a character that the writer uses: the character
itself, a letter after a backslash, one 16-bit code or two of them (`spellsChar_charText`).
A code alone is only read as such because it is not the first of a pair, whatever follows
it. So the text between two quotes is read as the characters that it was written for
(`readString_flatMap_charText`).
-/

namespace Tariff.Json

/-! ## Codes -/

theorem hexDigitValue?_digitChar {m : Nat} (h : m < 16) : hexDigitValue? m.digitChar = some m := by
  have hall : ∀ m < 16, hexDigitValue? m.digitChar = some m := by decide
  exact hall m h

theorem hexValue?_append_singleton (cs : List Char) (c : Char) :
    hexValue? (cs ++ [c]) =
      (hexValue? cs).bind fun value => (hexDigitValue? c).map (16 * value + ·) := by
  unfold hexValue?
  rw [List.foldlM_append]
  congr 1
  funext value
  simp

theorem hexValue?_toDigits (n : Nat) : hexValue? (Nat.toDigits 16 n) = some n := by
  induction n using Nat.base_induction 16 (by decide) with
  | single m hm =>
    rw [Nat.toDigits_of_lt_base hm, ← List.nil_append [m.digitChar], hexValue?_append_singleton,
      hexDigitValue?_digitChar hm]
    simp [hexValue?]
  | digit m k hk hm ih =>
    rw [← Nat.toDigits_append_toDigits (by decide) hm hk, Nat.toDigits_of_lt_base hk,
      hexValue?_append_singleton, ih, hexDigitValue?_digitChar hk]
    rfl

theorem hexValue?_zeros_append (k : Nat) (cs : List Char) :
    hexValue? (List.replicate k '0' ++ cs) = hexValue? cs := by
  induction k with
  | zero => rfl
  | succ k ih => exact ih

/-- A 16-bit code is written with four digits that denote it. -/
theorem exists_unitEscape {code : Nat} (h : code < 0x10000) :
    ∃ a b c d, unitEscape code = ['\\', 'u', a, b, c, d] ∧ hexValue? [a, b, c, d] = some code := by
  have hlength : (Nat.toDigits 16 code).length ≤ 4 :=
    (Nat.length_toDigits_le_iff (by decide) (by decide)).2 h
  have hhex : (Text.hex 4 code).toList =
      List.replicate (4 - (Nat.toDigits 16 code).length) '0' ++ Nat.toDigits 16 code :=
    String.toList_ofList
  have hfour : (Text.hex 4 code).toList.length = 4 := by
    rw [hhex, List.length_append, List.length_replicate]
    omega
  obtain ⟨a, b, c, d, hdigits⟩ := List.length_eq_four.1 hfour
  refine ⟨a, b, c, d, ?_, ?_⟩
  · unfold unitEscape
    rw [hdigits]
  · rw [← hdigits, hhex, hexValue?_zeros_append, hexValue?_toDigits]

/-! ## Spellings of a character -/

/-- Whether a text at the front is read as one character. -/
def SpellsChar (spelling : List Char) (c : Char) : Prop :=
  ∀ rest, readString (spelling ++ rest) = (readString rest).map fun read => (c :: read.1, read.2)

theorem spellsChar_self {c : Char} (hquote : c ≠ '"') (hslash : c ≠ '\\') (hspace : 0x20 ≤ c.toNat) :
    SpellsChar [c] c := by
  intro rest
  have hplain : ¬(c.toNat < 0x20 ∨ c = '\\') := by
    intro hrefused
    rcases hrefused with hcontrol | heq
    · omega
    · exact hslash heq
  rw [List.singleton_append, readString]
  · rw [if_neg hplain]
    cases readString rest <;> rfl
  · exact hquote
  · exact fun _ _ _ _ _ _ _ _ _ heq => absurd heq hslash
  · exact fun _ _ _ _ _ heq => absurd heq hslash
  · exact fun _ _ heq => absurd heq hslash

theorem spellsChar_letter {letter c : Char} (hletter : letter ≠ 'u')
    (h : letterEscape? letter = some c) : SpellsChar ['\\', letter] c := by
  intro rest
  show readString ('\\' :: letter :: rest) = _
  rw [readString]
  · rw [h, required_some]
    cases readString rest <;> rfl
  · exact fun _ _ _ _ _ _ _ _ _ heq => absurd heq hletter
  · exact fun _ _ _ _ _ heq => absurd heq hletter

/-- A code that is not the first of a pair is read alone, even before another code. -/
theorem spellsChar_unitEscape {code : Nat} (h : code < 0x10000)
    (hpair : ¬(0xd800 ≤ code ∧ code < 0xe000)) : SpellsChar (unitEscape code) (Char.ofNat code) := by
  intro rest
  obtain ⟨a, b, c, d, htext, hvalue⟩ := exists_unitEscape h
  have hchar : unitChar code = .ok (Char.ofNat code) := if_neg hpair
  have halone : ∀ low, pairChar? code low = none := fun low => if_neg (by omega)
  rw [htext]
  show readString ('\\' :: 'u' :: a :: b :: c :: d :: rest) = _
  -- A second code may follow, but the first one is no half of a pair.
  by_cases hnext : ∃ e f g h rest', rest = '\\' :: 'u' :: e :: f :: g :: h :: rest'
  · obtain ⟨e, f, g, h, rest', rfl⟩ := hnext
    have hnone : (hexValue? [e, f, g, h]).bind (pairChar? code) = none := by
      cases hexValue? [e, f, g, h] with
      | none => rfl
      | some low => exact halone low
    rw [readString, hvalue, required_some]
    simp only [bind, Except.bind, hnone, hchar]
    cases readString ('\\' :: 'u' :: e :: f :: g :: h :: rest') <;> rfl
  · rw [readString]
    · rw [hvalue, required_some]
      show (unitChar code).bind _ = _
      rw [hchar]
      cases readString rest <;> rfl
    · exact fun e f g h rest' heq => hnext ⟨e, f, g, h, rest', heq⟩

/-- Two codes that are a pair are read as the character beyond the 16-bit codes. -/
theorem spellsChar_pair {high low : Nat} {c : Char} (hhigh : 0xd800 ≤ high ∧ high < 0xdc00)
    (hlow : 0xdc00 ≤ low ∧ low < 0xe000)
    (hcode : 0x10000 + (high - 0xd800) * 0x400 + (low - 0xdc00) = c.toNat) :
    SpellsChar (unitEscape high ++ unitEscape low) c := by
  intro rest
  obtain ⟨a, b, c', d, htext, hvalue⟩ := exists_unitEscape (show high < 0x10000 by omega)
  obtain ⟨e, f, g, h, htext', hvalue'⟩ := exists_unitEscape (show low < 0x10000 by omega)
  have hpair : pairChar? high low = some c := by
    unfold pairChar?
    rw [if_pos ⟨hhigh.1, hhigh.2, hlow.1, hlow.2⟩, hcode, Char.ofNat_toNat]
  rw [htext, htext']
  show readString ('\\' :: 'u' :: a :: b :: c' :: d :: '\\' :: 'u' :: e :: f :: g :: h :: rest) = _
  rw [readString, hvalue, hvalue', required_some]
  simp only [bind, Except.bind, Option.bind, hpair]
  cases readString rest <;> rfl

/-! ## Texts -/

/-- The code of a character is none of those that stand in pairs. -/
theorem toNat_valid (c : Char) : c.toNat < 0xd800 ∨ (0xe000 ≤ c.toNat ∧ c.toNat < 0x110000) := by
  have hvalid : c.toNat.isValidChar := c.valid
  unfold Nat.isValidChar at hvalid
  omega

/-- Every spelling of the writer is read as the character that it was written for. -/
theorem spellsChar_charText (c : Char) : SpellsChar (charText c) c := by
  have hvalid := toNat_valid c
  unfold charText
  split_ifs with hescaped hprintable hn hr ht hf hb hcode
  · rcases hescaped with rfl | rfl
    · exact spellsChar_letter (by decide) rfl
    · exact spellsChar_letter (by decide) rfl
  · exact spellsChar_self (fun h => hescaped (.inl h)) (fun h => hescaped (.inr h)) hprintable.1
  · exact hn ▸ spellsChar_letter (by decide) rfl
  · exact hr ▸ spellsChar_letter (by decide) rfl
  · exact ht ▸ spellsChar_letter (by decide) rfl
  · exact hf ▸ spellsChar_letter (by decide) rfl
  · exact hb ▸ spellsChar_letter (by decide) rfl
  · have hunit := spellsChar_unitEscape hcode (by omega)
    rwa [Char.ofNat_toNat] at hunit
  · exact spellsChar_pair (by omega) (by omega) (by omega)

/-- The text up to the closing quote is read as the characters that it was written for. -/
theorem readString_flatMap_charText (cs rest : List Char) :
    readString (cs.flatMap charText ++ '"' :: rest) = .ok (cs, rest) := by
  induction cs with
  | nil => exact readString.eq_2 rest
  | cons c cs ih =>
    rw [List.flatMap_cons, List.append_assoc, spellsChar_charText c, ih]
    rfl

end Tariff.Json
