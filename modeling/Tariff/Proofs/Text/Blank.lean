import Tariff.Proofs.Text.Digits
import Tariff.Text.Blank

/-!
# Blank space around a text

The blank characters are neither digits nor visible ASCII characters. A text with blank space
around it is trimmed to what stands inside, provided that this neither begins nor ends with
blank space (`trim_of_surrounds`), and every text is what it is trimmed to with blank space
around it (`surrounds_trim`).
-/

namespace Tariff.Text

variable {c : Char} {text cs : List Char}

/-! ## Classes of characters -/

/-- Among the ASCII characters only the ASCII digits are digits. -/
theorem isAsciiDigit_or_of_isDigit (h : isDigit c = true) :
    isAsciiDigit c = true ∨ 0x80 ≤ c.toNat := by
  have hcodes : ∀ code ∈ zeroCodes, code = 0x30 ∨ 0x80 ≤ code := by decide
  unfold isDigit digitValue? at h
  rw [Option.isSome_map, List.find?_isSome] at h
  obtain ⟨code, hcode, hrange⟩ := h
  simp only [Bool.and_eq_true, decide_eq_true_eq] at hrange
  rcases hcodes code hcode with rfl | hlarge
  · left
    refine decide_eq_true ⟨?_, ?_⟩
    · show 0x30 ≤ c.toNat
      omega
    · show c.toNat ≤ 0x39
      omega
  · right
    omega

/-- No blank character is a digit. -/
theorem isDigit_of_isBlank (h : isBlank c = true) : isDigit c = false := by
  have hcodes : ∀ blank ∈ blankCodes, ∀ code ∈ zeroCodes, ¬(code ≤ blank ∧ blank < code + 10) := by
    decide
  unfold isBlank at h
  rw [List.contains_iff_mem] at h
  rw [Bool.eq_false_iff]
  intro hdigit
  unfold isDigit digitValue? at hdigit
  rw [Option.isSome_map, List.find?_isSome] at hdigit
  obtain ⟨code, hcode, hrange⟩ := hdigit
  simp only [Bool.and_eq_true, decide_eq_true_eq] at hrange
  exact hcodes _ h code hcode hrange

theorem isBlank_of_isDigit (h : isDigit c = true) : isBlank c = false := by
  rw [Bool.eq_false_iff]
  intro hblank
  rw [isDigit_of_isBlank hblank] at h
  cases h

/-- No blank character is a visible ASCII character. -/
theorem code_of_isBlank (h : isBlank c = true) : c.toNat ≤ 0x20 ∨ 0x80 ≤ c.toNat := by
  have hcodes : ∀ blank ∈ blankCodes, blank ≤ 0x20 ∨ 0x80 ≤ blank := by decide
  unfold isBlank at h
  rw [List.contains_iff_mem] at h
  exact hcodes _ h

/-! ## Trimming -/

/-- Whether a text is characters with blank space around them. -/
def Surrounds (text cs : List Char) : Prop :=
  ∃ before after, text = before ++ cs ++ after ∧ (∀ c ∈ before, isBlank c = true) ∧
    ∀ c ∈ after, isBlank c = true

/-- What is trimmed off a text is blank. -/
theorem surrounds_trim (text : List Char) : Surrounds text (trim text) := by
  have hfront := List.takeWhile_append_dropWhile (p := isBlank) (l := text)
  have hback := congrArg List.reverse (List.takeWhile_append_dropWhile (p := isBlank)
    (l := (text.dropWhile isBlank).reverse))
  rw [List.reverse_append, List.reverse_reverse] at hback
  refine ⟨text.takeWhile isBlank, ((text.dropWhile isBlank).reverse.takeWhile isBlank).reverse,
    ?_, fun c hc => List.mem_takeWhile_imp hc, fun c hc => ?_⟩
  · rw [List.append_assoc, trim, hback, hfront]
  · exact List.mem_takeWhile_imp (List.mem_reverse.1 hc)

/-- A text is trimmed to what stands between the blank space. -/
theorem trim_of_surrounds (h : Surrounds text cs) (hne : cs ≠ [])
    (hhead : ∀ c ∈ cs.head?, isBlank c = false) (hlast : ∀ c ∈ cs.getLast?, isBlank c = false) :
    trim text = cs := by
  obtain ⟨before, after, rfl, hbefore, hafter⟩ := h
  have hfront : ∀ c ∈ (cs ++ after).head?, isBlank c = false := by
    rwa [List.head?_append_of_ne_nil cs hne]
  have hback : ∀ c ∈ cs.reverse.head?, isBlank c = false := by
    rwa [List.head?_reverse]
  rw [trim, List.append_assoc, (takeWhile_append hbefore hfront).2, List.reverse_append,
    (takeWhile_append (fun c hc => hafter c (List.mem_reverse.1 hc)) hback).2,
    List.reverse_reverse]

/-- A text without blank space has none at its ends. -/
theorem trim_eq_self (h : ∀ c ∈ cs, isBlank c = false) : trim cs = cs := by
  cases cs with
  | nil => rfl
  | cons c cs =>
    refine trim_of_surrounds ⟨[], [], by simp, nofun, nofun⟩ (List.cons_ne_nil c cs) ?_ ?_
    · exact fun d hd => h d (List.mem_of_mem_head? hd)
    · exact fun d hd => h d (List.mem_of_getLast? hd)

end Tariff.Text
