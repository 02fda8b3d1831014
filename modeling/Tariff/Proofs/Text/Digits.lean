import Mathlib.Data.List.Basic
import Mathlib.Data.List.Induction
import Mathlib.Data.List.TakeWhile
import Mathlib.Tactic.Ring
import Tariff.Text.Digit

/-!
# The value of decimal digits

What a reader needs to know of the digits that a writer puts down. They are ASCII digits
(`isAsciiDigit_of_mem_toDigits`), the first is no zero unless the number is
(`head?_toDigits_ne`), and their value is the number (`digitsValue_toDigits`). Zeros in
front do not change the value, and every zero at the end multiplies it by ten.

A reader takes digits from the front of a text up to the first character that is none
(`takeWhile_append`). Which number they denote is said digit by digit in `Denotes`, and
`digitsValue` is that number (`denotes_iff`).
-/

namespace Tariff.Text

/-! ## Taking digits from a text -/

section Take

variable {p : Char → Bool} {cs rest : List Char}

/-- Nothing is taken of a text that does not begin with what is looked for. -/
theorem takeWhile_of_head (hrest : ∀ c ∈ rest.head?, p c = false) :
    rest.takeWhile p = [] ∧ rest.dropWhile p = rest := by
  cases rest with
  | nil => exact ⟨rfl, rfl⟩
  | cons c rest =>
    have hc : ¬p c = true := by simp [hrest c rfl]
    exact ⟨List.takeWhile_cons_of_neg hc, List.dropWhile_cons_of_neg hc⟩

/-- Characters that are looked for are taken up to the first one that is not. -/
theorem takeWhile_append (hcs : ∀ c ∈ cs, p c = true) (hrest : ∀ c ∈ rest.head?, p c = false) :
    (cs ++ rest).takeWhile p = cs ∧ (cs ++ rest).dropWhile p = rest := by
  obtain ⟨htake, hdrop⟩ := takeWhile_of_head hrest
  rw [List.takeWhile_append_of_pos hcs, List.dropWhile_append_of_pos hcs, htake, hdrop]
  exact ⟨List.append_nil _, rfl⟩

end Take

/-! ## Single digits -/

/-- An ASCII digit has the value of its place among the digits. -/
theorem digitValue?_of_isAsciiDigit {c : Char} (h : isAsciiDigit c = true) :
    digitValue? c = some (c.toNat - '0'.toNat) := by
  have hrange : '0' ≤ c ∧ c ≤ '9' := of_decide_eq_true h
  have hlow : 0x30 ≤ c.toNat := hrange.1
  have hhigh : c.toNat ≤ 0x39 := hrange.2
  unfold digitValue? zeroCodes
  rw [List.find?_cons_of_pos]
  · rfl
  · simp only [Bool.and_eq_true, decide_eq_true_eq]
    omega

theorem isDigit_of_isAsciiDigit {c : Char} (h : isAsciiDigit c = true) : isDigit c = true := by
  rw [isDigit, digitValue?_of_isAsciiDigit h]
  rfl

theorem isAsciiDigit_of_isDigit {c : Char} (h : c.isDigit = true) : isAsciiDigit c = true := by
  unfold Char.isDigit at h
  unfold isAsciiDigit
  simp only [Bool.and_eq_true, decide_eq_true_eq, ge_iff_le] at h ⊢
  exact h

theorem isAsciiDigit_of_mem_toDigits {c : Char} {n : Nat} (h : c ∈ Nat.toDigits 10 n) :
    isAsciiDigit c = true :=
  isAsciiDigit_of_isDigit (Nat.isDigit_of_mem_toDigits (by decide) (by decide) h)

/-- The first digit of a number that is not zero is not zero. -/
theorem head?_toDigits_ne {n : Nat} (h : 0 < n) : (Nat.toDigits 10 n).head? ≠ some '0' := by
  induction n using Nat.base_induction 10 (by decide) with
  | single m hm =>
    rw [Nat.toDigits_of_lt_base hm, List.head?_cons]
    intro hzero
    have hvalue := Nat.toNat_digitChar_sub_48_of_lt_ten hm
    rw [Option.some.inj hzero] at hvalue
    exact Nat.ne_of_gt h hvalue.symm
  | digit m k hk hm ih =>
    have hne : Nat.toDigits 10 m ≠ [] := Nat.toDigits_ne_nil
    rw [← Nat.toDigits_append_toDigits (by decide) hm hk, List.head?_append_of_ne_nil _ hne]
    exact ih hm

/-! ## Values -/

/-- Digits after others: the others are worth a power of ten more. -/
theorem digitsValue_append (digits rest : List Char) :
    digitsValue (digits ++ rest) = digitsValue digits * 10 ^ rest.length + digitsValue rest := by
  induction rest using List.reverseRecOn with
  | nil => simp
  | append_singleton rest c ih =>
    rw [← List.append_assoc, digitsValue_append_singleton, digitsValue_append_singleton, ih,
      List.length_append, List.length_singleton]
    ring

@[simp] theorem digitsValue_replicate_zero (k : Nat) : digitsValue (List.replicate k '0') = 0 := by
  induction k with
  | zero => rfl
  | succ k ih =>
    rw [List.replicate_succ', digitsValue_append_singleton, ih]
    rfl

/-- Zeros in front do not count. -/
theorem digitsValue_zeros_append (k : Nat) (digits : List Char) :
    digitsValue (List.replicate k '0' ++ digits) = digitsValue digits := by
  rw [digitsValue_append, digitsValue_replicate_zero, Nat.zero_mul, Nat.zero_add]

/-- Every zero at the end multiplies by ten. -/
theorem digitsValue_append_zeros (digits : List Char) (k : Nat) :
    digitsValue (digits ++ List.replicate k '0') = digitsValue digits * 10 ^ k := by
  rw [digitsValue_append, digitsValue_replicate_zero, List.length_replicate, Nat.add_zero]

theorem digitValue?_lt {c : Char} {d : Nat} (h : digitValue? c = some d) : d < 10 := by
  unfold digitValue? at h
  obtain ⟨code, hcode, rfl⟩ := Option.map_eq_some_iff.1 h
  have hrange := List.find?_some hcode
  simp only [Bool.and_eq_true, decide_eq_true_eq] at hrange
  omega

/-- So many digits have a value below that power of ten. -/
theorem digitsValue_lt (digits : List Char) : digitsValue digits < 10 ^ digits.length := by
  induction digits using List.reverseRecOn with
  | nil => decide
  | append_singleton digits c ih =>
    have hc : (digitValue? c).getD 0 < 10 := by
      cases h : digitValue? c with
      | none => decide
      | some d => exact digitValue?_lt h
    rw [digitsValue_append_singleton, List.length_append, List.length_singleton, Nat.pow_succ]
    omega

/-- Whether characters are one or more digits, of any script, that denote a number to base
ten. -/
inductive Denotes : List Char → Nat → Prop where
  | single {c : Char} {d : Nat} (h : digitValue? c = some d) : Denotes [c] d
  | append {digits : List Char} {n : Nat} {c : Char} {d : Nat} (hdigits : Denotes digits n)
      (h : digitValue? c = some d) : Denotes (digits ++ [c]) (10 * n + d)

theorem denotes_iff {digits : List Char} {n : Nat} :
    Denotes digits n ↔
      digits ≠ [] ∧ (∀ c ∈ digits, isDigit c = true) ∧ n = digitsValue digits := by
  constructor
  · intro h
    induction h with
    | @single c d h => exact ⟨List.cons_ne_nil c [], by simp [isDigit, h], by simp [digitsValue, h]⟩
    | @append digits n c d _ h ih =>
      refine ⟨by simp, ?_, by rw [digitsValue_append_singleton, ← ih.2.2, h]; rfl⟩
      intro c' hc'
      rcases List.mem_append.1 hc' with hc' | hc'
      · exact ih.2.1 c' hc'
      · rw [List.mem_singleton.1 hc', isDigit, h]
        rfl
  · rintro ⟨hne, hdigits, rfl⟩
    induction digits using List.reverseRecOn with
    | nil => exact absurd rfl hne
    | append_singleton digits c ih =>
      obtain ⟨d, hd⟩ := Option.isSome_iff_exists.1 (hdigits c (by simp))
      rw [digitsValue_append_singleton, hd, Option.getD_some]
      cases digits with
      | nil => simpa using Denotes.single hd
      | cons c' digits =>
        exact .append (ih (List.cons_ne_nil _ _)
          fun c hc => hdigits c (List.mem_append_left _ hc)) hd

theorem Denotes.eq_digitsValue {digits : List Char} {n : Nat} (h : Denotes digits n) :
    n = digitsValue digits :=
  (denotes_iff.1 h).2.2

theorem digitValue?_digitChar {m : Nat} (h : m < 10) : digitValue? m.digitChar = some m := by
  have hdigit : isAsciiDigit m.digitChar = true :=
    isAsciiDigit_of_mem_toDigits (Nat.toDigits_of_lt_base h ▸ List.mem_singleton_self _)
  rw [digitValue?_of_isAsciiDigit hdigit]
  exact congrArg some (Nat.toNat_digitChar_sub_48_of_lt_ten h)

/-- The digits of a number have the number as their value. -/
@[simp] theorem digitsValue_toDigits (n : Nat) : digitsValue (Nat.toDigits 10 n) = n := by
  induction n using Nat.base_induction 10 (by decide) with
  | single m hm =>
    rw [Nat.toDigits_of_lt_base hm]
    show 10 * 0 + (digitValue? m.digitChar).getD 0 = m
    rw [digitValue?_digitChar hm, Option.getD_some, Nat.mul_zero, Nat.zero_add]
  | digit m k hk hm ih =>
    rw [← Nat.toDigits_append_toDigits (by decide) hm hk, Nat.toDigits_of_lt_base hk,
      digitsValue_append_singleton, ih, digitValue?_digitChar hk, Option.getD_some]

/-! ## Integers with a text -/

theorem integer?_eq_some_iff {digits : List Char} {n : Nat} :
    integer? digits = some n ↔ digits.length ≤ maxDigits ∧ digitsValue digits = n := by
  unfold integer?
  split <;> simp_all

/-- The integers that have texts are those with an absolute value below a power of ten. -/
theorem isWritable_iff {n : Int} : isWritable n = true ↔ n.natAbs < 10 ^ maxDigits := by
  rw [isWritable, decide_eq_true_iff, Nat.length_toDigits_le_iff (by decide) (by decide)]

/-- What is read can be written. -/
theorem isWritable_of_integer? {digits : List Char} {n : Nat} (h : integer? digits = some n) :
    isWritable n = true := by
  obtain ⟨hlength, rfl⟩ := integer?_eq_some_iff.1 h
  refine isWritable_iff.2 (Nat.lt_of_lt_of_le (digitsValue_lt digits) ?_)
  exact Nat.pow_le_pow_right (by decide) hlength

/-- An integer below a power of ten that is small enough has a text. -/
theorem isWritable_of_lt {n : Int} {k : Nat} (hk : k ≤ maxDigits) (h : n.natAbs < 10 ^ k) :
    isWritable n = true :=
  isWritable_iff.2 (Nat.lt_of_lt_of_le h (Nat.pow_le_pow_right (by decide) hk))

/-- What is closer to zero than an integer with a text has a text. -/
theorem isWritable_of_natAbs_le {m n : Int} (h : m.natAbs ≤ n.natAbs)
    (hn : isWritable n = true) : isWritable m = true :=
  isWritable_iff.2 (Nat.lt_of_le_of_lt h (isWritable_iff.1 hn))

/-- A power of ten has one digit more than its exponent. -/
theorem isWritable_ten_pow (k : Nat) : isWritable (10 ^ k) = decide (k < maxDigits) := by
  have habs : (10 ^ k : Int).natAbs = 10 ^ k := Int.natAbs_pow 10 k
  rw [Bool.eq_iff_iff, isWritable_iff, habs, decide_eq_true_iff]
  exact Nat.pow_lt_pow_iff_right (by decide)

/-- Digits that are too many to be read as an integer. -/
def overlongDigits : List Char := List.replicate (maxDigits + 1) '1'

theorem maxDigits_lt_length_overlongDigits : maxDigits < overlongDigits.length := by
  rw [overlongDigits, List.length_replicate]
  exact Nat.lt_succ_self maxDigits

theorem overlongDigits_ne_nil : overlongDigits ≠ [] :=
  List.ne_nil_of_length_pos (Nat.zero_lt_of_lt maxDigits_lt_length_overlongDigits)

theorem eq_of_mem_overlongDigits {c : Char} (hc : c ∈ overlongDigits) : c = '1' :=
  List.eq_of_mem_replicate hc

theorem denotes_overlongDigits : Denotes overlongDigits (digitsValue overlongDigits) :=
  denotes_iff.2 ⟨overlongDigits_ne_nil, fun _ hc => eq_of_mem_overlongDigits hc ▸ rfl, rfl⟩

/-- The least integer that has no text. -/
def leastUnwritable : Int := 10 ^ maxDigits

theorem isWritable_leastUnwritable : isWritable leastUnwritable = false :=
  (isWritable_ten_pow maxDigits).trans (decide_eq_false (Nat.lt_irrefl maxDigits))

end Tariff.Text
