import Mathlib.Data.List.Forall2
import Tariff.Proofs.Calendar.Ordinal
import Tariff.Proofs.Calendar.ReadBack

/-!
# Reading stamps back

The stamp of an instant is its text in a current document, to the whole second. It should
have the form `YYYY-MM-DDTHH:MM:SSZ`, but its year is not filled to four digits. So the
stamp has the form, and is read as the instant without the fraction of its second, exactly
for the years from 1000 on (`hasStampForm_stamp_iff`, `Iso.moment?_stamp`). The stamp of
an earlier year is read as nothing (`Iso.moment?_stamp_of_lt`), since whatever is read as
a date begins with four digits.
-/

namespace Tariff

open Text (isAsciiDigit padded)

/-! ## Whole seconds -/

namespace TimeOfDay

/-- A time without the fraction of its second. -/
def wholeSecond (t : TimeOfDay) : TimeOfDay :=
  ⟨t.val / 1000000 * 1000000, Nat.lt_of_le_of_lt (Nat.div_mul_le_self _ _) t.isLt⟩

theorem secondChars_wholeSecond (t : TimeOfDay) : t.wholeSecond.secondChars = t.secondChars := by
  have hhour : t.wholeSecond.hour = t.hour := by
    unfold hour wholeSecond
    dsimp only
    omega
  have hminute : t.wholeSecond.minute = t.minute := by
    unfold minute wholeSecond
    dsimp only
    omega
  have hsecond : t.wholeSecond.second = t.second := by
    unfold second wholeSecond
    dsimp only
    omega
  unfold secondChars
  rw [hhour, hminute, hsecond]

/-- A time without a fraction is shown without one. -/
theorem chars_wholeSecond (t : TimeOfDay) : t.wholeSecond.chars = t.secondChars := by
  have hfraction : t.wholeSecond.microsecond = 0 := Nat.mul_mod_left _ _
  unfold chars
  rw [secondChars_wholeSecond, hfraction, fractionChars, if_pos rfl, List.append_nil]

end TimeOfDay

namespace Instant

/-- An instant without the fraction of its second. -/
def wholeSecond (i : Instant) : Instant := ⟨i.date, i.time.wholeSecond⟩

/-- Microseconds are counted from the start of a second. -/
theorem microseconds_wholeSecond (i : Instant) :
    i.wholeSecond.microseconds = i.microseconds / 1000000 * 1000000 := by
  have hutc : Offset.utc.microseconds = 0 := rfl
  unfold microseconds wholeSecond toMoment Moment.utcMicroseconds TimeOfDay.wholeSecond dayLength
  simp only [Option.getD_some, hutc]
  omega

/-- A stamp does not show the fraction. -/
theorem stamp_wholeSecond (i : Instant) : i.wholeSecond.stamp = i.stamp := by
  unfold stamp wholeSecond
  rw [TimeOfDay.secondChars_wholeSecond]

/-- An instant is the point in time that a UTC clock shows. -/
theorem toInstant?_toMoment (i : Instant) : i.toMoment.toInstant? = some i := by
  have htime := i.time.isLt
  have hutc : Offset.utc.microseconds = 0 := rfl
  unfold Moment.toInstant? toMoment
  simp only [Option.getD_some, hutc]
  rw [dif_neg (by omega), dif_neg (by omega)]
  simp

end Instant

/-! ## The form of a stamp -/

/-- Whether a character can stand in the place of a mark: a digit in that of a letter of the
date or the time, and the mark itself otherwise. -/
def FitsMark (mark c : Char) : Prop :=
  if mark ∈ ['Y', 'M', 'D', 'H', 'S'] then isAsciiDigit c = true else c = mark

/-- The form of a date. -/
def dateForm : List Char := ['Y', 'Y', 'Y', 'Y', '-', 'M', 'M', '-', 'D', 'D']

/-- The form of a time to the second. -/
def timeForm : List Char := ['H', 'H', ':', 'M', 'M', ':', 'S', 'S']

/-- Whether a text has the form `YYYY-MM-DDTHH:MM:SSZ`. -/
def HasStampForm (t : String) : Prop :=
  List.Forall₂ FitsMark (dateForm ++ 'T' :: timeForm ++ ['Z']) t.toList

theorem fits_padded {mark : Char} (hmark : mark ∈ ['Y', 'M', 'D', 'H', 'S']) {width : Nat}
    (hwidth : 0 < width) {n : Nat} (h : n < 10 ^ width) :
    List.Forall₂ FitsMark (List.replicate width mark) (padded width n) := by
  have hdigits : ∀ cs : List Char, (∀ c ∈ cs, isAsciiDigit c = true) →
      List.Forall₂ FitsMark (List.replicate cs.length mark) cs := by
    intro cs hcs
    induction cs with
    | nil => exact .nil
    | cons c cs ih =>
      have hfits : FitsMark mark c := by
        unfold FitsMark
        rw [if_pos hmark]
        exact hcs c List.mem_cons_self
      exact .cons hfits (ih fun d hd => hcs d (List.mem_cons_of_mem _ hd))
  have hpadded := hdigits (padded width n) fun c hc => Text.isAsciiDigit_of_mem_padded hc
  rwa [Text.length_padded hwidth h] at hpadded

theorem length_toDigits_year {d : Date} :
    (Nat.toDigits 10 d.year).length ≤ 4 ∧
      (1000 ≤ d.year ↔ (Nat.toDigits 10 d.year).length = 4) := by
  have hfour := Nat.length_toDigits_le_iff (b := 10) (n := d.year) (k := 4) (by decide) (by decide)
  have hthree := Nat.length_toDigits_le_iff (b := 10) (n := d.year) (k := 3) (by decide) (by decide)
  have hyear := d.year_le
  omega

/-- The stamp of an instant whose year has four digits begins with the date in full. -/
theorem Instant.stamp_eq {i : Instant} (h : 1000 ≤ i.date.year) :
    i.stamp = String.ofList (i.date.chars ++ 'T' :: i.time.secondChars ++ ['Z']) := by
  have hyear : padded 4 i.date.year = Nat.toDigits 10 i.date.year := by
    unfold padded
    dsimp only
    rw [length_toDigits_year.2.1 h]
    rfl
  unfold stamp Date.chars
  rw [hyear]

theorem fits_date (d : Date) : List.Forall₂ FitsMark dateForm d.chars := by
  have hmonths := d.month_bounds
  have hdays := d.day_le.trans (Iso.daysInMonth_le d.year d.month)
  have hyear := fits_padded (show 'Y' ∈ _ by decide) (show 0 < 4 by decide)
    (Nat.lt_succ_of_le d.year_le)
  have hmonth := fits_padded (show 'M' ∈ _ by decide) (show 0 < 2 by decide)
    (show d.month < 10 ^ 2 by omega)
  have hday := fits_padded (show 'D' ∈ _ by decide) (show 0 < 2 by decide)
    (show d.day < 10 ^ 2 by omega)
  have hmark : FitsMark '-' '-' := rfl
  exact List.rel_append (List.rel_append hyear (.cons hmark hmonth)) (.cons hmark hday)

theorem fits_time (t : TimeOfDay) : List.Forall₂ FitsMark timeForm t.secondChars := by
  have ht := t.isLt
  have hhours : t.hour < 100 := by
    unfold TimeOfDay.hour
    unfold dayLength at ht
    omega
  have hminutes : t.minute < 60 := Nat.mod_lt _ (by decide)
  have hseconds : t.second < 60 := Nat.mod_lt _ (by decide)
  have hhour := fits_padded (show 'H' ∈ _ by decide) (show 0 < 2 by decide) hhours
  have hminute := fits_padded (show 'M' ∈ _ by decide) (show 0 < 2 by decide)
    (show t.minute < 10 ^ 2 by omega)
  have hsecond := fits_padded (show 'S' ∈ _ by decide) (show 0 < 2 by decide)
    (show t.second < 10 ^ 2 by omega)
  have hmark : FitsMark ':' ':' := rfl
  exact List.rel_append (List.rel_append hhour (.cons hmark hminute)) (.cons hmark hsecond)

/-- A stamp has its form exactly if its year has four digits. -/
theorem hasStampForm_stamp_iff {i : Instant} : HasStampForm i.stamp ↔ 1000 ≤ i.date.year := by
  unfold HasStampForm
  constructor
  · intro hform
    -- All but the year has as many characters as in the form.
    have hdate := (fits_date i.date).length_eq
    have htime := (fits_time i.time).length_eq
    have hlength := hform.length_eq
    have hyear := length_toDigits_year (d := i.date)
    have hfour := Text.length_padded (show 0 < 4 by decide) (Nat.lt_succ_of_le i.date.year_le)
    unfold Date.chars at hdate
    unfold Instant.stamp at hlength
    simp only [String.toList_ofList, List.length_append, List.length_cons, List.length_nil]
      at hdate hlength
    omega
  · intro hyear
    rw [Instant.stamp_eq hyear, String.toList_ofList]
    have hbetween : FitsMark 'T' 'T' := rfl
    have hlast : FitsMark 'Z' 'Z' := rfl
    exact List.rel_append (List.rel_append (fits_date i.date) (.cons hbetween (fits_time i.time)))
      (.cons hlast .nil)

/-! ## Reading -/

namespace Iso

/-- A final `Z` stands for the offset of UTC. -/
theorem spellZulu_append (cs : List Char) : spellZulu (cs ++ ['Z']) = cs ++ Offset.utc.chars := by
  have hutc : Offset.utc.chars = "+00:00".toList := by decide
  unfold spellZulu
  rw [List.getLast?_concat, List.dropLast_concat, hutc]
  rfl

/-- The stamp of an instant whose year has four digits is read as the instant, without the
fraction of its second. -/
theorem moment?_stamp {i : Instant} (h : 1000 ≤ i.date.year) :
    moment? i.stamp = some i.wholeSecond.toMoment := by
  have hchars : i.date.chars ++ 'T' :: i.time.secondChars ++ Offset.utc.chars =
      i.wholeSecond.toMoment.chars 'T' := by
    show _ = i.date.chars ++ 'T' :: i.time.wholeSecond.chars ++ Offset.utc.chars
    rw [TimeOfDay.chars_wholeSecond]
  unfold moment?
  rw [Instant.stamp_eq h, String.toList_ofList, spellZulu_append, hchars, momentChars?_chars]
  rfl

theorem isAsciiDigit_of_digits? {cs : List Char} {n : Nat} (h : digits? cs = some n) :
    ∀ c ∈ cs, isAsciiDigit c = true := by
  induction cs using List.reverseRecOn generalizing n with
  | nil => exact nofun
  | append_singleton cs c ih =>
    unfold digits? at h
    rw [List.foldlM_append] at h
    obtain ⟨value, hvalue, hlast⟩ := Option.bind_eq_some_iff.1 h
    have hc : isAsciiDigit c = true := by
      by_contra hnot
      have hnone : Text.asciiDigitValue? c = none :=
        if_neg fun hrange => hnot (decide_eq_true hrange)
      simp [hnone] at hlast
    rw [List.forall_mem_append, List.forall_mem_singleton]
    exact ⟨ih hvalue, hc⟩

/-- Whatever is read as a date begins with four digits. -/
theorem isAsciiDigit_of_dateChars? {cs : List Char} {d : Date} (h : dateChars? cs = some d) :
    ∀ c ∈ cs.take 4, isAsciiDigit c = true := by
  have hyear : ∀ {digits : List Char} {rest : Nat → Option Date},
      (digits? digits >>= rest) = some d → ∀ c ∈ digits, isAsciiDigit c = true := by
    intro digits rest hrest
    obtain ⟨year, hread, -⟩ := Option.bind_eq_some_iff.1 hrest
    exact isAsciiDigit_of_digits? hread
  unfold dateChars? at h
  split at h
  · exact hyear h
  · exact hyear h
  · exact hyear h
  · exact hyear h
  · split at h
    · exact hyear h
    · cases h
  · split at h
    · exact hyear h
    · cases h
  · cases h

theorem seven_le_dateLength (cs : List Char) : 7 ≤ dateLength cs := by
  unfold dateLength
  split
  · split <;> decide
  · decide
  · dsimp only
    split
    · exact Nat.le_add_right _ _
    · split <;> decide
  · decide

/-- Whatever is read as a moment begins with four digits. -/
theorem isAsciiDigit_of_momentChars? {cs : List Char} {m : Moment} (h : momentChars? cs = some m) :
    ∀ c ∈ cs.take 4, isAsciiDigit c = true := by
  have hdate : ∀ {d : Date}, dateChars? (cs.take (dateLength cs)) = some d →
      ∀ c ∈ cs.take 4, isAsciiDigit c = true := by
    intro d hd
    have hdigits := isAsciiDigit_of_dateChars? hd
    rwa [List.take_take, Nat.min_eq_left (Nat.le_trans (by decide) (seven_le_dateLength cs))]
      at hdigits
  unfold momentChars? at h
  split at h
  · cases h
  · dsimp only at h
    split at h
    · obtain ⟨d, hd, -⟩ := Option.map_eq_some_iff.1 h
      exact hdate hd
    · obtain ⟨d, hd, -⟩ := Option.bind_eq_some_iff.1 h
      exact hdate hd

/-- The stamp of an instant whose year has fewer digits is read as nothing. -/
theorem moment?_stamp_of_lt {i : Instant} (h : i.date.year < 1000) : moment? i.stamp = none := by
  have hdigits := length_toDigits_year (d := i.date)
  have hspelled : ∃ rest, spellZulu i.stamp.toList = Nat.toDigits 10 i.date.year ++ '-' :: rest := by
    unfold Instant.stamp
    rw [String.toList_ofList, spellZulu_append]
    simp only [List.append_assoc, List.cons_append]
    exact ⟨_, rfl⟩
  obtain ⟨rest, hrest⟩ := hspelled
  rw [Option.eq_none_iff_forall_not_mem]
  intro m hm
  unfold moment? at hm
  rw [hrest] at hm
  have hmem : '-' ∈ (Nat.toDigits 10 i.date.year ++ '-' :: rest).take 4 := by
    rw [List.take_append, List.mem_append]
    obtain ⟨k, hk⟩ : ∃ k, 4 - (Nat.toDigits 10 i.date.year).length = k + 1 :=
      ⟨3 - (Nat.toDigits 10 i.date.year).length, by omega⟩
    rw [hk, List.take_succ_cons]
    exact .inr List.mem_cons_self
  cases isAsciiDigit_of_momentChars? hm '-' hmem

end Iso

end Tariff
