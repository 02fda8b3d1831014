import Mathlib.Tactic.IntervalCases
import Tariff.Proofs.Version.Steps

/-!
# Dates of the oldest documents

A document of version 1.0 gives the date of its creation as three integers, day, month and
year, and the first step of the ladder makes one date of them. The integers may be of any
size. `IsCalendarDate` is the rule of the calendar for them, and `isCalendarDate_iff` says
that `Date` is the type of just those triples that follow it.

The step succeeds exactly on a date (`fromV1_0_eq_ok_iff`), and otherwise names the first
part with a fault (`Fields.DateFault`, `fromV1_0_eq_error_iff`).
-/

namespace Tariff

/-! ## The calendar -/

/-- Whether a year of the Gregorian calendar has a leap day: every fourth has one, but of
the hundredth years only every fourth. -/
def HasLeapDay (year : Int) : Prop := 4 ∣ year ∧ (100 ∣ year → 400 ∣ year)

instance (year : Int) : Decidable (HasLeapDay year) :=
  inferInstanceAs (Decidable (4 ∣ year ∧ (100 ∣ year → 400 ∣ year)))

/-- The last day of a month of the Gregorian calendar. -/
def lastDay (year month : Int) : Int :=
  if month = 2 then if HasLeapDay year then 29 else 28
  else if month ∈ [4, 6, 9, 11] then 30 else 31

/-- Whether three integers are a date of the Gregorian calendar, extended backwards to
year 1 and ending with year 9999. -/
structure IsCalendarDate (year month day : Int) : Prop where
  year_pos : 1 ≤ year
  year_le : year ≤ 9999
  month_pos : 1 ≤ month
  month_le : month ≤ 12
  day_pos : 1 ≤ day
  day_le : day ≤ lastDay year month

theorem hasLeapDay_natCast (year : Nat) : HasLeapDay year ↔ isLeapYear year = true := by
  unfold HasLeapDay isLeapYear
  simp only [Bool.and_eq_true, Bool.or_eq_true, bne_iff_ne, beq_iff_eq]
  omega

theorem lastDay_natCast (year : Nat) {month : Nat} (hpos : 1 ≤ month) (hle : month ≤ 12) :
    lastDay year month = daysInMonth year month := by
  unfold lastDay
  by_cases hfebruary : month = 2
  · subst hfebruary
    have hleap := hasLeapDay_natCast year
    unfold daysInMonth
    rw [if_pos (by decide)]
    split <;> simp_all
  · rw [if_neg (by omega)]
    interval_cases month <;> simp_all [daysInMonth]

/-- A date is three integers that follow the rule of the calendar. -/
theorem isCalendarDate_iff {year month day : Int} :
    IsCalendarDate year month day ↔ ∃ d : Date, d.year = year ∧ d.month = month ∧ d.day = day := by
  constructor
  · rintro ⟨hyear, hyear', hmonth, hmonth', hday, hday'⟩
    lift year to Nat using by omega
    lift month to Nat using by omega
    lift day to Nat using by omega
    rw [lastDay_natCast year (by omega) (by omega)] at hday'
    exact ⟨⟨year, month, day, by omega, by omega, by omega, by omega⟩, rfl, rfl, rfl⟩
  · rintro ⟨d, rfl, rfl, rfl⟩
    obtain ⟨hpos, hle⟩ := d.month_bounds
    have hyear := d.year_pos
    have hyear' := d.year_le
    have hday := d.day_pos
    have hday' := d.day_le
    refine ⟨by omega, by omega, by omega, by omega, by omega, ?_⟩
    rw [lastDay_natCast d.year hpos hle]
    omega

/-- A date is that of three positive integers. -/
theorem ofYMD?_toNat_eq_some_iff {year month day : Int} (hyear : 0 < year) (hmonth : 0 < month)
    (hday : 0 < day) {d : Date} :
    Date.ofYMD? year.toNat month.toNat day.toNat = some d ↔
      d.year = year ∧ d.month = month ∧ d.day = day := by
  rw [Date.ofYMD?_eq_some_iff]
  omega

/-! ## The parts -/

namespace Fields

variable {fields out : Fields} {name : String} {e : ConfigError} {refusal : Refusal ConfigError}

/-- Whether a field is a positive integer, as a part of a date has to be. -/
def IsPart (fields : Fields) (name : String) (n : Int) : Prop :=
  fields.present? name = some (.int n) ∧ 0 < n

/-- What can be wrong with a field that has to be a positive integer. -/
inductive PartFault (fields : Fields) (name : String) : ConfigError → Prop where
  | absent (h : fields.present? name = none) : PartFault fields name (.missing name)
  | mistyped {v : Value} (h : fields.present? name = some v) (hv : ∀ n, v ≠ .int n) :
      PartFault fields name (.typeMismatch name v.kindName "a positive integer")
  | notPositive {n : Int} (h : fields.present? name = some (.int n)) (hn : n ≤ 0) :
      PartFault fields name (.invalid name (.notPositive n))

theorem datePart_eq_ok_iff {n : Int} : fields.datePart name = .ok n ↔ fields.IsPart name n := by
  unfold datePart IsPart
  split
  · next h => simp [h]
  · next k h =>
    rw [h]
    by_cases hk : 0 < k
    · simp only [if_pos hk, Except.ok.injEq, Option.some.injEq, Value.scalar.injEq,
        Scalar.number.injEq, Number.int.injEq]
      constructor
      · rintro rfl
        exact ⟨rfl, hk⟩
      · exact fun h => h.1
    · simp only [if_neg hk, reduceCtorEq, false_iff]
      rintro ⟨heq, hn⟩
      cases heq
      exact hk hn
  · next v hv h =>
    simp only [reduceCtorEq, false_iff]
    rintro ⟨heq, -⟩
    rw [h] at heq
    cases heq
    exact hv n rfl

theorem datePart_eq_error_iff :
    fields.datePart name = .error refusal ↔ ∃ e, fields.PartFault name e ∧ refusal = e.refusal := by
  constructor
  · intro h
    unfold datePart at h
    split at h
    · next habsent =>
      cases h
      exact ⟨_, .absent habsent, rfl⟩
    · next n hn =>
      split at h
      · cases h
      · next hpos =>
        cases h
        exact ⟨_, .notPositive hn (by omega), rfl⟩
    · next v hv hpresent =>
      cases h
      exact ⟨_, .mistyped hpresent fun n heq => hv n heq, rfl⟩
  · rintro ⟨e, fault, rfl⟩
    unfold datePart
    cases fault with
    | absent h =>
      rw [h]
      rfl
    | mistyped h hv =>
      rw [h]
      split
      · next heq => cases heq
      · next n heq =>
        cases heq
        exact absurd rfl (hv n)
      · next w hw heq =>
        cases heq
        rfl
    | @notPositive n h hn =>
      rw [h]
      exact if_neg (by omega)

/-! ## The step -/

/-- What can be wrong with the date of a document of the oldest version: the first of its
parts that is no positive integer, or that the three are no date. -/
inductive DateFault (fields : Fields) : ConfigError → Prop where
  | part {before after : List String} {name : String} {e : ConfigError}
      (order : legacyDateFields = before ++ name :: after)
      (sound : ∀ other ∈ before, ∃ n, fields.IsPart other n) (fault : fields.PartFault name e) :
      DateFault fields e
  | noDate {day month year : Int} (hday : fields.IsPart "day" day)
      (hmonth : fields.IsPart "month" month) (hyear : fields.IsPart "year" year)
      (h : ¬IsCalendarDate year month day) :
      DateFault fields (.invalid "day" (.noSuchDate year month day))

theorem misplaced_v1_0_eq_nil_iff :
    fields.misplaced .v1_0 = [] ↔ fields.has "createdAt" = false := by
  rw [misplaced_v1_0]
  cases fields.has "createdAt" <;> simp

/-- The first step succeeds on a date, and sets it as one text. -/
theorem fromV1_0_eq_ok_iff :
    fields.fromV1_0 = .ok out ↔ fields.has "createdAt" = false ∧ ∃ d : Date,
      fields.present? "day" = some (.int d.day) ∧ fields.present? "month" = some (.int d.month) ∧
      fields.present? "year" = some (.int d.year) ∧
      out = ((fields.without legacyDateFields).set "version" (.text Version.v1_1.text)).set
        "createdAt" (.text d.text) := by
  constructor
  · intro h
    obtain ⟨day, month, year, d, hmisplaced, hday, hmonth, hyear, hdate, rfl⟩ := fromV1_0_eq_ok h
    rw [datePart_eq_ok_iff] at hday hmonth hyear
    obtain ⟨rfl, rfl, rfl⟩ := (ofYMD?_toNat_eq_some_iff hyear.2 hmonth.2 hday.2).1 hdate
    exact ⟨misplaced_v1_0_eq_nil_iff.1 hmisplaced, d, hday.1, hmonth.1, hyear.1, rfl⟩
  · rintro ⟨hcreated, d, hday, hmonth, hyear, rfl⟩
    obtain ⟨hyearPos, -, hmonthPos, -, hdayPos, -⟩ := isCalendarDate_iff.2 ⟨d, rfl, rfl, rfl⟩
    unfold fromV1_0
    rw [checkWindows_eq_ok_iff.2 (misplaced_v1_0_eq_nil_iff.2 hcreated),
      datePart_eq_ok_iff.2 ⟨hday, hdayPos⟩, datePart_eq_ok_iff.2 ⟨hmonth, hmonthPos⟩,
      datePart_eq_ok_iff.2 ⟨hyear, hyearPos⟩]
    simp only [Outcome.bind_eq_ok_iff]
    refine ⟨(), rfl, _, rfl, _, rfl, _, rfl, ?_⟩
    rw [Int.toNat_natCast, Int.toNat_natCast, Int.toNat_natCast, Date.ofYMD?_self]
    rfl

/-- A document with a fault in its date is refused for it. -/
theorem fromV1_0_of_dateFault (hcreated : fields.has "createdAt" = false)
    (fault : fields.DateFault e) : fields.fromV1_0 = .error e.refusal := by
  unfold fromV1_0
  rw [checkWindows_eq_ok_iff.2 (misplaced_v1_0_eq_nil_iff.2 hcreated)]
  simp only [Outcome.bind_eq_error_iff]
  refine .inr ⟨(), rfl, ?_⟩
  cases fault with
  | @part before after name e order sound fault =>
    -- The fault is in the day, the month or the year, and none is in the parts before it.
    have herror := datePart_eq_error_iff.2 ⟨e, fault, rfl⟩
    have hok : ∀ other ∈ before, ∃ n, fields.datePart other = .ok n := fun other hother =>
      (sound other hother).imp fun n hn => datePart_eq_ok_iff.2 hn
    match before, order with
    | [], order =>
      cases order
      exact .inl herror
    | [_], order =>
      cases order
      obtain ⟨day, hday⟩ := hok "day" (by simp)
      exact .inr ⟨day, hday, .inl herror⟩
    | [_, _], order =>
      cases order
      obtain ⟨day, hday⟩ := hok "day" (by simp)
      obtain ⟨month, hmonth⟩ := hok "month" (by simp)
      exact .inr ⟨day, hday, .inr ⟨month, hmonth, .inl herror⟩⟩
    | _ :: _ :: _ :: rest, order =>
      have hlength := congrArg List.length order
      simp [legacyDateFields] at hlength
  | @noDate day month year hday hmonth hyear hnot =>
    refine .inr ⟨day, datePart_eq_ok_iff.2 hday, .inr ⟨month, datePart_eq_ok_iff.2 hmonth,
      .inr ⟨year, datePart_eq_ok_iff.2 hyear, ?_⟩⟩⟩
    cases hdate : Date.ofYMD? year.toNat month.toNat day.toNat with
    | none => rfl
    | some d =>
      exact absurd (isCalendarDate_iff.2
        ⟨d, (ofYMD?_toNat_eq_some_iff hyear.2 hmonth.2 hday.2).1 hdate⟩) hnot

/-- A document of the oldest version is refused for a date that it must not have yet, or for
a fault in the one that it must have. -/
theorem fromV1_0_eq_error_iff :
    fields.fromV1_0 = .error refusal ↔
      (fields.has "createdAt" = true ∧
          refusal = .because (.version (.mixedFields ["createdAt"] .v1_0))) ∨
        (fields.has "createdAt" = false ∧ ∃ e, fields.DateFault e ∧ refusal = e.refusal) := by
  have hwindows : ∀ r, fields.checkWindows .v1_0 = .error r ↔ fields.misplaced .v1_0 ≠ [] ∧
      r = .because (.version (.mixedFields (fields.misplaced .v1_0) .v1_0)) :=
    fun r => checkWindows_eq_error_iff (by decide)
  constructor
  · intro h
    unfold fromV1_0 at h
    simp only [Outcome.bind_eq_error_iff, hwindows, checkWindows_eq_ok_iff,
      datePart_eq_ok_iff, datePart_eq_error_iff, ne_eq, misplaced_v1_0_eq_nil_iff,
      Bool.not_eq_false] at h
    rcases h with ⟨hcreated, rfl⟩ | ⟨-, hcreated, h⟩
    · rw [misplaced_v1_0, if_pos hcreated]
      exact .inl ⟨hcreated, rfl⟩
    · refine .inr ⟨hcreated, ?_⟩
      rcases h with ⟨e, fault, rfl⟩ | ⟨day, hday, ⟨e, fault, rfl⟩ | ⟨month, hmonth,
        ⟨e, fault, rfl⟩ | ⟨year, hyear, h⟩⟩⟩
      · exact ⟨e, .part (List.nil_append _).symm nofun fault, rfl⟩
      · refine ⟨e, .part (show _ = ["day"] ++ "month" :: _ from rfl) ?_ fault, rfl⟩
        simpa using ⟨day, hday⟩
      · refine ⟨e, .part (show _ = ["day", "month"] ++ "year" :: _ from rfl) ?_ fault, rfl⟩
        simpa using ⟨⟨day, hday⟩, month, hmonth⟩
      · split at h
        · next hnone =>
          cases h
          refine ⟨_, .noDate hday hmonth hyear fun hdate => ?_, rfl⟩
          obtain ⟨d, hd⟩ := isCalendarDate_iff.1 hdate
          rw [(ofYMD?_toNat_eq_some_iff hyear.2 hmonth.2 hday.2).2 hd] at hnone
          cases hnone
        · cases h
  · rintro (⟨hcreated, rfl⟩ | ⟨hcreated, e, fault, rfl⟩)
    · unfold fromV1_0
      rw [Outcome.bind_eq_error_iff, hwindows, misplaced_v1_0, if_pos hcreated]
      exact .inl ⟨by simp, rfl⟩
    · exact fromV1_0_of_dateFault hcreated fault

/-- No fault in a date is one of versions. -/
theorem DateFault.ne_version {fault : VersionFault} : ¬fields.DateFault (.version fault) := by
  rintro (⟨-, -, hpart⟩ | -)
  cases hpart

end Fields

end Tariff
