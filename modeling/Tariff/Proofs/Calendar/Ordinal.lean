import Mathlib.Tactic.IntervalCases
import Tariff.Calendar.Moment

/-!
# Dates by number, and moments in UTC

The number of a date grows by one from day to day, over the ends of months and years. So
the date before the first one and the date after the last one are the only ones that
`prev?` and `next?` do not find (`ordinal_prev?`, `ordinal_next?`), and a moment has a
date in UTC exactly if its UTC clock shows a day from the first to the last
(`Moment.toInstant?_isSome_iff`).
-/

namespace Tariff

namespace Date

/-- The number of the last date. -/
def lastOrdinal : Nat := 3652059

theorem daysBeforeMonth_succ (year : Nat) {month : Nat} (h : 1 ≤ month) :
    daysBeforeMonth year (month + 1) = daysBeforeMonth year month + daysInMonth year month := by
  unfold daysBeforeMonth
  rw [show month + 1 - 1 = month - 1 + 1 by omega, List.range_succ, List.foldl_append]
  simp only [List.foldl_cons, List.foldl_nil]
  rw [Nat.sub_add_cancel h]

theorem isLeapYear_iff {year : Nat} :
    isLeapYear year = true ↔ 4 ∣ year ∧ (¬100 ∣ year ∨ 400 ∣ year) := by
  simp [isLeapYear, Nat.dvd_iff_mod_eq_zero]

theorem daysBeforeMonth_thirteen (year : Nat) :
    daysBeforeMonth year 13 = if isLeapYear year then 366 else 365 := by
  simp only [daysBeforeMonth, List.range_succ, List.range_zero, List.nil_append,
    List.cons_append, List.foldl_cons, List.foldl_nil, daysInMonth]
  split <;> rfl

theorem daysBeforeYear_succ {year : Nat} (h : 1 ≤ year) :
    daysBeforeYear (year + 1) = daysBeforeYear year + daysBeforeMonth year 13 := by
  obtain ⟨past, rfl⟩ : ∃ past, year = past + 1 := ⟨year - 1, by omega⟩
  rw [daysBeforeMonth_thirteen]
  unfold daysBeforeYear
  simp only [Nat.add_sub_cancel]
  simp only [Nat.succ_div, isLeapYear_iff]
  have hcenturies : past / 100 ≤ past / 4 := by omega
  -- Every fourth year is a leap year, but of the hundredth ones only every fourth.
  by_cases h4 : 4 ∣ past + 1
  · by_cases h100 : 100 ∣ past + 1
    · by_cases h400 : 400 ∣ past + 1
      all_goals
        simp only [h4, h100, h400, if_true, if_false, not_true, true_and, or_true, or_false]
        omega
    · have h400 : ¬400 ∣ past + 1 := fun h => h100 (Nat.dvd_trans (by decide) h)
      simp only [h4, h100, h400, if_true, if_false, not_false_iff, true_and, true_or]
      omega
  · have h100 : ¬100 ∣ past + 1 := fun h => h4 (Nat.dvd_trans (by decide) h)
    have h400 : ¬400 ∣ past + 1 := fun h => h4 (Nat.dvd_trans (by decide) h)
    simp only [h4, h100, h400, if_false, false_and]
    omega

theorem daysInMonth_bounds (year : Nat) {month : Nat} (h : 1 ≤ month) (h' : month ≤ 12) :
    28 ≤ daysInMonth year month ∧ daysInMonth year month ≤ 31 := by
  unfold daysInMonth
  interval_cases month <;> simp
  split <;> omega

theorem daysBeforeMonth_mono (year : Nat) {month : Nat} (h : 1 ≤ month) (h' : month ≤ 13) :
    daysBeforeMonth year month ≤ daysBeforeMonth year 13 := by
  induction hmissing : 13 - month generalizing month with
  | zero =>
    obtain rfl : month = 13 := by omega
    exact Nat.le_refl _
  | succ missing ih =>
    have hnext : daysBeforeMonth year (month + 1) ≤ daysBeforeMonth year 13 :=
      ih (by omega) (by omega) (by omega)
    rw [daysBeforeMonth_succ year h] at hnext
    omega

variable {d e : Date}

theorem ordinal_bounds (d : Date) : 1 ≤ d.ordinal ∧ d.ordinal ≤ lastOrdinal := by
  obtain ⟨hmonth, hmonth'⟩ := d.month_bounds
  have hday := d.day_le
  have hpos := d.day_pos
  have hyear := d.year_le
  have hmonths : daysBeforeMonth d.year (d.month + 1) ≤ daysBeforeMonth d.year 13 :=
    daysBeforeMonth_mono d.year (by omega) (by omega)
  rw [daysBeforeMonth_succ d.year hmonth] at hmonths
  have hyears := daysBeforeYear_succ d.year_pos
  have hlast : daysBeforeYear (d.year + 1) ≤ lastOrdinal := by
    unfold daysBeforeYear lastOrdinal
    dsimp only
    omega
  unfold ordinal
  omega

/-- The date after a date has the next number; only the last date has none. -/
theorem ordinal_next? (d : Date) :
    (∃ e, d.next? = some e ∧ e.ordinal = d.ordinal + 1) ∨
      (d.next? = none ∧ d.ordinal = lastOrdinal) := by
  obtain ⟨hmonth, hmonth'⟩ := d.month_bounds
  have hday := d.day_le
  have hyear := d.year_pos
  have hyear' := d.year_le
  unfold next?
  cases hsameMonth : ofYMD? d.year d.month (d.day + 1) with
  | some e =>
    obtain ⟨h1, h2, h3⟩ := ofYMD?_eq_some_iff.1 hsameMonth
    refine .inl ⟨e, rfl, ?_⟩
    unfold ordinal
    rw [h1, h2, h3]
    rfl
  | none =>
    have hlastDay : d.day = daysInMonth d.year d.month := by
      have := mt ofYMD?_isSome_iff.2 (by rw [hsameMonth]; simp)
      omega
    have hcount := daysBeforeMonth_succ d.year hmonth
    dsimp only
    cases hnextMonth : ofYMD? d.year (d.month + 1) 1 with
    | some e =>
      obtain ⟨h1, h2, h3⟩ := ofYMD?_eq_some_iff.1 hnextMonth
      refine .inl ⟨e, rfl, ?_⟩
      unfold ordinal
      rw [h1, h2, h3]
      omega
    | none =>
      have hlastMonth : d.month = 12 := by
        have hnone := mt ofYMD?_isSome_iff.2 (by rw [hnextMonth]; simp)
        by_contra hne
        have hdays : 28 ≤ daysInMonth d.year (d.month + 1) :=
          (daysInMonth_bounds d.year (by omega) (by omega)).1
        omega
      have hyears := daysBeforeYear_succ hyear
      rw [hlastMonth] at hcount hlastDay
      simp only [Nat.reduceAdd] at hcount
      dsimp only
      cases hnextYear : ofYMD? (d.year + 1) 1 1 with
      | some e =>
        obtain ⟨h1, h2, h3⟩ := ofYMD?_eq_some_iff.1 hnextYear
        refine .inl ⟨e, rfl, ?_⟩
        have hfirst : daysBeforeMonth (d.year + 1) 1 = 0 := rfl
        unfold ordinal
        rw [h1, h2, h3, hlastMonth]
        omega
      | none =>
        have hlastYear : d.year = 9999 := by
          have hnone := mt ofYMD?_isSome_iff.2 (by rw [hnextYear]; simp)
          have hdays : daysInMonth (d.year + 1) 1 = 31 := rfl
          omega
        refine .inr ⟨rfl, ?_⟩
        have hlast : daysBeforeYear 10000 = lastOrdinal := by decide
        unfold ordinal
        rw [hlastMonth]
        rw [hlastYear] at hyears hcount hlastDay ⊢
        have hdecember : daysInMonth 9999 12 = 31 := rfl
        simp only [Nat.reduceAdd] at hyears
        omega

/-- The date before a date has the number before; only the first date has none. -/
theorem ordinal_prev? (d : Date) :
    (∃ e, d.prev? = some e ∧ d.ordinal = e.ordinal + 1) ∨ (d.prev? = none ∧ d.ordinal = 1) := by
  obtain ⟨hmonth, hmonth'⟩ := d.month_bounds
  have hday := d.day_pos
  have hday' := d.day_le
  have hyear := d.year_pos
  have hyear' := d.year_le
  unfold prev?
  split
  · next hne =>
    have hsome := ofYMD?_isSome_iff.2
      (show 1 ≤ d.year ∧ d.year ≤ 9999 ∧ 1 ≤ d.day - 1 ∧ d.day - 1 ≤ daysInMonth d.year d.month by
        omega)
    obtain ⟨e, he⟩ := Option.isSome_iff_exists.1 hsome
    obtain ⟨h1, h2, h3⟩ := ofYMD?_eq_some_iff.1 he
    refine .inl ⟨e, he, ?_⟩
    unfold ordinal
    rw [h1, h2, h3]
    omega
  · split
    · next hfirst hne =>
      have hdays : 28 ≤ daysInMonth d.year (d.month - 1) :=
        (daysInMonth_bounds d.year (by omega) (by omega)).1
      have hsome := ofYMD?_isSome_iff.2 (show 1 ≤ d.year ∧ d.year ≤ 9999 ∧
          1 ≤ daysInMonth d.year (d.month - 1) ∧
          daysInMonth d.year (d.month - 1) ≤ daysInMonth d.year (d.month - 1) by omega)
      obtain ⟨e, he⟩ := Option.isSome_iff_exists.1 hsome
      obtain ⟨h1, h2, h3⟩ := ofYMD?_eq_some_iff.1 he
      have hcount := daysBeforeMonth_succ d.year (show 1 ≤ d.month - 1 by omega)
      rw [Nat.sub_add_cancel hmonth] at hcount
      refine .inl ⟨e, he, ?_⟩
      unfold ordinal
      rw [h1, h2, h3]
      omega
    · next hfirst hjanuary =>
      have hmonth1 : d.month = 1 := by omega
      have hfirstMonth : daysBeforeMonth d.year 1 = 0 := rfl
      by_cases hyear1 : d.year = 1
      · refine .inr ⟨by rw [hyear1]; rfl, ?_⟩
        have hstart : daysBeforeYear 1 = 0 := rfl
        unfold ordinal
        rw [hmonth1]
        rw [hyear1] at hfirstMonth ⊢
        omega
      · have hsome := ofYMD?_isSome_iff.2 (show 1 ≤ d.year - 1 ∧ d.year - 1 ≤ 9999 ∧ 1 ≤ 31 ∧
            31 ≤ daysInMonth (d.year - 1) 12 from ⟨by omega, by omega, by decide, Nat.le_refl _⟩)
        obtain ⟨e, he⟩ := Option.isSome_iff_exists.1 hsome
        obtain ⟨h1, h2, h3⟩ := ofYMD?_eq_some_iff.1 he
        have hyears := daysBeforeYear_succ (show 1 ≤ d.year - 1 by omega)
        have hmonths := daysBeforeMonth_succ (d.year - 1) (show 1 ≤ 12 by decide)
        rw [Nat.sub_add_cancel hyear] at hyears
        have hdecember : daysInMonth (d.year - 1) 12 = 31 := rfl
        simp only [Nat.reduceAdd] at hmonths
        refine .inl ⟨e, he, ?_⟩
        unfold ordinal
        rw [h1, h2, h3, hmonth1]
        omega

end Date

namespace Moment

/-- Whether a UTC clock shows a date from the first to the last at a moment. -/
def InRange (m : Moment) : Prop :=
  (dayLength : Int) ≤ m.utcMicroseconds ∧
    m.utcMicroseconds < ((Date.lastOrdinal + 1) * dayLength : Nat)

/-- Taking a moment to UTC keeps the point in time, and fails only out of range. -/
theorem toInstant?_cases (m : Moment) :
    (∃ i, m.toInstant? = some i ∧ i.microseconds = m.utcMicroseconds ∧ m.InRange) ∨
      (m.toInstant? = none ∧ ¬m.InRange) := by
  have htime := m.time.isLt
  have hlower := (m.offset.getD .utc).lower
  have hupper := (m.offset.getD .utc).upper
  obtain ⟨hordinal, hordinal'⟩ := m.date.ordinal_bounds
  have hutc : Offset.utc.microseconds = 0 := rfl
  unfold toInstant? InRange Instant.microseconds Instant.toMoment utcMicroseconds
  simp only [Option.getD_some, hutc]
  unfold dayLength Date.lastOrdinal at *
  split
  · next hbelow =>
    rcases m.date.ordinal_prev? with ⟨d, hd, hcount⟩ | ⟨hd, hcount⟩
    · rw [hd]
      refine .inl ⟨_, rfl, ?_⟩
      have := d.ordinal_bounds.1
      dsimp only
      omega
    · rw [hd]
      refine .inr ⟨rfl, ?_⟩
      omega
  · split
    · next habove =>
      rcases m.date.ordinal_next? with ⟨d, hd, hcount⟩ | ⟨hd, hcount⟩
      · rw [hd]
        refine .inl ⟨_, rfl, ?_⟩
        have := d.ordinal_bounds.2
        unfold Date.lastOrdinal at this
        dsimp only
        omega
      · rw [hd]
        refine .inr ⟨rfl, ?_⟩
        unfold Date.lastOrdinal at hcount
        omega
    · refine .inl ⟨_, rfl, ?_⟩
      dsimp only
      omega

theorem toInstant?_isSome_iff {m : Moment} : m.toInstant?.isSome ↔ m.InRange := by
  rcases m.toInstant?_cases with ⟨i, hi, -, hrange⟩ | ⟨hi, hrange⟩
  · simp [hi, hrange]
  · simp [hi, hrange]

theorem microseconds_of_toInstant? {m : Moment} {i : Instant} (h : m.toInstant? = some i) :
    i.microseconds = m.utcMicroseconds := by
  rcases m.toInstant?_cases with ⟨j, hj, heq, -⟩ | ⟨hj, -⟩
  · cases hj.symm.trans h
    exact heq
  · cases hj.symm.trans h

end Moment

end Tariff
