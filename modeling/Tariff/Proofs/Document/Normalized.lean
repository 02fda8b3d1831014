import Tariff.Proofs.Calendar.Stamp
import Tariff.Proofs.Document.Dates
import Tariff.Proofs.Outcome

/-!
# Normalized dates and instants

The last step of the version ladder writes dates and instants in the one form that current
documents have, and these are then read by other functions. What they read should be what was
meant: the date of a value as it is written, and its point in time to the whole second.

A date is always read back. An instant is read back exactly if its year in UTC has four digits,
since the stamp of an earlier one is not filled with zeros (`normalized_is_read_back`);
`early_instant_is_not_read_back` is an instant of the year 999.

`Value.writtenMoment?` is what a value means: the moment that it gives, a date giving its
midnight.
-/

namespace Tariff

/-- The moment that a value gives, as it is written. A date gives its midnight. -/
def Value.writtenMoment? : Value → Option Moment
  | .date d => some (.ofDate d)
  | .moment m => some m
  | .text t => Temporal.looseMoment? t
  | _ => none

namespace Temporal

variable {field t : String} {v : Value} {i : Instant} {e : ConfigError}

/-! ## Writing -/

theorem normalizeDate_eq (field : String) (v : Value) :
    normalizeDate field v = match v.writtenMoment? with
      | some m => .ok m.date.text
      | none => .error (.typeMismatch field v.kindName dateShape) := by
  unfold normalizeDate Value.writtenMoment?
  cases v with
  | scalar s =>
    cases s with
    | text s =>
      dsimp only
      cases looseMoment? s <;> rfl
    | bool b => rfl
    | number n => rfl
  | _ => rfl

theorem normalizeDate_eq_ok_iff :
    normalizeDate field v = .ok t ↔ ∃ m, v.writtenMoment? = some m ∧ m.date.text = t := by
  rw [normalizeDate_eq]
  cases v.writtenMoment? <;> simp

theorem normalizeDate_eq_error_iff :
    normalizeDate field v = .error e ↔
      v.writtenMoment? = none ∧ e = .typeMismatch field v.kindName dateShape := by
  rw [normalizeDate_eq]
  cases v.writtenMoment? <;> simp [eq_comm]

theorem normalizeInstant_eq (field : String) (v : Value) :
    normalizeInstant field v = match v.writtenMoment? with
      | some m => (instantOf field m).map Instant.stamp
      | none => .error (.typeMismatch field v.kindName instantShape) := by
  have hstamp : ∀ m, (do return (← instantOf field m).stamp : Except ConfigError String) =
      (instantOf field m).map Instant.stamp := by
    intro m
    cases instantOf field m <;> rfl
  unfold normalizeInstant Value.writtenMoment?
  cases v with
  | scalar s =>
    cases s with
    | text s =>
      dsimp only
      cases looseMoment? s with
      | none => rfl
      | some m => exact hstamp m
    | bool b => rfl
    | number n => rfl
  | date d => exact hstamp (.ofDate d)
  | moment m => exact hstamp m
  | _ => rfl

theorem instantOf_eq_ok_iff {m : Moment} : instantOf field m = .ok i ↔ m.toInstant? = some i := by
  unfold instantOf
  cases m.toInstant? <;> simp

theorem instantOf_eq_error_iff {m : Moment} :
    instantOf field m = .error e ↔ ¬m.InRange ∧ e = .invalid field (.beyondRange m) := by
  rw [← Moment.toInstant?_isSome_iff]
  unfold instantOf
  cases m.toInstant? <;> simp [eq_comm]

/-- A value is brought to the stamp of its point in time. -/
theorem normalizeInstant_eq_ok_iff :
    normalizeInstant field v = .ok t ↔
      ∃ m i, v.writtenMoment? = some m ∧ m.toInstant? = some i ∧ i.stamp = t := by
  rw [normalizeInstant_eq]
  cases v.writtenMoment? with
  | none => simp
  | some m => simp [Outcome.map_eq_ok_iff, instantOf_eq_ok_iff]

/-- A value is refused if it gives no moment, or one whose date in UTC is out of range. -/
theorem normalizeInstant_eq_error_iff :
    normalizeInstant field v = .error e ↔
      (v.writtenMoment? = none ∧ e = .typeMismatch field v.kindName instantShape) ∨
        ∃ m, v.writtenMoment? = some m ∧ ¬m.InRange ∧ e = .invalid field (.beyondRange m) := by
  rw [normalizeInstant_eq]
  cases v.writtenMoment? with
  | none => simp [eq_comm]
  | some m => simp [Outcome.map_eq_error_iff, instantOf_eq_error_iff]

/-! ## Reading -/

/-- The text of a date is read as the date. -/
theorem canonicalDate_text (field : String) (d : Date) : canonicalDate field d.text = .ok d := by
  unfold canonicalDate Iso.date? Date.text
  rw [String.toList_ofList, Iso.dateChars?_chars]

theorem isBlank_of_mem_stamp {c : Char} (h : c ∈ i.stamp.toList) : Text.isBlank c = false := by
  have htime : ∀ c ∈ i.time.secondChars, Iso.IsStamp c := by
    rw [← TimeOfDay.chars_wholeSecond]
    exact fun c hc => .inl (Iso.isClock_timeChars _ c hc)
  have hpadded : ∀ {width n : Nat}, ∀ c ∈ Text.padded width n, Iso.IsStamp c :=
    fun c hc => .inl (Iso.isClock_padded c hc)
  have hyear : ∀ c ∈ Nat.toDigits 10 i.date.year, Iso.IsStamp c :=
    fun c hc => .inl (.inl (Text.isAsciiDigit_of_mem_toDigits hc))
  have hstamp : ∀ c ∈ i.stamp.toList, Iso.IsStamp c ∨ c = 'Z' := by
    unfold Instant.stamp
    rw [String.toList_ofList, List.forall_mem_append, List.forall_mem_singleton]
    refine ⟨fun c hc => .inl ?_, .inr rfl⟩
    revert c
    simp only [List.forall_mem_append, List.forall_mem_cons]
    exact ⟨⟨⟨hyear, .inr (.inl rfl), hpadded⟩, .inr (.inl rfl), hpadded⟩,
      .inr (.inr (.inr rfl)), htime⟩
  rcases hstamp c h with hc | rfl
  · exact Text.isBlank_of_isStamp hc
  · decide

/-- A stamp is read alike whether blank space around it counts or not. -/
theorem looseMoment?_stamp (i : Instant) : looseMoment? i.stamp = Iso.moment? i.stamp := by
  rw [looseMoment?, Text.trim_eq_self fun c hc => isBlank_of_mem_stamp hc, String.ofList_toList]

/-- A stamp whose year has four digits is read, and is left as it is. -/
theorem canonicalInstant_stamp (h : 1000 ≤ i.date.year) (field : String) :
    canonicalInstant field i.stamp = .ok i.wholeSecond ∧
      normalizeInstant field (.text i.stamp) = .ok i.stamp := by
  have hmoment := Iso.moment?_stamp h
  constructor
  · have hoffset : ¬i.wholeSecond.toMoment.isNaive = true := nofun
    unfold canonicalInstant
    rw [hmoment]
    dsimp only
    rw [if_neg hoffset, instantOf_eq_ok_iff]
    exact Instant.toInstant?_toMoment i.wholeSecond
  · refine normalizeInstant_eq_ok_iff.2 ⟨_, _, ?_, Instant.toInstant?_toMoment i.wholeSecond,
      Instant.stamp_wholeSecond i⟩
    exact (looseMoment?_stamp i).trans hmoment

/-- A stamp whose year has fewer digits is refused. -/
theorem canonicalInstant_stamp_of_lt (h : i.date.year < 1000) (field : String) :
    canonicalInstant field i.stamp = .error (.typeMismatch field "text" instantShape) ∧
      normalizeInstant field (.text i.stamp) =
        .error (.typeMismatch field "text" instantShape) := by
  have hmoment := Iso.moment?_stamp_of_lt h
  constructor
  · unfold canonicalInstant
    rw [hmoment]
  · exact normalizeInstant_eq_error_iff.2 (.inl ⟨(looseMoment?_stamp i).trans hmoment, rfl⟩)

/-! ## Writing, then reading -/

/-- What was written of a date is read as the date. What was written of an instant has its
form, is read as the point in time to the whole second, and is left as it is when it is
written again, exactly if the year in UTC has four digits; in those years an instant that is
not after another is not read as one after it. A value that gives a moment is refused exactly
if its date in UTC is out of range. -/
theorem normalized_is_read_back (field : String) (v : Value) :
    (∀ t, normalizeInstant field v = .ok t →
      ∃ m i, v.writtenMoment? = some m ∧ m.toInstant? = some i ∧
        i.microseconds = m.utcMicroseconds ∧
        (1000 ≤ i.date.year →
          HasStampForm t ∧ canonicalInstant field t = .ok i.wholeSecond ∧
            i.wholeSecond.microseconds = m.utcMicroseconds / 1000000 * 1000000 ∧
            normalizeInstant field (.text t) = .ok t) ∧
        (i.date.year < 1000 →
          ¬HasStampForm t ∧
            canonicalInstant field t = .error (.typeMismatch field "text" instantShape) ∧
            normalizeInstant field (.text t) =
              .error (.typeMismatch field "text" instantShape))) ∧
    (∀ w m n i j, v.writtenMoment? = some m → w.writtenMoment? = some n →
      m.toInstant? = some i → n.toInstant? = some j →
      1000 ≤ i.date.year → 1000 ≤ j.date.year → m.utcMicroseconds ≤ n.utcMicroseconds →
      ∃ t u i' j', normalizeInstant field v = .ok t ∧ normalizeInstant field w = .ok u ∧
        canonicalInstant field t = .ok i' ∧ canonicalInstant field u = .ok j' ∧
        i'.microseconds ≤ j'.microseconds) ∧
    (∀ t, normalizeDate field v = .ok t →
      ∃ m, v.writtenMoment? = some m ∧ canonicalDate field t = .ok m.date) ∧
    ((∃ path fault, normalizeInstant field v = .error (.invalid path fault)) ↔
      ∃ m, v.writtenMoment? = some m ∧ ¬m.InRange) := by
  refine ⟨?_, ?_, ?_, ?_⟩
  · intro t ht
    obtain ⟨m, i, hm, hi, rfl⟩ := normalizeInstant_eq_ok_iff.1 ht
    have hsame := Moment.microseconds_of_toInstant? hi
    refine ⟨m, i, hm, hi, hsame, fun hyear => ?_, fun hyear => ?_⟩
    · obtain ⟨hread, hagain⟩ := canonicalInstant_stamp hyear field
      rw [← hsame]
      exact ⟨hasStampForm_stamp_iff.2 hyear, hread, i.microseconds_wholeSecond, hagain⟩
    · exact ⟨fun hform => absurd (hasStampForm_stamp_iff.1 hform) (Nat.not_le.2 hyear),
        canonicalInstant_stamp_of_lt hyear field⟩
  · intro w m n i j hm hn hi hj hyear hyear' hle
    refine ⟨i.stamp, j.stamp, i.wholeSecond, j.wholeSecond,
      normalizeInstant_eq_ok_iff.2 ⟨m, i, hm, hi, rfl⟩,
      normalizeInstant_eq_ok_iff.2 ⟨n, j, hn, hj, rfl⟩,
      (canonicalInstant_stamp hyear field).1, (canonicalInstant_stamp hyear' field).1, ?_⟩
    rw [← Moment.microseconds_of_toInstant? hi, ← Moment.microseconds_of_toInstant? hj] at hle
    rw [i.microseconds_wholeSecond, j.microseconds_wholeSecond]
    exact Int.mul_le_mul_of_nonneg_right (Int.ediv_le_ediv (by decide) hle) (by decide)
  · intro t ht
    obtain ⟨m, hm, rfl⟩ := normalizeDate_eq_ok_iff.1 ht
    exact ⟨m, hm, canonicalDate_text field m.date⟩
  · constructor
    · rintro ⟨path, fault, herror⟩
      rcases normalizeInstant_eq_error_iff.1 herror with ⟨-, heq⟩ | ⟨m, hm, hrange, -⟩
      · cases heq
      · exact ⟨m, hm, hrange⟩
    · rintro ⟨m, hm, hrange⟩
      exact ⟨field, .beyondRange m, normalizeInstant_eq_error_iff.2 (.inr ⟨m, hm, hrange, rfl⟩)⟩

/-- An instant of the year 999 is brought to a text that is refused when it is read. -/
theorem early_instant_is_not_read_back :
    normalizeInstant "starts" (.text "0999-12-31T23:59:59Z") = .ok "999-12-31T23:59:59Z" ∧
      canonicalInstant "starts" "999-12-31T23:59:59Z" =
        .error (.typeMismatch "starts" "text" instantShape) :=
  ⟨rfl, rfl⟩

/-- Half an hour after the end of a leap day. -/
def afterLeapDay : Instant :=
  ⟨⟨2028, 3, 1, by decide, by decide, by decide, by decide⟩, ⟨1800000000, by decide⟩⟩

/-- The late evening of a leap day, an hour behind UTC, is brought to the first of March and
read back. -/
theorem normalized_is_read_back_leapDay :
    normalizeInstant "starts" (.text "2028-02-29T23:30:00-01:00") = .ok "2028-03-01T00:30:00Z" ∧
      HasStampForm "2028-03-01T00:30:00Z" ∧
      canonicalInstant "starts" "2028-03-01T00:30:00Z" = .ok afterLeapDay ∧
      normalizeDate "starts" (.text "2028-02-29T23:30:00-01:00") = .ok "2028-02-29" ∧
      (∃ m : Moment, (Value.text "2028-02-29T23:30:00-01:00").writtenMoment? = some m ∧
        canonicalDate "starts" "2028-02-29" = .ok m.date) := by
  have hstamp : normalizeInstant "starts" (.text "2028-02-29T23:30:00-01:00") =
      .ok "2028-03-01T00:30:00Z" := rfl
  have hdate : normalizeDate "starts" (.text "2028-02-29T23:30:00-01:00") =
      .ok "2028-02-29" := rfl
  have hinstant : ((Value.text "2028-02-29T23:30:00-01:00").writtenMoment?.bind
      Moment.toInstant?) = some afterLeapDay := rfl
  obtain ⟨hread, -, hdates, -⟩ :=
    normalized_is_read_back "starts" (.text "2028-02-29T23:30:00-01:00")
  obtain ⟨m, i, hm, hi, -, hlate, -⟩ := hread _ hstamp
  rw [hm, Option.bind_some, hi] at hinstant
  cases hinstant
  obtain ⟨hform, hcanonical, -, -⟩ := hlate (by decide)
  exact ⟨hstamp, hform, hcanonical, hdate, hdates _ hdate⟩

end Temporal

end Tariff
