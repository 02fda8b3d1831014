import Tariff.Calendar.Iso
import Tariff.Proofs.Text.Digits

/-!
# Reading dates and moments back

The standard text of a date is read as the midnight of that date, and the standard text of a
moment as the moment (`Iso.moment?_text`, `Iso.moment?_isoText`). One thing is lost: an offset
that is not zero but less than a second is read as that of UTC (`Moment.asRead`). The proof
goes from the digits of one number to the parts of a clock, to the time with its offset, and
to the whole text.

The texts are made of digits and a few marks (`IsStamp`). None of these is blank, none is a
letter that stands for an offset, and the signs occur nowhere in a time, so that the reader
cuts the text where it was put together.
-/

namespace Tariff

open Text (isAsciiDigit padded)

namespace Text

/-! ## Numbers of fixed width -/

theorem isAsciiDigit_of_mem_padded {width n : Nat} {c : Char} (h : c ∈ padded width n) :
    isAsciiDigit c = true := by
  unfold padded at h
  rcases List.mem_append.1 h with h | h
  · rw [List.eq_of_mem_replicate h]
    rfl
  · exact isAsciiDigit_of_mem_toDigits h

theorem digitsValue_padded (width n : Nat) : digitsValue (padded width n) = n := by
  unfold padded
  rw [digitsValue_zeros_append, digitsValue_toDigits]

/-- A number that is not too large is as wide as it was to be. -/
theorem length_padded {width n : Nat} (hwidth : 0 < width) (h : n < 10 ^ width) :
    (padded width n).length = width := by
  have hlength : (Nat.toDigits 10 n).length ≤ width :=
    (Nat.length_toDigits_le_iff (by decide) hwidth).2 h
  unfold padded
  rw [List.length_append, List.length_replicate]
  omega

end Text

namespace Iso

/-- The reader of digits gives their value. -/
theorem digits?_eq_some {cs : List Char} (h : ∀ c ∈ cs, isAsciiDigit c = true) :
    digits? cs = some (Text.digitsValue cs) := by
  induction cs using List.reverseRecOn with
  | nil => rfl
  | append_singleton cs c ih =>
    have hc : isAsciiDigit c = true := h c (by simp)
    have hvalue : Text.asciiDigitValue? c = Text.digitValue? c := by
      rw [Text.digitValue?_of_isAsciiDigit hc]
      exact if_pos (of_decide_eq_true hc)
    have hfront := ih fun d hd => h d (List.mem_append_left _ hd)
    unfold digits? at hfront ⊢
    rw [List.foldlM_append, hfront, Text.digitsValue_append_singleton]
    show ((Text.asciiDigitValue? c).map (10 * Text.digitsValue cs + ·)).bind some = _
    rw [hvalue, Text.digitValue?_of_isAsciiDigit hc]
    rfl

theorem digits?_padded (width n : Nat) : digits? (padded width n) = some n := by
  rw [digits?_eq_some fun c hc => Text.isAsciiDigit_of_mem_padded hc, Text.digitsValue_padded]

/-- Two digits, and what they denote. -/
theorem exists_padded_two {n : Nat} (h : n < 100) :
    ∃ a b, padded 2 n = [a, b] ∧ isAsciiDigit a = true ∧ digits? [a, b] = some n := by
  obtain ⟨a, b, hab⟩ := List.length_eq_two.1 (Text.length_padded (by decide) h)
  refine ⟨a, b, hab, Text.isAsciiDigit_of_mem_padded (hab ▸ List.mem_cons_self), ?_⟩
  rw [← hab, digits?_padded]

/-! ## Dates -/

theorem daysInMonth_le (year month : Nat) : daysInMonth year month ≤ 31 := by
  unfold daysInMonth
  split <;> first | omega | (split <;> omega)

/-- The characters of a date: the digits of its parts and two marks between them. -/
theorem exists_dateChars (d : Date) :
    ∃ y₁ y₂ y₃ y₄ m₁ m₂ d₁ d₂, d.chars = [y₁, y₂, y₃, y₄, '-', m₁, m₂, '-', d₁, d₂] ∧
      isAsciiDigit m₁ = true ∧ digits? [y₁, y₂, y₃, y₄] = some d.year ∧
      digits? [m₁, m₂] = some d.month ∧ digits? [d₁, d₂] = some d.day := by
  have hyear := d.year_le
  obtain ⟨hmonth, hmonth'⟩ := d.month_bounds
  have hday : d.day ≤ 31 := d.day_le.trans (daysInMonth_le d.year d.month)
  obtain ⟨y₁, y₂, y₃, y₄, hy⟩ :=
    List.length_eq_four.1
      (Text.length_padded (show 0 < 4 by decide) (show d.year < 10 ^ 4 by omega))
  obtain ⟨m₁, m₂, hm, hm₁, hmonthDigits⟩ := exists_padded_two (show d.month < 100 by omega)
  obtain ⟨d₁, d₂, hd, -, hdayDigits⟩ := exists_padded_two (show d.day < 100 by omega)
  refine ⟨y₁, y₂, y₃, y₄, m₁, m₂, d₁, d₂, ?_, hm₁, ?_, hmonthDigits, hdayDigits⟩
  · unfold Date.chars
    rw [hy, hm, hd]
    rfl
  · rw [← hy, digits?_padded]

theorem ne_of_isAsciiDigit {c mark : Char} (hc : isAsciiDigit c = true)
    (hmark : isAsciiDigit mark = false) : c ≠ mark := by
  rintro rfl
  rw [hc] at hmark
  cases hmark

theorem dateChars?_chars (d : Date) : dateChars? d.chars = some d := by
  obtain ⟨y₁, y₂, y₃, y₄, m₁, m₂, d₁, d₂, hchars, hm₁, hyear, hmonth, hday⟩ := exists_dateChars d
  have hweek : m₁ ≠ 'W' := ne_of_isAsciiDigit hm₁ rfl
  rw [hchars, dateChars?]
  · rw [hyear, hmonth, hday]
    exact d.ofYMD?_self
  · intro heq
    exact absurd heq hweek

/-- After a date in full, the reader looks for the time. -/
theorem dateLength_chars (d : Date) (rest : List Char) : dateLength (d.chars ++ rest) = 10 := by
  obtain ⟨y₁, y₂, y₃, y₄, m₁, m₂, d₁, d₂, hchars, hm₁, -⟩ := exists_dateChars d
  have hweek : m₁ ≠ 'W' := ne_of_isAsciiDigit hm₁ rfl
  rw [hchars]
  unfold dateLength
  simp [hweek]

/-! ## Clocks -/

namespace Clock

theorem pair?_padded {n : Nat} (h : n < 100) (rest : List Char) :
    pair? (padded 2 n ++ rest) = some (n, rest) := by
  obtain ⟨a, b, hab, -, hdigits⟩ := exists_padded_two h
  rw [hab]
  show (digits? [a, b]).bind (fun value => some (value, rest)) = _
  rw [hdigits]
  rfl

/-- Six digits are read to their end as the microseconds. -/
theorem fraction?_padded {n : Nat} (h : n < 1000000) : fraction? (padded 6 n) = some (n, true) := by
  have hlength : (padded 6 n).length = 6 := Text.length_padded (by decide) h
  unfold fraction?
  rw [List.take_append_of_le_length (by omega), List.take_of_length_le (by omega), digits?_padded,
    List.drop_of_length_le (by omega)]
  rfl

/-- The last part of a time, with its fraction. -/
theorem parts?_last {n microsecond : Nat} (h : n < 100) (hmicrosecond : microsecond < 1000000)
    (most : Nat) :
    parts? true (most + 1) (padded 2 n ++ TimeOfDay.fractionChars microsecond) =
      some ([n], microsecond, true) := by
  rw [parts?, pair?_padded h]
  unfold TimeOfDay.fractionChars
  split
  · next hzero =>
    rw [hzero]
    rfl
  · obtain ⟨c, cs, hcs⟩ := List.exists_cons_of_length_pos
      (show 0 < (padded 6 microsecond).length by
        rw [Text.length_padded (by decide) hmicrosecond]
        decide)
    have hnext : next? true ('.' :: padded 6 microsecond) =
        some (.fraction (padded 6 microsecond)) := by
      rw [hcs]
      rfl
    simp [hnext, fraction?_padded hmicrosecond]

/-- A part of a time before a colon. -/
theorem parts?_colon {n : Nat} (h : n < 100) {rest : List Char} (hrest : rest ≠ [])
    {parts : List Nat} {most microsecond : Nat} {isWhole : Bool}
    (hparts : parts? true most rest = some (parts, microsecond, isWhole)) :
    parts? true (most + 1) (padded 2 n ++ ':' :: rest) =
      some (n :: parts, microsecond, isWhole) := by
  obtain ⟨c, cs, rfl⟩ := List.exists_cons_of_ne_nil hrest
  have hnext : next? true (':' :: c :: cs) = some (.part (c :: cs)) := rfl
  rw [parts?, pair?_padded h]
  simp [hnext, hparts]

theorem padded_append_ne_nil {n : Nat} (h : n < 100) (rest : List Char) :
    padded 2 n ++ rest ≠ [] := by
  obtain ⟨a, b, hab, -⟩ := exists_padded_two h
  rw [hab]
  exact List.cons_ne_nil _ _

/-- A time whose hour a colon follows has colons. -/
theorem ofChars?_eq_some {hour : Nat} (h : hour < 100) {rest : List Char} {parts : List Nat}
    {microsecond : Nat} {isWhole : Bool}
    (hparts : parts? true 3 (padded 2 hour ++ ':' :: rest) = some (parts, microsecond, isWhole)) :
    ofChars? (padded 2 hour ++ ':' :: rest) =
      some ⟨parts.getD 0 0, parts.getD 1 0, parts.getD 2 0, microsecond, isWhole⟩ := by
  have hcolon : (padded 2 hour ++ ':' :: rest)[2]? = some ':' := by
    obtain ⟨a, b, hab, -⟩ := exists_padded_two h
    rw [hab]
    rfl
  unfold ofChars?
  rw [hcolon, beq_self_eq_true, hparts]
  rfl

/-- Hours and minutes alone. -/
theorem ofChars?_minutes {hour minute : Nat} (hhour : hour < 100) (hminute : minute < 100) :
    ofChars? (padded 2 hour ++ ':' :: padded 2 minute) = some ⟨hour, minute, 0, 0, true⟩ := by
  have hlast := parts?_last hminute (show 0 < 1000000 by decide) 1
  have hne := padded_append_ne_nil hminute []
  rw [show TimeOfDay.fractionChars 0 = [] from rfl, List.append_nil] at hlast
  rw [List.append_nil] at hne
  exact ofChars?_eq_some hhour (parts?_colon hhour hne hlast)

/-- A time to the second, with its fraction. -/
theorem ofChars?_seconds {hour minute second microsecond : Nat} (hhour : hour < 100)
    (hminute : minute < 100) (hsecond : second < 100) (hmicrosecond : microsecond < 1000000) :
    ofChars? (padded 2 hour ++ ':' :: (padded 2 minute ++ ':' :: (padded 2 second ++
      TimeOfDay.fractionChars microsecond))) =
        some ⟨hour, minute, second, microsecond, true⟩ := by
  have hlast := parts?_last hsecond hmicrosecond 0
  have hbetween := parts?_colon hminute (padded_append_ne_nil hsecond _) hlast
  exact ofChars?_eq_some hhour (parts?_colon hhour (padded_append_ne_nil hminute _) hbetween)

end Clock

/-- The time of day is read from its own characters, to their end. -/
theorem exists_clock_chars (t : TimeOfDay) :
    ∃ clock, Clock.ofChars? t.chars = some clock ∧ clock.isWhole = true ∧
      timeOfDay? clock = some t := by
  have ht := t.isLt
  unfold dayLength at ht
  have hhour : t.hour < 24 := by unfold TimeOfDay.hour; omega
  have hminute : t.minute < 60 := Nat.mod_lt _ (by decide)
  have hsecond : t.second < 60 := Nat.mod_lt _ (by decide)
  have hmicrosecond : t.microsecond < 1000000 := Nat.mod_lt _ (by decide)
  have hchars : t.chars = padded 2 t.hour ++ ':' :: (padded 2 t.minute ++ ':' ::
      (padded 2 t.second ++ TimeOfDay.fractionChars t.microsecond)) := by
    simp [TimeOfDay.chars, TimeOfDay.secondChars]
  refine ⟨⟨t.hour, t.minute, t.second, t.microsecond, true⟩, ?_, rfl, ?_⟩
  · rw [hchars]
    exact Clock.ofChars?_seconds (by omega) (by omega) (by omega) hmicrosecond
  · show TimeOfDay.ofParts? t.hour t.minute t.second t.microsecond = some t
    unfold TimeOfDay.ofParts?
    rw [dif_pos ⟨hhour, hminute, hsecond, hmicrosecond⟩]
    refine congrArg some (Fin.ext ?_)
    show ((t.hour * 60 + t.minute) * 60 + t.second) * 1000000 + t.microsecond = t.val
    unfold TimeOfDay.hour TimeOfDay.minute TimeOfDay.second TimeOfDay.microsecond
    omega

/-- The characters of an offset after its sign. -/
def sizeChars (size : Nat) : List Char :=
  padded 2 (size / 3600000000) ++ ':' :: (padded 2 (size / 60000000 % 60) ++
    if size / 1000000 % 60 = 0 ∧ size % 1000000 = 0 then []
    else ':' :: (padded 2 (size / 1000000 % 60) ++ TimeOfDay.fractionChars (size % 1000000)))

theorem chars_offset (o : Offset) :
    o.chars = (if o.microseconds < 0 then '-' else '+') :: sizeChars o.microseconds.natAbs := by
  unfold Offset.chars sizeChars
  simp

/-- The size of an offset is read to its end. -/
theorem exists_clock_sizeChars {size : Nat} (h : size < dayLength) :
    ∃ clock, Clock.ofChars? (sizeChars size) = some clock ∧ clock.isWhole = true ∧
      clock.seconds * 1000000 + clock.microsecond = size ∧ clock.microsecond < 1000000 := by
  unfold dayLength at h
  have hhour : size / 3600000000 < 100 := by omega
  have hminute : size / 60000000 % 60 < 100 := by omega
  unfold sizeChars Clock.seconds
  split
  · rw [List.append_nil, Clock.ofChars?_minutes hhour hminute]
    exact ⟨_, rfl, rfl, by dsimp only; omega, Nat.zero_lt_succ _⟩
  · rw [Clock.ofChars?_seconds hhour hminute (by omega) (by omega)]
    exact ⟨_, rfl, rfl, by dsimp only; omega, by dsimp only; omega⟩

end Iso

/-- An offset as it is read: one of less than a second is that of UTC. -/
def Offset.asRead (o : Offset) : Offset := if o.microseconds.natAbs < 1000000 then .utc else o

/-- A moment as it is read. -/
def Moment.asRead (m : Moment) : Moment := { m with offset := m.offset.map Offset.asRead }

/-- Moments are read as they are unless their offset is not zero but less than a second. -/
theorem Moment.asRead_eq_self_iff {m : Moment} :
    m.asRead = m ↔ ∀ o, m.offset = some o → o.microseconds.natAbs < 1000000 → o = .utc := by
  obtain ⟨date, time, offset⟩ := m
  cases offset with
  | none => simp [asRead]
  | some o =>
    unfold asRead Offset.asRead
    by_cases h : o.microseconds.natAbs < 1000000
    · simp [h, eq_comm]
    · simp [h]

namespace Iso

/-- An offset is read from its characters after the sign. -/
theorem offset?_sizeChars (o : Offset) :
    offset? (decide (o.microseconds < 0)) (sizeChars o.microseconds.natAbs) = some o.asRead := by
  have hlower := o.lower
  have hupper := o.upper
  obtain ⟨clock, hclock, hwhole, htotal, hfraction⟩ :=
    exists_clock_sizeChars (show o.microseconds.natAbs < dayLength by omega)
  unfold offset? Offset.asRead
  simp only [hclock, Option.bind_eq_bind, Option.bind_some, hwhole, if_true, decide_eq_true_eq]
  by_cases hsmall : o.microseconds.natAbs < 1000000
  · have hseconds : clock.seconds = 0 := by omega
    rw [if_pos hseconds, if_pos hsmall, Int.neg_zero, ite_self]
    rfl
  · have hseconds : clock.seconds ≠ 0 := by omega
    rw [if_neg hseconds, if_neg hsmall]
    have hvalue : (if o.microseconds < 0 then
        -((clock.seconds : Int) * 1000000 + clock.microsecond)
        else (clock.seconds : Int) * 1000000 + clock.microsecond) = o.microseconds := by
      split <;> omega
    rw [hvalue]
    exact dif_pos ⟨hlower, hupper⟩

/-! ## Times -/

/-- Whether a character can stand in a time or after the sign of an offset. -/
def IsClock (c : Char) : Prop := isAsciiDigit c = true ∨ c = ':' ∨ c = '.'

theorem isClock_padded {width n : Nat} : ∀ c ∈ padded width n, IsClock c :=
  fun _ hc => .inl (Text.isAsciiDigit_of_mem_padded hc)

theorem isClock_fractionChars (n : Nat) : ∀ c ∈ TimeOfDay.fractionChars n, IsClock c := by
  unfold TimeOfDay.fractionChars
  split
  · exact nofun
  · exact List.forall_mem_cons.2 ⟨.inr (.inr rfl), isClock_padded⟩

theorem isClock_timeChars (t : TimeOfDay) : ∀ c ∈ t.chars, IsClock c := by
  unfold TimeOfDay.chars TimeOfDay.secondChars
  simp only [List.forall_mem_append, List.forall_mem_cons]
  exact ⟨⟨⟨isClock_padded, .inr (.inl rfl), isClock_padded⟩, .inr (.inl rfl), isClock_padded⟩,
    isClock_fractionChars t.microsecond⟩

theorem isClock_sizeChars (size : Nat) : ∀ c ∈ sizeChars size, IsClock c := by
  unfold sizeChars
  simp only [List.forall_mem_append, List.forall_mem_cons]
  refine ⟨isClock_padded, .inr (.inl rfl), isClock_padded, ?_⟩
  split
  · exact nofun
  · simp only [List.forall_mem_append, List.forall_mem_cons]
    exact ⟨.inr (.inl rfl), isClock_padded, isClock_fractionChars _⟩

/-- Nothing in a time begins an offset. -/
theorem isMark_of_isClock {c : Char} (h : IsClock c) : isMark c = false := by
  have hplus : c ≠ '+' := by rintro rfl; revert h; unfold IsClock; decide
  have hminus : c ≠ '-' := by rintro rfl; revert h; unfold IsClock; decide
  have hzulu : c ≠ 'Z' := by rintro rfl; revert h; unfold IsClock; decide
  simp [isMark, hplus, hminus, hzulu]

/-- A time is cut off where an offset begins, or read as a whole. -/
theorem timeChars?_chars_append (t : TimeOfDay) {rest : List Char}
    (hrest : ∀ c ∈ rest.head?, isMark c = true) :
    timeChars? (t.chars ++ rest) = match rest with
      | [] => some (t, none)
      | mark :: rest =>
        if mark = 'Z' then if isOver rest then some (t, some .utc) else none
        else (offset? (mark == '-') rest).map fun o => (t, some o) := by
  obtain ⟨clock, hclock, hwhole, htime⟩ := exists_clock_chars t
  have hmarks : ∀ c ∈ t.chars, (!isMark c) = true := by
    intro c hc
    rw [isMark_of_isClock (isClock_timeChars t c hc)]
    rfl
  have htake : (t.chars ++ rest).takeWhile (fun c => !isMark c) = t.chars := by
    rw [List.takeWhile_append_of_pos hmarks]
    cases rest with
    | nil => rw [List.takeWhile_nil, List.append_nil]
    | cons c rest =>
      rw [List.takeWhile_cons_of_neg (by simp [hrest c rfl]), List.append_nil]
  have hdrop : (t.chars ++ rest).dropWhile (fun c => !isMark c) = rest := by
    rw [List.dropWhile_append_of_pos hmarks]
    cases rest with
    | nil => rfl
    | cons c rest => exact List.dropWhile_cons_of_neg (by simp [hrest c rfl])
  unfold timeChars?
  rw [htake, hdrop, hclock]
  show (timeOfDay? clock).bind _ = _
  rw [htime]
  cases rest with
  | nil => exact if_pos hwhole
  | cons c rest =>
    dsimp only [Option.bind_some]
    split
    · rfl
    · cases offset? (c == '-') rest <;> rfl

/-- A time without an offset. -/
theorem timeChars?_naive (t : TimeOfDay) : timeChars? t.chars = some (t, none) := by
  have htime := @timeChars?_chars_append t [] nofun
  rwa [List.append_nil] at htime

/-- A time with an offset. -/
theorem timeChars?_offset (t : TimeOfDay) (o : Offset) :
    timeChars? (t.chars ++ o.chars) = some (t, some o.asRead) := by
  have hoffset := offset?_sizeChars o
  rw [chars_offset]
  by_cases hneg : o.microseconds < 0
  · rw [decide_eq_true hneg] at hoffset
    rw [if_pos hneg, timeChars?_chars_append t (by simp [isMark])]
    simp [hoffset]
  · rw [decide_eq_false hneg] at hoffset
    rw [if_neg hneg, timeChars?_chars_append t (by simp [isMark])]
    simp [hoffset]

/-! ## Whole texts -/

theorem length_dateChars (d : Date) : d.chars.length = 10 := by
  obtain ⟨y₁, y₂, y₃, y₄, m₁, m₂, d₁, d₂, hchars, -⟩ := exists_dateChars d
  rw [hchars]
  rfl

/-- A date alone is read as its midnight. -/
theorem momentChars?_date (d : Date) : momentChars? d.chars = some (.ofDate d) := by
  have hlength := length_dateChars d
  have hstop := dateLength_chars d []
  rw [List.append_nil] at hstop
  unfold momentChars?
  rw [if_neg (by omega), hstop]
  dsimp only
  rw [List.drop_of_length_le (by omega)]
  dsimp only
  rw [List.take_of_length_le (by omega), dateChars?_chars]
  rfl

/-- A date with a time, and perhaps an offset, is read as the moment. -/
theorem momentChars?_chars (m : Moment) : momentChars? (m.chars 'T') = some m.asRead := by
  have hlength := length_dateChars m.date
  have hclock : timeChars? (m.time.chars ++ m.offset.elim [] Offset.chars) =
      some (m.time, m.offset.map Offset.asRead) := by
    cases m.offset with
    | none =>
      rw [Option.elim_none, List.append_nil]
      exact timeChars?_naive m.time
    | some o => exact timeChars?_offset m.time o
  have hchars : m.chars 'T' = m.date.chars ++ 'T' ::
      (m.time.chars ++ m.offset.elim [] Offset.chars) := by
    simp [Moment.chars]
  rw [hchars]
  generalize m.time.chars ++ m.offset.elim [] Offset.chars = rest at hclock
  have hdrop : (m.date.chars ++ 'T' :: rest).drop 10 = 'T' :: rest := by
    rw [List.drop_append, hlength, List.drop_of_length_le (by omega)]
    rfl
  have htake : (m.date.chars ++ 'T' :: rest).take 10 = m.date.chars := by
    rw [List.take_append_of_le_length (by omega), List.take_of_length_le (by omega)]
  unfold momentChars?
  rw [if_neg (by rw [List.length_append]; omega), dateLength_chars]
  dsimp only
  rw [hdrop, htake, dateChars?_chars]
  dsimp only
  rw [hclock]
  rfl

/-- Whether a character can stand in the text of a date or a moment. -/
def IsStamp (c : Char) : Prop := IsClock c ∨ c = '-' ∨ c = '+' ∨ c = 'T'

theorem isStamp_dateChars (d : Date) : ∀ c ∈ d.chars, IsStamp c := by
  unfold Date.chars
  simp only [List.forall_mem_append, List.forall_mem_cons]
  have hpadded : ∀ {width n : Nat}, ∀ c ∈ padded width n, IsStamp c :=
    fun c hc => .inl (isClock_padded c hc)
  exact ⟨⟨hpadded, .inr (.inl rfl), hpadded⟩, .inr (.inl rfl), hpadded⟩

theorem isStamp_momentChars (m : Moment) : ∀ c ∈ m.chars 'T', IsStamp c := by
  have hoffset : ∀ c ∈ m.offset.elim [] Offset.chars, IsStamp c := by
    cases m.offset with
    | none => exact nofun
    | some o =>
      rw [Option.elim_some, chars_offset]
      refine List.forall_mem_cons.2 ⟨?_, fun c hc => .inl (isClock_sizeChars _ c hc)⟩
      split
      · exact .inr (.inl rfl)
      · exact .inr (.inr (.inl rfl))
  unfold Moment.chars
  simp only [List.forall_mem_append, List.forall_mem_cons]
  exact ⟨⟨isStamp_dateChars m.date, .inr (.inr (.inr rfl)),
    fun c hc => .inl (isClock_timeChars m.time c hc)⟩, hoffset⟩

/-- Without a final letter for UTC, the characters are read as they are. -/
theorem spellZulu_of_isStamp {cs : List Char} (h : ∀ c ∈ cs, IsStamp c) : spellZulu cs = cs := by
  have hlast : ∀ c, cs.getLast? = some c → c ≠ 'Z' ∧ c ≠ 'z' := by
    intro c hc
    have hstamp := h c (List.mem_of_getLast? hc)
    unfold IsStamp IsClock at hstamp
    constructor
    · rintro rfl
      revert hstamp
      decide
    · rintro rfl
      revert hstamp
      decide
  unfold spellZulu
  split
  · next heq => exact absurd rfl (hlast _ heq).1
  · next heq => exact absurd rfl (hlast _ heq).2
  · rfl

/-- The text of a date is read as its midnight. -/
theorem moment?_text (d : Date) : moment? d.text = some (.ofDate d) := by
  unfold moment? Date.text
  rw [String.toList_ofList, spellZulu_of_isStamp (isStamp_dateChars d), momentChars?_date]

/-- The standard text of a moment is read as the moment. -/
theorem moment?_isoText (m : Moment) : moment? m.isoText = some m.asRead := by
  unfold moment? Moment.isoText
  rw [String.toList_ofList, spellZulu_of_isStamp (isStamp_momentChars m), momentChars?_chars]

end Iso

end Tariff
