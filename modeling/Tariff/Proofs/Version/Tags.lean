import Mathlib.Data.Prod.Lex
import Tariff.Proofs.Text.Blank
import Tariff.Proofs.Version.Steps

/-!
# Version tags

Which tags are read, and as which versions (`parse_reads_tags`). A version is spelled with the
digits of two numbers around one point (`Spells`); a text may have blank space around that, and
a floating-point number is read as it is shown. All other tags are refused as what is no
version.

The numbers may be of any size, but a run of more than `Text.maxDigits` digits is not read, and
then the document is refused without a cause. So just the versions that can be written are read
back from their texts (`parse_text`).

Versions are ordered by their numbers, the major one first, and so two tags can stand in another
order than their texts do.
-/

namespace Tariff.Version

open Text (isDigit digitsValue maxDigits)

/-- Whether characters are those of a tag: of a text, blank space around it aside, or of a
floating-point number as it is shown. -/
inductive Shows : Value → List Char → Prop where
  | text {s : String} {cs : List Char} (h : Text.Surrounds s.toList cs) : Shows (.text s) cs
  | float (x : Binary64) : Shows (.float x) x.text.toList

/-- Whether a tag spells a version with two runs of digits around one point, each of which
denotes one of its numbers. -/
structure Spells (raw : Value) (major minor : List Char) (v : Version) : Prop where
  shows_runs : Shows raw (major ++ '.' :: minor)
  denotes_major : Text.Denotes major v.major
  denotes_minor : Text.Denotes minor v.minor

variable {cs major minor : List Char} {v w : Version} {field : String} {raw : Value}

/-! ## Runs of digits -/

/-- What is taken apart are two runs of digits around one point. -/
theorem charRuns?_eq_some_iff :
    charRuns? cs = some (major, minor) ↔ cs = major ++ '.' :: minor ∧
      Text.Denotes major (digitsValue major) ∧ Text.Denotes minor (digitsValue minor) := by
  rw [Text.denotes_iff, Text.denotes_iff]
  constructor
  · intro h
    unfold charRuns? at h
    dsimp only at h
    split at h
    · next rest hdrop =>
      split at h
      · next hrun =>
        obtain ⟨hmajor, hminor, hall⟩ := hrun
        cases h
        refine ⟨?_, ⟨hmajor, fun c hc => List.mem_takeWhile_imp hc, rfl⟩,
          hminor, List.all_eq_true.1 hall, rfl⟩
        rw [← hdrop, List.takeWhile_append_dropWhile]
      · cases h
    · cases h
  · rintro ⟨rfl, ⟨hmajorNe, hmajor, -⟩, hminorNe, hminor, -⟩
    have hpoint : ∀ c ∈ ('.' :: minor).head?, isDigit c = false := by
      intro c hc
      cases hc
      decide
    obtain ⟨htake, hdrop⟩ := Text.takeWhile_append hmajor hpoint
    unfold charRuns?
    dsimp only
    rw [htake, hdrop]
    exact if_pos ⟨hmajorNe, hminorNe, List.all_eq_true.2 hminor⟩

/-- Two runs of digits around a point begin and end with digits, so there is no blank space to be
taken off them. -/
theorem trim_runs {text : List Char} (htext : Text.Surrounds text (major ++ '.' :: minor))
    {m n : Nat} (hmajor : Text.Denotes major m) (hminor : Text.Denotes minor n) :
    Text.trim text = major ++ '.' :: minor := by
  obtain ⟨hmajorNe, hmajor, -⟩ := Text.denotes_iff.1 hmajor
  obtain ⟨hminorNe, hminor, -⟩ := Text.denotes_iff.1 hminor
  refine Text.trim_of_surrounds htext (by simp) ?_ ?_
  · intro c hc
    rw [List.head?_append_of_ne_nil major hmajorNe] at hc
    exact Text.isBlank_of_isDigit (hmajor c (List.mem_of_mem_head? hc))
  · intro c hc
    rw [List.getLast?_append_cons, List.getLast?_cons_of_ne_nil hminorNe] at hc
    exact Text.isBlank_of_isDigit (hminor c (List.mem_of_getLast? hc))

/-- A tag spells one version at most. -/
theorem Spells.eq (h : Spells raw major minor v) : v = ⟨digitsValue major, digitsValue minor⟩ := by
  obtain ⟨-, hmajor, hminor⟩ := h
  rw [← hmajor.eq_digitsValue, ← hminor.eq_digitsValue]

/-- What a tag is taken apart into is what it spells a version with. -/
theorem runs?_eq_some_iff : runs? raw = some (major, minor) ↔ ∃ v, Spells raw major minor v := by
  constructor
  · intro h
    unfold runs? at h
    split at h
    · next x =>
      obtain ⟨hchars, hmajor, hminor⟩ := charRuns?_eq_some_iff.1 h
      exact ⟨⟨_, _⟩, hchars ▸ .float x, hmajor, hminor⟩
    · next s =>
      obtain ⟨hchars, hmajor, hminor⟩ := charRuns?_eq_some_iff.1 h
      exact ⟨⟨_, _⟩, .text (hchars ▸ Text.surrounds_trim s.toList), hmajor, hminor⟩
    · cases h
  · rintro ⟨v, hshows, hmajor, hminor⟩
    have hruns : charRuns? (major ++ '.' :: minor) = some (major, minor) :=
      charRuns?_eq_some_iff.2
        ⟨rfl, hmajor.eq_digitsValue ▸ hmajor, hminor.eq_digitsValue ▸ hminor⟩
    generalize hcs : major ++ '.' :: minor = cs at hshows hruns
    cases hshows with
    | float x => exact hruns
    | @text s _ h =>
      show charRuns? (Text.trim s.toList) = _
      rw [trim_runs (hcs ▸ h) hmajor hminor, hcs, hruns]

/-- A tag is read as the version that it spells with runs that are not too long. -/
theorem read?_eq_some_iff :
    read? raw = some v ↔ ∃ major minor, Spells raw major minor v ∧
      major.length ≤ maxDigits ∧ minor.length ≤ maxDigits := by
  simp only [read?, Option.bind_eq_bind, Option.bind_eq_some_iff, Option.pure_def,
    Option.some.injEq, Prod.exists, runs?_eq_some_iff, Text.integer?_eq_some_iff]
  constructor
  · rintro ⟨major, minor, ⟨w, hspells⟩, m, ⟨hmajor, rfl⟩, n, ⟨hminor, rfl⟩, rfl⟩
    exact ⟨major, minor, hspells.eq ▸ hspells, hmajor, hminor⟩
  · rintro ⟨major, minor, hspells, hmajor, hminor⟩
    exact ⟨major, minor, ⟨v, hspells⟩, _, ⟨hmajor, rfl⟩, _, ⟨hminor, rfl⟩, hspells.eq.symm⟩

/-! ## Tags -/

/-- A tag that spells a version with a run that is too long is not read, and has no version. -/
theorem parse_of_overlong (hspells : Spells raw major minor v)
    (hlong : maxDigits < major.length ∨ maxDigits < minor.length) :
    parse field raw = .error .overlong := by
  have hruns := runs?_eq_some_iff.2 ⟨v, hspells⟩
  have hnone : read? raw = none := by
    rw [Option.eq_none_iff_forall_not_mem]
    intro w hw
    obtain ⟨major', minor', hspells', hle, hle'⟩ := read?_eq_some_iff.1 hw
    cases hruns.symm.trans (runs?_eq_some_iff.2 ⟨w, hspells'⟩)
    omega
  unfold parse
  rw [hnone, hruns]
  rfl

/-- What is no version is refused as such, if it can be shown. -/
theorem parse_of_malformed (h : ∀ major minor v, ¬Spells raw major minor v) :
    parse field raw = .error (ConfigError.version (.malformed field raw)).refusal := by
  have hruns : runs? raw = none := by
    rw [Option.eq_none_iff_forall_not_mem]
    rintro ⟨major, minor⟩ hmem
    obtain ⟨v, hspells⟩ := runs?_eq_some_iff.1 hmem
    exact h major minor v hspells
  have hnone : read? raw = none := by
    unfold read?
    rw [hruns]
    rfl
  unfold parse
  rw [hnone, hruns]
  rfl

/-- The text of a version spells it. -/
theorem spells_text (v : Version) :
    Spells (.text v.text) (Nat.toDigits 10 v.major) (Nat.toDigits 10 v.minor) v := by
  have hdigits : ∀ n, Text.Denotes (Nat.toDigits 10 n) n := fun n =>
    Text.denotes_iff.2 ⟨Nat.toDigits_ne_nil,
      fun c hc => Text.isDigit_of_isAsciiDigit (Text.isAsciiDigit_of_mem_toDigits hc), by simp⟩
  refine ⟨.text ⟨[], [], ?_, nofun, nofun⟩, hdigits _, hdigits _⟩
  rw [text, String.toList_ofList, List.nil_append, List.append_nil]

/-- A version that can be written is read back from its text. -/
theorem parse_text (field : String) (hv : v.isWritable = true) :
    parse field (.text v.text) = .ok v := by
  unfold isWritable Text.isWritable at hv
  rw [Bool.and_eq_true, decide_eq_true_iff, decide_eq_true_iff] at hv
  exact parse_eq_ok_iff.2 (read?_eq_some_iff.2 ⟨_, _, spells_text v, hv.1, hv.2⟩)

theorem older_iff : v.older w = true ↔ toLex (v.major, v.minor) < toLex (w.major, w.minor) := by
  rw [Prod.Lex.toLex_lt_toLex]
  simp [older]

/-- A tag that shows a text or a floating-point number can be shown. -/
theorem Spells.isWritable (h : Spells raw major minor v) : raw.isWritable = true := by
  obtain ⟨hshows, -, -⟩ := h
  generalize major ++ '.' :: minor = cs at hshows
  cases hshows <;> rfl

/-- A tag is read exactly if it spells a version with runs of at most `maxDigits` digits, and as
that version; if it spells one with a longer run, it is refused without a cause. Everything else
that can be shown is refused as what is no version. A version that can be written is read back
from its text, and versions are ordered by their major and then by their minor numbers, which is
not the order of their texts. -/
theorem parse_reads_tags (field : String) :
    (∀ raw v, parse field raw = .ok v ↔ ∃ major minor, Spells raw major minor v ∧
      major.length ≤ maxDigits ∧ minor.length ≤ maxDigits) ∧
    (∀ raw, raw.isWritable = true → (∀ major minor v, ¬Spells raw major minor v) →
      parse field raw = .error (.because (.version (.malformed field raw)))) ∧
    (∀ raw, parse field raw = .error .overlong ↔ raw.isWritable = false ∨
      ∃ major minor v, Spells raw major minor v ∧
        (maxDigits < major.length ∨ maxDigits < minor.length)) ∧
    (∀ v, v.isWritable = true → parse field (.text v.text) = .ok v) ∧
    (∀ v w, older v w = true ↔ toLex (v.major, v.minor) < toLex (w.major, w.minor)) ∧
    ∃ v w, parse field (.text "1.9") = .ok v ∧ parse field (.text "1.10") = .ok w ∧
      older v w = true ∧ "1.10" < "1.9" := by
  refine ⟨fun raw v => ?_, fun raw hwritable hnone => ?_, fun raw => ?_,
    fun v hv => parse_text field hv, fun v w => older_iff, ?_⟩
  · rw [parse_eq_ok_iff, read?_eq_some_iff]
  · rw [parse_of_malformed hnone]
    exact congrArg Except.error (ConfigError.refusal_of_isWritable hwritable)
  · constructor
    · intro hoverlong
      by_cases hspells : ∃ major minor v, Spells raw major minor v
      · obtain ⟨major, minor, v, hspells⟩ := hspells
        refine .inr ⟨major, minor, v, hspells, ?_⟩
        by_contra hshort
        rw [parse_eq_ok_iff.2 (read?_eq_some_iff.2 ⟨major, minor, hspells, by omega, by omega⟩)]
          at hoverlong
        cases hoverlong
      · push Not at hspells
        rw [parse_of_malformed hspells] at hoverlong
        exact .inl (Refusal.showing_eq_overlong_iff.1 (Except.error.inj hoverlong))
    · rintro (hunwritable | ⟨major, minor, v, hspells, hlong⟩)
      · have hnone : ∀ major minor v, ¬Spells raw major minor v := by
          intro major minor v hspells
          rw [hspells.isWritable] at hunwritable
          cases hunwritable
        rw [parse_of_malformed hnone]
        exact congrArg Except.error (Refusal.showing_eq_overlong_iff.2 hunwritable)
      · exact parse_of_overlong hspells hlong
  · have hnine : text ⟨1, 9⟩ = "1.9" := by cbv
    have hten : text ⟨1, 10⟩ = "1.10" := by cbv
    refine ⟨⟨1, 9⟩, ⟨1, 10⟩, ?_, ?_, by decide, by cbv⟩
    · rw [← hnine, parse_text field (by decide)]
    · rw [← hten, parse_text field (by decide)]

example : read? (.text " ٢.007\n") = some ⟨2, 7⟩ := by decide

example : read? (.text "1.1.0") = none ∧ read? (.text "+1.0") = none := by decide

/-- The tag of a version that has a minor number of zero. -/
def roundTag (major : List Char) : Value := .text (String.ofList (major ++ ['.', '0']))

theorem spells_roundTag {n : Nat} (h : Text.Denotes major n) :
    Spells (roundTag major) major ['0'] ⟨n, 0⟩ :=
  ⟨.text ⟨[], [], by simp, nofun, nofun⟩, h, .single rfl⟩

/-- Not everything that spells a version is read. -/
theorem overlong_tag_is_not_read :
    (∃ v, Spells (roundTag Text.overlongDigits) Text.overlongDigits ['0'] v) ∧
      ∀ v, parse "version" (roundTag Text.overlongDigits) ≠ .ok v := by
  have hspells := spells_roundTag Text.denotes_overlongDigits
  refine ⟨⟨_, hspells⟩, fun v h => ?_⟩
  rw [parse_of_overlong hspells (.inl Text.maxDigits_lt_length_overlongDigits)] at h
  cases h

end Tariff.Version
