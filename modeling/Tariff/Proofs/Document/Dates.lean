import Tariff.Document.Fields
import Tariff.Document.Node
import Tariff.Document.Temporal
import Tariff.Proofs.Calendar.ReadBack
import Tariff.Proofs.Text.Blank
import Tariff.Version.Basic

/-!
# Dates as texts

The loader of a document may recognise dates and moments, or leave them as texts.
`Value.datesAsText` is the document that results if none was recognised: every date and
every moment in it is replaced by its standard text, at any depth, and keys are left alone.

What reads a document does not tell the two apart. The tree of a document is the same,
and so is the error of a document that has none (`Node.ofValue_datesAsText`). A date and
an instant are brought to the same form (`Temporal.normalizeDate_datesAsText`). A field is
there, or absent, as before, and no date is a version tag (`Version.read?_datesAsText`).
-/

namespace Tariff

namespace Value

mutual

/-- A value with its dates and moments as texts. -/
def datesAsText : Value → Value
  | .null => .null
  | .scalar s => .scalar s
  | .date d => .text d.text
  | .moment m => .text m.isoText
  | .list items => .list (itemsAsText items)
  | .tuple items => .tuple (itemsAsText items)
  | .mapping entries => .mapping (entriesAsText entries)
  | .bytes content => .bytes content
  | .set members => .set members
  | .foreign typeName => .foreign typeName

/-- The items of a sequence with their dates as texts. -/
def itemsAsText : List Value → List Value
  | [] => []
  | v :: rest => v.datesAsText :: itemsAsText rest

/-- The entries of a mapping with the dates of their values as texts. -/
def entriesAsText : List (Value × Value) → List (Value × Value)
  | [] => []
  | (key, v) :: rest => (key, v.datesAsText) :: entriesAsText rest

end

/-- Whether a value, if it is a moment, is read back from its standard text. -/
def ReadsBack (v : Value) : Prop := ∀ m, v = .moment m → Iso.moment? m.isoText = some m

theorem eq_mapping_of_datesAsText {v : Value} {entries : Fields}
    (h : v.datesAsText = .mapping entries) : ∃ fields : Fields, v = .mapping fields := by
  cases v with
  | mapping fields => exact ⟨fields, rfl⟩
  | _ =>
    simp only [datesAsText] at h
    cases h

end Value

/-! ## The tree -/

namespace Node

mutual

/-- The tree of a value is built from its texts as it is from its dates. -/
theorem ofValueAt_datesAsText (path : String) (depth : Nat) :
    ∀ v : Value, ofValueAt path depth v.datesAsText = ofValueAt path depth v
  | .null => by rw [Value.datesAsText]
  | .scalar s => by rw [Value.datesAsText]
  | .date d => by rw [Value.datesAsText, ofValueAt, ofValueAt]
  | .moment m => by rw [Value.datesAsText, ofValueAt, ofValueAt]
  | .list items => by
    rw [Value.datesAsText, ofValueAt, ofValueAt, itemsOf_itemsAsText path (depth + 1) 0 items]
  | .tuple items => by
    rw [Value.datesAsText, ofValueAt, ofValueAt, itemsOf_itemsAsText path (depth + 1) 0 items]
  | .mapping entries => by
    rw [Value.datesAsText, ofValueAt, ofValueAt, fieldsOf_entriesAsText path (depth + 1) entries]
  | .bytes content => by rw [Value.datesAsText]
  | .set members => by rw [Value.datesAsText]
  | .foreign typeName => by rw [Value.datesAsText]

theorem itemsOf_itemsAsText (path : String) (depth index : Nat) :
    ∀ items : List Value,
      itemsOf path depth index (Value.itemsAsText items) = itemsOf path depth index items
  | [] => by rw [Value.itemsAsText]
  | v :: rest => by
    rw [Value.itemsAsText, itemsOf, itemsOf, ofValueAt_datesAsText (itemPath path index) depth v,
      itemsOf_itemsAsText path depth (index + 1) rest]

theorem fieldsOf_entriesAsText (path : String) (depth : Nat) :
    ∀ entries : List (Value × Value),
      fieldsOf path depth (Value.entriesAsText entries) = fieldsOf path depth entries
  | [] => by rw [Value.entriesAsText]
  | (key, v) :: rest => by
    rw [Value.entriesAsText]
    by_cases hkey : ∃ name, key = .text name
    · obtain ⟨name, rfl⟩ := hkey
      rw [fieldsOf, fieldsOf, ofValueAt_datesAsText (fieldPath path name) depth v,
        fieldsOf_entriesAsText path depth rest]
    · -- A key that is no text is refused, whatever is under it.
      have hne : ∀ name, key = .text name → False := fun name heq => hkey ⟨name, heq⟩
      rw [fieldsOf, fieldsOf] <;> exact hne

end

/-- A document has the same tree, or the same error, whether its dates were recognised or
not. -/
theorem ofValue_datesAsText (v : Value) : ofValue v.datesAsText = ofValue v :=
  ofValueAt_datesAsText "" 0 v

end Node

/-! ## Dates, instants and version tags -/

namespace Text

/-- Nothing in the text of a date or a moment is blank: the blank characters come before
all of its marks, or after the letters. -/
theorem isBlank_of_isStamp {c : Char} (h : Iso.IsStamp c) : isBlank c = false := by
  have hblank : ∀ code ∈ blankCodes, code < '+'.toNat ∨ 'T'.toNat < code := by decide
  have hstamp : '+'.toNat ≤ c.toNat ∧ c.toNat ≤ 'T'.toNat := by
    rcases h with (hdigit | rfl | rfl) | rfl | rfl | rfl
    · have hrange : '0' ≤ c ∧ c ≤ '9' := of_decide_eq_true hdigit
      have hlow : '0'.toNat ≤ c.toNat := hrange.1
      have hhigh : c.toNat ≤ '9'.toNat := hrange.2
      exact ⟨Nat.le_trans (by decide) hlow, Nat.le_trans hhigh (by decide)⟩
    all_goals decide
  rw [isBlank, Bool.eq_false_iff]
  intro hmem
  have := hblank c.toNat (List.contains_iff_mem.1 hmem)
  omega

end Text

theorem Date.trim_text (d : Date) : Text.trim d.text.toList = d.text.toList := by
  rw [Date.text, String.toList_ofList]
  exact Text.trim_eq_self fun c hc => Text.isBlank_of_isStamp (Iso.isStamp_dateChars d c hc)

theorem Moment.trim_isoText (m : Moment) : Text.trim m.isoText.toList = m.isoText.toList := by
  rw [Moment.isoText, String.toList_ofList]
  exact Text.trim_eq_self fun c hc => Text.isBlank_of_isStamp (Iso.isStamp_momentChars m c hc)

namespace Temporal

theorem looseMoment?_text (d : Date) : looseMoment? d.text = some (.ofDate d) := by
  rw [looseMoment?, Date.trim_text, String.ofList_toList, Iso.moment?_text]

theorem looseMoment?_isoText (m : Moment) : looseMoment? m.isoText = some m.asRead := by
  rw [looseMoment?, Moment.trim_isoText, String.ofList_toList, Iso.moment?_isoText]

/-- The date part of a value does not depend on how it is given. -/
theorem normalizeDate_datesAsText (field : String) (v : Value) :
    normalizeDate field v.datesAsText = normalizeDate field v := by
  cases v with
  | date d =>
    rw [Value.datesAsText]
    unfold normalizeDate
    dsimp only
    rw [looseMoment?_text]
    rfl
  | moment m =>
    rw [Value.datesAsText]
    unfold normalizeDate
    dsimp only
    rw [looseMoment?_isoText]
    rfl
  | _ => rw [Value.datesAsText] <;> rfl

/-- The point in time of a value does not depend on how it is given, if it is no moment that
is read back as another. -/
theorem normalizeInstant_datesAsText (field : String) {v : Value} (h : v.ReadsBack) :
    normalizeInstant field v.datesAsText = normalizeInstant field v := by
  cases v with
  | date d =>
    rw [Value.datesAsText]
    unfold normalizeInstant
    dsimp only
    rw [looseMoment?_text]
  | moment m =>
    rw [Value.datesAsText]
    have hread : m.asRead = m := Option.some.inj ((Iso.moment?_isoText m).symm.trans (h m rfl))
    unfold normalizeInstant
    dsimp only
    rw [looseMoment?_isoText, hread]
  | _ => rw [Value.datesAsText] <;> rfl

end Temporal

namespace Version

/-- Digits before a mark that is no point are no version. -/
theorem charRuns?_dash {digits : List Char} (h : ∀ c ∈ digits, Text.isDigit c = true)
    (rest : List Char) : charRuns? (digits ++ '-' :: rest) = none := by
  unfold charRuns?
  rw [List.dropWhile_append_of_pos h, List.dropWhile_cons_of_neg (by decide)]
  rfl

theorem charRuns?_dateChars (d : Date) (rest : List Char) :
    charRuns? (d.chars ++ rest) = none := by
  have hyear : ∀ c ∈ Text.padded 4 d.year, Text.isDigit c = true := fun c hc =>
    Text.isDigit_of_isAsciiDigit (Text.isAsciiDigit_of_mem_padded hc)
  unfold Date.chars
  rw [List.append_assoc, List.append_assoc, List.cons_append]
  exact charRuns?_dash hyear _

/-- No date and no moment is a version tag, and the text of none is one. -/
theorem runs?_datesAsText (v : Value) : runs? v.datesAsText = runs? v := by
  cases v with
  | date d =>
    rw [Value.datesAsText]
    change charRuns? (Text.trim d.text.toList) = none
    rw [Date.trim_text, Date.text, String.toList_ofList, ← List.append_nil d.chars]
    exact charRuns?_dateChars d []
  | moment m =>
    rw [Value.datesAsText]
    change charRuns? (Text.trim m.isoText.toList) = none
    rw [Moment.trim_isoText, Moment.isoText, String.toList_ofList, Moment.chars,
      List.append_assoc]
    exact charRuns?_dateChars m.date _
  | _ => rw [Value.datesAsText] <;> rfl

theorem read?_datesAsText (v : Value) : read? v.datesAsText = read? v := by
  unfold read?
  rw [runs?_datesAsText]

end Version

/-! ## Fields -/

namespace Fields

/-- The fields with the dates of their values as texts. -/
def datesAsText (fields : Fields) : Fields :=
  fields.map fun entry => (entry.1, entry.2.datesAsText)

variable (fields : Fields) (name : String)

/-- A mapping with its dates as texts has the fields with theirs as texts. -/
theorem datesAsText_mapping :
    Value.datesAsText (.mapping fields) = .mapping fields.datesAsText := by
  have hentries : Value.entriesAsText fields = fields.datesAsText := by
    induction fields with
    | nil => rw [Value.entriesAsText, datesAsText, List.map_nil]
    | cons entry rest ih =>
      rw [Value.entriesAsText, ih, datesAsText, datesAsText, List.map_cons]
  rw [Value.datesAsText, hentries]

theorem get?_datesAsText :
    fields.datesAsText.get? name = (fields.get? name).map Value.datesAsText := by
  unfold get? datesAsText
  rw [List.find?_map, Option.map_map, Option.map_map]
  rfl

theorem present?_datesAsText :
    fields.datesAsText.present? name = (fields.present? name).map Value.datesAsText := by
  unfold present?
  rw [get?_datesAsText]
  cases fields.get? name with
  | none => rfl
  | some v => cases v <;> simp [Value.datesAsText]

theorem has_datesAsText : fields.datesAsText.has name = fields.has name := by
  rw [has_eq_isSome_get?, has_eq_isSome_get?, get?_datesAsText, Option.isSome_map]

theorem misplaced_datesAsText (v : Version) :
    fields.datesAsText.misplaced v = fields.misplaced v := by
  unfold misplaced
  simp only [has_datesAsText]

theorem datesAsText_set (v : Value) :
    (fields.set name v).datesAsText = fields.datesAsText.set name v.datesAsText := by
  induction fields with
  | nil => rfl
  | cons entry rest ih =>
    have hfield : isField name (entry.1, entry.2.datesAsText) = isField name entry := rfl
    unfold datesAsText at ih ⊢
    rw [List.map_cons, set, set, hfield, ← ih]
    split <;> rfl

theorem datesAsText_without (names : List String) :
    (fields.without names).datesAsText = fields.datesAsText.without names := by
  unfold without datesAsText
  rw [List.filter_map]
  rfl

end Fields

end Tariff
