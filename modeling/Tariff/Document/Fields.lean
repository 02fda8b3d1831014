import Tariff.Document.Same
import Tariff.Table

/-!
# Fields of a mapping

A document as it arrives is a mapping whose keys may be any values. Here it is read
and changed by field name, that is, by its text keys; all other entries are carried
along untouched.

`present?` reads a field under the rule that holds throughout a document: a field
that is null is absent. `has` is the exception that the version rules make, for which
even a null field is there.
-/

namespace Tariff

/-- The entries of a mapping, in the order they were written. -/
abbrev Fields := List (Value × Value)

namespace Fields

/-- Whether an entry is the field of a name. -/
def isField (name : String) (entry : Value × Value) : Bool :=
  match entry.1 with
  | .text key => key == name
  | _ => false

/-- The value of a field, if the field is there. -/
def get? (fields : Fields) (name : String) : Option Value :=
  (fields.find? (isField name)).map Prod.snd

/-- Whether a field is there, if only with the value null. -/
def has (fields : Fields) (name : String) : Bool := fields.any (isField name)

/-- The value of a field that is there and not null. -/
def present? (fields : Fields) (name : String) : Option Value :=
  match fields.get? name with
  | some .null => none
  | value? => value?

/-- The fields with one set to a value, in its old place if it has one. -/
def set : Fields → String → Value → Fields
  | [], name, value => [(.text name, value)]
  | entry :: rest, name, value =>
    if isField name entry then (entry.1, value) :: rest else entry :: set rest name value

/-- The fields without those of some names. -/
def without (fields : Fields) (names : List String) : Fields :=
  fields.filter fun entry => !(names.any fun name => isField name entry)

/-- The fields with an entry put in under any key; an entry under the same key is
replaced in its place and keeps its own spelling of the key. -/
def insert : Fields → Value → Value → Fields
  | [], key, value => [(key, value)]
  | entry :: rest, key, value =>
    if entry.1.same key then (entry.1, value) :: rest else entry :: insert rest key value

/-- The fields that result from putting in entries one after the other. -/
def ofEntries (entries : List (Value × Value)) : Fields :=
  entries.foldl (fun fields entry => insert fields entry.1 entry.2) []

/-- The fields that a table of values is. -/
def ofTable (t : Table Value) : Fields := t.map fun entry => (.text entry.1, entry.2)

@[simp] theorem isField_text (name key : String) (value : Value) :
    isField name (.text key, value) = (key == name) := rfl

/-- A field that was set is found. -/
@[simp] theorem get?_set_self (fields : Fields) (name : String) (value : Value) :
    (fields.set name value).get? name = some value := by
  induction fields with
  | nil => simp [set, get?]
  | cons entry rest ih =>
    by_cases h : isField name entry
    · have hkey : isField name (entry.1, value) = true := h
      simp [set, h, get?, hkey]
    · simp only [get?] at ih
      simp [set, h, get?, ih]

/-- Setting one field changes no other. -/
theorem get?_set_of_ne (fields : Fields) {name other : String} (value : Value)
    (h : other ≠ name) : (fields.set name value).get? other = fields.get? other := by
  induction fields with
  | nil => simp [set, get?, Ne.symm h]
  | cons entry rest ih =>
    by_cases hentry : isField name entry
    · have hother : isField other entry = false := by
        unfold isField at *
        split at hentry <;> simp_all [Ne.symm h]
      have hset : isField other (entry.1, value) = false := hother
      simp [set, hentry, get?, hother, hset]
    · simp only [get?] at ih
      by_cases hother : isField other entry <;> simp [set, hentry, get?, hother, ih]

/-- A table and the fields that it is have the same values under the same names. -/
@[simp] theorem get?_ofTable (t : Table Value) (name : String) :
    (ofTable t).get? name = t.get? name := by
  induction t with
  | nil => rfl
  | cons entry rest ih =>
    obtain ⟨key, v⟩ := entry
    rw [Table.get?_cons, ← ih]
    by_cases h : key = name
    · simp [ofTable, get?, h]
    · simp [ofTable, get?, h, Ne.symm h]

/-- A field is there exactly if looking it up finds a value. -/
theorem has_eq_isSome_get? (fields : Fields) (name : String) :
    fields.has name = (fields.get? name).isSome := by
  induction fields with
  | nil => rfl
  | cons entry rest ih =>
    simp only [has, get?, List.any_cons, List.find?_cons] at *
    cases isField name entry <;> simp_all

end Fields

end Tariff
