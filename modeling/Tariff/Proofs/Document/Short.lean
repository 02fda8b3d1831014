import Tariff.Proofs.Calendar.Stamp
import Tariff.Proofs.Document.Causes
import Tariff.Proofs.Text.Digits

/-!
# Short documents

An integer with more than `Text.maxDigits` digits is neither read nor shown, and a document can
be refused for that alone, without a cause. Nothing of the sort is in a document in which no
number and no text is written with more than that many characters. `Value.IsShort` says so of a
value; dates and moments are always short.

What is short can be shown (`Value.IsShort.isWritable`). So there is a cause for which a short
document has no tree, if it has none (`Node.ofValue_ne_overlong`), and the tree that it has is
short in its turn (`Node.isShort_of_ofValue`).
-/

namespace Tariff

open Text (maxDigits)

/-! ## Short values -/

/-- Whether a scalar is written with no more characters than an integer can have digits. -/
def Scalar.IsShort : Scalar → Prop
  | .bool _ => True
  | .number n => n.text.length ≤ maxDigits
  | .text s => s.length ≤ maxDigits

instance : DecidablePred Scalar.IsShort
  | .bool _ => .isTrue trivial
  | .number n => inferInstanceAs (Decidable (n.text.length ≤ maxDigits))
  | .text s => inferInstanceAs (Decidable (s.length ≤ maxDigits))

namespace Value

/-- Whether all that is in a value is short. -/
inductive IsShort : Value → Prop where
  | null : IsShort .null
  | scalar {s : Scalar} (h : s.IsShort) : IsShort (.scalar s)
  | date (d : Date) : IsShort (.date d)
  | moment (m : Moment) : IsShort (.moment m)
  | list {items : List Value} (h : ∀ v ∈ items, IsShort v) : IsShort (.list items)
  | tuple {items : List Value} (h : ∀ v ∈ items, IsShort v) : IsShort (.tuple items)
  | mapping {entries : List (Value × Value)} (hkeys : ∀ entry ∈ entries, IsShort entry.1)
      (h : ∀ entry ∈ entries, IsShort entry.2) : IsShort (.mapping entries)
  | bytes (content : List UInt8) : IsShort (.bytes content)
  | set {members : List Value} (h : ∀ v ∈ members, IsShort v) : IsShort (.set members)
  | foreign (typeName : String) : IsShort (.foreign typeName)

theorem areWritable_of_forall {items : List Value} (h : ∀ v ∈ items, v.isWritable = true) :
    areWritable items = true := by
  induction items with
  | nil => rfl
  | cons v rest ih =>
    rw [List.forall_mem_cons] at h
    rw [areWritable, h.1, ih h.2]
    rfl

theorem entriesAreWritable_of_forall {entries : List (Value × Value)}
    (hkeys : ∀ entry ∈ entries, entry.1.isWritable = true)
    (h : ∀ entry ∈ entries, entry.2.isWritable = true) : entriesAreWritable entries = true := by
  induction entries with
  | nil => rfl
  | cons entry rest ih =>
    rw [List.forall_mem_cons] at hkeys h
    rw [entriesAreWritable, hkeys.1, h.1, ih hkeys.2 h.2]
    rfl

end Value

/-- A number with a short text has a text. -/
theorem Number.isWritable_of_length {n : Number} (h : n.text.length ≤ maxDigits) :
    n.isWritable = true := by
  cases n with
  | float x => rfl
  | int n =>
    refine decide_eq_true (Nat.le_trans ?_ h)
    cases n with
    | ofNat m => exact Nat.le_of_eq (congrArg List.length Nat.toList_repr).symm
    | negSucc m =>
      show (Nat.toDigits 10 (m + 1)).length ≤ ("-" ++ Nat.repr (m + 1)).length
      rw [String.length_append, ← String.length_toList (s := Nat.repr (m + 1)), Nat.toList_repr]
      exact Nat.le_add_left _ _

/-- What is short can be shown. -/
theorem Value.IsShort.isWritable {v : Value} (h : v.IsShort) : v.isWritable = true := by
  induction h with
  | @scalar s h =>
    cases s with
    | number n => exact Number.isWritable_of_length h
    | bool b | text t => rfl
  | list _ ih | tuple _ ih | set _ ih =>
    rw [Value.isWritable]
    exact Value.areWritable_of_forall ih
  | mapping _ _ ihkeys ih =>
    rw [Value.isWritable]
    exact Value.entriesAreWritable_of_forall ihkeys ih
  | _ => rfl

/-! ## Dates -/

theorem Date.isShort_text (d : Date) : (Scalar.text d.text).IsShort := by
  show (String.ofList d.chars).length ≤ _
  rw [String.length_ofList, Iso.length_dateChars]
  decide

theorem TimeOfDay.length_fractionChars_le {n : Nat} (h : n < 1000000) :
    (TimeOfDay.fractionChars n).length ≤ 7 := by
  unfold TimeOfDay.fractionChars
  split
  · exact Nat.zero_le 7
  · rw [List.length_cons, Text.length_padded (by decide) h]

theorem TimeOfDay.length_chars_le (t : TimeOfDay) : t.chars.length ≤ 15 := by
  have hseconds : t.secondChars.length = 8 := (fits_time t).length_eq.symm
  have hfraction : (fractionChars t.microsecond).length ≤ 7 :=
    length_fractionChars_le (Nat.mod_lt _ (by decide))
  unfold TimeOfDay.chars
  rw [List.length_append, hseconds]
  omega

theorem Offset.length_chars_le (o : Offset) : o.chars.length ≤ 16 := by
  have hlower := o.lower
  have hupper := o.upper
  have hpadded : ∀ {n : Nat}, n < 100 → (Text.padded 2 n).length = 2 :=
    fun h => Text.length_padded (by decide) h
  have hhours := hpadded (show o.microseconds.natAbs / 3600000000 < 100 by
    unfold dayLength at hlower hupper
    omega)
  have hminutes := hpadded (show o.microseconds.natAbs / 60000000 % 60 < 100 by omega)
  have hseconds := hpadded (show o.microseconds.natAbs / 1000000 % 60 < 100 by omega)
  have hfraction := TimeOfDay.length_fractionChars_le
    (show o.microseconds.natAbs % 1000000 < 1000000 by omega)
  unfold Offset.chars
  simp only [List.length_cons, List.length_append, hhours, hminutes]
  split
  · decide
  · simp only [List.length_cons, List.length_append, hseconds]
    omega

theorem Moment.isShort_isoText (m : Moment) : (Scalar.text m.isoText).IsShort := by
  have hdate := Iso.length_dateChars m.date
  have htime := m.time.length_chars_le
  have hoffset : (m.offset.elim [] Offset.chars).length ≤ 16 := by
    cases m.offset with
    | none => exact Nat.zero_le 16
    | some o => exact o.length_chars_le
  have hbound : 42 ≤ maxDigits := by decide
  show (String.ofList (m.chars 'T')).length ≤ _
  unfold Moment.chars
  rw [String.length_ofList, List.length_append, List.length_append, List.length_cons, hdate]
  omega

theorem Instant.isShort_stamp (i : Instant) : (Scalar.text i.stamp).IsShort := by
  have hdate := (fits_date i.date).length_eq
  have htime := (fits_time i.time).length_eq
  have hyear := length_toDigits_year (d := i.date)
  have hfour := Text.length_padded (show 0 < 4 by decide) (Nat.lt_succ_of_le i.date.year_le)
  have hbound : 20 ≤ maxDigits := by decide
  unfold Date.chars at hdate
  unfold Scalar.IsShort Instant.stamp
  simp only [String.length_ofList, List.length_append, List.length_cons, List.length_nil]
    at hdate ⊢
  have hdateForm : dateForm.length = 10 := rfl
  have htimeForm : timeForm.length = 8 := rfl
  omega

/-- The scalar that a short value stands for is short. -/
theorem Value.IsShort.scalar? {v : Value} {s : Scalar} (h : v.IsShort) (hs : v.scalar? = some s) :
    s.IsShort := by
  cases h with
  | scalar h =>
    cases hs
    exact h
  | date d =>
    cases hs
    exact d.isShort_text
  | moment m =>
    cases hs
    exact m.isShort_isoText
  | _ => cases hs

/-! ## Parts and nodes -/

/-- Whether a part of a document is short, and so is its key. -/
structure Part.IsShort (part : Part) : Prop where
  key : ∀ key, part.key? = some key → key.IsShort
  value : part.value.IsShort

theorem Value.IsShort.part {v : Value} {path : String} (h : v.IsShort) :
    Part.IsShort ⟨none, path, v⟩ :=
  ⟨nofun, h⟩

theorem Part.IsShort.child {part inner : Part} (h : part.IsShort) (hinner : inner ∈ part.children) :
    inner.IsShort := by
  obtain ⟨key?, path, v⟩ := part
  obtain ⟨-, h⟩ := h
  cases h with
  | list h | tuple h =>
    obtain ⟨⟨item, index⟩, hitem, rfl⟩ := List.mem_map.1 hinner
    exact (h item (List.fst_mem_of_mem_zipIdx hitem)).part
  | mapping hkeys h =>
    obtain ⟨entry, hentry, rfl⟩ := List.mem_map.1 hinner
    refine ⟨?_, h entry hentry⟩
    rintro _ ⟨⟩
    exact hkeys entry hentry
  | _ => cases hinner

theorem Part.IsShort.at? {part inner : Part} (h : part.IsShort) {place : List Nat}
    (hinner : part.at? place = some inner) : inner.IsShort := by
  induction place generalizing part with
  | nil =>
    cases hinner
    exact h
  | cons index rest ih =>
    obtain ⟨child, hchild, hrest⟩ := Option.bind_eq_some_iff.1 hinner
    exact ih (h.child (List.mem_of_getElem? hchild)) hrest

/-- What is wrong with a short part is wrong for a cause. -/
theorem Part.IsShort.fault?_ne_overlong {part : Part} (h : part.IsShort) {depth : Nat} :
    part.fault? depth ≠ some .overlong := by
  intro hfault
  rcases Option.or_eq_some_iff.1 hfault with hkey | ⟨-, hvalue⟩
  · unfold Part.keyFault? at hkey
    split at hkey
    · cases hkey
    · cases hkey
    · next key _ hkey? =>
      rw [(h.key key hkey?).isWritable] at hkey
      cases hkey
  · unfold Part.valueFault? at hvalue
    split at hvalue
    · cases hvalue
    · split at hvalue <;> cases hvalue

namespace Node

/-- Whether all scalars in a tree are short. -/
def IsShort (root : Node) : Prop := ∀ path s, (Node.scalar path s).IsIn root → s.IsShort

variable {v : Value} {root : Node}

/-- If a short document has no tree, it is refused for a cause. -/
theorem ofValue_ne_overlong (h : v.IsShort) : ofValue v ≠ .error .overlong := by
  intro hoverlong
  have hsettles : Part.Settles 0 ⟨none, "", v⟩ (ofValue v) :=
    Part.settles_ofValueAt 0 none "" v rfl
  obtain ⟨place, hfault, -⟩ := hsettles.error_iff.1 hoverlong
  obtain ⟨inner, hinner, hfault⟩ := Option.bind_eq_some_iff.1 hfault
  exact (h.part.at? hinner).fault?_ne_overlong hfault

/-- The tree of a short document is short. -/
theorem isShort_of_ofValue (h : v.IsShort) (hroot : ofValue v = .ok root) : root.IsShort := by
  intro path s hnode
  obtain ⟨place, hplace⟩ := hnode.place
  have hpart := at?_of_ofValue hroot place
  rw [hplace] at hpart
  generalize hfound : v.part? place = part? at hpart
  cases hpart with
  | some htree =>
    have hshort : Part.IsShort _ := h.part.at? hfound
    cases htree.shows.shape with
    | scalar path hs => exact hshort.value.scalar? hs

end Node

end Tariff
