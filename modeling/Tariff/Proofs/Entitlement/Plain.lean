import Mathlib.Data.List.Nodup
import Tariff.Entitlement.Payload
import Tariff.Proofs.Document.Fields

/-!
# Plain sections

A section of a snapshot or a payload is plain if its identifiers are texts, none of them
twice, and its values null or scalars. This is the form of every section of a snapshot that
answers a request, and of everything that is read from its bytes.

`Fields.granted` are the entries of a section that are not null, as a table. A plain
section is determined by it but for nulls (`IsPlain.sectionOf_eq`), and finding an
identifier in the table is finding a value that is not null in the section
(`IsPlain.get?_granted`).
-/

namespace Tariff

namespace Fields

/-- Whether a section has texts as identifiers, each once, and null or scalars as values. -/
structure IsPlain (fields : Fields) : Prop where
  keys : ∀ entry ∈ fields, ∃ id, entry.1 = .text id
  distinct : (fields.map Prod.fst).Nodup
  values : ∀ entry ∈ fields, entry.2 = .null ∨ ∃ s, entry.2 = .scalar s

/-- Whether all numbers of a section have texts: they are finite, and if they are integers
do not have too many digits. -/
def IsWritable (fields : Fields) : Prop :=
  ∀ entry ∈ fields, ∀ n, entry.2 = .number n → n.isFinite = true ∧ n.isWritable = true

/-- An entry whose value is a scalar. -/
def grantedEntry? : Value × Value → Option (String × Scalar)
  | (.text id, .scalar s) => some (id, s)
  | _ => none

/-- The scalars of a section by identifier. -/
def granted (fields : Fields) : Table Scalar := fields.filterMap grantedEntry?

/-- A table of scalars as a section. -/
def ofScalars (t : Table Scalar) : Fields := ofTable (t.mapValues .scalar)

variable {fields : Fields}

theorem IsPlain.tail {entry : Value × Value} (h : IsPlain (entry :: fields)) : IsPlain fields where
  keys other hother := h.keys other (List.mem_cons_of_mem entry hother)
  distinct := (List.nodup_cons.1 h.distinct).2
  values other hother := h.values other (List.mem_cons_of_mem entry hother)

/-- The first entry of a plain section has the value null or grants a scalar. -/
theorem IsPlain.head {entry : Value × Value} (h : IsPlain (entry :: fields)) :
    ∃ id, entry = (.text id, .null) ∨ ∃ s, entry = (.text id, .scalar s) := by
  obtain ⟨key, v⟩ := entry
  obtain ⟨id, hkey⟩ := h.keys _ List.mem_cons_self
  cases hkey
  refine ⟨id, ?_⟩
  rcases h.values _ List.mem_cons_self with hnull | ⟨s, hs⟩
  · cases hnull
    exact .inl rfl
  · cases hs
    exact .inr ⟨s, rfl⟩

/-- What is granted are the values that are not null. -/
theorem IsPlain.sectionOf_eq (h : IsPlain fields) :
    Payload.sectionOf fields = ofScalars (granted fields) := by
  unfold Payload.sectionOf
  induction fields with
  | nil => rfl
  | cons entry fields ih =>
    have hrest := ih h.tail
    obtain ⟨id, rfl | ⟨s, rfl⟩⟩ := h.head
    · exact hrest
    · exact congrArg ((.text id, .scalar s) :: ·) hrest

theorem map_fst_ofScalars (t : Table Scalar) :
    (ofScalars t).map Prod.fst = t.names.map Value.text := by
  simp [ofScalars, ofTable, Table.mapValues, Table.names]

theorem IsPlain.nodup_granted (h : IsPlain fields) : (granted fields).names.Nodup := by
  have hsublist : (Payload.sectionOf fields).Sublist fields := List.filter_sublist
  have hkeys := (hsublist.map Prod.fst).nodup h.distinct
  rw [h.sectionOf_eq, map_fst_ofScalars] at hkeys
  exact List.Nodup.of_map Value.text hkeys

theorem isWritable_granted (h : IsWritable fields) :
    ∀ entry ∈ granted fields, ∀ n, entry.2 = .number n →
      n.isFinite = true ∧ n.isWritable = true := by
  intro granting hgranting n hn
  obtain ⟨⟨key, v⟩, hmem, hgranted⟩ := List.mem_filterMap.1 hgranting
  unfold grantedEntry? at hgranted
  split at hgranted
  · next id s heq =>
    cases heq
    cases hgranted
    exact h _ hmem n (congrArg Value.scalar hn)
  · cases hgranted

/-- In a plain section all numbers are granted. -/
theorem IsPlain.isWritable_of_granted (h : IsPlain fields)
    (hgranted : ∀ entry ∈ granted fields, ∀ n, entry.2 = .number n →
      n.isFinite = true ∧ n.isWritable = true) : IsWritable fields := by
  intro entry hentry n hn
  obtain ⟨id, hid⟩ := h.keys entry hentry
  obtain ⟨key, v⟩ := entry
  cases hid
  cases hn
  exact hgranted (id, .number n) (List.mem_filterMap.2 ⟨_, hentry, rfl⟩) n rfl

/-- Finding what is granted is finding a value that is not null. -/
theorem IsPlain.get?_granted (h : IsPlain fields) (id : String) :
    ((granted fields).get? id).map Value.scalar = fields.present? id := by
  induction fields with
  | nil => rfl
  | cons entry fields ih =>
    have hrest := ih h.tail
    have hnot := (List.nodup_cons.1 h.distinct).1
    unfold present? at hrest ⊢
    rw [get?_cons]
    obtain ⟨other, rfl | ⟨s, rfl⟩⟩ := h.head
    · show ((granted fields).get? id).map Value.scalar = _
      by_cases hid : other = id
      · -- The identifier of a null is not granted by a later entry either.
        rw [get?_eq_none_of_not_mem (hid ▸ hnot)] at hrest
        rw [hrest, isField_text, if_pos (beq_iff_eq.2 hid)]
      · rw [hrest, isField_text, if_neg (by simpa using hid)]
    · show (Table.get? ((other, s) :: granted fields) id).map Value.scalar = _
      rw [Table.get?_cons, isField_text]
      by_cases hid : id = other
      · rw [if_pos hid, if_pos (beq_iff_eq.2 hid.symm)]
        rfl
      · rw [if_neg hid, if_neg (by simpa using Ne.symm hid)]
        exact hrest

theorem mem_ofScalars {t : Table Scalar} {entry : Value × Value} :
    entry ∈ ofScalars t ↔ ∃ id s, (id, s) ∈ t ∧ entry = (.text id, .scalar s) := by
  unfold ofScalars ofTable Table.mapValues
  simp [eq_comm]

/-- A table of scalars is a plain section. -/
theorem isPlain_ofScalars {t : Table Scalar} (h : t.names.Nodup) : IsPlain (ofScalars t) where
  keys entry hentry := by
    obtain ⟨id, s, -, rfl⟩ := mem_ofScalars.1 hentry
    exact ⟨id, rfl⟩
  distinct := by
    rw [map_fst_ofScalars]
    apply List.Nodup.map _ h
    intro id other heq
    cases heq
    rfl
  values entry hentry := by
    obtain ⟨id, s, -, rfl⟩ := mem_ofScalars.1 hentry
    exact .inr ⟨s, rfl⟩

@[simp] theorem granted_ofScalars (t : Table Scalar) : granted (ofScalars t) = t := by
  induction t with
  | nil => rfl
  | cons entry t ih => exact congrArg (entry :: ·) ih

/-- A plain section without its nulls is plain, and grants the same. -/
theorem IsPlain.sectionOf (h : IsPlain fields) : IsPlain (Payload.sectionOf fields) := by
  rw [h.sectionOf_eq]
  exact isPlain_ofScalars h.nodup_granted

theorem IsPlain.granted_sectionOf (h : IsPlain fields) :
    granted (Payload.sectionOf fields) = granted fields := by
  rw [h.sectionOf_eq, granted_ofScalars]

end Fields

/-- Whether both sections of a snapshot are plain. -/
def Snapshot.IsPlain (s : Snapshot) : Prop := ∀ sort, (s.values sort).IsPlain

/-- Whether all numbers of a snapshot have texts. -/
def Snapshot.IsWritable (s : Snapshot) : Prop := ∀ sort, (s.values sort).IsWritable

end Tariff
