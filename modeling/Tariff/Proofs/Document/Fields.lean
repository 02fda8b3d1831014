import Tariff.Document.Fields

/-!
# Looking for fields

What is found among the entries of a mapping, and what is found after entries were put in
another order or taken away. Together with the laws of `set` these are all that the steps
of the version ladder do to a document.
-/

namespace Tariff.Fields

variable {fields : Fields} {name other : String}

/-- Looking for a field skips an entry that is another field. -/
theorem get?_cons (entry : Value × Value) (rest : Fields) (name : String) :
    Fields.get? (entry :: rest) name =
      if isField name entry then some entry.2 else Fields.get? rest name := by
  unfold Fields.get?
  rw [List.find?_cons]
  cases isField name entry <;> rfl

/-- An entry is the field of a name if the name is its key. -/
theorem isField_eq_true_iff {entry : Value × Value} :
    isField name entry = true ↔ entry.1 = .text name := by
  unfold isField
  split
  · next key hkey => simp [hkey]
  · next hne =>
    simp only [Bool.false_eq_true, false_iff]
    exact fun h => hne name h

/-- No entry is the field of two names. -/
theorem isField_unique {entry : Value × Value} (h : isField name entry = true)
    (hother : isField other entry = true) : name = other := by
  rw [isField_eq_true_iff] at h hother
  rw [h] at hother
  cases hother
  rfl

/-! ## Fields that are found -/

theorem get?_eq_none_of_not_mem (h : .text name ∉ fields.map Prod.fst) :
    fields.get? name = none := by
  induction fields with
  | nil => rfl
  | cons entry fields ih =>
    have hentry : ¬isField name entry = true := fun hfield =>
      h (isField_eq_true_iff.1 hfield ▸ List.mem_cons_self)
    rw [get?_cons, if_neg hentry]
    exact ih fun hmem => h (List.mem_cons_of_mem _ hmem)

/-- A field that is found is an entry. -/
theorem mem_of_get? {v : Value} (h : fields.get? name = some v) : (.text name, v) ∈ fields := by
  unfold get? at h
  obtain ⟨⟨key, w⟩, hfind, hv⟩ := Option.map_eq_some_iff.1 h
  cases hv
  have hkey : key = .text name := isField_eq_true_iff.1 (List.find?_some hfind)
  exact hkey ▸ List.mem_of_find?_eq_some hfind

/-- Fields are looked for in the first part, and then in the second. -/
theorem get?_append (before after : Fields) (name : String) :
    Fields.get? (before ++ after) name = (before.get? name).or (after.get? name) := by
  induction before with
  | nil => rfl
  | cons entry before ih =>
    rw [List.cons_append, get?_cons, get?_cons, ih]
    split <;> rfl

/-- If no key occurs twice, looking for a field finds every entry. -/
theorem get?_eq_some_iff (h : (fields.map Prod.fst).Nodup) {v : Value} :
    fields.get? name = some v ↔ (.text name, v) ∈ fields := by
  induction fields with
  | nil => simp [Fields.get?]
  | cons entry fields ih =>
    obtain ⟨hnot, hrest⟩ := List.nodup_cons.1 h
    obtain ⟨key, w⟩ := entry
    rw [get?_cons, List.mem_cons]
    by_cases hkey : key = .text name
    · subst hkey
      have hgone : (.text name, v) ∉ fields := fun hmem =>
        hnot (List.mem_map.2 ⟨_, hmem, rfl⟩)
      rw [if_pos (isField_eq_true_iff.2 rfl)]
      simp [hgone, eq_comm]
    · rw [if_neg fun hfield => hkey (isField_eq_true_iff.1 hfield), ih hrest]
      constructor
      · exact .inr
      · rintro (heq | hmem)
        · cases heq
          exact absurd rfl hkey
        · exact hmem

/-- If no key occurs twice, the order of the entries does not matter. -/
theorem get?_eq_of_perm (h : (fields.map Prod.fst).Nodup) {fields' : Fields}
    (hperm : fields.Perm fields') (name : String) : fields.get? name = fields'.get? name := by
  apply Option.ext
  intro v
  rw [get?_eq_some_iff h, get?_eq_some_iff ((hperm.map Prod.fst).nodup_iff.1 h), hperm.mem_iff]

/-! ## Fields that were taken away -/

/-- A field that was taken away is not found. -/
theorem get?_without_of_mem {names : List String} (h : name ∈ names) :
    (fields.without names).get? name = none := by
  unfold without
  induction fields with
  | nil => rfl
  | cons entry rest ih =>
    rw [List.filter_cons]
    split
    · next hkept =>
      have hnot : isField name entry = false := by
        simp only [Bool.not_eq_true', List.any_eq_false, Bool.not_eq_true] at hkept
        exact hkept name h
      rw [get?_cons, hnot]
      exact ih
    · exact ih

/-- Taking fields away changes no other. -/
theorem get?_without_of_not_mem {names : List String} (h : name ∉ names) :
    (fields.without names).get? name = fields.get? name := by
  unfold without
  induction fields with
  | nil => rfl
  | cons entry rest ih =>
    rw [List.filter_cons]
    split
    · rw [get?_cons, get?_cons, ih]
    · next hdropped =>
      simp only [Bool.not_eq_true', Bool.not_eq_false, List.any_eq_true] at hdropped
      obtain ⟨gone, hmem, hgone⟩ := hdropped
      have hnot : ¬isField name entry = true := fun hname =>
        h (isField_unique hname hgone ▸ hmem)
      rw [get?_cons, if_neg hnot]
      exact ih

/-! ## Fields that are null -/

/-- A field whose value is null is absent, and so is a field that is not there. -/
theorem present?_eq_none_iff :
    fields.present? name = none ↔
      fields.get? name = none ∨ fields.get? name = some .null := by
  unfold present?
  split
  · next h => simp [h]
  · next value? hne =>
    constructor
    · exact fun h => .inl h
    · rintro (h | h)
      · exact h
      · exact absurd h hne

theorem present?_eq_some_iff {v : Value} :
    fields.present? name = some v ↔ fields.get? name = some v ∧ v ≠ .null := by
  unfold present?
  split
  · next h =>
    rw [h]
    constructor
    · intro hnone
      cases hnone
    · rintro ⟨hsome, hne⟩
      exact absurd (Option.some.inj hsome).symm hne
  · next value? hne =>
    constructor
    · intro h
      exact ⟨h, fun hnull => hne (hnull ▸ h)⟩
    · exact fun h => h.1

end Tariff.Fields
