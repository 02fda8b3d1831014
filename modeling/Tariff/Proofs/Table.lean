import Mathlib.Data.List.Nodup
import Tariff.Table

/-!
# Tables

Looking a name up in a table finds an entry of that name, the first one. What is made of
a table thing by thing has the names of the table (`Table.names_of_traverse`), and under
each of them what was made of the thing of that name.

Where the order of a table must not matter, its entries are put in the order of their
names. Two tables with the same entries are then one table, provided that no name occurs
twice (`sorted_eq_of_perm`).
-/

namespace Tariff.Table

variable {α β ε : Type}

/-! ## Names and what is made of a table -/

/-- A name is in a table if it is among its names. -/
theorem exists_get?_iff {t : Table α} {name : String} :
    (∃ a, t.get? name = some a) ↔ name ∈ t.names := by
  induction t with
  | nil => simp [names]
  | cons entry rest ih =>
    obtain ⟨other, b⟩ := entry
    rw [get?_cons]
    by_cases h : name = other
    · simp [h, names]
    · rw [if_neg h, ih]
      simp [h, names]

theorem mem_of_get? {t : Table α} {name : String} {a : α} (h : t.get? name = some a) :
    (name, a) ∈ t := by
  induction t with
  | nil => cases h
  | cons entry rest ih =>
    obtain ⟨other, b⟩ := entry
    rw [get?_cons] at h
    split at h
    · next heq =>
      cases h
      exact heq ▸ List.mem_cons_self
    · exact List.mem_cons_of_mem _ (ih h)

/-- All that was made was made of a thing of the same name. -/
theorem exists_of_mem_traverse {f : String → α → Except ε β} {t : Table α} {made : Table β}
    (h : t.traverse f = .ok made) :
    ∀ entry ∈ made, ∃ a, (entry.1, a) ∈ t ∧ f entry.1 a = .ok entry.2 := by
  induction t generalizing made with
  | nil =>
    cases h
    exact nofun
  | cons first rest ih =>
    obtain ⟨b, tail, hb, htail, rfl⟩ := traverse_cons_eq_ok_iff.1 h
    refine List.forall_mem_cons.2 ⟨⟨first.2, List.mem_cons_self, hb⟩, fun entry hentry => ?_⟩
    obtain ⟨a, ha, hmade⟩ := ih htail entry hentry
    exact ⟨a, List.mem_cons_of_mem _ ha, hmade⟩

/-- If nothing is made of a table, it is for one of its things. -/
theorem exists_of_traverse_error {f : String → α → Except ε β} {t : Table α} {e : ε}
    (h : t.traverse f = .error e) : ∃ entry ∈ t, f entry.1 entry.2 = .error e := by
  induction t with
  | nil => cases h
  | cons entry rest ih =>
    rw [traverse] at h
    cases hentry : f entry.1 entry.2 with
    | error e' =>
      rw [hentry] at h
      cases h
      exact ⟨entry, List.mem_cons_self, hentry⟩
    | ok b =>
      rw [hentry] at h
      cases hrest : Table.traverse f rest with
      | error e' =>
        rw [hrest] at h
        cases h
        obtain ⟨other, hmem, hother⟩ := ih hrest
        exact ⟨other, List.mem_cons_of_mem _ hmem, hother⟩
      | ok tail =>
        rw [hrest] at h
        cases h

/-- What holds of each thing as it is made holds of all that was made. -/
theorem forall_mem_of_traverse {f : String → α → Except ε β} {P : String → β → Prop}
    {t : Table α} {made : Table β} (h : t.traverse f = .ok made)
    (hmade : ∀ name a b, f name a = .ok b → P name b) : ∀ entry ∈ made, P entry.1 entry.2 := by
  intro entry hentry
  obtain ⟨a, -, ha⟩ := exists_of_mem_traverse h entry hentry
  exact hmade _ a _ ha

/-- What is made of a table has under a name what is made of the thing of that name. -/
theorem exists_get?_of_traverse {f : String → α → Except ε β} {t : Table α} {made : Table β}
    (h : t.traverse f = .ok made) {name : String} {b : β} (hb : made.get? name = some b) :
    ∃ a, t.get? name = some a ∧ f name a = .ok b := by
  induction t generalizing made with
  | nil =>
    cases h
    cases hb
  | cons entry rest ih =>
    obtain ⟨other, a⟩ := entry
    obtain ⟨b', tail, hb', htail, rfl⟩ := traverse_cons_eq_ok_iff.1 h
    rw [get?_cons] at hb ⊢
    split at hb
    · next heq =>
      cases hb
      rw [if_pos heq]
      exact ⟨a, rfl, heq ▸ hb'⟩
    · next hne =>
      rw [if_neg hne]
      exact ih htail hb

/-- What is made of a table depends only on what is made of its things. -/
theorem traverse_congr {f g : String → α → Except ε β} {t : Table α}
    (h : ∀ entry ∈ t, f entry.1 entry.2 = g entry.1 entry.2) : t.traverse f = t.traverse g := by
  induction t with
  | nil => rfl
  | cons entry rest ih =>
    obtain ⟨hfirst, hrest⟩ := List.forall_mem_cons.1 h
    obtain ⟨name, a⟩ := entry
    rw [traverse, traverse, hfirst, ih hrest]

/-- Making a table of things that are always made. -/
theorem traverse_ok (f : String → α → β) (t : Table α) :
    t.traverse (fun name a => (.ok (f name a) : Except ε β)) =
      .ok (t.map fun entry => (entry.1, f entry.1 entry.2)) := by
  induction t with
  | nil => rfl
  | cons entry rest ih => exact traverse_cons_eq_ok_iff.2 ⟨_, _, rfl, ih, rfl⟩

/-- Searching what a filter keeps is searching where the filter holds. -/
theorem findSome?_filter (t : Table α) (p : String × α → Bool) (f : String × α → Option β) :
    (t.filter p).findSome? f = t.findSome? fun entry => if p entry then f entry else none := by
  induction t with
  | nil => rfl
  | cons entry rest ih =>
    rw [List.filter_cons, List.findSome?_cons]
    split
    · rw [List.findSome?_cons, ih]
    · exact ih

/-- Setting one name leaves the entries of the others as they are. -/
theorem filter_set (t : Table α) {name : String} (a : α) {p : String × α → Bool}
    (h : ∀ b, p (name, b) = false) : (t.set name a).filter p = t.filter p := by
  induction t with
  | nil => simp [set, h]
  | cons entry rest ih =>
    obtain ⟨other, b⟩ := entry
    rw [set]
    split
    · next heq =>
      subst heq
      rw [List.filter_cons, List.filter_cons, h, h]
      rfl
    · rw [List.filter_cons, List.filter_cons, ih]

/-! ## The order of the names -/

/-- The entries of a table in the order of their names. -/
def sorted (t : Table α) : Table α := t.mergeSort fun a b => decide (a.1 ≤ b.1)

theorem sorted_perm (t : Table α) : t.sorted.Perm t := List.mergeSort_perm t _

theorem mem_sorted {t : Table α} {entry : String × α} : entry ∈ t.sorted ↔ entry ∈ t :=
  (sorted_perm t).mem_iff

theorem pairwise_sorted (t : Table α) : t.sorted.Pairwise fun a b => a.1 ≤ b.1 := by
  have hsorted : t.sorted.Pairwise fun a b => decide (a.1 ≤ b.1) = true := by
    refine List.pairwise_mergeSort ?_ ?_ t
    · intro a b c hab hbc
      exact decide_eq_true (String.le_trans (of_decide_eq_true hab) (of_decide_eq_true hbc))
    · intro a b
      simpa using String.le_total a.1 b.1
  exact hsorted.imp fun h => of_decide_eq_true h

/-- What is in order stays as it is. -/
theorem sorted_of_pairwise {t : Table α} (h : t.Pairwise fun a b => a.1 ≤ b.1) : t.sorted = t :=
  List.mergeSort_of_pairwise (h.imp fun hle => decide_eq_true hle)

theorem nodup_sorted {t : Table α} (h : t.names.Nodup) : t.sorted.names.Nodup :=
  (((sorted_perm t).map Prod.fst).nodup_iff).2 h

/-- Making other things of a table leaves the order of the names alone. -/
theorem sorted_mapValues (f : α → β) (t : Table α) :
    (t.mapValues f).sorted = t.sorted.mapValues f := by
  unfold sorted mapValues
  rw [List.map_mergeSort]
  intro a _ b _
  rfl

/-- Entries of one name are one entry, if no name occurs twice. -/
theorem eq_of_name_eq {t : Table α} (h : t.names.Nodup) {a b : String × α} (ha : a ∈ t)
    (hb : b ∈ t) (hname : a.1 = b.1) : a = b := by
  unfold names at h
  induction t with
  | nil => cases ha
  | cons entry rest ih =>
    obtain ⟨hnot, hrest⟩ := List.nodup_cons.1 h
    rcases List.mem_cons.1 ha with rfl | ha'
    · rcases List.mem_cons.1 hb with rfl | hb'
      · rfl
      · exact absurd (hname ▸ List.mem_map_of_mem hb') hnot
    · rcases List.mem_cons.1 hb with rfl | hb'
      · exact absurd (hname ▸ List.mem_map_of_mem ha') hnot
      · exact ih hrest ha' hb'

/-- Without repeated names, looking a name up finds every entry. -/
theorem get?_eq_some_iff {t : Table α} (h : t.names.Nodup) {name : String} {a : α} :
    t.get? name = some a ↔ (name, a) ∈ t := by
  unfold names at h
  induction t with
  | nil => simp
  | cons entry rest ih =>
    obtain ⟨other, b⟩ := entry
    obtain ⟨hnot, hrest⟩ := List.nodup_cons.1 h
    rw [get?_cons, List.mem_cons]
    by_cases hname : name = other
    · subst hname
      have hgone : (name, a) ∉ rest := fun hmem =>
        hnot (List.mem_map.2 ⟨(name, a), hmem, rfl⟩)
      simp [hgone, eq_comm]
    · rw [if_neg hname, ih hrest]
      simp [hname]

/-- Tables with the same entries are the same when they are in order. -/
theorem sorted_eq_of_perm {t u : Table α} (hperm : t.Perm u) (h : t.names.Nodup) :
    t.sorted = u.sorted := by
  have hsorted : t.sorted.Perm u.sorted :=
    (sorted_perm t).trans (hperm.trans (sorted_perm u).symm)
  refine List.Perm.eq_of_pairwise ?_ (pairwise_sorted t) (pairwise_sorted u) hsorted
  intro a b ha hb hab hba
  have ha' : a ∈ t := mem_sorted.1 ha
  have hb' : b ∈ t := hperm.mem_iff.2 (mem_sorted.1 hb)
  exact eq_of_name_eq h ha' hb' (String.le_antisymm hab hba)

/-- Tables are the same in order exactly if every name finds the same. -/
theorem sorted_eq_iff {t u : Table α} (ht : t.names.Nodup) (hu : u.names.Nodup) :
    t.sorted = u.sorted ↔ ∀ name, t.get? name = u.get? name := by
  constructor
  · intro heq name
    apply Option.ext
    intro a
    rw [get?_eq_some_iff ht, get?_eq_some_iff hu, ← mem_sorted, heq, mem_sorted]
  · intro hget
    have hperm : t.Perm u := by
      rw [List.perm_ext_iff_of_nodup (List.Nodup.of_map Prod.fst ht)
        (List.Nodup.of_map Prod.fst hu)]
      intro entry
      rw [← get?_eq_some_iff ht, ← get?_eq_some_iff hu, hget]
    exact sorted_eq_of_perm hperm ht

end Tariff.Table
