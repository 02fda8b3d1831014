import Mathlib.Data.List.Forall2
import Tariff.Proofs.Document.Fields
import Tariff.Proofs.Outcome
import Tariff.Table

/-!
# Tables that match the entries of a mapping

Whatever is made of a mapping of a document, the nodes of its tree or the features of a
catalog, is a table with one thing for each entry, in the same order and under the same
name. `Table.Matches` says so, with a relation between each thing and the value that it
was made of; looking up a name on both sides and making a new table out of an old one
keep to it.
-/

namespace Tariff

variable {α β ε : Type}

namespace Table

/-- Whether the things of a table belong, one by one, to the entries of a mapping. -/
def Matches (R : String → α → Value → Prop) (t : Table α) (entries : Fields) : Prop :=
  List.Forall₂ (fun made entry => entry.1 = .text made.1 ∧ R made.1 made.2 entry.2) t entries

/-- A name is found on both sides or on neither. -/
theorem Matches.get? {R : String → α → Value → Prop} {t : Table α} {entries : Fields}
    (h : t.Matches R entries) (name : String) :
    Option.Rel (R name) (t.get? name) (entries.get? name) := by
  induction h with
  | nil => exact .none
  | @cons made entry t entries hentry _ ih =>
    obtain ⟨name', a⟩ := made
    obtain ⟨key, w⟩ := entry
    obtain ⟨hkey, hmade⟩ := hentry
    cases hkey
    rw [Table.get?_cons, Fields.get?_cons, Fields.isField_text]
    by_cases hname : name = name'
    · rw [if_pos hname, if_pos (by simp [hname]), hname]
      exact .some hmade
    · rw [if_neg hname, if_neg (by simp [Ne.symm hname])]
      exact ih

/-- The names of a table are the keys of the mapping. -/
theorem Matches.names {R : String → α → Value → Prop} {t : Table α} {entries : Fields}
    (h : t.Matches R entries) : entries.map Prod.fst = t.names.map Value.text := by
  induction h with
  | nil => rfl
  | cons hentry _ ih =>
    rw [Table.names, List.map_cons, List.map_cons, List.map_cons, hentry.1, ih]
    rfl

/-- What is made of the things of a table belongs to the same entries. -/
theorem Matches.traverse {R : String → α → Value → Prop} {t : Table α} {entries : Fields}
    {f : String → α → Except ε β} {made : Table β} (h : t.Matches R entries)
    (hmade : t.traverse f = .ok made) :
    made.Matches (fun name b v => ∃ a, R name a v ∧ f name a = .ok b) entries := by
  induction h generalizing made with
  | nil =>
    cases hmade
    exact .nil
  | @cons old entry t entries hentry _ ih =>
    obtain ⟨b, tail, hb, htail, rfl⟩ := traverse_cons_eq_ok_iff.1 hmade
    exact .cons ⟨hentry.1, old.2, hentry.2, hb⟩ (ih htail)

/-- What is made of the things of a table one by one belongs to the same entries. -/
theorem Matches.map {R : String → α → Value → Prop} {t : Table α} {entries : Fields}
    (h : t.Matches R entries) (f : String → α → β) :
    Matches (fun name b v => ∃ a, R name a v ∧ f name a = b)
      (t.map fun entry => (entry.1, f entry.1 entry.2)) entries := by
  induction h with
  | nil => exact .nil
  | @cons old entry t entries hentry _ ih =>
    exact .cons ⟨hentry.1, old.2, hentry.2, rfl⟩ ih

/-- Two searches that agree on what matches find the same. -/
theorem Matches.findSome?_reverse {R : String → α → Value → Prop} {t : Table α} {entries : Fields}
    {f : String × α → Option β} {g : Value × Value → Option β} (h : t.Matches R entries)
    (hfg : ∀ name a v, R name a v → f (name, a) = g (.text name, v)) :
    t.reverse.findSome? f = entries.reverse.findSome? g := by
  have hreverse := List.rel_reverse h
  generalize t.reverse = t' at hreverse
  generalize entries.reverse = entries' at hreverse
  induction hreverse with
  | nil => rfl
  | @cons made entry t entries hentry _ ih =>
    obtain ⟨key, v⟩ := entry
    obtain ⟨hkey, hmade⟩ := hentry
    cases hkey
    rw [List.findSome?_cons, List.findSome?_cons, hfg _ _ _ hmade, ih]

/-- Tables that match mappings with the same keys have the same names, and things that are
related as far as the entries are. -/
theorem Matches.forall₂ {R : String → α → Value → Prop} {t u : Table α} {entries entries' : Fields}
    {E : Value × Value → Value × Value → Prop} (S : String → α → α → Prop)
    (ht : t.Matches R entries) (hu : u.Matches R entries') (h : List.Forall₂ E entries entries')
    (hkeys : ∀ x y, E x y → x.1 = y.1)
    (hS : ∀ name a b v w, E (.text name, v) (.text name, w) → R name a v → R name b w → S name a b) :
    List.Forall₂ (fun a b => a.1 = b.1 ∧ S a.1 a.2 b.2) t u := by
  induction h generalizing t u with
  | nil =>
    cases ht
    cases hu
    exact .nil
  | @cons entry entry' entries entries' hentry _ ih =>
    cases ht with
    | @cons made _ _ _ hmade hrest =>
      cases hu with
      | @cons made' _ _ _ hmade' hrest' =>
        obtain ⟨key, v⟩ := entry
        obtain ⟨key', w⟩ := entry'
        obtain ⟨name, a⟩ := made
        obtain ⟨name', b⟩ := made'
        obtain ⟨rfl, ha⟩ := hmade
        obtain ⟨rfl, hb⟩ := hmade'
        cases hkeys _ _ hentry
        exact .cons ⟨rfl, hS _ _ _ _ _ hentry ha hb⟩ (ih hrest hrest')

end Table

end Tariff
