import Mathlib.Logic.Relation
import Tariff.Proofs.Document.Shown

/-!
# What can be seen of a document

A document is read by its layout. Some mappings are records, of which certain fields are
looked up; others are catalogs, whose entries are read one after the other; and everything
else is read as it stands. `Layout.view` is what a reader can see of a value in this way: of
a record only the fields that it looks up, and these only if they are not null.

`Layout.Edit` is one change of a record that no reader can see. Changes of this sort leave
the view alone, however many there are (`view_eq_of_edits`), and values with the same view
have trees that are alike (`alike_of_view_eq`): they differ at most in what records have
beside the fields that are looked up.
-/

namespace Tariff

/-- How a value is read. -/
inductive Layout where
  /-- As it stands. -/
  | verbatim
  /-- If it is a mapping, entry by entry. -/
  | catalog (entry : Layout)
  /-- If it is a mapping, field by field: the fields of these names are looked up. -/
  | record (names : List String) (field : String → Layout)

namespace Layout

/-! ## Views -/

/-- What can be seen of a value. -/
inductive View where
  | whole (v : Value)
  | entries (views : List (Value × View))
  | fields (views : List (Option View))

/-- What a reader by a layout sees of a value. -/
def view : Layout → Value → View
  | .catalog entry, .mapping entries =>
    .entries (entries.map fun member => (member.1, entry.view member.2))
  | .record names field, .mapping entries =>
    .fields (names.map fun name => (Fields.present? entries name).map (field name).view)
  | _, v => .whole v

theorem view_verbatim (v : Value) : verbatim.view v = .whole v := by
  rw [view] <;> nofun

/-- What is no mapping is seen as a whole. -/
theorem mapping_or_view_eq (l : Layout) (v : Value) :
    (∃ entries, v = .mapping entries) ∨ l.view v = .whole v := by
  cases v with
  | mapping entries => exact .inl ⟨entries, rfl⟩
  | _ =>
    right
    cases l <;> rw [view] <;> nofun

/-- A mapping is seen as a whole only if it is read as it stands. -/
theorem eq_verbatim_of_view_mapping {l : Layout} {entries : Fields} {v : Value}
    (h : l.view (.mapping entries) = .whole v) : l = .verbatim := by
  cases l with
  | verbatim => rfl
  | catalog entry =>
    rw [view] at h
    cases h
  | record names field =>
    rw [view] at h
    cases h

/-- Values with the same view are the same, or they are two mappings. -/
theorem eq_or_mappings_of_view_eq {l : Layout} {v w : Value} (h : l.view v = l.view w) :
    v = w ∨ ∃ entries entries', v = .mapping entries ∧ w = .mapping entries' := by
  rcases mapping_or_view_eq l v with ⟨entries, rfl⟩ | hv
  · rcases mapping_or_view_eq l w with ⟨entries', rfl⟩ | hw
    · exact .inr ⟨entries, entries', rfl, rfl⟩
    · rw [hw] at h
      rw [eq_verbatim_of_view_mapping h, view_verbatim] at h
      exact .inl (View.whole.inj h)
  · rcases mapping_or_view_eq l w with ⟨entries', rfl⟩ | hw
    · rw [hv] at h
      rw [eq_verbatim_of_view_mapping h.symm, view_verbatim] at h
      exact .inl (View.whole.inj h)
    · rw [hv, hw] at h
      exact .inl (View.whole.inj h)

/-- Records have the same view if the fields that are looked up have. -/
theorem view_record_eq {names : List String} {field : String → Layout} {entries entries' : Fields}
    (h : ∀ name ∈ names, (entries.present? name).map (field name).view =
      (entries'.present? name).map (field name).view) :
    (record names field).view (.mapping entries) =
      (record names field).view (.mapping entries') := by
  rw [view, view]
  exact congrArg View.fields (List.map_congr_left h)

/-! ## Changes that cannot be seen -/

/-- A change of a record somewhere in a value: its entries are put in another order, or one
of them is taken away whose value is null or whose key is not looked up. -/
inductive Edit : Layout → Value → Value → Prop
  | reorder {names : List String} {field : String → Layout} {entries entries' : Fields}
      (hkeys : (entries.map Prod.fst).Nodup) (h : entries.Perm entries') :
      Edit (.record names field) (.mapping entries) (.mapping entries')
  | dropNull {names : List String} {field : String → Layout} (before after : Fields) {key : Value}
      (hkey : key ∉ (before ++ after).map Prod.fst) :
      Edit (.record names field) (.mapping (before ++ (key, .null) :: after))
        (.mapping (before ++ after))
  | dropUnread {names : List String} {field : String → Layout} (before after : Fields)
      {key v : Value} (hkey : ∀ name ∈ names, key ≠ .text name) :
      Edit (.record names field) (.mapping (before ++ (key, v) :: after))
        (.mapping (before ++ after))
  | inField {names : List String} {field : String → Layout} (before after : Fields)
      {name : String} {v w : Value} (hname : name ∈ names) (h : Edit (field name) v w) :
      Edit (.record names field) (.mapping (before ++ (.text name, v) :: after))
        (.mapping (before ++ (.text name, w) :: after))
  | inEntry {entry : Layout} (before after : Fields) {key v w : Value} (h : Edit entry v w) :
      Edit (.catalog entry) (.mapping (before ++ (key, v) :: after))
        (.mapping (before ++ (key, w) :: after))

namespace Edit

variable {l : Layout} {v w : Value}

theorem mappings (h : l.Edit v w) :
    ∃ entries entries', v = .mapping entries ∧ w = .mapping entries' := by
  cases h <;> exact ⟨_, _, rfl, rfl⟩

/-- A field that is null is found as little as one that is not there. -/
theorem present?_dropNull {before after : Fields} {key : Value}
    (hkey : key ∉ (before ++ after).map Prod.fst) (name : String) :
    Fields.present? (before ++ (key, .null) :: after) name =
      Fields.present? (before ++ after) name := by
  unfold Fields.present?
  rw [Fields.get?_append, Fields.get?_append, Fields.get?_cons]
  by_cases hname : key = .text name
  · rw [List.map_append, List.mem_append, not_or, hname] at hkey
    rw [if_pos (Fields.isField_eq_true_iff.2 hname), Fields.get?_eq_none_of_not_mem hkey.1,
      Fields.get?_eq_none_of_not_mem hkey.2]
    rfl
  · rw [if_neg fun hfield => hname (Fields.isField_eq_true_iff.1 hfield)]

theorem present?_dropUnread {before after : Fields} {key v : Value} {name : String}
    (hkey : key ≠ .text name) :
    Fields.present? (before ++ (key, v) :: after) name =
      Fields.present? (before ++ after) name := by
  unfold Fields.present?
  rw [Fields.get?_append, Fields.get?_append, Fields.get?_cons,
    if_neg fun hfield => hkey (Fields.isField_eq_true_iff.1 hfield)]

/-- A change of one field leaves the others alone. -/
theorem present?_inField {before after : Fields} {name other : String} {α : Type}
    {see : Value → α} (h : l.Edit v w) (hsee : name = other → see v = see w) :
    (Fields.present? (before ++ (.text name, v) :: after) other).map see =
      (Fields.present? (before ++ (.text name, w) :: after) other).map see := by
  obtain ⟨entries, entries', rfl, rfl⟩ := h.mappings
  unfold Fields.present?
  rw [Fields.get?_append, Fields.get?_append, Fields.get?_cons, Fields.get?_cons]
  cases before.get? other with
  | some found => rfl
  | none =>
    rw [Fields.isField_text, Fields.isField_text]
    by_cases hname : name = other
    · rw [if_pos (beq_iff_eq.2 hname), if_pos (beq_iff_eq.2 hname)]
      exact congrArg some (hsee hname)
    · rw [if_neg fun heq => hname (beq_iff_eq.1 heq), if_neg fun heq => hname (beq_iff_eq.1 heq)]

/-- No change of a record can be seen. -/
theorem view_eq (h : l.Edit v w) : l.view v = l.view w := by
  induction h with
  | @reorder names field entries entries' hkeys hperm =>
    refine view_record_eq fun name _ => ?_
    unfold Fields.present?
    rw [Fields.get?_eq_of_perm hkeys hperm]
  | dropNull before after hkey =>
    refine view_record_eq fun name _ => ?_
    rw [present?_dropNull hkey]
  | dropUnread before after hkey =>
    refine view_record_eq fun name hname => ?_
    rw [present?_dropUnread (hkey name hname)]
  | inField before after hname h ih =>
    refine view_record_eq fun other _ => ?_
    exact present?_inField h fun heq => heq ▸ ih
  | inEntry before after h ih =>
    rw [view, view, List.map_append, List.map_append, List.map_cons, List.map_cons, ih]

end Edit

/-- Whatever changes of records lead from one value to another, back and forth, both have
the same view. -/
theorem view_eq_of_edits {l : Layout} {v w : Value} (h : Relation.EqvGen l.Edit v w) :
    l.view v = l.view w := by
  induction h with
  | rel v w hedit => exact hedit.view_eq
  | refl v => rfl
  | symm v w _ ih => exact ih.symm
  | trans v w x _ _ ih ih' => exact ih.trans ih'

/-! ## Trees that are alike -/

/-- Whether two nodes are the same to a reader by a layout. -/
def Alike : Layout → Node → Node → Prop
  | .verbatim, n, m => n = m
  | .catalog entry, n, m => n = m ∨ ∃ path fields fields',
      n = .mapping path fields ∧ m = .mapping path fields' ∧
        List.Forall₂ (fun a b => a.1 = b.1 ∧ entry.Alike a.2 b.2) fields fields'
  | .record names field, n, m => n = m ∨ ∃ path fields fields',
      n = .mapping path fields ∧ m = .mapping path fields' ∧
        ∀ name ∈ names, ∃ child child', n.get? name = .ok child ∧ m.get? name = .ok child' ∧
          Option.Rel (field name).Alike child child'

theorem Alike.refl (l : Layout) (n : Node) : l.Alike n n := by
  cases l with
  | verbatim => exact rfl
  | catalog entry => exact .inl rfl
  | record names field => exact .inl rfl

/-- The tree of a mapping has the trees of its entries. -/
theorem exists_fields_of_ofValueAt {path : String} {depth : Nat} {entries : Fields} {n : Node}
    (h : Node.ofValueAt path depth (.mapping entries) = .ok n) :
    ∃ fields : Table Node, n = .mapping path fields ∧ fields.Matches
      (fun name node v => Node.ofValueAt (Node.fieldPath path name) (depth + 1) v = .ok node)
      entries := by
  cases Node.isBuiltOf_of_ofValueAt h with
  | mapping hfields => exact ⟨_, rfl, Node.matches_of_fieldsOf hfields⟩
  | scalar hs => cases hs
  | sequence hv => rcases hv with heq | heq <;> cases heq

/-- What is made of two optional things that show the same is related, if what is made of
things that show the same is. -/
theorem optionRel_of_map_eq {α β γ : Type} {R : β → α → Prop} {S : β → β → Prop} {see : α → γ}
    {a a' : Option α} {b b' : Option β} (h : a.map see = a'.map see) (hb : Option.Rel R b a)
    (hb' : Option.Rel R b' a')
    (hS : ∀ {x x' y y'}, see x = see x' → R y x → R y' x' → S y y') : Option.Rel S b b' := by
  cases hb with
  | none =>
    cases hb' with
    | none => exact .none
    | some => cases h
  | some hy =>
    cases hb' with
    | none => cases h
    | some hy' => exact .some (hS (Option.some.inj h) hy hy')

/-- What two mappings have the same in a field, their trees have the same there. -/
theorem get?_eq_of_field?_eq {path key : String} {depth : Nat} {v w : Value} {n m : Node}
    (hn : Node.ofValueAt path depth v = .ok n) (hm : Node.ofValueAt path depth w = .ok m)
    (hv : ∃ entries, v = .mapping entries) (hw : ∃ entries, w = .mapping entries)
    (h : v.field? key = w.field? key) : n.get? key = m.get? key := by
  obtain ⟨entries, rfl⟩ := hv
  obtain ⟨entries', rfl⟩ := hw
  obtain ⟨fields, rfl, hfields⟩ := exists_fields_of_ofValueAt hn
  obtain ⟨fields', rfl, hfields'⟩ := exists_fields_of_ofValueAt hm
  obtain ⟨child, hchild, hrel⟩ :=
    Node.get?_of_matches hfields (fun _ _ _ => Node.shows_of_ofValueAt) path key
  obtain ⟨child', hchild', hrel'⟩ :=
    Node.get?_of_matches hfields' (fun _ _ _ => Node.shows_of_ofValueAt) path key
  have hsame : Option.Rel Eq child child' := by
    refine optionRel_of_map_eq (congrArg (Option.map id) h) hrel hrel' ?_
    intro x x' y y' hx hy hy'
    cases show x = x' from hx
    exact Except.ok.inj (hy.symm.trans hy')
  rw [hchild, hchild']
  cases hsame with
  | none => rfl
  | some heq => rw [heq]

/-- The trees of values with the same view are alike. -/
theorem alike_of_view_eq {l : Layout} {path : String} {depth : Nat} {v w : Value} {n m : Node}
    (h : l.view v = l.view w) (hn : Node.ofValueAt path depth v = .ok n)
    (hm : Node.ofValueAt path depth w = .ok m) : l.Alike n m := by
  induction l generalizing path depth v w n m with
  | verbatim =>
    rw [view_verbatim, view_verbatim] at h
    rw [View.whole.inj h, hm] at hn
    exact (Except.ok.inj hn).symm
  | catalog entry ih =>
    rcases eq_or_mappings_of_view_eq h with rfl | ⟨entries, entries', rfl, rfl⟩
    · rw [hm] at hn
      exact .inl (Except.ok.inj hn).symm
    · obtain ⟨fields, rfl, hfields⟩ := exists_fields_of_ofValueAt hn
      obtain ⟨fields', rfl, hfields'⟩ := exists_fields_of_ofValueAt hm
      refine .inr ⟨path, fields, fields', rfl, rfl, ?_⟩
      rw [view, view] at h
      have hseen : List.Forall₂
          (fun x y : Value × Value => (x.1, entry.view x.2) = (y.1, entry.view y.2))
          entries entries' := by
        rw [← List.forall₂_map_right_iff, ← List.forall₂_map_left_iff, View.entries.inj h]
        exact List.forall₂_refl _
      refine hfields.forall₂ (fun _ => entry.Alike) hfields' hseen
        (fun x y hxy => (Prod.mk.inj hxy).1) ?_
      exact fun name n m v w hvw => ih (Prod.mk.inj hvw).2
  | record names field ih =>
    rcases eq_or_mappings_of_view_eq h with rfl | ⟨entries, entries', rfl, rfl⟩
    · rw [hm] at hn
      exact .inl (Except.ok.inj hn).symm
    · obtain ⟨fields, rfl, hfields⟩ := exists_fields_of_ofValueAt hn
      obtain ⟨fields', rfl, hfields'⟩ := exists_fields_of_ofValueAt hm
      refine .inr ⟨path, fields, fields', rfl, rfl, fun name hname => ?_⟩
      obtain ⟨child, hchild, hrel⟩ :=
        Node.get?_of_matches hfields (fun _ _ _ => Node.shows_of_ofValueAt) path name
      obtain ⟨child', hchild', hrel'⟩ :=
        Node.get?_of_matches hfields' (fun _ _ _ => Node.shows_of_ofValueAt) path name
      refine ⟨child, child', hchild, hchild', ?_⟩
      rw [view, view] at h
      have hfield := List.map_inj_left.1 (View.fields.inj h) name hname
      exact optionRel_of_map_eq hfield hrel hrel' (ih name)

/-! ## Looking at trees that are alike -/

namespace Alike

variable {l entry : Layout} {names : List String} {field : String → Layout} {n m : Node}

/-- Nodes that are alike are the same, or they are two mappings at one place. -/
theorem eq_or_mappings (h : l.Alike n m) :
    n = m ∨ ∃ path fields fields', n = .mapping path fields ∧ m = .mapping path fields' := by
  cases l with
  | verbatim => exact .inl h
  | catalog entry =>
    rcases h with rfl | ⟨path, fields, fields', rfl, rfl, -⟩
    · exact .inl rfl
    · exact .inr ⟨path, fields, fields', rfl, rfl⟩
  | record names field =>
    rcases h with rfl | ⟨path, fields, fields', rfl, rfl, -⟩
    · exact .inl rfl
    · exact .inr ⟨path, fields, fields', rfl, rfl⟩

theorem path_eq (h : l.Alike n m) : n.path = m.path := by
  rcases h.eq_or_mappings with rfl | ⟨path, fields, fields', rfl, rfl⟩ <;> rfl

theorem isNull_eq (h : l.Alike n m) : n.isNull = m.isNull := by
  rcases h.eq_or_mappings with rfl | ⟨path, fields, fields', rfl, rfl⟩ <;> rfl

/-- Nodes that are alike are mappings both or fail alike as such. -/
theorem asMapping (h : l.Alike n m) : Outcome.Rel (fun _ _ => True) n.asMapping m.asMapping := by
  rcases h.eq_or_mappings with rfl | ⟨path, fields, fields', rfl, rfl⟩
  · cases n.asMapping with
    | error e => exact .error e
    | ok fields => exact .ok trivial
  · exact .ok trivial

/-- Catalogs have the same names, and under each of them things that are alike. -/
theorem asMapping_catalog (h : (catalog entry).Alike n m) :
    Outcome.Rel (List.Forall₂ fun a b => a.1 = b.1 ∧ entry.Alike a.2 b.2)
      n.asMapping m.asMapping := by
  rcases h with rfl | ⟨path, fields, fields', rfl, rfl, hfields⟩
  · cases n.asMapping with
    | error e => exact .error e
    | ok fields => exact .ok (List.forall₂_same.2 fun member _ => ⟨rfl, .refl entry member.2⟩)
  · exact .ok hfields

/-- The fields of a record that are looked up are alike. -/
theorem get? (h : (record names field).Alike n m) {name : String} (hname : name ∈ names) :
    Outcome.Rel (Option.Rel (field name).Alike) (n.get? name) (m.get? name) := by
  rcases h with rfl | ⟨path, fields, fields', rfl, rfl, hfields⟩
  · cases n.get? name with
    | error e => exact .error e
    | ok child =>
      cases child with
      | none => exact .ok .none
      | some child => exact .ok (.some (.refl (field name) child))
  · obtain ⟨child, child', hchild, hchild', hrel⟩ := hfields name hname
    rw [hchild, hchild']
    exact .ok hrel

/-- The fields of a record that are read as they stand are the same. -/
theorem get?_eq (h : (record names field).Alike n m) {name : String} (hname : name ∈ names)
    (hfield : field name = .verbatim) : n.get? name = m.get? name := by
  have hrel := h.get? hname
  rw [hfield] at hrel
  generalize n.get? name = found at hrel ⊢
  generalize m.get? name = found' at hrel ⊢
  cases hrel with
  | error e => rfl
  | ok hchild =>
    cases hchild with
    | none => rfl
    | some heq => exact congrArg (fun child => Except.ok (some child)) heq

end Alike

end Layout

end Tariff
