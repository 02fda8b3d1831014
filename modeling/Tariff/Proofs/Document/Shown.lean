import Tariff.Document.Node
import Tariff.Proofs.Document.Matching

/-!
# What a node shows

A node of the document tree shows a value of the document if building the tree of that
value gives the node. The accessors of a node then tell something about the value: the
lemmas here say what, one for each accessor, so that no later proof looks at how the
tree is built.

A value is read as a document means it. `Value.scalar?` is the scalar that a value
stands for, a date standing for its text; `Value.field?` is a field of a mapping, and
`Value.entriesIn` are the entries of a mapping in a field, both under the rule that what
is null is absent.
-/

namespace Tariff

namespace Value

/-- The scalar that a value stands for in a document. -/
def scalar? : Value → Option Scalar
  | .scalar s => some s
  | .date d => some (.text d.text)
  | .moment m => some (.text m.isoText)
  | _ => none

/-- Whether a value is a list or a tuple. -/
def isSequence : Value → Bool
  | .list _ => true
  | .tuple _ => true
  | _ => false

/-- A field of a mapping, unless it is absent or null. -/
def field? : Value → String → Option Value
  | .mapping entries, key => Fields.present? entries key
  | _, _ => none

/-- The entries of the mapping in a field; none, if there is no mapping. -/
def entriesIn (v : Value) (key : String) : Fields :=
  match v.field? key with
  | some (.mapping entries) => entries
  | _ => []

/-- The scalar in a field. -/
def scalarField? (v : Value) (key : String) : Option Scalar := (v.field? key).bind scalar?

end Value

namespace Node

/-- Whether a node is what the tree of a value begins with. -/
def Shows (node : Node) (v : Value) : Prop := ∃ depth, ofValueAt node.path depth v = .ok node

/-- Whether the fields of a node show the entries of a mapping. -/
abbrev ShowAll (fields : Table Node) (entries : Fields) : Prop :=
  fields.Matches (fun _ node v => node.Shows v) entries

theorem shows_of_ofValueAt {path : String} {depth : Nat} {v : Value} {node : Node}
    (h : ofValueAt path depth v = .ok node) : node.Shows v := by
  refine ⟨depth, ?_⟩
  rwa [path_of_ofValueAt h]

/-- The root of a document's tree shows the document. -/
theorem shows_of_ofValue {v : Value} {root : Node} (h : ofValue v = .ok root) : root.Shows v :=
  shows_of_ofValueAt h

/-- The nodes of a sequence are the trees of the items, one by one. -/
theorem forall₂_of_itemsOf {path : String} {depth index : Nat} {items : List Value}
    {nodes : List Node} (h : itemsOf path depth index items = .ok nodes) :
    List.Forall₂ (fun node item => ofValueAt (itemPath path item.2) depth item.1 = .ok node)
      nodes (items.zipIdx index) := by
  induction items generalizing index nodes with
  | nil =>
    cases h
    exact .nil
  | cons v rest ih =>
    unfold itemsOf at h
    simp only [Outcome.bind_eq_ok_iff, Outcome.pure_eq_ok_iff] at h
    obtain ⟨node, hnode, others, hothers, rfl⟩ := h
    rw [List.zipIdx_cons]
    exact .cons hnode (ih hothers)

/-- The fields of a node are the trees of the entries, one by one. -/
theorem matches_of_fieldsOf {path : String} {depth : Nat} {entries : List (Value × Value)}
    {fields : Table Node} (h : fieldsOf path depth entries = .ok fields) :
    fields.Matches (fun name node v => ofValueAt (fieldPath path name) depth v = .ok node)
      entries := by
  induction entries generalizing fields with
  | nil =>
    cases h
    exact .nil
  | cons entry rest ih =>
    obtain ⟨key, v⟩ := entry
    unfold fieldsOf at h
    split at h
    · next heq => cases heq
    · next name w tail heq =>
      cases heq
      simp only [Outcome.bind_eq_ok_iff, Outcome.pure_eq_ok_iff] at h
      obtain ⟨node, hnode, others, hothers, rfl⟩ := h
      exact .cons ⟨rfl, hnode⟩ (ih hothers)
    · cases h

theorem showAll_of_fieldsOf {path : String} {depth : Nat} {entries : List (Value × Value)}
    {fields : Table Node} (h : fieldsOf path depth entries = .ok fields) :
    ShowAll fields entries :=
  (matches_of_fieldsOf h).imp fun _ _ hmade => ⟨hmade.1, shows_of_ofValueAt hmade.2⟩

variable {node : Node} {v : Value}

/-- The four sorts of nodes at a path with the values that they are built of, so many levels
below the root. -/
inductive IsBuiltOf (path : String) (depth : Nat) : Node → Value → Prop where
  | null : IsBuiltOf path depth (.null path) .null
  | scalar {v : Value} {s : Scalar} (h : v.scalar? = some s) :
      IsBuiltOf path depth (.scalar path s) v
  | sequence {v : Value} {items : List Value} {nodes : List Node}
      (hv : v = .list items ∨ v = .tuple items)
      (h : itemsOf path (depth + 1) 0 items = .ok nodes) :
      IsBuiltOf path depth (.sequence path nodes) v
  | mapping {entries : List (Value × Value)} {fields : Table Node}
      (h : fieldsOf path (depth + 1) entries = .ok fields) :
      IsBuiltOf path depth (.mapping path fields) (.mapping entries)

theorem isBuiltOf_of_ofValueAt {path : String} {depth : Nat}
    (h : ofValueAt path depth v = .ok node) : IsBuiltOf path depth node v := by
  unfold ofValueAt at h
  split at h
  · cases h
  · split at h
    case h_1 =>
      cases h
      exact .null
    case h_2 | h_3 | h_4 =>
      cases h
      exact .scalar rfl
    case h_5 items =>
      obtain ⟨nodes, hnodes, rfl⟩ := Outcome.map_eq_ok_iff.1 h
      exact .sequence (.inl rfl) hnodes
    case h_6 items =>
      obtain ⟨nodes, hnodes, rfl⟩ := Outcome.map_eq_ok_iff.1 h
      exact .sequence (.inr rfl) hnodes
    case h_7 entries =>
      obtain ⟨fields, hfields, rfl⟩ := Outcome.map_eq_ok_iff.1 h
      exact .mapping hfields
    case h_8 | h_9 | h_10 => cases h

/-- The four sorts of nodes with the values that they show. -/
inductive Shape : Node → Value → Prop where
  | null (path : String) : Shape (.null path) .null
  | scalar (path : String) {v : Value} {s : Scalar} (h : v.scalar? = some s) :
      Shape (.scalar path s) v
  | sequence (path : String) (nodes : List Node) {v : Value} (h : v.isSequence = true) :
      Shape (.sequence path nodes) v
  | mapping (path : String) {fields : Table Node} {entries : List (Value × Value)}
      (h : ShowAll fields entries) : Shape (.mapping path fields) (.mapping entries)

theorem Shows.shape (h : node.Shows v) : Shape node v := by
  obtain ⟨depth, h⟩ := h
  generalize node.path = path at h
  cases isBuiltOf_of_ofValueAt h with
  | null => exact .null path
  | scalar hs => exact .scalar path hs
  | @sequence _ items nodes hv _ =>
    refine .sequence path nodes ?_
    rcases hv with rfl | rfl <;> rfl
  | mapping hfields => exact .mapping path (showAll_of_fieldsOf hfields)

/-! ## What the accessors find -/

theorem Shows.asMapping {fields : Table Node} (h : node.Shows v) (hread : node.asMapping = .ok fields) :
    ∃ entries, v = .mapping entries ∧ ShowAll fields entries := by
  cases h.shape with
  | mapping path hentries =>
    cases hread
    exact ⟨_, rfl, hentries⟩
  | null path => cases hread
  | scalar path hs => cases hread
  | sequence path nodes hv => cases hread

theorem Shows.asText {t : String} (h : node.Shows v) (hread : node.asText = .ok t) :
    v.scalar? = some (.text t) := by
  unfold Node.asText at hread
  split at hread
  · next path s =>
    cases hread
    cases h.shape with
    | scalar path hs => exact hs
  · cases hread

theorem Shows.isNull_iff (h : node.Shows v) : node.isNull = true ↔ v = .null := by
  cases h.shape with
  | null path => simp [isNull]
  | scalar path hs =>
    simp only [isNull, Bool.false_eq_true, false_iff]
    rintro rfl
    cases hs
  | sequence path nodes hv =>
    simp only [isNull, Bool.false_eq_true, false_iff]
    rintro rfl
    cases hv
  | mapping path hentries => simp [isNull]

/-- A field is found in a node and in the mapping that the node shows, or in neither. -/
theorem get?_of_matches {R : String → Node → Value → Prop} {fields : Table Node}
    {entries : Fields} (h : fields.Matches R entries)
    (hR : ∀ name node v, R name node v → node.Shows v) (path key : String) :
    ∃ child?, (Node.mapping path fields).get? key = .ok child? ∧
      Option.Rel (R key) child? (entries.present? key) := by
  have hrel := h.get? key
  simp only [Node.get?, Node.asMapping, pure, bind, Except.pure, Except.bind]
  generalize Table.get? fields key = found at hrel
  generalize hvalue : Fields.get? entries key = value at hrel
  cases hrel with
  | none =>
    rw [Fields.present?_eq_none_iff.2 (.inl hvalue)]
    exact ⟨none, rfl, .none⟩
  | @some child w hchild =>
    have hshows := hR key child w hchild
    by_cases hnull : child.isNull = true
    · obtain rfl := hshows.isNull_iff.1 hnull
      rw [Fields.present?_eq_none_iff.2 (.inr hvalue)]
      cases child with
      | null path => exact ⟨none, rfl, .none⟩
      | _ => cases hnull
    · have hw : w ≠ .null := fun hw => hnull (hshows.isNull_iff.2 hw)
      rw [Fields.present?_eq_some_iff.2 ⟨hvalue, hw⟩]
      cases child with
      | null path => exact absurd rfl hnull
      | _ => exact ⟨_, rfl, .some hchild⟩

/-- The field of a node is that of the value: both are absent, or one shows the other. -/
theorem Shows.get? {key : String} {child? : Option Node} (h : node.Shows v)
    (hread : node.get? key = .ok child?) : Option.Rel Shows child? (v.field? key) := by
  cases h.shape with
  | mapping path hentries =>
    obtain ⟨found, hfound, hrel⟩ := get?_of_matches hentries (fun _ _ _ hshows => hshows) path key
    rw [hread] at hfound
    cases hfound
    exact hrel
  | null path => cases hread
  | scalar path hs => cases hread
  | sequence path nodes hv => cases hread

theorem Shows.require {key : String} {child : Node} (h : node.Shows v)
    (hread : node.require key = .ok child) : ∃ w, v.field? key = some w ∧ child.Shows w := by
  unfold Node.require at hread
  obtain ⟨child?, hchild, hread⟩ := Outcome.bind_eq_ok_iff.1 hread
  have hrel := h.get? hchild
  generalize v.field? key = w? at hrel ⊢
  cases hrel with
  | none => cases hread
  | some hshows =>
    cases hread
    exact ⟨_, rfl, hshows⟩

theorem optional_eq_ok_iff {α : Type} {key : String} {read : Node → Except ConfigError α}
    {a? : Option α} : node.optional key read = .ok a? ↔ ∃ child?, node.get? key = .ok child? ∧
      Option.Rel (fun child a => read child = .ok a) child? a? := by
  unfold Node.optional
  rw [Outcome.bind_eq_ok_iff]
  refine exists_congr fun child? => and_congr_right fun _ => ?_
  cases child? with
  | none => exact Outcome.none_eq_ok_iff
  | some child => exact Outcome.some_eq_ok_iff

theorem optionalLifted_eq_ok_iff {α : Type} {key : String}
    {read : Node → Except (Refusal ConfigError) α} {a? : Option α} :
    node.optionalLifted key read = .ok a? ↔ ∃ child?, node.get? key = .ok child? ∧
      Option.Rel (fun child a => read child = .ok a) child? a? := by
  unfold Node.optionalLifted
  simp only [Outcome.bind_eq_ok_iff, Outcome.lift_eq_ok_iff]
  refine exists_congr fun child? => and_congr_right fun _ => ?_
  cases child? with
  | none => exact Outcome.none_eq_ok_iff
  | some child => exact Outcome.some_eq_ok_iff

theorem Shows.of_get? {α : Type} {key : String} {child? : Option Node} {a? : Option α}
    {R : Node → α → Prop} (h : node.Shows v) (hget : node.get? key = .ok child?)
    (hread : Option.Rel R child? a?) :
    (v.field? key = none ∧ a? = none) ∨
      ∃ w child a, v.field? key = some w ∧ child.Shows w ∧ R child a ∧ a? = some a := by
  have hrel := h.get? hget
  generalize v.field? key = w? at hrel ⊢
  cases hrel with
  | none =>
    cases hread
    exact .inl ⟨rfl, rfl⟩
  | @some child w hshows =>
    cases hread with
    | some ha => exact .inr ⟨w, child, _, rfl, hshows, ha, rfl⟩

/-- An optional field was read if it is there, and was not if it is absent. -/
theorem Shows.optional {α : Type} {key : String} {read : Node → Except ConfigError α}
    {a? : Option α} (h : node.Shows v) (hread : node.optional key read = .ok a?) :
    (v.field? key = none ∧ a? = none) ∨
      ∃ w child a, v.field? key = some w ∧ child.Shows w ∧ read child = .ok a ∧ a? = some a := by
  obtain ⟨child?, hchild, hread⟩ := optional_eq_ok_iff.1 hread
  exact h.of_get? hchild hread

theorem Shows.optionalLifted {α : Type} {key : String}
    {read : Node → Except (Refusal ConfigError) α} {a? : Option α} (h : node.Shows v)
    (hread : node.optionalLifted key read = .ok a?) :
    (v.field? key = none ∧ a? = none) ∨
      ∃ w child a, v.field? key = some w ∧ child.Shows w ∧ read child = .ok a ∧ a? = some a := by
  obtain ⟨child?, hchild, hread⟩ := optionalLifted_eq_ok_iff.1 hread
  exact h.of_get? hchild hread

/-! ## Sections -/

/-- The fields of the mapping in a field; none, if the field is absent. -/
def fieldsIn (node : Node) (key : String) : Except ConfigError (Table Node) := do
  match ← node.get? key with
  | some child => child.asMapping
  | none => return []

/-- The fields of a section are the entries of the document in that section. -/
theorem Shows.fieldsIn {key : String} {fields : Table Node} (h : node.Shows v)
    (hread : node.fieldsIn key = .ok fields) :
    ShowAll fields (v.entriesIn key) := by
  unfold Node.fieldsIn at hread
  obtain ⟨child?, hchild, hread⟩ := Outcome.bind_eq_ok_iff.1 hread
  have hrel := h.get? hchild
  unfold Value.entriesIn
  generalize v.field? key = w? at hrel ⊢
  cases hrel with
  | none =>
    cases hread
    exact .nil
  | some hshows =>
    obtain ⟨entries, rfl, hentries⟩ := hshows.asMapping hread
    exact hentries

end Node

end Tariff
