import Tariff.Proofs.Pricing.Format

/-!
# When a node is read

A node that shows a value is read successfully exactly if the value has the format that is
read. There is one lemma for each accessor of nodes, from single scalars to fields and
whole mappings; the formats are those of `Tariff.Value`.
-/

namespace Tariff

namespace Outcome

variable {ε α β : Type}

/-- Whether a computation has a result. -/
def Succeeds (x : Except ε α) : Prop := ∃ a, x = .ok a

theorem succeeds_bind_iff {x : Except ε α} {next : α → Except ε β} :
    Succeeds (x >>= next) ↔ ∃ a, x = .ok a ∧ Succeeds (next a) := by
  simp only [Succeeds, bind_eq_ok_iff]
  constructor
  · rintro ⟨b, a, ha, hb⟩
    exact ⟨a, ha, b, hb⟩
  · rintro ⟨a, ha, b, hb⟩
    exact ⟨b, a, ha, hb⟩

@[simp] theorem succeeds_map_iff {f : α → β} {x : Except ε α} :
    Succeeds (x.map f) ↔ Succeeds x := by
  simp [Succeeds]

@[simp] theorem succeeds_ofConfig_iff {x : Except ConfigError α} :
    Succeeds (ParseError.ofConfig x) ↔ Succeeds x := by
  simp [Succeeds]

@[simp] theorem succeeds_ofRefusal_iff {x : Except (Refusal ConfigError) α} :
    Succeeds (ParseError.ofRefusal x) ↔ Succeeds x := by
  simp [Succeeds]

end Outcome

namespace Table

variable {α β ε : Type}

/-- Making a table succeeds exactly if making each of its things does. -/
theorem succeeds_traverse_iff {f : String → α → Except ε β} {t : Table α} :
    Outcome.Succeeds (t.traverse f) ↔ ∀ entry ∈ t, Outcome.Succeeds (f entry.1 entry.2) := by
  induction t with
  | nil => simp [traverse, Outcome.Succeeds]
  | cons entry rest ih =>
    obtain ⟨name, a⟩ := entry
    rw [List.forall_mem_cons, ← ih]
    simp only [Outcome.Succeeds, traverse_cons_eq_ok_iff]
    constructor
    · rintro ⟨made, b, tail, hb, htail, -⟩
      exact ⟨⟨b, hb⟩, tail, htail⟩
    · rintro ⟨⟨b, hb⟩, tail, htail⟩
      exact ⟨_, b, tail, hb, htail, rfl⟩

/-- What holds of every thing of a table, said of the entries that it belongs to. -/
theorem Matches.forall_iff {R : String → α → Value → Prop} {t : Table α} {entries : Fields}
    {P : String → α → Prop} {Q : String → Value → Prop} (h : t.Matches R entries)
    (hPQ : ∀ name a v, R name a v → (P name a ↔ Q name v)) :
    (∀ entry ∈ t, P entry.1 entry.2) ↔ ∀ name v, (Value.text name, v) ∈ entries → Q name v := by
  induction h with
  | nil => simp
  | @cons made entry t entries hentry _ ih =>
    obtain ⟨key, v⟩ := entry
    obtain ⟨hkey, hmade⟩ := hentry
    cases hkey
    rw [List.forall_mem_cons, ih, hPQ _ _ _ hmade]
    constructor
    · rintro ⟨hfirst, hrest⟩ name w hmem
      rcases List.mem_cons.1 hmem with heq | hmem
      · cases heq
        exact hfirst
      · exact hrest name w hmem
    · intro hall
      exact ⟨hall _ _ List.mem_cons_self,
        fun name w hmem => hall name w (List.mem_cons_of_mem _ hmem)⟩

end Table

theorem ValueType.holds_iff {valueType : ValueType} {s : Scalar} :
    valueType.Holds s ↔ valueType.accepts s = true ∧ s.isFinite = true := by
  constructor
  · intro h
    cases h with
    | boolean b => exact ⟨rfl, rfl⟩
    | numeric n hn => exact ⟨rfl, hn⟩
    | text t => exact ⟨rfl, rfl⟩
  · rintro ⟨haccepts, hfinite⟩
    unfold accepts at haccepts
    split at haccepts
    · exact .boolean _
    · exact .numeric _ hfinite
    · exact .text _
    · cases haccepts

/-- A finite scalar is of some type. -/
theorem Scalar.isFinite_iff {s : Scalar} :
    s.isFinite = true ↔ ∃ valueType : ValueType, valueType.Holds s := by
  simp only [ValueType.holds_iff, exists_and_right]
  constructor
  · intro h
    cases s with
    | bool b => exact ⟨⟨.boolean, rfl⟩, h⟩
    | number n => exact ⟨⟨.numeric, rfl⟩, h⟩
    | text t => exact ⟨⟨.text, rfl⟩, h⟩
  · exact fun h => h.2

theorem Value.text?_eq_some_iff {v : Value} {t : String} :
    v.text? = some t ↔ v.scalar? = some (.text t) := by
  unfold text?
  split
  · next h => simp [h]
  · next hne =>
    constructor
    · intro h
      cases h
    · exact fun h => absurd h (hne t)

namespace Node

open Outcome (Succeeds succeeds_bind_iff)

variable {node : Node} {v : Value}

/-! ## Scalars and sequences -/

theorem Shows.scalar_iff (h : node.Shows v) {s : Scalar} :
    v.scalar? = some s ↔ ∃ path, node = .scalar path s := by
  constructor
  · intro hs
    cases h.shape with
    | null path => cases hs
    | scalar path hs' =>
      rw [hs] at hs'
      cases hs'
      exact ⟨path, rfl⟩
    | sequence path nodes hv => cases v <;> cases hv <;> cases hs
    | mapping path hentries => cases hs
  · rintro ⟨path, rfl⟩
    cases h.shape with
    | scalar path hs => exact hs

theorem Shows.asText_eq_ok_iff (h : node.Shows v) {t : String} :
    node.asText = .ok t ↔ v.text? = some t := by
  rw [Value.text?_eq_some_iff]
  constructor
  · exact h.asText
  · intro ht
    obtain ⟨path, rfl⟩ := h.scalar_iff.1 ht
    rfl

theorem Shows.asBool_eq_ok_iff (h : node.Shows v) {b : Bool} :
    node.asBool = .ok b ↔ v.scalar? = some (.bool b) := by
  rw [h.scalar_iff]
  unfold asBool
  split
  · simp
  · next hne =>
    constructor
    · intro heq
      cases heq
    · rintro ⟨path, rfl⟩
      exact absurd rfl (hne path b)

theorem Shows.typed_eq_ok_iff (h : node.Shows v) {valueType : ValueType} {s : Scalar} :
    node.typed valueType = .ok s ↔ v.scalar? = some s ∧ valueType.Holds s := by
  rw [ValueType.holds_iff]
  constructor
  · intro hread
    exact ⟨h.typed hread, accepts_of_typed hread⟩
  · rintro ⟨hs, haccepts, hfinite⟩
    obtain ⟨path, rfl⟩ := h.scalar_iff.1 hs
    show (if valueType.accepts s = true then finite path s else _) = .ok s
    rw [if_pos haccepts]
    exact finite_eq_ok_iff.2 ⟨rfl, hfinite⟩

theorem Shows.variableValue_eq_ok_iff (h : node.Shows v) {s : Scalar} :
    node.variableValue = .ok s ↔ v.scalar? = some s ∧ s.isFinite = true := by
  rw [h.scalar_iff]
  unfold Node.variableValue
  split
  · next path s' =>
    rw [finite_eq_ok_iff]
    constructor
    · rintro ⟨rfl, hfinite⟩
      exact ⟨⟨path, rfl⟩, hfinite⟩
    · rintro ⟨⟨path', heq⟩, hfinite⟩
      cases heq
      exact ⟨rfl, hfinite⟩
  · next hne =>
    constructor
    · intro heq
      cases heq
    · rintro ⟨⟨path, rfl⟩, -⟩
      exact absurd rfl (hne path s)

theorem shows_of_itemsOf {path : String} {depth index : Nat} {items : List Value}
    {nodes : List Node} (h : itemsOf path depth index items = .ok nodes) :
    List.Forall₂ Shows nodes items := by
  rw [← List.zipIdx_map_fst index items, List.forall₂_map_right_iff]
  exact (forall₂_of_itemsOf h).imp fun _ _ hnode => shows_of_ofValueAt hnode

/-- The nodes of a sequence show its items. -/
theorem Shows.items (h : node.Shows v) {path : String} {nodes : List Node}
    (hnode : node = .sequence path nodes) :
    ∃ items, v.items? = some items ∧ List.Forall₂ Shows nodes items := by
  subst hnode
  obtain ⟨depth, h⟩ := h
  cases isBuiltOf_of_ofValueAt h with
  | @sequence _ items _ hv hnodes =>
    refine ⟨items, ?_, shows_of_itemsOf hnodes⟩
    rcases hv with rfl | rfl <;> rfl

theorem Shows.exists_sequence (h : node.Shows v) {items : List Value}
    (hitems : v.items? = some items) : ∃ path nodes, node = .sequence path nodes := by
  cases h.shape with
  | null path => cases hitems
  | scalar path hs => cases v <;> cases hitems <;> cases hs
  | sequence path nodes hv => exact ⟨path, nodes, rfl⟩
  | mapping path hentries => cases hitems

theorem mapM_asText_eq_ok_iff {nodes : List Node} {items : List Value}
    (h : List.Forall₂ Shows nodes items) {texts : List String} :
    nodes.mapM asText = .ok texts ↔ items.mapM Value.text? = some texts := by
  induction h generalizing texts with
  | nil => simp [pure, Except.pure]
  | cons hfirst _ ih =>
    simp only [List.mapM_cons, Outcome.bind_eq_ok_iff, Outcome.pure_eq_ok_iff,
      hfirst.asText_eq_ok_iff, ih, Option.bind_eq_bind, Option.bind_eq_some_iff, Option.pure_def,
      Option.some.injEq]

theorem Shows.textList_eq_ok_iff (h : node.Shows v) {texts : List String} :
    node.textList = .ok texts ↔ v.texts? = some texts := by
  unfold Value.texts?
  rw [Option.bind_eq_some_iff]
  constructor
  · intro hread
    unfold textList at hread
    split at hread
    · next path nodes =>
      obtain ⟨items, hitems, hnodes⟩ := h.items rfl
      exact ⟨items, hitems, (mapM_asText_eq_ok_iff hnodes).1 hread⟩
    · cases hread
  · rintro ⟨items, hitems, htexts⟩
    obtain ⟨path, nodes, rfl⟩ := h.exists_sequence hitems
    obtain ⟨items', hitems', hnodes⟩ := h.items rfl
    cases hitems.symm.trans hitems'
    exact (mapM_asText_eq_ok_iff hnodes).2 htexts

/-! ## Mappings and fields -/

theorem Shows.succeeds_asMapping_iff (h : node.Shows v) :
    Succeeds node.asMapping ↔ v.IsMapping := by
  constructor
  · rintro ⟨fields, hfields⟩
    obtain ⟨entries, rfl, -⟩ := h.asMapping hfields
    exact ⟨entries, rfl⟩
  · rintro ⟨entries, rfl⟩
    cases h.shape with
    | scalar path hs => cases hs
    | sequence path nodes hv => cases hv
    | mapping path hentries => exact ⟨_, rfl⟩

theorem Shows.isMapping_of_get? (h : node.Shows v) {key : String} {child? : Option Node}
    (hread : node.get? key = .ok child?) : v.IsMapping := by
  obtain ⟨fields, hfields, -⟩ := Outcome.bind_eq_ok_iff.1 hread
  exact h.succeeds_asMapping_iff.1 ⟨fields, hfields⟩

theorem Shows.isMapping_of_optional {α : Type} (h : node.Shows v) {key : String}
    {read : Node → Except ConfigError α} {a? : Option α} (hread : node.optional key read = .ok a?) :
    v.IsMapping := by
  obtain ⟨child?, hchild, -⟩ := Outcome.bind_eq_ok_iff.1 hread
  exact h.isMapping_of_get? hchild

theorem Shows.isMapping_of_require (h : node.Shows v) {key : String} {child : Node}
    (hread : node.require key = .ok child) : v.IsMapping := by
  obtain ⟨child?, hchild, -⟩ := Outcome.bind_eq_ok_iff.1 hread
  exact h.isMapping_of_get? hchild

/-- Every field of a mapping can be read. -/
theorem Shows.exists_get? (h : node.Shows v) (hv : v.IsMapping) (key : String) :
    ∃ child?, node.get? key = .ok child? ∧ Option.Rel Shows child? (v.field? key) := by
  obtain ⟨fields, hfields⟩ := h.succeeds_asMapping_iff.2 hv
  have hsome : ∃ child?, node.get? key = .ok child? := by
    simp only [Node.get?, hfields, Outcome.bind_eq_ok_iff, Except.ok.injEq, exists_eq_left']
    split <;> exact ⟨_, rfl⟩
  obtain ⟨child?, hchild⟩ := hsome
  exact ⟨child?, hchild, h.get? hchild⟩

section Fields

variable {ε α : Type} {key : String} {P : Value → Prop}

theorem Shows.exists_read_iff {R : Node → α → Prop} (h : node.Shows v) (hv : v.IsMapping)
    (hread : ∀ child w, child.Shows w → ((∃ a, R child a) ↔ P w)) :
    (∃ a? child?, node.get? key = .ok child? ∧ Option.Rel R child? a?) ↔ v.Allows key P := by
  obtain ⟨child?, hchild, hrel⟩ := h.exists_get? hv key
  unfold Value.Allows
  rw [hchild]
  generalize v.field? key = w? at hrel ⊢
  constructor
  · rintro ⟨a?, _, heq, ha⟩ w rfl
    cases heq
    cases hrel with
    | @some child w hshows =>
      cases ha with
      | some ha => exact (hread child w hshows).1 ⟨_, ha⟩
  · intro hallows
    cases hrel with
    | none => exact ⟨none, none, rfl, .none⟩
    | @some child w hshows =>
      obtain ⟨a, ha⟩ := (hread child w hshows).2 (hallows w rfl)
      exact ⟨some a, some child, rfl, .some ha⟩

/-- An optional field is read if its value, should there be one, has the format. -/
theorem Shows.succeeds_optional_iff {read : Node → Except ConfigError α} (h : node.Shows v)
    (hv : v.IsMapping) (hread : ∀ child w, child.Shows w → (Succeeds (read child) ↔ P w)) :
    Succeeds (node.optional key read) ↔ v.Allows key P := by
  simp only [Succeeds, optional_eq_ok_iff]
  exact h.exists_read_iff hv hread

theorem Shows.succeeds_optionalLifted_iff {read : Node → Except (Refusal ConfigError) α}
    (h : node.Shows v) (hv : v.IsMapping)
    (hread : ∀ child w, child.Shows w → (Succeeds (read child) ↔ P w)) :
    Succeeds (node.optionalLifted key read) ↔ v.Allows key P := by
  simp only [Succeeds, optionalLifted_eq_ok_iff]
  exact h.exists_read_iff hv hread

/-- A required field is read if it has a value and the value has the format. -/
theorem Shows.succeeds_require_iff {read : Node → Except ConfigError α} (h : node.Shows v)
    (hv : v.IsMapping) (hread : ∀ child w, child.Shows w → (Succeeds (read child) ↔ P w)) :
    Succeeds (node.require key >>= read) ↔ v.Requires key P := by
  obtain ⟨child?, hchild, hrel⟩ := h.exists_get? hv key
  unfold Node.require Value.Requires
  rw [hchild]
  generalize v.field? key = w? at hrel ⊢
  cases hrel with
  | none =>
    constructor
    · rintro ⟨a, ha⟩
      cases ha
    · rintro ⟨w, hw, -⟩
      cases hw
  | @some child w hshows =>
    show Succeeds (read child) ↔ _
    rw [hread child w hshows]
    simp

/-- The things of a mapping are read if its entries have the format. -/
theorem ShowAll.succeeds_traverse_iff {read : String → Node → Except ε α}
    {Q : String → Value → Prop} {fields : Table Node} {entries : Fields}
    (h : ShowAll fields entries)
    (hread : ∀ name child w, child.Shows w → (Succeeds (read name child) ↔ Q name w)) :
    Succeeds (fields.traverse read) ↔ ∀ name w, (Value.text name, w) ∈ entries → Q name w := by
  rw [Table.succeeds_traverse_iff]
  exact Table.Matches.forall_iff h hread

/-- A mapping is read as a table if it is one and its entries have the format. -/
theorem Shows.succeeds_mapping_iff {read : String → Node → Except ConfigError α}
    {Q : String → Value → Prop} (h : node.Shows v)
    (hread : ∀ name child w, child.Shows w → (Succeeds (read name child) ↔ Q name w)) :
    Succeeds (node.asMapping >>= fun fields => Table.traverse read fields) ↔ v.MapsTo Q := by
  rw [succeeds_bind_iff]
  constructor
  · rintro ⟨fields, hfields, hmade⟩
    obtain ⟨entries, rfl, hentries⟩ := h.asMapping hfields
    exact ⟨entries, rfl, (hentries.succeeds_traverse_iff hread).1 hmade⟩
  · rintro ⟨entries, rfl, hformat⟩
    obtain ⟨fields, hfields⟩ := h.succeeds_asMapping_iff.2 ⟨entries, rfl⟩
    obtain ⟨entries', heq, hentries⟩ := h.asMapping hfields
    cases heq
    exact ⟨fields, hfields, (hentries.succeeds_traverse_iff hread).2 hformat⟩

end Fields

end Node

end Tariff
