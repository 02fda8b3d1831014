import Tariff.Proofs.Document.Copied
import Tariff.Proofs.Table
import Tariff.Pricing.Reference

/-!
# The cause of an error

What is wrong with a document is wrong with one node of its tree, and the error names that node
by its path, or a field that the node does not have. `Node.Causes` says which errors a node can
be the cause of, and `Node.Explains` that one of the nodes of a tree is the cause of an error.
There is one lemma for each accessor of nodes and each reader of values and references: the tree
explains all the errors that it can fail with.

Readers that take a path as it stands, and not as messages show it, are given nodes of some
path only, and those are all nodes but the root (`Node.IsInside`).
-/

namespace Tariff

/-- Making a table fails only as making one of its things does. -/
theorem Outcome.failsOnly_traverse {ε α β : Type} {P : ε → Prop} {f : String → α → Except ε β}
    {t : Table α} (h : ∀ entry ∈ t, FailsOnly P (f entry.1 entry.2)) :
    FailsOnly P (t.traverse f) := by
  intro e he
  obtain ⟨entry, hmem, hentry⟩ := Table.exists_of_traverse_error he
  exact h entry hmem e hentry

namespace Node

open Outcome (FailsOnly failsOnly_ok failsOnly_error failsOnly_mapM failsOnly_traverse)

/-! ## Nodes of a tree -/

/-- Whether a node is one of those of a tree. -/
structure IsIn (node root : Node) : Prop where
  place : ∃ place, root.at? place = some node
  shows : ∃ v, node.Shows v

/-- Whether a node is one of those of a tree that have a path of their own. -/
structure IsInside (node root : Node) : Prop extends node.IsIn root where
  path_ne : node.path ≠ ""

variable {root node inner : Node} {key : String}

theorem isIn_of_ofValue {document : Value} (h : ofValue document = .ok root) : root.IsIn root :=
  ⟨⟨[], rfl⟩, document, shows_of_ofValue h⟩

/-- A node directly under one of a tree is in the tree. -/
theorem IsIn.child (h : node.IsIn root) (hinner : inner ∈ node.children) : inner.IsIn root := by
  obtain ⟨⟨place, hplace⟩, v, depth, hv⟩ := h
  obtain ⟨index, hindex⟩ := List.getElem?_of_mem hinner
  constructor
  · refine ⟨place ++ [index], ?_⟩
    rw [at?_append, hplace, Option.bind_some, at?, hindex]
    rfl
  · have htree : node.IsTreeOf depth ⟨none, node.path, v⟩ := hv
    obtain ⟨inner, -, hinner⟩ := exists_getElem?_of_forall₂ htree.children hindex
    exact ⟨_, hinner.shows⟩

theorem fieldPath_ne (h : node.path ≠ "" ∨ key ≠ "") : fieldPath node.path key ≠ "" := by
  unfold fieldPath
  split
  · next hpath => exact h.resolve_left fun hne => hne hpath
  · intro heq
    have hlength := congrArg String.length heq
    simp at hlength

theorem forall_path_of_mapping {path : String} {depth : Nat} {v : Value} {fields : Table Node}
    (h : ofValueAt path depth v = .ok (.mapping path fields)) :
    ∀ field ∈ fields, field.2.path = fieldPath path field.1 := by
  cases isBuiltOf_of_ofValueAt h with
  | mapping hfields =>
    have hmatches := (matches_of_fieldsOf hfields).imp
      fun field entry hentry => And.intro (path_of_ofValueAt hentry.2) hentry
    exact ((List.forall₂_and_left _ _).1 hmatches).1

/-- The nodes of the fields of a mapping have the paths of the fields. -/
theorem IsIn.path_of_mem {fields : Table Node} (h : node.IsIn root)
    (hfields : node.asMapping = .ok fields) {name : String} (hinner : (name, inner) ∈ fields) :
    inner.path = fieldPath node.path name := by
  obtain ⟨-, v, depth, hv⟩ := h
  cases node with
  | mapping path own =>
    cases hfields
    have hpaths := forall_path_of_mapping hv
    exact hpaths (name, inner) hinner
  | _ => cases hfields

/-- A field that has a name, or is one of a node with a path, has a path. -/
theorem IsIn.field {fields : Table Node} (h : node.IsIn root)
    (hfields : node.asMapping = .ok fields) (hinner : (key, inner) ∈ fields)
    (hne : node.path ≠ "" ∨ key ≠ "") :
    inner.IsInside root ∧ inner.path = fieldPath node.path key := by
  have hpath := h.path_of_mem hfields hinner
  refine ⟨⟨h.child ?_, ?_⟩, hpath⟩
  · cases node with
    | mapping path own =>
      cases hfields
      exact List.mem_map.2 ⟨(key, inner), hinner, rfl⟩
    | _ => cases hfields
  · rw [hpath]
    exact fieldPath_ne hne

/-- What is found under a name is a field of that name. -/
theorem mem_of_get? (h : node.get? key = .ok (some inner)) :
    ∃ fields, node.asMapping = .ok fields ∧ (key, inner) ∈ fields := by
  obtain ⟨fields, hfields, h⟩ := Outcome.bind_eq_ok_iff.1 h
  refine ⟨fields, hfields, Table.mem_of_get? ?_⟩
  split at h
  · cases h
  · exact Outcome.pure_eq_ok_iff.1 h

theorem IsIn.get? (h : node.IsIn root) (hkey : key ≠ "") (hget : node.get? key = .ok (some inner)) :
    inner.IsInside root ∧ inner.path = fieldPath node.path key := by
  obtain ⟨fields, hfields, hinner⟩ := mem_of_get? hget
  exact h.field hfields hinner (.inr hkey)

theorem IsInside.get? (h : node.IsInside root) (hget : node.get? key = .ok (some inner)) :
    inner.IsInside root ∧ inner.path = fieldPath node.path key := by
  obtain ⟨fields, hfields, hinner⟩ := mem_of_get? hget
  exact h.field hfields hinner (.inl h.path_ne)

theorem get?_of_require (h : node.require key = .ok inner) : node.get? key = .ok (some inner) := by
  obtain ⟨child?, hchild, h⟩ := Outcome.bind_eq_ok_iff.1 h
  cases child? with
  | none => cases h
  | some child =>
    cases h
    exact hchild

theorem IsInside.displayPath_eq (h : node.IsInside root) : node.displayPath = node.path :=
  if_neg h.path_ne

/-! ## Causes -/

/-- The errors that a node can be the cause of. -/
inductive Causes (node : Node) : ConfigError → Prop where
  | notMapping (h : node.kind ≠ .mapping) :
      node.Causes (.notMapping node.displayPath node.kind.name)
  | missing {key : String} (h : node.get? key = .ok none) :
      node.Causes (.missing (fieldPath node.path key))
  | typeMismatch (actual expected : String) :
      node.Causes (.typeMismatch node.displayPath actual expected)
  | unknownLiteral (value : String) (allowed : List String) :
      node.Causes (.unknownLiteral node.displayPath value allowed)
  | unresolved (reference catalog : String) :
      node.Causes (.unresolved node.displayPath reference catalog)
  | formula (text : String) (fault : SyntaxFault) :
      node.Causes (.formula node.displayPath text fault)
  | invalid (fault : ValueFault) : node.Causes (.invalid node.displayPath fault)

/-- Whether a node of a tree is the cause of an error. -/
def Explains (root : Node) (e : ConfigError) : Prop :=
  ∃ node : Node, node.IsIn root ∧ node.Causes e

variable {α : Type}

theorem IsIn.fails {e : ConfigError} (h : node.IsIn root) (hcauses : node.Causes e) :
    FailsOnly root.Explains (.error e : Except ConfigError α) :=
  failsOnly_error ⟨node, h, hcauses⟩

/-! ## Accessors -/

theorem IsIn.failsOnly_asMapping (h : node.IsIn root) : FailsOnly root.Explains node.asMapping := by
  cases node with
  | mapping path fields => exact failsOnly_ok fields
  | scalar path s => exact h.fails (.notMapping (by rcases s with b | (n | x) | t <;> nofun))
  | null path | sequence path items => exact h.fails (.notMapping nofun)

theorem IsIn.failsOnly_asText (h : node.IsIn root) : FailsOnly root.Explains node.asText := by
  unfold asText
  split
  · exact failsOnly_ok _
  · exact h.fails (.typeMismatch _ _)

theorem IsIn.failsOnly_asBool (h : node.IsIn root) : FailsOnly root.Explains node.asBool := by
  unfold asBool
  split
  · exact failsOnly_ok _
  · exact h.fails (.typeMismatch _ _)

theorem IsIn.failsOnly_textList (h : node.IsIn root) : FailsOnly root.Explains node.textList := by
  unfold textList
  split
  · exact failsOnly_mapM fun item hitem => (h.child hitem).failsOnly_asText
  · exact h.fails (.typeMismatch _ _)

theorem IsIn.failsOnly_get? (h : node.IsIn root) (key : String) :
    FailsOnly root.Explains (node.get? key) := by
  refine h.failsOnly_asMapping.bind fun fields _ => ?_
  split <;> exact failsOnly_ok _

theorem IsIn.failsOnly_require (h : node.IsIn root) (key : String) :
    FailsOnly root.Explains (node.require key) := by
  refine (h.failsOnly_get? key).bind fun child? hchild => ?_
  cases child? with
  | none => exact h.fails (.missing hchild)
  | some child => exact failsOnly_ok child

theorem IsIn.failsOnly_optional {read : Node → Except ConfigError α} (h : node.IsIn root)
    (hread : ∀ inner, node.get? key = .ok (some inner) → FailsOnly root.Explains (read inner)) :
    FailsOnly root.Explains (node.optional key read) := by
  refine (h.failsOnly_get? key).bind fun child? hchild => ?_
  cases child? with
  | none => exact failsOnly_ok none
  | some child => exact (hread child hchild).bind fun a _ => failsOnly_ok (some a)

/-! ## Values -/

namespace IsInside

/-- What goes on from a field fails for a node of the tree if it does so from every node. -/
theorem failsOnly_get?_bind {next : Option Node → Except ConfigError α} (h : node.IsInside root)
    (hnone : FailsOnly root.Explains (next none))
    (hsome : ∀ inner : Node, inner.IsInside root → FailsOnly root.Explains (next (some inner))) :
    FailsOnly root.Explains (node.get? key >>= next) := by
  refine (h.failsOnly_get? key).bind fun inner? hinner => ?_
  cases inner? with
  | none => exact hnone
  | some inner => exact hsome inner (h.get? hinner).1

theorem failsOnly_field {read : Node → Except ConfigError α} (h : node.IsInside root)
    (hread : ∀ inner : Node, inner.IsInside root → FailsOnly root.Explains (read inner)) :
    FailsOnly root.Explains (node.optional key read) :=
  h.failsOnly_get?_bind (failsOnly_ok none) fun inner hinner =>
    (hread inner hinner).bind fun a _ => failsOnly_ok (some a)

theorem failsOnly_choice {options : Table α} (h : node.IsInside root) :
    FailsOnly root.Explains (node.choice key options) := by
  refine (h.failsOnly_require key).bind fun child hchild => ?_
  obtain ⟨hinside, -⟩ := h.get? (get?_of_require hchild)
  refine hinside.failsOnly_asText.bind fun literal _ => ?_
  split
  · exact failsOnly_ok _
  · rw [← hinside.displayPath_eq]
    exact hinside.fails (.unknownLiteral _ _)

theorem failsOnly_finite (h : node.IsInside root) (s : Scalar) :
    FailsOnly root.Explains (finite node.path s) := by
  unfold finite
  split
  · split
    · exact failsOnly_ok _
    · rw [← h.displayPath_eq]
      exact h.fails (.invalid _)
  · exact failsOnly_ok _

theorem failsOnly_typed {valueType : ValueType} (h : node.IsInside root) :
    FailsOnly root.Explains (node.typed valueType) := by
  unfold typed
  split
  · next path s =>
    split
    · exact h.failsOnly_finite s
    · have hdisplay : (scalar path s).displayPath = path := h.displayPath_eq
      rw [← hdisplay]
      exact h.fails (.typeMismatch _ _)
  · rw [← h.displayPath_eq]
    exact h.fails (.typeMismatch _ _)

theorem failsOnly_variableValue (h : node.IsInside root) :
    FailsOnly root.Explains node.variableValue := by
  unfold variableValue
  split
  · exact h.failsOnly_finite _
  · rw [← h.displayPath_eq]
    exact h.fails (.typeMismatch _ _)

theorem failsOnly_bindings (h : node.IsInside root) : FailsOnly root.Explains node.bindings := by
  refine h.failsOnly_asMapping.bind fun fields hfields => failsOnly_traverse fun field hfield => ?_
  exact (h.field hfields hfield (.inl h.path_ne)).1.failsOnly_variableValue

end IsInside

theorem IsIn.failsOnly_declaredBindings (h : node.IsIn root) :
    FailsOnly root.Explains node.declaredBindings :=
  (h.failsOnly_optional fun _ hget => (h.get? (by decide) hget).1.failsOnly_bindings).map _

theorem IsIn.failsOnly_optionalTexts (h : node.IsIn root) (hkey : key ≠ "") :
    FailsOnly root.Explains (node.optionalTexts key) :=
  (h.failsOnly_optional fun _ hget => (h.get? hkey hget).1.failsOnly_textList).map _

/-! ## References and overrides -/

namespace IsInside

theorem failsOnly_checkReferences {known : String → Bool} {catalog : String} (h : node.IsInside root)
    (found : List String) :
    FailsOnly root.Explains (checkReferences node.path known catalog found) := by
  induction found with
  | nil => exact failsOnly_ok ()
  | cons reference rest ih =>
    unfold checkReferences
    split
    · exact ih
    · rw [← h.displayPath_eq]
      exact h.fails (.unresolved _ _)

theorem failsOnly_references {known : String → Bool} {catalog : String} (h : node.IsInside root) :
    FailsOnly root.Explains (node.references key known catalog) := by
  refine h.failsOnly_get?_bind (failsOnly_ok []) fun inner hinner => ?_
  refine hinner.failsOnly_textList.bind fun found _ => ?_
  exact (hinner.failsOnly_checkReferences found).bind fun _ _ => failsOnly_ok found

variable {typeOf : String → Option ValueType} {catalog : String}

theorem failsOnly_override? {id : String} (h : node.IsInside root) :
    FailsOnly root.Explains (node.override? typeOf catalog id) := by
  unfold override?
  split
  · rw [← h.displayPath_eq]
    exact h.fails (.unresolved _ _)
  · split
    · exact failsOnly_ok none
    · exact h.failsOnly_field fun _ hinner => hinner.failsOnly_typed

theorem failsOnly_overrideEntries {entries : Table Node}
    (h : ∀ entry ∈ entries, entry.2.IsInside root) :
    FailsOnly root.Explains (overrideEntries typeOf catalog entries) := by
  induction entries with
  | nil => exact failsOnly_ok []
  | cons entry rest ih =>
    rw [List.forall_mem_cons] at h
    refine h.1.failsOnly_override?.bind fun value? _ => ?_
    cases value? with
    | none => exact ih h.2
    | some s => exact (ih h.2).bind fun rest _ => failsOnly_ok _

theorem failsOnly_overrides (h : node.IsInside root) :
    FailsOnly root.Explains (node.overrides typeOf catalog) := by
  refine h.failsOnly_get?_bind (failsOnly_ok []) fun inner hinner => ?_
  refine hinner.failsOnly_asMapping.bind fun fields hfields => ?_
  exact failsOnly_overrideEntries fun field hfield =>
    (hinner.field hfields hfield (.inl hinner.path_ne)).1

end IsInside

end Node

end Tariff
