import Tariff.Proofs.Document.Accepted
import Tariff.Proofs.Table

/-!
# When the entries of a document are read

An entry of the catalog, a plan or an add-on is read exactly if it has the format that
`Tariff.Value` gives for it. Every field of an entry has its own lemma, which says when
that field is read, and the lemma of the entry puts them together.

Entries refer to sections that were read before them. What the reading takes from those
sections is stated as a hypothesis here: which names they have, and of which types the
values of the catalog are.
-/

namespace Tariff

open Outcome (Succeeds succeeds_bind_iff)

namespace Node

variable {node : Node} {v : Value} {key : String}

/-! ## Literals, texts and references -/

theorem Shows.choice_eq_ok_iff {α : Type} {options : Table α} {a : α} (h : node.Shows v)
    (hv : v.IsMapping) :
    node.choice key options = .ok a ↔ ∃ literal, (v.field? key).bind Value.text? = some literal ∧
      options.get? literal = some a := by
  obtain ⟨child?, hchild, hrel⟩ := h.exists_get? hv key
  unfold Node.choice Node.require
  rw [hchild]
  generalize v.field? key = w? at hrel ⊢
  cases hrel with
  | none =>
    constructor
    · intro heq
      cases heq
    · rintro ⟨literal, heq, -⟩
      cases heq
  | @some child w hshows =>
    show (child.asText >>= fun literal => _) = .ok a ↔ _
    simp only [Outcome.bind_eq_ok_iff, Option.bind_some, hshows.asText_eq_ok_iff]
    refine exists_congr fun literal => and_congr_right fun _ => ?_
    cases options.get? literal with
    | none => constructor <;> intro heq <;> cases heq
    | some b => simp

/-- A choice is made if the field has one of the literals. -/
theorem Shows.succeeds_choice_iff {α : Type} (options : Table α) (h : node.Shows v)
    (hv : v.IsMapping) :
    Succeeds (node.choice key options) ↔ v.Requires key (Value.IsOneOf options.names) := by
  simp only [Succeeds, h.choice_eq_ok_iff hv, Value.Requires, Value.IsOneOf,
    Option.bind_eq_some_iff]
  constructor
  · rintro ⟨a, literal, ⟨w, hw, ht⟩, ha⟩
    exact ⟨w, hw, literal, Table.exists_get?_iff.1 ⟨a, ha⟩, ht⟩
  · rintro ⟨w, hw, literal, hmem, ht⟩
    obtain ⟨a, ha⟩ := Table.exists_get?_iff.2 hmem
    exact ⟨a, literal, ⟨w, hw, ht⟩, ha⟩

theorem Shows.choice_valueType_iff {valueType : ValueType} (h : node.Shows v)
    (hv : v.IsMapping) :
    node.choice "valueType" ValueType.all = .ok valueType ↔ v.valueType? = some valueType := by
  rw [h.choice_eq_ok_iff hv]
  unfold Value.valueType?
  generalize (v.field? "valueType").bind Value.text? = literal?
  constructor
  · rintro ⟨literal, rfl, hliteral⟩
    have hmem := Table.exists_get?_iff.1 ⟨_, hliteral⟩
    simp only [ValueType.all, Table.names, List.map_cons, List.map_nil, List.mem_cons,
      List.not_mem_nil, or_false] at hmem
    rcases hmem with rfl | rfl | rfl <;> exact hliteral
  · intro heq
    split at heq <;> cases heq <;> exact ⟨_, rfl, rfl⟩

theorem Shows.succeeds_text_iff (h : node.Shows v) (hv : v.IsMapping) :
    Succeeds (node.optional key Node.asText) ↔ v.Allows key Value.IsText :=
  h.succeeds_optional_iff hv fun child w hshows => by
    simp only [Succeeds, hshows.asText_eq_ok_iff, Value.IsText]

theorem Shows.succeeds_required_text_iff (h : node.Shows v) (hv : v.IsMapping) :
    Succeeds (node.require key >>= Node.asText) ↔ v.Requires key Value.IsText :=
  h.succeeds_require_iff hv fun child w hshows => by
    simp only [Succeeds, hshows.asText_eq_ok_iff, Value.IsText]

theorem Shows.succeeds_bool_iff (h : node.Shows v) (hv : v.IsMapping) :
    Succeeds (node.optional key Node.asBool) ↔ v.Allows key Value.IsBool :=
  h.succeeds_optional_iff hv fun child w hshows => by
    simp only [Succeeds, hshows.asBool_eq_ok_iff, Value.IsBool]

theorem Shows.succeeds_typed_iff {valueType : ValueType} (h : node.Shows v) :
    Succeeds (node.typed valueType) ↔ v.IsTyped valueType := by
  simp only [Succeeds, h.typed_eq_ok_iff, Value.IsTyped]

theorem Shows.succeeds_texts_iff (h : node.Shows v) (hv : v.IsMapping) :
    Succeeds (node.optionalTexts key) ↔ v.Allows key (Value.IsNames fun _ => True) := by
  unfold Node.optionalTexts
  rw [Outcome.succeeds_map_iff]
  refine h.succeeds_optional_iff hv fun child w hshows => ?_
  simp only [Succeeds, hshows.textList_eq_ok_iff, Value.IsNames, implies_true, and_true]

theorem Shows.succeeds_declaredBindings_iff (h : node.Shows v) (hv : v.IsMapping) :
    Succeeds node.declaredBindings ↔ v.Allows "variables" Value.IsVariables := by
  unfold Node.declaredBindings
  rw [Outcome.succeeds_map_iff]
  refine h.succeeds_optional_iff hv fun child w hshows =>
    hshows.succeeds_mapping_iff fun name child w hshows => ?_
  simp only [Succeeds, hshows.variableValue_eq_ok_iff, Scalar.isFinite_iff, Value.IsTyped]
  constructor
  · rintro ⟨s, hs, valueType, hholds⟩
    exact ⟨valueType, s, hs, hholds⟩
  · rintro ⟨valueType, s, hs, hholds⟩
    exact ⟨s, hs, valueType, hholds⟩

/-- The names that references were read as are those in the field. -/
theorem Shows.references_eq_ok_iff {known : String → Bool} {catalog : String}
    {names : List String} (h : node.Shows v) (hv : v.IsMapping) :
    node.references key known catalog = .ok names ↔
      (v.field? key = none ∧ names = []) ∨
        ∃ w, v.field? key = some w ∧ w.texts? = some names ∧ ∀ name ∈ names, known name = true := by
  obtain ⟨child?, hchild, hrel⟩ := h.exists_get? hv key
  unfold Node.references
  rw [hchild]
  generalize v.field? key = w? at hrel ⊢
  cases hrel with
  | none =>
    constructor
    · intro heq
      cases heq
      exact .inl ⟨rfl, rfl⟩
    · rintro (⟨-, rfl⟩ | ⟨w, hw, -⟩)
      · rfl
      · cases hw
  | @some child w hshows =>
    show (child.textList >>= fun found => _) = .ok names ↔ _
    simp only [Outcome.bind_eq_ok_iff, Outcome.pure_eq_ok_iff, hshows.textList_eq_ok_iff]
    constructor
    · rintro ⟨found, hfound, _, hknown, rfl⟩
      exact .inr ⟨w, rfl, hfound, checkReferences_eq_ok_iff.1 hknown⟩
    · rintro (⟨habsent, -⟩ | ⟨w', hw', hfound, hknown⟩)
      · cases habsent
      · cases hw'
        exact ⟨names, hfound, (), checkReferences_eq_ok_iff.2 hknown, rfl⟩

theorem Shows.succeeds_references_iff {known : String → Bool} {catalog : String}
    {P : String → Prop} (h : node.Shows v) (hv : v.IsMapping)
    (hknown : ∀ name, known name = true ↔ P name) :
    Succeeds (node.references key known catalog) ↔ v.Allows key (Value.IsNames P) := by
  simp only [Succeeds, h.references_eq_ok_iff hv, hknown, Value.Allows, Value.IsNames]
  constructor
  · rintro ⟨names, ⟨habsent, -⟩ | ⟨w, hw, hnames⟩⟩ w' hw'
    · cases habsent.symm.trans hw'
    · cases hw.symm.trans hw'
      exact ⟨names, hnames⟩
  · intro hallows
    cases hfield : v.field? key with
    | none => exact ⟨[], .inl ⟨rfl, rfl⟩⟩
    | some w =>
      obtain ⟨names, hnames⟩ := hallows w hfield
      exact ⟨names, .inr ⟨w, rfl, hnames⟩⟩

/-! ## Overrides -/

section Overrides

variable {document : Value} {catalog : String} {typeOf : String → Option ValueType}

/-- An entry of an override is read if its identifier is in the catalog and its value, if
it gives one, is of the type that the catalog says. -/
theorem Shows.succeeds_override?_iff {id : String} (h : node.Shows v)
    (htype : ∀ id, typeOf id = ((document.entriesIn catalog).get? id).bind Value.valueType?) :
    Succeeds (node.override? typeOf catalog id) ↔ document.IsOverride catalog id v := by
  unfold Node.override? Value.IsOverride
  rw [← htype]
  cases typeOf id with
  | none =>
    constructor
    · rintro ⟨s?, hs⟩
      cases hs
    · rintro ⟨valueType, heq, -⟩
      cases heq
  | some valueType =>
    dsimp only
    simp only [Option.some.injEq, exists_eq_left']
    split
    · next hnull => exact ⟨fun _ => .inl (h.isNull_iff.1 hnull), fun _ => ⟨none, rfl⟩⟩
    · next hnull =>
      have hne : v ≠ .null := fun heq => hnull (h.isNull_iff.2 heq)
      have hread : v.IsMapping → (Succeeds (node.optional "value" (Node.typed valueType)) ↔
          v.Allows "value" (Value.IsTyped valueType)) := fun hv =>
        h.succeeds_optional_iff hv fun child w hshows => hshows.succeeds_typed_iff
      constructor
      · rintro ⟨s?, hs⟩
        have hv := h.isMapping_of_optional hs
        exact .inr ⟨hv, (hread hv).1 ⟨s?, hs⟩⟩
      · rintro (heq | ⟨hv, hallows⟩)
        · exact absurd heq hne
        · exact (hread hv).2 hallows

theorem succeeds_overrideEntries_iff {fields : Table Node} :
    Succeeds (overrideEntries typeOf catalog fields) ↔
      ∀ entry ∈ fields, Succeeds (override? typeOf catalog entry.1 entry.2) := by
  induction fields with
  | nil => simp [overrideEntries, Succeeds]
  | cons entry rest ih =>
    obtain ⟨id, node⟩ := entry
    rw [List.forall_mem_cons, ← ih, overrideEntries, succeeds_bind_iff]
    constructor
    · rintro ⟨s?, hs, hrest⟩
      refine ⟨⟨s?, hs⟩, ?_⟩
      cases s? with
      | none => exact hrest
      | some s =>
        obtain ⟨tail, htail, -⟩ := succeeds_bind_iff.1 hrest
        exact ⟨tail, htail⟩
    · rintro ⟨⟨s?, hs⟩, tail, htail⟩
      refine ⟨s?, hs, ?_⟩
      cases s? with
      | none => exact ⟨tail, htail⟩
      | some s => exact succeeds_bind_iff.2 ⟨tail, htail, _, rfl⟩

theorem Shows.succeeds_overrides_iff (h : node.Shows v) (hv : v.IsMapping)
    (htype : ∀ id, typeOf id = ((document.entriesIn catalog).get? id).bind Value.valueType?) :
    Succeeds (node.overrides typeOf catalog) ↔
      v.Allows catalog (Value.MapsTo · (document.IsOverride catalog)) := by
  obtain ⟨child?, hchild, hrel⟩ := h.exists_get? hv catalog
  unfold Node.overrides Value.Allows
  rw [hchild]
  generalize v.field? catalog = w? at hrel ⊢
  cases hrel with
  | none => exact ⟨fun _ => nofun, fun _ => ⟨[], rfl⟩⟩
  | @some child w hshows =>
    show Succeeds (child.asMapping >>= overrideEntries typeOf catalog) ↔ _
    simp only [Option.some.injEq, forall_eq']
    rw [succeeds_bind_iff]
    have hentries : ∀ {fields entries}, ShowAll fields entries →
        (Succeeds (overrideEntries typeOf catalog fields) ↔
          ∀ id w, (Value.text id, w) ∈ entries → document.IsOverride catalog id w) :=
      fun hall => succeeds_overrideEntries_iff.trans
        (Table.Matches.forall_iff (P := fun id child => Succeeds (child.override? typeOf catalog id))
          hall fun id child w hshows => hshows.succeeds_override?_iff htype)
    constructor
    · rintro ⟨fields, hfields, hread⟩
      obtain ⟨entries, rfl, hall⟩ := hshows.asMapping hfields
      exact ⟨entries, rfl, (hentries hall).1 hread⟩
    · rintro ⟨entries, rfl, hformat⟩
      obtain ⟨fields, hfields⟩ := hshows.succeeds_asMapping_iff.2 ⟨entries, rfl⟩
      obtain ⟨entries', heq, hall⟩ := hshows.asMapping hfields
      cases heq
      exact ⟨fields, hfields, (hentries hall).2 hformat⟩

end Overrides

end Node

/-! ## The catalog -/

section Catalog

variable {limits : Limits} {id : String} {node : Node} {v : Value}

theorem Formula.succeeds_compile_iff {path source : String} :
    Succeeds (Formula.compile limits path source) ↔
      ∃ tree, Formula.treeOf limits source = .ok tree := by
  simp only [Succeeds, Formula.compile_eq_ok_iff]
  constructor
  · rintro ⟨f, -, htree⟩
    exact ⟨f.root, htree⟩
  · rintro ⟨tree, htree⟩
    exact ⟨⟨source, tree⟩, rfl, htree⟩

theorem Node.Shows.succeeds_formulaOf_iff (h : node.Shows v) (hv : v.IsMapping) :
    Succeeds (Feature.formulaOf limits node) ↔ v.Allows "formula" (Value.IsFormula limits) :=
  h.succeeds_optionalLifted_iff hv fun child w hshows => by
    simp only [succeeds_bind_iff, Outcome.lift_eq_ok_iff, hshows.asText_eq_ok_iff,
      Formula.succeeds_compile_iff, Value.IsFormula, exists_and_left]

/-- Only an entry with a formula may do without a default. -/
theorem Node.Shows.succeeds_defaultOf_iff {valueType : ValueType} {hasFormula : Bool}
    (h : node.Shows v) (hv : v.IsMapping) :
    Succeeds (Feature.defaultOf valueType hasFormula node) ↔
      v.Allows "defaultValue" (Value.IsTyped valueType) ∧
        (hasFormula = false → v.field? "defaultValue" ≠ none) := by
  have hread : Succeeds (node.optional "defaultValue" (Node.typed valueType)) ↔
      v.Allows "defaultValue" (Value.IsTyped valueType) :=
    h.succeeds_optional_iff hv fun child w hshows => hshows.succeeds_typed_iff
  rw [← hread]
  unfold Feature.defaultOf
  rw [succeeds_bind_iff]
  constructor
  · rintro ⟨s?, hs, hrest⟩
    refine ⟨⟨s?, hs⟩, fun hformula habsent => ?_⟩
    rcases h.optional hs with ⟨-, rfl⟩ | ⟨w, child, s, hfield, -⟩
    · rw [hformula] at hrest
      obtain ⟨s?, hs⟩ := hrest
      cases hs
    · cases hfield.symm.trans habsent
  · rintro ⟨⟨s?, hs⟩, hpresent⟩
    refine ⟨s?, hs, ?_⟩
    rcases h.optional hs with ⟨habsent, rfl⟩ | ⟨w, child, s, hfield, -, -, rfl⟩
    · cases hasFormula with
      | true => exact ⟨none, rfl⟩
      | false => exact absurd habsent (hpresent rfl)
    · exact ⟨some s, rfl⟩

theorem Node.Shows.succeeds_nameOf_iff (h : node.Shows v) (hv : v.IsMapping) :
    Succeeds (Feature.nameOf id node) ↔ v.Allows "name" Value.IsText := by
  rw [← h.succeeds_text_iff hv]
  unfold Feature.nameOf
  rw [succeeds_bind_iff]
  constructor
  · rintro ⟨name?, hname, -⟩
    exact ⟨name?, hname⟩
  · rintro ⟨name?, hname⟩
    refine ⟨name?, hname, ?_⟩
    cases name? with
    | none => exact ⟨id, rfl⟩
    | some name => exact ⟨_, rfl⟩

theorem Feature.succeeds_ofNode_iff (h : node.Shows v) :
    Succeeds (Feature.ofNode limits id node) ↔ v.IsFeature limits := by
  simp only [Feature.ofNode, succeeds_bind_iff, Outcome.lift_eq_ok_iff]
  constructor
  · rintro ⟨type, htype, valueType, hvalueType, formula, hformula, default?, hdefault, name, hname,
      description, hdescription, bindings, hbindings, tags, htags, -⟩
    obtain ⟨child, hchild, -⟩ := Outcome.bind_eq_ok_iff.1 htype
    have hv := h.isMapping_of_require hchild
    obtain ⟨hallows, hpresent⟩ := (h.succeeds_defaultOf_iff hv).1 ⟨default?, hdefault⟩
    exact {
      mapping := hv
      type := (h.succeeds_choice_iff FeatureType.all hv).1 ⟨type, htype⟩
      defaultValue := ⟨valueType, (h.choice_valueType_iff hv).1 hvalueType, hallows⟩
      formula := (h.succeeds_formulaOf_iff hv).1 ⟨formula, hformula⟩
      hasValue := fun hnone => hpresent (by rw [(h.formulaOf hformula).2.2 hnone]; rfl)
      name := (h.succeeds_nameOf_iff hv).1 ⟨name, hname⟩
      description := (h.succeeds_text_iff hv).1 ⟨description, hdescription⟩
      bindings := (h.succeeds_declaredBindings_iff hv).1 ⟨bindings, hbindings⟩
      tags := (h.succeeds_texts_iff hv).1 ⟨tags, htags⟩ }
  · intro hf
    have hv := hf.mapping
    obtain ⟨type, htype⟩ := (h.succeeds_choice_iff FeatureType.all hv).2 hf.type
    obtain ⟨valueType, hvalueType, hallows⟩ := hf.defaultValue
    obtain ⟨formula, hformula⟩ := (h.succeeds_formulaOf_iff hv).2 hf.formula
    have hpresent : formula.isSome = false → v.field? "defaultValue" ≠ none := fun hnone =>
      hf.hasValue ((h.formulaOf hformula).2.1 (by simpa using hnone))
    obtain ⟨default?, hdefault⟩ := (h.succeeds_defaultOf_iff hv).2 ⟨hallows, hpresent⟩
    obtain ⟨name, hname⟩ := (h.succeeds_nameOf_iff hv).2 hf.name
    obtain ⟨description, hdescription⟩ := (h.succeeds_text_iff hv).2 hf.description
    obtain ⟨bindings, hbindings⟩ := (h.succeeds_declaredBindings_iff hv).2 hf.bindings
    obtain ⟨tags, htags⟩ := (h.succeeds_texts_iff hv).2 hf.tags
    exact ⟨type, htype, valueType, (h.choice_valueType_iff hv).2 hvalueType, formula, hformula,
      default?, hdefault, name, hname, description, hdescription, bindings, hbindings, tags, htags,
      _, rfl⟩

theorem UsageLimit.valueTypeOf_eq_ok_iff {valueType : ValueType} (h : node.Shows v)
    (hv : v.IsMapping) :
    UsageLimit.valueTypeOf node = .ok valueType ↔
      v.valueType? = some valueType ∧ valueType ≠ .text := by
  unfold UsageLimit.valueTypeOf
  simp only [Outcome.bind_eq_ok_iff, h.choice_valueType_iff hv]
  constructor
  · rintro ⟨declared, hdeclared, hrest⟩
    split at hrest
    · next hlisted =>
      cases hrest
      refine ⟨hdeclared, ?_⟩
      rintro rfl
      cases hlisted
    · cases hrest
  · rintro ⟨hdeclared, hne⟩
    refine ⟨valueType, hdeclared, ?_⟩
    rw [if_pos (by cases valueType <;> first | rfl | exact absurd rfl hne)]
    rfl

theorem UsageLimit.succeeds_ofNode_iff {features : Table Feature} {document : Value}
    (hfeatures : ∀ name, features.has name = true ↔ document.Declares "features" name)
    (h : node.Shows v) :
    Succeeds (UsageLimit.ofNode features id node) ↔ document.IsUsageLimit v := by
  simp only [UsageLimit.ofNode, succeeds_bind_iff]
  have hdefault : ∀ {valueType}, v.IsMapping →
      (Succeeds (node.require "defaultValue" >>= Node.typed valueType) ↔
        v.Requires "defaultValue" (Value.IsTyped valueType)) := fun hv =>
    h.succeeds_require_iff hv fun child w hshows => hshows.succeeds_typed_iff
  constructor
  · rintro ⟨type, htype, valueType, hvalueType, linked, hlinked, name, hname, defaultNode,
      hdefaultNode, s, hs, unitNode, hunitNode, unit, hunit, description, hdescription, -⟩
    obtain ⟨child, hchild, -⟩ := Outcome.bind_eq_ok_iff.1 htype
    have hv := h.isMapping_of_require hchild
    obtain ⟨hdeclared, hne⟩ := (valueTypeOf_eq_ok_iff h hv).1 hvalueType
    have hdefaultRead := Outcome.bind_eq_ok_iff.2 ⟨defaultNode, hdefaultNode, hs⟩
    have hunitRead := Outcome.bind_eq_ok_iff.2 ⟨unitNode, hunitNode, hunit⟩
    exact {
      mapping := hv
      type := (h.succeeds_choice_iff UsageLimitType.all hv).1 ⟨type, htype⟩
      defaultValue := ⟨valueType, hdeclared, hne, (hdefault hv).1 ⟨s, hdefaultRead⟩⟩
      linkedFeatures := (h.succeeds_references_iff hv hfeatures).1 ⟨linked, hlinked⟩
      name := (h.succeeds_nameOf_iff hv).1 ⟨name, hname⟩
      unit := (h.succeeds_required_text_iff hv).1 ⟨unit, hunitRead⟩
      description := (h.succeeds_text_iff hv).1 ⟨description, hdescription⟩ }
  · intro hu
    have hv := hu.mapping
    obtain ⟨type, htype⟩ := (h.succeeds_choice_iff UsageLimitType.all hv).2 hu.type
    obtain ⟨valueType, hdeclared, hne, hrequires⟩ := hu.defaultValue
    obtain ⟨linked, hlinked⟩ := (h.succeeds_references_iff hv hfeatures).2 hu.linkedFeatures
    obtain ⟨name, hname⟩ := (h.succeeds_nameOf_iff hv).2 hu.name
    obtain ⟨s, hdefaultRead⟩ := (hdefault hv).2 hrequires
    obtain ⟨defaultNode, hdefaultNode, hs⟩ := Outcome.bind_eq_ok_iff.1 hdefaultRead
    obtain ⟨unit, hunitRead⟩ := (h.succeeds_required_text_iff hv).2 hu.unit
    obtain ⟨unitNode, hunitNode, hunit⟩ := Outcome.bind_eq_ok_iff.1 hunitRead
    obtain ⟨description, hdescription⟩ := (h.succeeds_text_iff hv).2 hu.description
    exact ⟨type, htype, valueType, (valueTypeOf_eq_ok_iff h hv).2 ⟨hdeclared, hne⟩, linked, hlinked,
      name, hname, defaultNode, hdefaultNode, s, hs, unitNode, hunitNode, unit, hunit, description,
      hdescription, _, rfl⟩

/-! What later sections take from the catalog: the types of its values. -/

theorem Feature.valueType_of_ofNode {f : Feature} (h : node.Shows v)
    (hread : Feature.ofNode limits id node = .ok f) : v.valueType? = some f.valueType := by
  simp only [Feature.ofNode, Outcome.bind_eq_ok_iff, Outcome.lift_eq_ok_iff,
    Outcome.pure_eq_ok_iff] at hread
  obtain ⟨type, -, valueType, hvalueType, formula, -, default?, -, name, -, description, -,
    bindings, -, tags, -, rfl⟩ := hread
  obtain ⟨child, hchild, -⟩ := Outcome.bind_eq_ok_iff.1 hvalueType
  exact (h.choice_valueType_iff (h.isMapping_of_require hchild)).1 hvalueType

theorem UsageLimit.valueType_of_ofNode {features : Table Feature} {u : UsageLimit}
    (h : node.Shows v) (hread : UsageLimit.ofNode features id node = .ok u) :
    v.valueType? = some u.valueType := by
  simp only [UsageLimit.ofNode, Outcome.bind_eq_ok_iff, Outcome.pure_eq_ok_iff] at hread
  obtain ⟨type, htype, valueType, hvalueType, linked, -, name, -, child, -, default, -, unitNode, -,
    unit, -, description, -, rfl⟩ := hread
  obtain ⟨child, hchild, -⟩ := Outcome.bind_eq_ok_iff.1 htype
  exact ((valueTypeOf_eq_ok_iff h (h.isMapping_of_require hchild)).1 hvalueType).1

end Catalog

end Tariff
