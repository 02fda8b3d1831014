import Tariff.Entitlement.Payload
import Tariff.Pricing.Basic
import Tariff.Proofs.Document.Shown

/-!
# What a pricing has from its document

The way back from a pricing to the document that it was read from. `Pricing.Reads` is
what the evaluation of entitlements needs of that way: which variables, formulas,
defaults and overrides stand in the document for those of the pricing.

Each part has a small vocabulary of its own on the side of the document:
`Value.formula?` is the formula of an entry and `Value.override?` the value that an
entry of a plan or an add-on gives to an identifier. An identifier whose override is
null, has no value or has the value null is given none.
-/

namespace Tariff

namespace Value

/-- The formula in an entry of the catalog. -/
def formula? (limits : Limits) (entry : Value) : Option Formula :=
  match entry.scalarField? "formula" with
  | some (.text source) => (Formula.compile limits "formula" source).toOption
  | _ => none

/-- The value that an entry of a plan or an add-on gives to an identifier of a catalog. -/
def override? (entry : Value) (catalog id : String) : Option Scalar :=
  (entry.entriesIn catalog).findSome? fun override =>
    if Fields.isField id override then override.2.scalarField? "value" else none

end Value

/-! ## Entries -/

namespace Node

variable {node : Node} {v : Value}

theorem Shows.typed {valueType : ValueType} {s : Scalar} (h : node.Shows v)
    (hread : node.typed valueType = .ok s) : v.scalar? = some s := by
  unfold Node.typed at hread
  split at hread
  · split at hread
    · obtain ⟨rfl, -⟩ := finite_eq_ok_iff.1 hread
      cases h.shape with
      | scalar path hs => exact hs
    · cases hread
  · cases hread

theorem Shows.variableValue {s : Scalar} (h : node.Shows v)
    (hread : node.variableValue = .ok s) : v.scalar? = some s := by
  unfold Node.variableValue at hread
  split at hread
  · obtain ⟨rfl, -⟩ := finite_eq_ok_iff.1 hread
    cases h.shape with
    | scalar path hs => exact hs
  · cases hread

/-- An optional scalar is what stands in the field. -/
theorem Shows.optional_scalar {key : String} {read : Node → Except ConfigError Scalar}
    {s? : Option Scalar} (h : node.Shows v) (hread : node.optional key read = .ok s?)
    (hscalar : ∀ child w s, child.Shows w → read child = .ok s → w.scalar? = some s) :
    s? = v.scalarField? key := by
  unfold Value.scalarField?
  rcases h.optional hread with ⟨habsent, rfl⟩ | ⟨w, child, s, hfield, hshows, hs, rfl⟩
  · rw [habsent]
    rfl
  · rw [hfield]
    exact (hscalar child w s hshows hs).symm

/-- Whether bindings are those that the entries of a mapping declare. -/
abbrev BindsAll (bindings : Table Scalar) (entries : Fields) : Prop :=
  bindings.Matches (fun _ s v => v.scalar? = some s) entries

theorem Shows.declaredBindings {bindings : Table Scalar} (h : node.Shows v)
    (hread : node.declaredBindings = .ok bindings) :
    BindsAll bindings (v.entriesIn "variables") := by
  obtain ⟨bindings?, hoptional, rfl⟩ := Outcome.map_eq_ok_iff.1 hread
  unfold Value.entriesIn
  rcases h.optional hoptional with ⟨habsent, rfl⟩ | ⟨w, child, t, hfield, hshows, ht, rfl⟩
  · rw [habsent]
    exact .nil
  · rw [hfield]
    obtain ⟨fields, hfields, ht⟩ := Outcome.bind_eq_ok_iff.1 ht
    obtain ⟨entries, rfl, hentries⟩ := hshows.asMapping hfields
    exact (hentries.traverse ht).imp fun made entry hmade =>
      ⟨hmade.1, hmade.2.elim fun child hchild => hchild.1.variableValue hchild.2⟩

/-- The value that one entry of an override gives; null, as much as an entry without a
value, gives none. -/
theorem Shows.override? {typeOf : String → Option ValueType} {catalog id : String}
    {s? : Option Scalar} (h : node.Shows v) (hread : node.override? typeOf catalog id = .ok s?) :
    s? = v.scalarField? "value" := by
  unfold Node.override? at hread
  split at hread
  · cases hread
  · split at hread
    · next hnull =>
      cases hread
      obtain rfl := h.isNull_iff.1 hnull
      rfl
    · exact h.optional_scalar hread fun child w s hshows hs => hshows.typed hs

theorem ShowAll.overrideEntries {typeOf : String → Option ValueType} {catalog : String}
    {fields : Table Node} {entries : Fields} {t : Table Scalar} (h : ShowAll fields entries)
    (hread : overrideEntries typeOf catalog fields = .ok t) (id : String) :
    t.get? id = entries.findSome? fun override =>
      if Fields.isField id override then override.2.scalarField? "value" else none := by
  induction h generalizing t with
  | nil =>
    cases hread
    rfl
  | @cons field entry fields entries hentry _ ih =>
    obtain ⟨name, node⟩ := field
    obtain ⟨key, w⟩ := entry
    obtain ⟨hkey, hshows⟩ := hentry
    cases hkey
    unfold Node.overrideEntries at hread
    obtain ⟨s?, hoverride, hread⟩ := Outcome.bind_eq_ok_iff.1 hread
    have hvalue := hshows.override? hoverride
    rw [List.findSome?_cons, Fields.isField_text]
    cases s? with
    | none =>
      rw [← hvalue, ite_self]
      exact ih hread
    | some s =>
      obtain ⟨tail, htail, heq⟩ := Outcome.bind_eq_ok_iff.1 hread
      obtain rfl := Outcome.pure_eq_ok_iff.1 heq
      rw [Table.get?_cons, ← hvalue]
      by_cases hname : id = name
      · rw [if_pos hname, if_pos (by simp [hname])]
      · rw [if_neg hname, if_neg (by simp [Ne.symm hname])]
        exact ih htail

/-- The values that an entry overrides in a catalog. -/
theorem Shows.overrides {typeOf : String → Option ValueType} {catalog : String}
    {t : Table Scalar} (h : node.Shows v) (hread : node.overrides typeOf catalog = .ok t)
    (id : String) : t.get? id = v.override? catalog id := by
  unfold Node.overrides at hread
  obtain ⟨child?, hchild, hread⟩ := Outcome.bind_eq_ok_iff.1 hread
  have hrel := h.get? hchild
  unfold Value.override? Value.entriesIn
  generalize v.field? catalog = w? at hrel ⊢
  cases hrel with
  | none =>
    cases hread
    rfl
  | some hshows =>
    obtain ⟨fields, hfields, hread⟩ := Outcome.bind_eq_ok_iff.1 hread
    obtain ⟨entries, rfl, hentries⟩ := hshows.asMapping hfields
    exact hentries.overrideEntries hread id

end Node

/-! ## Catalogs -/

/-- What a feature has from its entry. -/
structure Feature.Reads (limits : Limits) (id : String) (f : Feature) (entry : Value) : Prop where
  id_eq : f.id = id
  formula_eq : f.formula = entry.formula? limits
  formula_present : f.formula = none ↔ entry.field? "formula" = none
  defaultValue_eq : f.defaultValue = entry.scalarField? "defaultValue"
  /-- A feature has a formula or a default. -/
  has_value : f.formula = none → f.defaultValue ≠ none
  bindings : Node.BindsAll f.bindings (entry.entriesIn "variables")

/-- The path at which a formula stands does not bear on what it is compiled to. -/
theorem Formula.toOption_compile {limits : Limits} {path source : String} {f : Formula}
    (h : Formula.compile limits path source = .ok f) (path' : String) :
    (Formula.compile limits path' source).toOption = some f := by
  have hsame : Formula.compile limits path' source = .ok f :=
    Formula.compile_eq_ok_iff.2 (Formula.compile_eq_ok_iff.1 h)
  rw [hsame]
  rfl

theorem Node.Shows.formulaOf {limits : Limits} {node : Node} {v : Value} {f? : Option Formula}
    (h : node.Shows v) (hread : Feature.formulaOf limits node = .ok f?) :
    f? = v.formula? limits ∧ (f? = none ↔ v.field? "formula" = none) := by
  unfold Value.formula? Value.scalarField?
  rcases h.optionalLifted hread with ⟨habsent, rfl⟩ | ⟨w, child, f, hfield, hshows, hf, rfl⟩
  · rw [habsent]
    exact ⟨rfl, by simp⟩
  · obtain ⟨source, hsource, hcompile⟩ := Outcome.bind_eq_ok_iff.1 hf
    rw [hfield, Option.bind_some, hshows.asText (Outcome.lift_eq_ok_iff.1 hsource)]
    exact ⟨(Formula.toOption_compile hcompile "formula").symm, by simp⟩

theorem Node.Shows.defaultOf {valueType : ValueType} {hasFormula : Bool} {node : Node} {v : Value}
    {s? : Option Scalar} (h : node.Shows v)
    (hread : Feature.defaultOf valueType hasFormula node = .ok s?) :
    s? = v.scalarField? "defaultValue" ∧ (hasFormula = false → s? ≠ none) := by
  unfold Feature.defaultOf at hread
  obtain ⟨default?, hdefault, hread⟩ := Outcome.bind_eq_ok_iff.1 hread
  have hvalue := h.optional_scalar hdefault fun child w s hshows hs => hshows.typed hs
  cases default? with
  | some s =>
    rw [← Outcome.pure_eq_ok_iff.1 hread]
    exact ⟨hvalue, fun _ => by simp⟩
  | none =>
    cases hasFormula with
    | true =>
      rw [← Outcome.pure_eq_ok_iff.1 hread]
      exact ⟨hvalue, fun hformula => by cases hformula⟩
    | false => cases hread

theorem Feature.reads_of_ofNode {limits : Limits} {id : String} {node : Node} {v : Value}
    {f : Feature} (h : node.Shows v) (hread : Feature.ofNode limits id node = .ok f) :
    f.Reads limits id v := by
  simp only [Feature.ofNode, Outcome.bind_eq_ok_iff, Outcome.lift_eq_ok_iff,
    Outcome.pure_eq_ok_iff] at hread
  obtain ⟨type, -, valueType, -, formula, hformula, default?, hdefault, name, -, description, -,
    bindings, hbindings, tags, -, rfl⟩ := hread
  obtain ⟨hformula, hpresent⟩ := h.formulaOf hformula
  obtain ⟨hdefault, hvalue⟩ := h.defaultOf hdefault
  refine ⟨rfl, hformula, hpresent, hdefault, ?_, h.declaredBindings hbindings⟩
  intro hnone
  exact hvalue (Option.isSome_eq_false_iff.2 (Option.isNone_iff_eq_none.2 hnone))

/-- A usage limit has its default from its entry. -/
theorem UsageLimit.default_of_ofNode {features : Table Feature} {id : String} {node : Node}
    {v : Value} {u : UsageLimit} (h : node.Shows v)
    (hread : UsageLimit.ofNode features id node = .ok u) :
    v.scalarField? "defaultValue" = some u.defaultValue := by
  simp only [UsageLimit.ofNode, Outcome.bind_eq_ok_iff, Outcome.pure_eq_ok_iff] at hread
  obtain ⟨type, -, valueType, -, linked, -, name, -, child, hchild, default, hdefault, unitNode, -,
    unit, -, description, -, rfl⟩ := hread
  obtain ⟨w, hfield, hshows⟩ := h.require hchild
  unfold Value.scalarField?
  rw [hfield]
  exact hshows.typed hdefault

/-! ## Plans and add-ons -/

/-- The values that a plan or an add-on overrides, by the sort of capability. -/
def Overrides.values (overrides : Overrides) : Capability → Table Scalar
  | .feature => overrides.features
  | .usageLimit => overrides.usageLimits

/-- Whether overrides are those that an entry gives. -/
def Overrides.Reads (overrides : Overrides) (entry : Value) : Prop :=
  ∀ sort id, (overrides.values sort).get? id = entry.override? sort.key id

theorem Overrides.reads_of_ofEntry {catalog : Catalog} {node : Node} {v : Value} {o : Overrides}
    (h : node.Shows v) (hread : Overrides.ofEntry catalog node = .ok o) : o.Reads v := by
  simp only [Overrides.ofEntry, Outcome.bind_eq_ok_iff, Outcome.pure_eq_ok_iff] at hread
  obtain ⟨features, hfeatures, usageLimits, husageLimits, rfl⟩ := hread
  intro sort
  cases sort with
  | feature => exact h.overrides hfeatures
  | usageLimit => exact h.overrides husageLimits

theorem Plan.reads_of_ofNode {limits : Limits} {catalog : Catalog} {bindings : Table Scalar}
    {name : String} {node : Node} {v : Value} {plan : Plan} (h : node.Shows v)
    (hread : Plan.ofNode limits catalog bindings name node = .ok plan) :
    plan.name = name ∧ plan.overrides.Reads v := by
  simp only [Plan.ofNode, Outcome.bind_eq_ok_iff, Outcome.pure_eq_ok_iff,
    Outcome.ofConfig_eq_ok_iff] at hread
  obtain ⟨description, -, price, -, unit, -, isPrivate, -, overrides, hoverrides, rfl⟩ := hread
  exact ⟨rfl, Overrides.reads_of_ofEntry h hoverrides⟩

theorem AddOn.reads_of_ofNode {limits : Limits} {catalog : Catalog} {bindings : Table Scalar}
    {isPlan isAddOn : String → Bool} {name : String} {node : Node} {v : Value} {addOn : AddOn}
    (h : node.Shows v)
    (hread : AddOn.ofNode limits catalog bindings isPlan isAddOn name node = .ok addOn) :
    addOn.name = name ∧ addOn.overrides.Reads v := by
  simp only [AddOn.ofNode, Outcome.bind_eq_ok_iff, Outcome.pure_eq_ok_iff,
    Outcome.ofConfig_eq_ok_iff] at hread
  obtain ⟨description, -, price, -, unit, -, availableFor, -, dependsOn, -, excludes, -, overrides,
    hoverrides, rfl⟩ := hread
  exact ⟨rfl, Overrides.reads_of_ofEntry h hoverrides⟩

/-! ## Attributes -/

/-- Which fields of a document some of its attributes were read from. -/
structure Attributes.ReadFrom (attributes : Attributes) (root : Node) : Prop where
  createdAt : createdAtOf root = .ok attributes.createdAt
  ordered : checkOrder attributes.starts attributes.ends = .ok ()
  label : root.optionalLifted "version" labelOf = .ok attributes.label
  bindings : root.declaredBindings = .ok attributes.bindings

theorem Attributes.readFrom_of_ofNode {root : Node} {attributes : Attributes}
    (h : Attributes.ofNode root = .ok attributes) : attributes.ReadFrom root := by
  unfold Attributes.ofNode at h
  simp only [Outcome.bind_eq_ok_iff, Outcome.lift_eq_ok_iff, Outcome.pure_eq_ok_iff] at h
  obtain ⟨saasName, -, currency, -, createdAt, hcreatedAt, annual?, -, starts, -, ends, -, ordered,
    horder, url, -, label, hlabel, bindings, hbindings, rfl⟩ := h
  exact {
    createdAt := hcreatedAt
    ordered := horder
    label := hlabel
    bindings := hbindings }

/-! ## Pricings -/

namespace Pricing

/-- What a pricing has from its document. -/
structure Reads (limits : Limits) (pricing : Pricing) (document : Value) : Prop where
  bindings : Node.BindsAll pricing.bindings (document.entriesIn "variables")
  features : pricing.features.Matches (fun id f v => f.Reads limits id v)
    (document.entriesIn "features")
  usageLimits : pricing.usageLimits.Matches
    (fun _ u v => v.scalarField? "defaultValue" = some u.defaultValue)
    (document.entriesIn "usageLimits")
  plans : pricing.plans.Matches (fun name plan v => plan.name = name ∧ plan.overrides.Reads v)
    (document.entriesIn "plans")
  addOns : pricing.addOns.Matches (fun name addOn v => addOn.name = name ∧ addOn.overrides.Reads v)
    (document.entriesIn "addOns")

@[simp] theorem result_phase {α : Type} (outcome : Except ParseError α) :
    (phase outcome).result = outcome := by
  simp [phase]

/-- A section that is there was read from the fields of its node. -/
theorem sectionOf_eq_ok {α : Type} {part : Section}
    {read : Table Node → Except ParseError (Table α)} {node : Node} {made : Table α}
    (h : (sectionOf part read node).result = .ok made) :
    ∃ fields, node.asMapping = .ok fields ∧ read fields = .ok made := by
  simp only [sectionOf, Logged.result_bind, result_phase, Outcome.bind_eq_ok_iff,
    Outcome.ofConfig_eq_ok_iff, Logged.result_pure] at h
  obtain ⟨fields, hfields, made', hread, -, -, heq⟩ := h
  cases heq
  exact ⟨fields, hfields, hread⟩

/-- A section that may be absent was read from its fields, of which there are none if it
is. -/
theorem optionalSection_eq_ok {α : Type} {part : Section}
    {read : Table Node → Except ParseError (Table α)} {root : Node} {made : Table α}
    (h : (optionalSection part read root).result = .ok made) (hnone : read [] = .ok []) :
    ∃ fields, root.fieldsIn part.key = .ok fields ∧ read fields = .ok made := by
  simp only [optionalSection, Logged.result_bind, result_phase, Outcome.bind_eq_ok_iff,
    Outcome.ofConfig_eq_ok_iff] at h
  obtain ⟨child?, hchild, h⟩ := h
  unfold Node.fieldsIn
  cases child? with
  | none =>
    cases h
    exact ⟨[], by rw [hchild]; rfl, hnone⟩
  | some child =>
    obtain ⟨fields, hfields, hread⟩ := sectionOf_eq_ok h
    exact ⟨fields, by rw [hchild]; exact hfields, hread⟩

/-- A section that is required was read from its fields too. -/
theorem fieldsIn_of_require {root child : Node} {key : String} {fields : Table Node}
    (hchild : root.require key = .ok child) (hfields : child.asMapping = .ok fields) :
    root.fieldsIn key = .ok fields := by
  unfold Node.require at hchild
  unfold Node.fieldsIn
  obtain ⟨child?, hget, hchild⟩ := Outcome.bind_eq_ok_iff.1 hchild
  rw [hget]
  cases child? with
  | none => cases hchild
  | some child' =>
    cases hchild
    exact hfields

theorem bindings_of_ofNode {root : Node} {attributes : Attributes}
    (h : Attributes.ofNode root = .ok attributes) :
    root.declaredBindings = .ok attributes.bindings :=
  (Attributes.readFrom_of_ofNode h).bindings

/-- A pricing that was read has from its document what the document says. -/
theorem reads_of_ofNode {limits : Limits} {version : Version} {root : Node} {document : Value}
    {pricing : Pricing} (h : root.Shows document)
    (hread : (ofNode limits version root).result = .ok pricing) :
    pricing.Reads limits document := by
  simp only [ofNode, Logged.result_bind, result_phase, Outcome.bind_eq_ok_iff,
    Outcome.ofConfig_eq_ok_iff, Outcome.ofRefusal_eq_ok_iff] at hread
  obtain ⟨attributes, hattributes, node, hnode, features, hfeatures, usageLimits, husageLimits,
    plans, hplans, addOns, haddOns, hread⟩ := hread
  obtain ⟨featureFields, hfeatureFields, hfeatures⟩ := sectionOf_eq_ok hfeatures
  obtain ⟨limitFields, hlimitFields, husageLimits⟩ := optionalSection_eq_ok husageLimits rfl
  obtain ⟨planFields, hplanFields, hplans⟩ := optionalSection_eq_ok hplans rfl
  obtain ⟨addOnFields, haddOnFields, haddOns⟩ := optionalSection_eq_ok haddOns rfl
  rw [Outcome.ofRefusal_eq_ok_iff] at hfeatures
  rw [Outcome.ofConfig_eq_ok_iff] at husageLimits
  split at hread
  · cases hread
  · cases hread
    refine ⟨?_, ?_, ?_, ?_, ?_⟩
    · exact h.declaredBindings (bindings_of_ofNode hattributes)
    · have hfields := h.fieldsIn (fieldsIn_of_require hnode hfeatureFields)
      refine (hfields.traverse hfeatures).imp fun made entry hmade => ⟨hmade.1, ?_⟩
      obtain ⟨child, hshows, hchild⟩ := hmade.2
      exact Feature.reads_of_ofNode hshows hchild
    · refine ((h.fieldsIn hlimitFields).traverse husageLimits).imp fun made entry hmade =>
        ⟨hmade.1, ?_⟩
      obtain ⟨child, hshows, hchild⟩ := hmade.2
      exact UsageLimit.default_of_ofNode hshows hchild
    · refine ((h.fieldsIn hplanFields).traverse hplans).imp fun made entry hmade => ⟨hmade.1, ?_⟩
      obtain ⟨child, hshows, hchild⟩ := hmade.2
      exact Plan.reads_of_ofNode hshows hchild
    · refine ((h.fieldsIn haddOnFields).traverse haddOns).imp fun made entry hmade =>
        ⟨hmade.1, ?_⟩
      obtain ⟨child, hshows, hchild⟩ := hmade.2
      exact AddOn.reads_of_ofNode hshows hchild

theorem reads_of_ofCanonical {limits : Limits} {version : Version} {document : Value}
    {pricing : Pricing} (h : (ofCanonical limits document version).result = .ok pricing) :
    pricing.Reads limits document := by
  simp only [ofCanonical, Logged.result_bind, result_phase, Outcome.bind_eq_ok_iff,
    Outcome.ofConfig_eq_ok_iff, Outcome.ofRefusal_eq_ok_iff] at h
  obtain ⟨root, hroot, -, -, hread⟩ := h
  exact reads_of_ofNode (Node.shows_of_ofValue hroot) hread

end Pricing

end Tariff
