import Tariff.Pricing.Basic
import Tariff.Proofs.Document.Accepted
import Tariff.Proofs.Document.Layout
import Tariff.Proofs.Table

/-!
# The fields that are read

The layout of a pricing document (`Layout.document`) says of every mapping in it whether it
is a record or a catalog, and of every record which fields are looked up. What is read of a
document depends on what can be seen by this layout and on nothing else
(`Pricing.ofCanonical_congr`), whether a pricing comes of it or an error. So the order of
the fields of a record, fields that are null and fields of other names do not matter
(`Pricing.ofCanonical_of_edits`). In catalogs, order and nulls do matter, and no change
there is among those that cannot be seen.

The lemmas go through the readers in their order: each gives the same outcome on two trees
that are alike.
-/

namespace Tariff

/-! ## The layout of a document -/

namespace Layout

/-- A record of which some fields have a layout of their own. -/
def recordOf (names : List String) (nested : Table Layout) : Layout :=
  .record names fun name => (nested.get? name).getD .verbatim

/-- The fields of such a record that have no layout of their own are the same in trees that
are alike. -/
theorem Alike.get?_plain {n m : Node} (plain : List String) (nested : Table Layout)
    (h : (recordOf (plain ++ nested.names) nested).Alike n m)
    (hplain : ∀ name ∈ plain, nested.has name = false) :
    ∀ name ∈ plain, n.get? name = m.get? name := by
  intro name hname
  refine h.get?_eq (List.mem_append_left _ hname) ?_
  have hnone := hplain name hname
  unfold Table.has at hnone
  rw [Option.isSome_eq_false_iff, Option.isNone_iff_eq_none] at hnone
  rw [hnone]
  rfl

/-- A field of such a record that has a layout of its own is alike. -/
theorem Alike.get?_nested {names : List String} {nested : Table Layout} {n m : Node}
    (h : (recordOf names nested).Alike n m) {name : String} {l : Layout} (hname : name ∈ names)
    (hnested : nested.get? name = some l) :
    Outcome.Rel (Option.Rel l.Alike) (n.get? name) (m.get? name) := by
  have hrel := h.get? hname
  rwa [hnested] at hrel

theorem Alike.require_nested {names : List String} {nested : Table Layout} {n m : Node}
    (h : (recordOf names nested).Alike n m) {name : String} {l : Layout} (hname : name ∈ names)
    (hnested : nested.get? name = some l) :
    Outcome.Rel l.Alike (n.require name) (m.require name) := by
  have hrel := h.get?_nested hname hnested
  unfold Node.require
  rw [h.path_eq]
  generalize n.get? name = found at hrel
  generalize m.get? name = found' at hrel
  cases hrel with
  | error e => exact .error e
  | ok hchild =>
    cases hchild with
    | none => exact .error _
    | some hnode => exact .ok hnode

/-- The layout of a feature. -/
def feature : Layout :=
  recordOf ["type", "valueType", "formula", "defaultValue", "name", "description", "variables",
    "tags"] []

/-- The layout of a usage limit. -/
def usageLimit : Layout :=
  recordOf ["type", "valueType", "linkedFeatures", "name", "defaultValue", "unit", "description"] []

/-- The layout of the values that an offer overrides. -/
def overrides : Layout := .catalog (recordOf ["value"] [])

/-- The layout of a plan. -/
def plan : Layout :=
  recordOf ["description", "price", "variables", "unit", "private", "features", "usageLimits"]
    [("features", overrides), ("usageLimits", overrides)]

/-- The layout of an add-on. -/
def addOn : Layout :=
  recordOf ["description", "price", "variables", "unit", "availableFor", "dependsOn", "excludes",
    "features", "usageLimits"] [("features", overrides), ("usageLimits", overrides)]

/-- The layout of a document in the current syntax. -/
def document : Layout :=
  recordOf ["saasName", "currency", "createdAt", "hasAnnualPayment", "starts", "ends", "url",
    "version", "variables", "features", "usageLimits", "plans", "addOns"]
    [("features", .catalog feature), ("usageLimits", .catalog usageLimit),
      ("plans", .catalog plan), ("addOns", .catalog addOn)]

end Layout

/-! ## Fields and tables -/

namespace Table

variable {α β ε : Type} {R : α → α → Prop} {t u : Table α}

/-- What is made of two tables is the same, if what is made of their things is. -/
theorem traverse_eq_of_forall₂ {f g : String → α → Except ε β}
    (h : List.Forall₂ (fun a b => a.1 = b.1 ∧ R a.2 b.2) t u)
    (hfg : ∀ name a b, R a b → f name a = g name b) : t.traverse f = u.traverse g := by
  induction h with
  | nil => rfl
  | @cons first first' rest rest' hfirst _ ih =>
    obtain ⟨name, a⟩ := first
    obtain ⟨name', b⟩ := first'
    obtain ⟨rfl, hab⟩ := hfirst
    rw [traverse, traverse, hfg name a b hab, ih]

/-- Tables with the same names have the same things in them, as far as names tell. -/
theorem has_eq_of_forall₂ (h : List.Forall₂ (fun a b => a.1 = b.1 ∧ R a.2 b.2) t u) :
    t.has = u.has := by
  funext name
  unfold has
  induction h with
  | nil => rfl
  | @cons first first' rest rest' hfirst _ ih =>
    obtain ⟨name', a⟩ := first
    obtain ⟨name'', b⟩ := first'
    obtain ⟨rfl, -⟩ := hfirst
    rw [get?_cons, get?_cons]
    split
    · rfl
    · exact ih

end Table

namespace Node

variable {n m : Node} {key : String} {α : Type}

theorem require_congr (hpath : n.path = m.path) (hget : n.get? key = m.get? key) :
    n.require key = m.require key := by
  unfold require
  rw [hget, hpath]

theorem optional_congr (hget : n.get? key = m.get? key) (read : Node → Except ConfigError α) :
    n.optional key read = m.optional key read := by
  unfold optional
  rw [hget]

theorem optionalLifted_congr (hget : n.get? key = m.get? key)
    (read : Node → Except (Refusal ConfigError) α) :
    n.optionalLifted key read = m.optionalLifted key read := by
  unfold optionalLifted
  rw [hget]

theorem choice_congr (hpath : n.path = m.path) (hget : n.get? key = m.get? key)
    (options : Table α) : n.choice key options = m.choice key options := by
  unfold choice
  rw [require_congr hpath hget]

theorem declaredBindings_congr (hget : n.get? "variables" = m.get? "variables") :
    n.declaredBindings = m.declaredBindings := by
  unfold declaredBindings
  rw [optional_congr hget]

theorem optionalTexts_congr (hget : n.get? key = m.get? key) :
    n.optionalTexts key = m.optionalTexts key := by
  unfold optionalTexts
  rw [optional_congr hget]

theorem references_congr (hget : n.get? key = m.get? key) (known : String → Bool)
    (catalog : String) : n.references key known catalog = m.references key known catalog := by
  unfold references
  rw [hget]

end Node

/-! ## Overrides -/

namespace Node

variable {n m : Node} {typeOf : String → Option ValueType} {catalog : String}

/-- Of an entry of an override only the value is read. -/
theorem override?_congr_of_alike (h : (Layout.recordOf ["value"] []).Alike n m) (id : String) :
    override? typeOf catalog id n = override? typeOf catalog id m := by
  have hvalue : n.get? "value" = m.get? "value" :=
    h.get?_plain ["value"] [] (by decide) "value" (by decide)
  unfold override?
  rw [h.path_eq, h.isNull_eq]
  cases typeOf id with
  | none => rfl
  | some valueType =>
    dsimp only
    rw [optional_congr hvalue]

theorem overrideEntries_congr {t u : Table Node}
    (h : List.Forall₂ (fun a b => a.1 = b.1 ∧ (Layout.recordOf ["value"] []).Alike a.2 b.2) t u) :
    overrideEntries typeOf catalog t = overrideEntries typeOf catalog u := by
  induction h with
  | nil => rfl
  | @cons first first' rest rest' hfirst _ ih =>
    obtain ⟨id, node⟩ := first
    obtain ⟨id', node'⟩ := first'
    obtain ⟨rfl, hnode⟩ := hfirst
    rw [overrideEntries, overrideEntries, override?_congr_of_alike hnode, ih]

theorem overrides_congr
    (h : Outcome.Rel (Option.Rel Layout.overrides.Alike) (n.get? catalog) (m.get? catalog)) :
    n.overrides typeOf catalog = m.overrides typeOf catalog := by
  refine h.bind_eq fun child child' hchild => ?_
  cases hchild with
  | none => rfl
  | some hnode => exact hnode.asMapping_catalog.bind_eq fun t u => overrideEntries_congr

end Node

/-! ## Entries of the catalogs -/

variable {n m : Node}

theorem Feature.nameOf_congr (hget : n.get? "name" = m.get? "name") (id : String) :
    nameOf id n = nameOf id m := by
  unfold nameOf
  rw [Node.optional_congr hget]

theorem Feature.ofNode_congr (h : Layout.feature.Alike n m) (limits : Limits) (id : String) :
    ofNode limits id n = ofNode limits id m := by
  have hpath := h.path_eq
  have hget : ∀ name ∈ ["type", "valueType", "formula", "defaultValue", "name", "description",
      "variables", "tags"], n.get? name = m.get? name := h.get?_plain _ [] (by decide)
  have hformula : formulaOf limits n = formulaOf limits m :=
    Node.optionalLifted_congr (hget "formula" (by decide)) _
  have hdefault : ∀ valueType hasFormula,
      defaultOf valueType hasFormula n = defaultOf valueType hasFormula m := by
    intro valueType hasFormula
    unfold defaultOf
    rw [Node.optional_congr (hget "defaultValue" (by decide)), hpath]
  unfold ofNode
  simp only [Node.choice_congr hpath (hget "type" (by decide)),
    Node.choice_congr hpath (hget "valueType" (by decide)), hformula, hdefault,
    nameOf_congr (hget "name" (by decide)), Node.optional_congr (hget "description" (by decide)),
    Node.declaredBindings_congr (hget "variables" (by decide)),
    Node.optionalTexts_congr (hget "tags" (by decide))]

theorem UsageLimit.ofNode_congr (h : Layout.usageLimit.Alike n m) (features : Table Feature)
    (id : String) : ofNode features id n = ofNode features id m := by
  have hpath := h.path_eq
  have hget : ∀ name ∈ ["type", "valueType", "linkedFeatures", "name", "defaultValue", "unit",
      "description"], n.get? name = m.get? name := h.get?_plain _ [] (by decide)
  have hvalueType : valueTypeOf n = valueTypeOf m := by
    unfold valueTypeOf
    rw [Node.choice_congr hpath (hget "valueType" (by decide)), hpath]
  unfold ofNode
  simp only [Node.choice_congr hpath (hget "type" (by decide)), hvalueType,
    Node.references_congr (hget "linkedFeatures" (by decide)),
    Feature.nameOf_congr (hget "name" (by decide)),
    Node.require_congr hpath (hget "defaultValue" (by decide)),
    Node.require_congr hpath (hget "unit" (by decide)),
    Node.optional_congr (hget "description" (by decide))]

theorem Price.ofEntry_congr (hprice : n.get? "price" = m.get? "price")
    (hvariables : n.get? "variables" = m.get? "variables") (limits : Limits)
    (outer : Table Scalar) : ofEntry limits outer n = ofEntry limits outer m := by
  unfold ofEntry
  rw [hprice, Node.declaredBindings_congr hvariables]

theorem Overrides.ofEntry_congr
    (hfeatures : Outcome.Rel (Option.Rel Layout.overrides.Alike) (n.get? "features")
      (m.get? "features"))
    (husageLimits : Outcome.Rel (Option.Rel Layout.overrides.Alike) (n.get? "usageLimits")
      (m.get? "usageLimits")) (catalog : Catalog) :
    ofEntry catalog n = ofEntry catalog m := by
  unfold ofEntry
  rw [Node.overrides_congr hfeatures, Node.overrides_congr husageLimits]

theorem Plan.ofNode_congr (h : Layout.plan.Alike n m) (limits : Limits) (catalog : Catalog)
    (bindings : Table Scalar) (name : String) :
    ofNode limits catalog bindings name n = ofNode limits catalog bindings name m := by
  have hget : ∀ name ∈ ["description", "price", "variables", "unit", "private"],
      n.get? name = m.get? name :=
    h.get?_plain _ [("features", .overrides), ("usageLimits", .overrides)] (by decide)
  have hoverrides := Overrides.ofEntry_congr (h.get?_nested (by decide) rfl)
    (h.get?_nested (by decide) rfl) catalog
  unfold ofNode
  simp only [Node.optional_congr (hget "description" (by decide)),
    Price.ofEntry_congr (hget "price" (by decide)) (hget "variables" (by decide)),
    Node.optional_congr (hget "unit" (by decide)),
    Node.optional_congr (hget "private" (by decide)), hoverrides]

theorem AddOn.ofNode_congr (h : Layout.addOn.Alike n m) (limits : Limits) (catalog : Catalog)
    (bindings : Table Scalar) (isPlan isAddOn : String → Bool) (name : String) :
    ofNode limits catalog bindings isPlan isAddOn name n =
      ofNode limits catalog bindings isPlan isAddOn name m := by
  have hget : ∀ name ∈ ["description", "price", "variables", "unit", "availableFor", "dependsOn",
      "excludes"], n.get? name = m.get? name :=
    h.get?_plain _ [("features", .overrides), ("usageLimits", .overrides)] (by decide)
  have hoverrides := Overrides.ofEntry_congr (h.get?_nested (by decide) rfl)
    (h.get?_nested (by decide) rfl) catalog
  unfold ofNode otherAddOns
  simp only [Node.optional_congr (hget "description" (by decide)),
    Price.ofEntry_congr (hget "price" (by decide)) (hget "variables" (by decide)),
    Node.optional_congr (hget "unit" (by decide)),
    Node.references_congr (hget "availableFor" (by decide)),
    Node.references_congr (hget "dependsOn" (by decide)),
    Node.references_congr (hget "excludes" (by decide)), h.path_eq, hoverrides]

/-- The fields of a document that its attributes are read from. -/
def Attributes.fieldNames : List String :=
  ["saasName", "currency", "createdAt", "hasAnnualPayment", "starts", "ends", "url", "version",
    "variables"]

/-- Attributes are read from their fields and from nothing else. -/
theorem Attributes.ofNode_eq_of_get?_eq (hpath : n.path = m.path)
    (hget : ∀ name ∈ fieldNames, n.get? name = m.get? name) : ofNode n = ofNode m := by
  unfold ofNode instantOf createdAtOf
  simp only [Node.require_congr hpath (hget "saasName" (by decide)),
    Node.require_congr hpath (hget "currency" (by decide)),
    Node.require_congr hpath (hget "createdAt" (by decide)),
    Node.optional_congr (hget "hasAnnualPayment" (by decide)),
    Node.optional_congr (hget "starts" (by decide)), Node.optional_congr (hget "ends" (by decide)),
    Node.optional_congr (hget "url" (by decide)),
    Node.optionalLifted_congr (hget "version" (by decide)),
    Node.declaredBindings_congr (hget "variables" (by decide))]

theorem Attributes.ofNode_congr (h : Layout.document.Alike n m) : ofNode n = ofNode m :=
  ofNode_eq_of_get?_eq h.path_eq (h.get?_plain fieldNames
    [("features", .catalog .feature), ("usageLimits", .catalog .usageLimit),
      ("plans", .catalog .plan), ("addOns", .catalog .addOn)] (by decide))

/-! ## Catalogs -/

section Catalogs

variable {t u : Table Node}

theorem Feature.catalogOf_congr
    (h : List.Forall₂ (fun a b => a.1 = b.1 ∧ Layout.feature.Alike a.2 b.2) t u)
    (limits : Limits) : catalogOf limits t = catalogOf limits u :=
  Table.traverse_eq_of_forall₂ h fun id _ _ hab => ofNode_congr hab limits id

theorem UsageLimit.catalogOf_congr
    (h : List.Forall₂ (fun a b => a.1 = b.1 ∧ Layout.usageLimit.Alike a.2 b.2) t u)
    (features : Table Feature) : catalogOf features t = catalogOf features u :=
  Table.traverse_eq_of_forall₂ h fun id _ _ hab => ofNode_congr hab features id

theorem Plan.catalogOf_congr
    (h : List.Forall₂ (fun a b => a.1 = b.1 ∧ Layout.plan.Alike a.2 b.2) t u) (limits : Limits)
    (catalog : Catalog) (bindings : Table Scalar) :
    catalogOf limits catalog bindings t = catalogOf limits catalog bindings u :=
  Table.traverse_eq_of_forall₂ h fun name _ _ hab => ofNode_congr hab limits catalog bindings name

theorem AddOn.catalogOf_congr
    (h : List.Forall₂ (fun a b => a.1 = b.1 ∧ Layout.addOn.Alike a.2 b.2) t u) (limits : Limits)
    (catalog : Catalog) (bindings : Table Scalar) (plans : Table Plan) :
    catalogOf limits catalog bindings plans t = catalogOf limits catalog bindings plans u := by
  unfold catalogOf
  rw [Table.has_eq_of_forall₂ h]
  exact Table.traverse_eq_of_forall₂ h fun name _ _ hab =>
    ofNode_congr hab limits catalog bindings plans.has (Table.has u) name

end Catalogs

namespace Pricing

variable {α β γ : Type}

/-- Phases with related outcomes go on to the same outcome, with the same report. -/
theorem phase_bind_congr {R : α → β → Prop} {x : Except ParseError α} {y : Except ParseError β}
    {next : α → Logged ParseError γ} {next' : β → Logged ParseError γ} (h : Outcome.Rel R x y)
    (hnext : ∀ a b, R a b → next a = next' b) :
    (phase x >>= next) = (phase y >>= next') := by
  cases h with
  | error e => rfl
  | @ok a b hab =>
    show (⟨[] ++ (next a).events, (next a).result⟩ : Logged ParseError γ) = _
    rw [hnext a b hab]
    rfl

variable {entry : Layout}

theorem sectionOf_congr {read : Table Node → Except ParseError (Table γ)} (part : Section)
    (h : (Layout.catalog entry).Alike n m)
    (hread : ∀ t u, List.Forall₂ (fun a b => a.1 = b.1 ∧ entry.Alike a.2 b.2) t u →
      read t = read u) : sectionOf part read n = sectionOf part read m := by
  unfold sectionOf
  refine phase_bind_congr (h.asMapping_catalog.mapError _) fun t u htu => ?_
  rw [hread t u htu]

theorem optionalSection_congr {read : Table Node → Except ParseError (Table γ)} {part : Section}
    (h : Outcome.Rel (Option.Rel (Layout.catalog entry).Alike) (n.get? part.key) (m.get? part.key))
    (hread : ∀ t u, List.Forall₂ (fun a b => a.1 = b.1 ∧ entry.Alike a.2 b.2) t u →
      read t = read u) : optionalSection part read n = optionalSection part read m := by
  unfold optionalSection
  refine phase_bind_congr (h.mapError _) fun child child' hchild => ?_
  cases hchild with
  | none => rfl
  | some hnode => exact sectionOf_congr part hnode hread

/-- The trees of documents that are alike are read alike. -/
theorem ofNode_congr (h : Layout.document.Alike n m) (limits : Limits) (version : Version) :
    ofNode limits version n = ofNode limits version m := by
  have hfeatures : Outcome.Rel (Layout.catalog Layout.feature).Alike
      (n.require Section.features.key) (m.require Section.features.key) :=
    h.require_nested (by decide) rfl
  have husageLimits : Outcome.Rel (Option.Rel (Layout.catalog Layout.usageLimit).Alike)
      (n.get? Section.usageLimits.key) (m.get? Section.usageLimits.key) :=
    h.get?_nested (by decide) rfl
  have hplans : Outcome.Rel (Option.Rel (Layout.catalog Layout.plan).Alike)
      (n.get? Section.plans.key) (m.get? Section.plans.key) := h.get?_nested (by decide) rfl
  have haddOns : Outcome.Rel (Option.Rel (Layout.catalog Layout.addOn).Alike)
      (n.get? Section.addOns.key) (m.get? Section.addOns.key) := h.get?_nested (by decide) rfl
  have hlimitsSection : ∀ features, optionalSection .usageLimits
      (fun entries => ParseError.ofConfig (UsageLimit.catalogOf features entries)) n =
        optionalSection .usageLimits
          (fun entries => ParseError.ofConfig (UsageLimit.catalogOf features entries)) m :=
    fun features => optionalSection_congr husageLimits fun _ _ htu =>
      congrArg ParseError.ofConfig (UsageLimit.catalogOf_congr htu features)
  have hplansSection : ∀ catalog bindings,
      optionalSection .plans (Plan.catalogOf limits catalog bindings) n =
        optionalSection .plans (Plan.catalogOf limits catalog bindings) m :=
    fun catalog bindings => optionalSection_congr hplans fun _ _ htu =>
      Plan.catalogOf_congr htu limits catalog bindings
  have haddOnsSection : ∀ catalog bindings plans,
      optionalSection .addOns (AddOn.catalogOf limits catalog bindings plans) n =
        optionalSection .addOns (AddOn.catalogOf limits catalog bindings plans) m :=
    fun catalog bindings plans => optionalSection_congr haddOns fun _ _ htu =>
      AddOn.catalogOf_congr htu limits catalog bindings plans
  unfold ofNode
  simp only [Attributes.ofNode_congr h, hlimitsSection, hplansSection, haddOnsSection]
  congr 1
  funext attributes
  refine phase_bind_congr (hfeatures.mapError _) fun node node' hnode => ?_
  rw [sectionOf_congr .features hnode fun _ _ htu =>
    congrArg ParseError.ofRefusal (Feature.catalogOf_congr htu limits)]

/-- What is read of a document depends on its view only, provided that it has a tree. -/
theorem ofCanonical_congr {d d' : Value} (h : Layout.document.view d = Layout.document.view d')
    (hd : Outcome.Succeeds (Node.ofValue d)) (hd' : Outcome.Succeeds (Node.ofValue d'))
    (limits : Limits) (version : Version) :
    ofCanonical limits d version = ofCanonical limits d' version := by
  obtain ⟨n, hn⟩ := hd
  obtain ⟨m, hm⟩ := hd'
  have halike : Layout.document.Alike n m := Layout.alike_of_view_eq h hn hm
  unfold ofCanonical
  rw [hn, hm]
  refine phase_bind_congr (.ok halike) fun root root' hroot => ?_
  refine phase_bind_congr (hroot.asMapping.mapError _) fun _ _ _ => ?_
  exact ofNode_congr hroot limits version

/-- Fields that are not read do not matter. If one document is made of another by changes of
its records, each of which puts the fields in another order, takes away a field that is null,
or adds or takes away one that is not looked up, and both have a tree, then both are read
with the same outcome, be it a pricing or an error. -/
theorem ofCanonical_of_edits {d d' : Value} (h : Relation.EqvGen Layout.document.Edit d d')
    (hd : Outcome.Succeeds (Node.ofValue d)) (hd' : Outcome.Succeeds (Node.ofValue d'))
    (limits : Limits) (version : Version) :
    ofCanonical limits d version = ofCanonical limits d' version :=
  ofCanonical_congr (Layout.view_eq_of_edits h) hd hd' limits version

/-- The feature of a document with a field that is null. -/
def describedFeature : Fields :=
  [(.text "type", .text "CAPABILITY"), (.text "description", .null),
    (.text "valueType", .text "BOOLEAN"), (.text "defaultValue", .bool true)]

/-- The same feature without it, in another order. -/
def plainFeature : Fields :=
  [(.text "valueType", .text "BOOLEAN"), (.text "type", .text "CAPABILITY"),
    (.text "defaultValue", .bool true)]

/-- The override of a plan with a field that is not read. -/
def notedOverride : Fields := [(.text "value", .bool false), (.text "note", .text "until May")]

/-- A document with a feature and a plan. -/
def entryDocument (feature override : Fields) : Value :=
  .mapping [(.text "saasName", .text "Demo"), (.text "currency", .text "EUR"),
    (.text "createdAt", .text "2024-08-31"),
    (.text "features", .mapping [(.text "sso", .mapping feature)]),
    (.text "plans", .mapping [(.text "basic", .mapping [
      (.text "features", .mapping [(.text "sso", .mapping override)])])])]

theorem edit_feature {feature feature' : Fields} (override : Fields)
    (h : Layout.feature.Edit (.mapping feature) (.mapping feature')) :
    Layout.document.Edit (entryDocument feature override) (entryDocument feature' override) :=
  .inField [_, _, _] [_] (by decide) (.inEntry [] [] h)

theorem edit_override {override override' : Fields} (feature : Fields)
    (h : (Layout.recordOf ["value"] []).Edit (.mapping override) (.mapping override')) :
    Layout.document.Edit (entryDocument feature override) (entryDocument feature override') :=
  .inField [_, _, _, _] [] (by decide)
    (.inEntry [] [] (.inField [] [] (by decide) (.inEntry [] [] h)))

/-- The null of the feature is taken away, its other fields are put in another order, and the
note of the override is taken away. -/
theorem edits_entryDocument : Relation.EqvGen Layout.document.Edit
    (entryDocument describedFeature notedOverride)
    (entryDocument plainFeature [(.text "value", .bool false)]) := by
  refine .trans _ _ _ (.rel _ _ (edit_feature notedOverride (.dropNull [_] [_, _] (by simp)))) ?_
  refine .trans _ _ _ (.rel _ _ (edit_feature notedOverride (.reorder (by simp) (.swap _ _ _)))) ?_
  exact .rel _ _ (edit_override _ (.dropUnread [_] [] (by simp)))

/-- A null, another order and a note do not matter. -/
theorem ofCanonical_of_edits_entryDocument :
    ∃ pricing, (ofCanonical ⟨64, 1000⟩ (entryDocument describedFeature notedOverride)).result =
        .ok pricing ∧
      (ofCanonical ⟨64, 1000⟩
        (entryDocument plainFeature [(.text "value", .bool false)])).result = .ok pricing := by
  have htree : ∀ feature override, (Node.ofValue (entryDocument feature override)).toOption.isSome =
      true → Outcome.Succeeds (Node.ofValue (entryDocument feature override)) := by
    intro feature override hsome
    obtain ⟨node, hnode⟩ := Option.isSome_iff_exists.1 hsome
    exact ⟨node, Outcome.toOption_eq_some_iff.1 hnode⟩
  have hsame := ofCanonical_of_edits edits_entryDocument (htree _ _ (by decide +kernel))
    (htree _ _ (by decide +kernel)) ⟨64, 1000⟩ .current
  have hrun : (ofCanonical ⟨64, 1000⟩
      (entryDocument describedFeature notedOverride)).result.toOption.isSome = true := by
    decide +kernel
  obtain ⟨pricing, hpricing⟩ := Option.isSome_iff_exists.1 hrun
  rw [Outcome.toOption_eq_some_iff] at hpricing
  exact ⟨pricing, hpricing, hsame ▸ hpricing⟩

end Pricing

end Tariff
