import Tariff.Proofs.Pricing.Accepted
import Tariff.Proofs.Pricing.Phases
import Tariff.Proofs.Version.FixedPoint

/-!
# Pricings are closed

Whatever a pricing refers to is in it: the features that usage limits are linked to, the
identifiers that plans and add-ons override, the plans that an add-on is available for and
the add-ons that it depends on or excludes (`Pricing.IsClosed`). Every pricing that was
read is closed, whatever the version of its document, and its catalogs have the names of
the sections of that document in their order (`isClosed_of_ofValue`).

`Pricing.ofCanonical_eq_ok` is what the reading of a document did, phase by phase. All that
holds of pricings in general comes from it, by what holds of the entries of each section.
-/

namespace Tariff

variable {limits : Limits} {document : Value} {pricing : Pricing}

namespace Pricing

/-- The phases of reading a document, each with what the phases before it have read. -/
theorem ofCanonical_eq_ok {version : Version}
    (h : (ofCanonical limits document version).result = .ok pricing) :
    pricing.version = version ∧ ∃ root featureFields limitFields planFields addOnFields,
      root.Shows document ∧ Attributes.ofNode root = .ok pricing.toAttributes ∧
      root.fieldsIn "features" = .ok featureFields ∧
      Feature.catalogOf limits featureFields = .ok pricing.features ∧
      root.fieldsIn "usageLimits" = .ok limitFields ∧
      UsageLimit.catalogOf pricing.features limitFields = .ok pricing.usageLimits ∧
      root.fieldsIn "plans" = .ok planFields ∧
      Plan.catalogOf limits pricing.toCatalog pricing.bindings planFields = .ok pricing.plans ∧
      root.fieldsIn "addOns" = .ok addOnFields ∧
      AddOn.catalogOf limits pricing.toCatalog pricing.bindings pricing.plans addOnFields =
        .ok pricing.addOns ∧
      (pricing.plans ≠ [] ∨ pricing.addOns ≠ []) := by
  obtain ⟨hversion, root, hroot, hread⟩ := exists_readFrom h
  obtain ⟨node, hnode, hfeatures⟩ := Outcome.bind_eq_ok_iff.1 hread.features
  obtain ⟨featureFields, hfeatureFields, hfeatures⟩ := sectionOf_eq_ok hfeatures
  obtain ⟨limitFields, hlimitFields, husageLimits⟩ := optionalSection_eq_ok hread.usageLimits rfl
  obtain ⟨planFields, hplanFields, hplans⟩ := optionalSection_eq_ok hread.plans rfl
  obtain ⟨addOnFields, haddOnFields, haddOns⟩ := optionalSection_eq_ok hread.addOns rfl
  rw [Outcome.ofConfig_eq_ok_iff] at hnode husageLimits
  rw [Outcome.ofRefusal_eq_ok_iff] at hfeatures
  exact ⟨hversion, root, featureFields, limitFields, planFields, addOnFields,
    Node.shows_of_ofValue hroot, Outcome.ofRefusal_eq_ok_iff.1 hread.attributes,
    fieldsIn_of_require hnode hfeatureFields, hfeatures, hlimitFields, husageLimits, hplanFields,
    hplans, haddOnFields, haddOns, checkOffers_eq_ok_iff.1 hread.offers⟩

end Pricing

/-! ## What the entries refer to -/

theorem Node.known_of_references {node : Node} {key catalog : String} {known : String → Bool}
    {names : List String} (h : node.references key known catalog = .ok names) :
    ∀ name ∈ names, known name = true := by
  unfold Node.references at h
  obtain ⟨child?, -, h⟩ := Outcome.bind_eq_ok_iff.1 h
  cases child? with
  | none =>
    cases h
    exact nofun
  | some child =>
    simp only [Outcome.bind_eq_ok_iff, Outcome.pure_eq_ok_iff] at h
    obtain ⟨found, -, _, hknown, rfl⟩ := h
    exact checkReferences_eq_ok_iff.1 hknown

/-- The type of the values of a capability in a catalog. -/
def Catalog.type? (catalog : Catalog) : Capability → String → Option ValueType
  | .feature => catalog.featureType?
  | .usageLimit => catalog.usageLimitType?

/-- Whether a catalog has a capability. -/
def Catalog.has (catalog : Catalog) : Capability → String → Bool
  | .feature => catalog.features.has
  | .usageLimit => catalog.usageLimits.has

theorem Catalog.has_eq_isSome_type? (catalog : Catalog) (sort : Capability) (id : String) :
    catalog.has sort id = (catalog.type? sort id).isSome := by
  cases sort with
  | feature =>
    show _ = ((catalog.features.get? id).map _).isSome
    rw [Option.isSome_map]
    rfl
  | usageLimit =>
    show _ = ((catalog.usageLimits.get? id).map _).isSome
    rw [Option.isSome_map]
    rfl

/-- Whether all values that are overridden are in a catalog, and the values that they get
are of their types. -/
def Overrides.Fit (overrides : Overrides) (catalog : Catalog) : Prop :=
  ∀ sort, ∀ entry ∈ overrides.values sort,
    ∃ valueType, catalog.type? sort entry.1 = some valueType ∧ valueType.Holds entry.2

theorem Node.holds_of_typed {node : Node} {valueType : ValueType} {s : Scalar}
    (h : node.typed valueType = .ok s) : valueType.Holds s :=
  ValueType.holds_iff.2 (accepts_of_typed h)

/-- An optional field that has something was read at some node. -/
theorem Node.exists_of_optional {α : Type} {node : Node} {key : String}
    {read : Node → Except ConfigError α} {a : α} (h : node.optional key read = .ok (some a)) :
    ∃ child, read child = .ok a := by
  unfold Node.optional at h
  obtain ⟨child?, -, h⟩ := Outcome.bind_eq_ok_iff.1 h
  cases child? with
  | none => cases h
  | some child =>
    obtain ⟨b, hb, heq⟩ := Outcome.bind_eq_ok_iff.1 h
    cases heq
    exact ⟨child, hb⟩

theorem Node.holds_of_optional {node : Node} {key : String} {valueType : ValueType} {s : Scalar}
    (h : node.optional key (Node.typed valueType) = .ok (some s)) : valueType.Holds s := by
  obtain ⟨child, hchild⟩ := exists_of_optional h
  exact holds_of_typed hchild

theorem Node.holds_of_override? {typeOf : String → Option ValueType} {catalog id : String}
    {node : Node} {s : Scalar} (h : node.override? typeOf catalog id = .ok (some s)) :
    ∃ valueType, typeOf id = some valueType ∧ valueType.Holds s := by
  unfold Node.override? at h
  split at h
  · cases h
  · next valueType htype =>
    split at h
    · cases h
    · exact ⟨valueType, htype, holds_of_optional h⟩

theorem Node.holds_of_overrideEntries {typeOf : String → Option ValueType} {catalog : String}
    {fields : Table Node} {t : Table Scalar} (h : overrideEntries typeOf catalog fields = .ok t) :
    ∀ entry ∈ t, ∃ valueType, typeOf entry.1 = some valueType ∧ valueType.Holds entry.2 := by
  induction fields generalizing t with
  | nil =>
    cases h
    exact nofun
  | cons field rest ih =>
    obtain ⟨id, node⟩ := field
    unfold overrideEntries at h
    obtain ⟨s?, hs, h⟩ := Outcome.bind_eq_ok_iff.1 h
    cases s? with
    | none => exact ih h
    | some s =>
      obtain ⟨tail, htail, heq⟩ := Outcome.bind_eq_ok_iff.1 h
      cases heq
      exact List.forall_mem_cons.2 ⟨holds_of_override? hs, ih htail⟩

theorem Node.holds_of_overrides {typeOf : String → Option ValueType} {catalog : String}
    {node : Node} {t : Table Scalar} (h : node.overrides typeOf catalog = .ok t) :
    ∀ entry ∈ t, ∃ valueType, typeOf entry.1 = some valueType ∧ valueType.Holds entry.2 := by
  unfold Node.overrides at h
  obtain ⟨child?, -, h⟩ := Outcome.bind_eq_ok_iff.1 h
  cases child? with
  | none =>
    cases h
    exact nofun
  | some child =>
    obtain ⟨fields, -, h⟩ := Outcome.bind_eq_ok_iff.1 h
    exact holds_of_overrideEntries h

theorem Overrides.fit_of_ofEntry {catalog : Catalog} {node : Node} {overrides : Overrides}
    (h : Overrides.ofEntry catalog node = .ok overrides) : overrides.Fit catalog := by
  simp only [Overrides.ofEntry, Outcome.bind_eq_ok_iff, Outcome.pure_eq_ok_iff] at h
  obtain ⟨features, hfeatures, usageLimits, husageLimits, rfl⟩ := h
  intro sort
  cases sort with
  | feature => exact Node.holds_of_overrides hfeatures
  | usageLimit => exact Node.holds_of_overrides husageLimits

theorem Overrides.Fit.has {overrides : Overrides} {catalog : Catalog} (h : overrides.Fit catalog)
    (sort : Capability) : ∀ id ∈ (overrides.values sort).names, catalog.has sort id = true := by
  intro id hid
  obtain ⟨entry, hentry, rfl⟩ := List.mem_map.1 hid
  obtain ⟨valueType, htype, -⟩ := h sort entry hentry
  rw [Catalog.has_eq_isSome_type?, htype]
  rfl

section Entries

variable {id : String} {node : Node}

theorem Feature.id_of_ofNode {f : Feature} (h : Feature.ofNode limits id node = .ok f) :
    f.id = id := by
  simp only [Feature.ofNode, Outcome.bind_eq_ok_iff, Outcome.pure_eq_ok_iff] at h
  obtain ⟨type, -, valueType, -, formula, -, default?, -, name, -, description, -, bindings, -,
    tags, -, rfl⟩ := h
  rfl

theorem UsageLimit.closed_of_ofNode {features : Table Feature} {u : UsageLimit}
    (h : UsageLimit.ofNode features id node = .ok u) :
    u.id = id ∧ ∀ name ∈ u.linkedFeatures, features.has name = true := by
  simp only [UsageLimit.ofNode, Outcome.bind_eq_ok_iff, Outcome.pure_eq_ok_iff] at h
  obtain ⟨type, -, valueType, -, linked, hlinked, name, -, child, -, default, -, unitNode, -, unit,
    -, description, -, rfl⟩ := h
  exact ⟨rfl, Node.known_of_references hlinked⟩

theorem Plan.closed_of_ofNode {catalog : Catalog} {bindings : Table Scalar} {plan : Plan}
    (h : Plan.ofNode limits catalog bindings id node = .ok plan) :
    plan.name = id ∧ plan.overrides.Fit catalog := by
  simp only [Plan.ofNode, Outcome.bind_eq_ok_iff, Outcome.pure_eq_ok_iff,
    Outcome.ofConfig_eq_ok_iff] at h
  obtain ⟨description, -, price, -, unit, -, isPrivate, -, overrides, hoverrides, rfl⟩ := h
  exact ⟨rfl, Overrides.fit_of_ofEntry hoverrides⟩

/-- Whether an add-on of a name refers to plans and other add-ons that there are. -/
structure AddOn.Refers (addOn : AddOn) (isPlan isAddOn : String → Bool) (name : String) :
    Prop where
  name_eq : addOn.name = name
  availableFor : ∀ plan ∈ addOn.availableFor, isPlan plan = true
  dependsOn : ∀ other ∈ addOn.dependsOn, isAddOn other = true ∧ other ≠ name
  excludes : ∀ other ∈ addOn.excludes, isAddOn other = true ∧ other ≠ name

theorem AddOn.other_of_otherAddOns {known : String → Bool} {key : String} {names : List String}
    (h : AddOn.otherAddOns known id key node = .ok names) :
    ∀ other ∈ names, known other = true ∧ other ≠ id := by
  obtain ⟨hreferences, hself⟩ := AddOn.otherAddOns_eq_ok_iff.1 h
  intro other hother
  exact ⟨Node.known_of_references hreferences other hother, fun heq => hself (heq ▸ hother)⟩

theorem AddOn.closed_of_ofNode {catalog : Catalog} {bindings : Table Scalar}
    {isPlan isAddOn : String → Bool} {addOn : AddOn}
    (h : AddOn.ofNode limits catalog bindings isPlan isAddOn id node = .ok addOn) :
    addOn.Refers isPlan isAddOn id ∧ addOn.overrides.Fit catalog := by
  simp only [AddOn.ofNode, Outcome.bind_eq_ok_iff, Outcome.pure_eq_ok_iff,
    Outcome.ofConfig_eq_ok_iff] at h
  obtain ⟨description, -, price, -, unit, -, availableFor, havailable, dependsOn, hdepends,
    excludes, hexcludes, overrides, hoverrides, rfl⟩ := h
  exact ⟨⟨rfl, Node.known_of_references havailable, other_of_otherAddOns hdepends,
    other_of_otherAddOns hexcludes⟩, Overrides.fit_of_ofEntry hoverrides⟩

theorem Attributes.ordered_of_ofNode {attributes : Attributes}
    (h : Attributes.ofNode node = .ok attributes) :
    ∀ starts ends, attributes.starts = some starts → attributes.ends = some ends →
      starts.microseconds ≤ ends.microseconds := by
  have hordered := succeeds_checkOrder_iff.1 ⟨(), (readFrom_of_ofNode h).ordered⟩
  intro starts ends hstarts hends
  rw [hstarts, hends] at hordered
  exact hordered _ _ rfl rfl

end Entries

/-! ## Pricings -/

namespace Pricing

/-- The names in a section of a pricing. -/
def names (pricing : Pricing) : Section → List String
  | .features => pricing.features.names
  | .usageLimits => pricing.usageLimits.names
  | .plans => pricing.plans.names
  | .addOns => pricing.addOns.names

/-- Whether all that a pricing refers to is in it. -/
structure IsClosed (pricing : Pricing) : Prop where
  featureIds : ∀ entry ∈ pricing.features, entry.2.id = entry.1
  usageLimitIds : ∀ entry ∈ pricing.usageLimits, entry.2.id = entry.1
  planNames : ∀ entry ∈ pricing.plans, entry.2.name = entry.1
  addOnNames : ∀ entry ∈ pricing.addOns, entry.2.name = entry.1
  linkedFeatures : ∀ entry ∈ pricing.usageLimits, ∀ id ∈ entry.2.linkedFeatures,
    pricing.features.has id = true
  planOverrides : ∀ entry ∈ pricing.plans, ∀ sort, ∀ id ∈ (entry.2.overrides.values sort).names,
    pricing.toCatalog.has sort id = true
  addOnOverrides : ∀ entry ∈ pricing.addOns, ∀ sort,
    ∀ id ∈ (entry.2.overrides.values sort).names, pricing.toCatalog.has sort id = true
  availableFor : ∀ entry ∈ pricing.addOns, ∀ plan ∈ entry.2.availableFor,
    pricing.plans.has plan = true
  dependsOn : ∀ entry ∈ pricing.addOns, ∀ other ∈ entry.2.dependsOn,
    pricing.addOns.has other = true ∧ other ≠ entry.1
  excludes : ∀ entry ∈ pricing.addOns, ∀ other ∈ entry.2.excludes,
    pricing.addOns.has other = true ∧ other ≠ entry.1
  /-- There is something to subscribe to or to book. -/
  offered : pricing.plans ≠ [] ∨ pricing.addOns ≠ []
  ordered : ∀ starts ends, pricing.starts = some starts → pricing.ends = some ends →
    starts.microseconds ≤ ends.microseconds

theorem isClosed_of_ofCanonical {version : Version}
    (h : (ofCanonical limits document version).result = .ok pricing) : pricing.IsClosed := by
  obtain ⟨-, root, featureFields, limitFields, planFields, addOnFields, -, hattributes, -,
    hfeatures, -, husageLimits, -, hplans, -, haddOns, hoffered⟩ := ofCanonical_eq_ok h
  -- The add-ons refer to one another by the names of their fields, which are their own names.
  have hnames : addOnFields.has = pricing.addOns.has := by
    funext name
    rw [Bool.eq_iff_iff]
    simp only [Table.has, Option.isSome_iff_exists, Table.exists_get?_iff]
    rw [← Table.names_of_traverse haddOns]
  have hlimit := Table.forall_mem_of_traverse husageLimits fun _ _ _ => UsageLimit.closed_of_ofNode
  have hplan := Table.forall_mem_of_traverse hplans fun _ _ _ => Plan.closed_of_ofNode
  have haddOn := Table.forall_mem_of_traverse haddOns fun _ _ _ => AddOn.closed_of_ofNode
  exact {
    featureIds := Table.forall_mem_of_traverse hfeatures fun _ _ _ => Feature.id_of_ofNode
    usageLimitIds := fun entry hentry => (hlimit entry hentry).1
    planNames := fun entry hentry => (hplan entry hentry).1
    addOnNames := fun entry hentry => (haddOn entry hentry).1.name_eq
    linkedFeatures := fun entry hentry => (hlimit entry hentry).2
    planOverrides := fun entry hentry => (hplan entry hentry).2.has
    addOnOverrides := fun entry hentry => (haddOn entry hentry).2.has
    availableFor := fun entry hentry => (haddOn entry hentry).1.availableFor
    dependsOn := fun entry hentry => hnames ▸ (haddOn entry hentry).1.dependsOn
    excludes := fun entry hentry => hnames ▸ (haddOn entry hentry).1.excludes
    offered := hoffered
    ordered := Attributes.ordered_of_ofNode hattributes }

/-- A pricing has the names of the sections of its document in their order. -/
theorem names_of_ofCanonical {version : Version}
    (h : (ofCanonical limits document version).result = .ok pricing) (part : Section) :
    (document.entriesIn part.key).map Prod.fst = (pricing.names part).map Value.text := by
  obtain ⟨-, root, featureFields, limitFields, planFields, addOnFields, hshows, -, hfeatureFields,
    hfeatures, hlimitFields, husageLimits, hplanFields, hplans, haddOnFields, haddOns, -⟩ :=
    ofCanonical_eq_ok h
  cases part with
  | features =>
    rw [names, Table.names_of_traverse hfeatures]
    exact (hshows.fieldsIn hfeatureFields).names
  | usageLimits =>
    rw [names, Table.names_of_traverse husageLimits]
    exact (hshows.fieldsIn hlimitFields).names
  | plans =>
    rw [names, Table.names_of_traverse hplans]
    exact (hshows.fieldsIn hplanFields).names
  | addOns =>
    rw [names, Table.names_of_traverse haddOns]
    exact (hshows.fieldsIn haddOnFields).names

/-- A document of any version is brought to the current one and then read. -/
theorem ofValue_eq_ok_iff :
    (ofValue limits document).result = .ok pricing ↔
      ∃ (fields : Fields) (r : Resolved), document = .mapping fields ∧
        (Resolved.ofFields fields).result = .ok r ∧
          (ofCanonical limits (.mapping r.fields) r.version).result = .ok pricing := by
  constructor
  · intro h
    cases document with
    | mapping fields =>
      rw [Resolved.result_ofValue_pricing, Outcome.bind_eq_ok_iff] at h
      obtain ⟨r, hresolved, hread⟩ := h
      exact ⟨fields, r, rfl, Outcome.mapError_eq_ok_iff.1 hresolved, hread⟩
    | _ => cases h
  · rintro ⟨fields, r, rfl, hresolved, hread⟩
    rw [Resolved.result_ofValue_pricing, Outcome.bind_eq_ok_iff]
    exact ⟨r, Outcome.mapError_eq_ok_iff.2 hresolved, hread⟩

/-- A pricing was read of what came up the ladder. -/
theorem ofValue_eq_ok (h : (ofValue limits document).result = .ok pricing) :
    ∃ fields v out, document = .mapping fields ∧ Resolved.Ascent v fields out ∧
      (ofCanonical limits (.mapping out) .v2_0).result = .ok pricing := by
  obtain ⟨fields, r, rfl, hresolved, hread⟩ := ofValue_eq_ok_iff.1 h
  obtain ⟨-, ascent, hversion, -⟩ := Resolved.ofFields_eq_ok_iff.1 hresolved
  exact ⟨fields, r.declared, r.fields, rfl, ascent, hversion ▸ hread⟩

/-- The ladder does not touch the sections. -/
theorem entriesIn_of_ascent {v : Version} {fields out : Fields}
    (ascent : Resolved.Ascent v fields out) (part : Section) :
    (Value.mapping out).entriesIn part.key = (Value.mapping fields).entriesIn part.key := by
  have hkept : part.key ∉ Resolved.changedFields := by cases part <;> decide
  unfold Value.entriesIn Value.field? Fields.present?
  dsimp only
  rw [ascent.get?_eq hkept]

/-- Every pricing that was read, from a document of whatever version, is closed, has the
current version, and has the names of the four sections of its document in their order. -/
theorem isClosed_of_ofValue (h : (ofValue limits document).result = .ok pricing) :
    pricing.IsClosed ∧ pricing.version = .v2_0 ∧
      ∀ part, (document.entriesIn part.key).map Prod.fst = (pricing.names part).map Value.text := by
  obtain ⟨fields, v, out, rfl, ascent, hread⟩ := ofValue_eq_ok h
  refine ⟨isClosed_of_ofCanonical hread, (ofCanonical_eq_ok hread).1, fun part => ?_⟩
  rw [← entriesIn_of_ascent ascent part]
  exact names_of_ofCanonical hread part

/-- A document of the oldest version, with references of every sort. -/
def linkedDocument : Value :=
  .mapping [
    (.text "saasName", .text "Demo"), (.text "currency", .text "EUR"),
    (.text "day", .int 31), (.text "month", .int 8), (.text "year", .int 2024),
    (.text "addOns", .mapping [
      (.text "extra", .mapping [(.text "dependsOn", .list [.text "more"]),
        (.text "availableFor", .list [.text "basic"]),
        (.text "usageLimits", .mapping [
          (.text "seats", .mapping [(.text "value", .int 20)])])]),
      (.text "more", .mapping [(.text "excludes", .list [])])]),
    (.text "plans", .mapping [
      (.text "basic", .mapping [(.text "features", .mapping [(.text "sso", .null)])])]),
    (.text "usageLimits", .mapping [
      (.text "seats", .mapping [(.text "type", .text "RENEWABLE"),
        (.text "valueType", .text "NUMERIC"), (.text "defaultValue", .int 10),
        (.text "unit", .text "seat"), (.text "linkedFeatures", .list [.text "sso"])])]),
    (.text "features", .mapping [
      (.text "sso", .mapping [(.text "type", .text "CAPABILITY"),
        (.text "valueType", .text "BOOLEAN"), (.text "defaultValue", .bool true)])])]

/-- What is read of that document is closed, and its add-ons are in their order. -/
theorem isClosed_of_linkedDocument :
    ∃ pricing, (ofValue ⟨64, 1000⟩ linkedDocument).result = .ok pricing ∧ pricing.IsClosed ∧
      pricing.version = .v2_0 ∧ pricing.names .addOns = ["extra", "more"] := by
  have hrun : (ofValue ⟨64, 1000⟩ linkedDocument).result.toOption.isSome = true := by
    decide +kernel
  obtain ⟨pricing, hpricing⟩ := Option.isSome_iff_exists.1 hrun
  rw [Outcome.toOption_eq_some_iff] at hpricing
  obtain ⟨hclosed, hversion, hnames⟩ := isClosed_of_ofValue hpricing
  have hinjective : Function.Injective Value.text := fun _ _ heq => by cases heq; rfl
  have haddOns : ["extra", "more"].map Value.text = (pricing.names .addOns).map Value.text :=
    hnames .addOns
  exact ⟨pricing, hpricing, hclosed, hversion, (List.map_injective_iff.2 hinjective haddOns).symm⟩

end Pricing

end Tariff
