import Tariff.Proofs.Pricing.Reading
import Tariff.Proofs.Pricing.Recognised

/-!
# The phases of reading

A document is read in five phases, the attributes, the features, the usage limits, the plans
and the add-ons, and each phase reads its own fields of the root. It also gets what the
phases before it have read, but never looks ahead. So the first phase that fails decides the
error alone: a document that has the same fields up to that phase is refused with the same
error, whatever its other fields are (`ofCanonical_eq_error_of_phase`).

`result_ofNode` takes the reading of a document apart into the outcomes of its phases, on
which everything here rests.
-/

namespace Tariff

namespace Pricing

/-- The phases in which a document is read. -/
inductive Phase where
  | attributes
  | features
  | usageLimits
  | plans
  | addOns

namespace Phase

/-- The place of a phase in the order in which a document is read. -/
def rank : Phase → Nat
  | .attributes => 1
  | .features => 2
  | .usageLimits => 3
  | .plans => 4
  | .addOns => 5

/-- The fields of the root that a phase reads. -/
def fieldNames : Phase → List String
  | .attributes => Attributes.fieldNames
  | .features => [Section.features.key]
  | .usageLimits => [Section.usageLimits.key]
  | .plans => [Section.plans.key]
  | .addOns => [Section.addOns.key]

end Phase

/-! ## The outcome of each phase -/

/-- The outcome of the first phase. -/
def attributesOf (root : Node) : Except ParseError Attributes :=
  ParseError.ofRefusal (Attributes.ofNode root)

/-- The outcome of the second phase. -/
def featuresOf (limits : Limits) (root : Node) : Except ParseError (Table Feature) := do
  let node ← ParseError.ofConfig (root.require Section.features.key)
  (sectionOf .features (fun entries => ParseError.ofRefusal (Feature.catalogOf limits entries))
    node).result

/-- The outcome of the third phase. -/
def usageLimitsOf (features : Table Feature) (root : Node) :
    Except ParseError (Table UsageLimit) :=
  (optionalSection .usageLimits
    (fun entries => ParseError.ofConfig (UsageLimit.catalogOf features entries)) root).result

/-- The outcome of the fourth phase. -/
def plansOf (limits : Limits) (catalog : Catalog) (bindings : Table Scalar) (root : Node) :
    Except ParseError (Table Plan) :=
  (optionalSection .plans (Plan.catalogOf limits catalog bindings) root).result

/-- The outcome of the fifth phase, before it is known that there is an offer. -/
def addOnsOf (limits : Limits) (catalog : Catalog) (bindings : Table Scalar) (plans : Table Plan)
    (root : Node) : Except ParseError (Table AddOn) :=
  (optionalSection .addOns (AddOn.catalogOf limits catalog bindings plans) root).result

/-- Refuses a pricing that offers nothing. -/
def checkOffers (plans : Table Plan) (addOns : Table AddOn) : Except ParseError Unit :=
  if plans.isEmpty && addOns.isEmpty then .error (.config .nothingOffered) else .ok ()

theorem checkOffers_eq_ok_iff {plans : Table Plan} {addOns : Table AddOn} :
    checkOffers plans addOns = .ok () ↔ plans ≠ [] ∨ addOns ≠ [] := by
  unfold checkOffers
  cases plans <;> cases addOns <;> simp

variable {limits : Limits} {version : Version} {root root' : Node} {e : ParseError}

/-- Reading a document is going through its phases. -/
theorem result_ofNode : (ofNode limits version root).result = do
    let attributes ← attributesOf root
    let features ← featuresOf limits root
    let usageLimits ← usageLimitsOf features root
    let catalog : Catalog := ⟨features, usageLimits⟩
    let plans ← plansOf limits catalog attributes.bindings root
    let addOns ← addOnsOf limits catalog attributes.bindings plans root
    checkOffers plans addOns
    return { toAttributes := attributes, toCatalog := catalog, version, plans, addOns } := by
  have hoffers : ∀ (plans : Table Plan) (addOns : Table AddOn) (pricing : Pricing),
      (if plans.isEmpty && addOns.isEmpty then phase (.error (.config .nothingOffered))
        else (pure pricing : Logged ParseError Pricing)).result =
          (checkOffers plans addOns >>= fun _ => pure pricing) := by
    intro plans addOns pricing
    unfold checkOffers
    split
    · exact result_phase _
    · rfl
  simp only [ofNode, Logged.result_bind, result_phase, hoffers, featuresOf, bind_assoc]
  rfl

/-- Whether a pricing has what each phase reads in the root of a document. -/
structure ReadFrom (limits : Limits) (root : Node) (pricing : Pricing) : Prop where
  attributes : attributesOf root = .ok pricing.toAttributes
  features : featuresOf limits root = .ok pricing.features
  usageLimits : usageLimitsOf pricing.features root = .ok pricing.usageLimits
  plans : plansOf limits pricing.toCatalog pricing.bindings root = .ok pricing.plans
  addOns : addOnsOf limits pricing.toCatalog pricing.bindings pricing.plans root =
    .ok pricing.addOns
  offers : checkOffers pricing.plans pricing.addOns = .ok ()

theorem readFrom_of_ofNode {pricing : Pricing}
    (h : (ofNode limits version root).result = .ok pricing) :
    pricing.version = version ∧ pricing.ReadFrom limits root := by
  rw [result_ofNode] at h
  simp only [Outcome.bind_eq_ok_iff, Outcome.pure_eq_ok_iff] at h
  obtain ⟨attributes, hattributes, features, hfeatures, usageLimits, husageLimits, plans, hplans,
    addOns, haddOns, ⟨⟩, hoffers, rfl⟩ := h
  exact ⟨rfl, hattributes, hfeatures, husageLimits, hplans, haddOns, hoffers⟩

/-- Whether reading the root of a document fails in a phase, all phases before it having an
outcome. That nothing is offered is found out at the end of the last phase. -/
inductive FailsIn (limits : Limits) (root : Node) (e : ParseError) : Phase → Prop where
  | attributes (h : attributesOf root = .error e) : FailsIn limits root e .attributes
  | features {attributes : Attributes} (hattributes : attributesOf root = .ok attributes)
      (h : featuresOf limits root = .error e) : FailsIn limits root e .features
  | usageLimits {attributes : Attributes} {features : Table Feature}
      (hattributes : attributesOf root = .ok attributes)
      (hfeatures : featuresOf limits root = .ok features)
      (h : usageLimitsOf features root = .error e) : FailsIn limits root e .usageLimits
  | plans {attributes : Attributes} {features : Table Feature} {usageLimits : Table UsageLimit}
      (hattributes : attributesOf root = .ok attributes)
      (hfeatures : featuresOf limits root = .ok features)
      (husageLimits : usageLimitsOf features root = .ok usageLimits)
      (h : plansOf limits ⟨features, usageLimits⟩ attributes.bindings root = .error e) :
      FailsIn limits root e .plans
  | addOns {attributes : Attributes} {features : Table Feature} {usageLimits : Table UsageLimit}
      {plans : Table Plan} (hattributes : attributesOf root = .ok attributes)
      (hfeatures : featuresOf limits root = .ok features)
      (husageLimits : usageLimitsOf features root = .ok usageLimits)
      (hplans : plansOf limits ⟨features, usageLimits⟩ attributes.bindings root = .ok plans)
      (h : (addOnsOf limits ⟨features, usageLimits⟩ attributes.bindings plans root >>=
        checkOffers plans) = .error e) : FailsIn limits root e .addOns

/-- Reading fails exactly if it fails in one of the phases. -/
theorem ofNode_eq_error_iff :
    (ofNode limits version root).result = .error e ↔ ∃ phase, FailsIn limits root e phase := by
  rw [result_ofNode]
  constructor
  · intro h
    rcases Outcome.bind_eq_error_iff.1 h with h | ⟨attributes, hattributes, h⟩
    · exact ⟨_, .attributes h⟩
    rcases Outcome.bind_eq_error_iff.1 h with h | ⟨features, hfeatures, h⟩
    · exact ⟨_, .features hattributes h⟩
    rcases Outcome.bind_eq_error_iff.1 h with h | ⟨usageLimits, husageLimits, h⟩
    · exact ⟨_, .usageLimits hattributes hfeatures h⟩
    rcases Outcome.bind_eq_error_iff.1 h with h | ⟨plans, hplans, h⟩
    · exact ⟨_, .plans hattributes hfeatures husageLimits h⟩
    refine ⟨_, .addOns hattributes hfeatures husageLimits hplans ?_⟩
    rcases Outcome.bind_eq_error_iff.1 h with h | ⟨addOns, haddOns, h⟩
    · exact Outcome.bind_eq_error_iff.2 (.inl h)
    · refine Outcome.bind_eq_error_iff.2 (.inr ⟨addOns, haddOns, ?_⟩)
      rcases Outcome.bind_eq_error_iff.1 h with h | ⟨_, -, h⟩
      · exact h
      · cases h
  · rintro ⟨phase, hfails⟩
    cases hfails with
    | attributes h => exact Outcome.bind_eq_error_iff.2 (.inl h)
    | features hattributes h =>
      refine Outcome.bind_eq_error_iff.2 (.inr ⟨_, hattributes, ?_⟩)
      exact Outcome.bind_eq_error_iff.2 (.inl h)
    | usageLimits hattributes hfeatures h =>
      refine Outcome.bind_eq_error_iff.2 (.inr ⟨_, hattributes, ?_⟩)
      refine Outcome.bind_eq_error_iff.2 (.inr ⟨_, hfeatures, ?_⟩)
      exact Outcome.bind_eq_error_iff.2 (.inl h)
    | plans hattributes hfeatures husageLimits h =>
      refine Outcome.bind_eq_error_iff.2 (.inr ⟨_, hattributes, ?_⟩)
      refine Outcome.bind_eq_error_iff.2 (.inr ⟨_, hfeatures, ?_⟩)
      refine Outcome.bind_eq_error_iff.2 (.inr ⟨_, husageLimits, ?_⟩)
      exact Outcome.bind_eq_error_iff.2 (.inl h)
    | addOns hattributes hfeatures husageLimits hplans h =>
      refine Outcome.bind_eq_error_iff.2 (.inr ⟨_, hattributes, ?_⟩)
      refine Outcome.bind_eq_error_iff.2 (.inr ⟨_, hfeatures, ?_⟩)
      refine Outcome.bind_eq_error_iff.2 (.inr ⟨_, husageLimits, ?_⟩)
      refine Outcome.bind_eq_error_iff.2 (.inr ⟨_, hplans, ?_⟩)
      rcases Outcome.bind_eq_error_iff.1 h with h | ⟨addOns, haddOns, h⟩
      · exact Outcome.bind_eq_error_iff.2 (.inl h)
      · refine Outcome.bind_eq_error_iff.2 (.inr ⟨addOns, haddOns, ?_⟩)
        exact Outcome.bind_eq_error_iff.2 (.inl h)

/-! ## What a phase reads -/

/-- A section that may be absent is read from its own field. -/
theorem optionalSection_eq_of_get?_eq {α : Type} {part : Section}
    (read : Table Node → Except ParseError (Table α)) (h : root.get? part.key = root'.get? part.key) :
    optionalSection part read root = optionalSection part read root' := by
  unfold optionalSection
  rw [h]

theorem attributesOf_congr (hpath : root.path = root'.path)
    (hget : ∀ key ∈ Phase.attributes.fieldNames, root.get? key = root'.get? key) :
    attributesOf root = attributesOf root' :=
  congrArg ParseError.ofRefusal (Attributes.ofNode_eq_of_get?_eq hpath hget)

theorem featuresOf_congr (hpath : root.path = root'.path)
    (hget : ∀ key ∈ Phase.features.fieldNames, root.get? key = root'.get? key) :
    featuresOf limits root = featuresOf limits root' := by
  unfold featuresOf
  rw [Node.require_congr hpath (hget _ List.mem_cons_self)]

theorem usageLimitsOf_congr (features : Table Feature)
    (hget : ∀ key ∈ Phase.usageLimits.fieldNames, root.get? key = root'.get? key) :
    usageLimitsOf features root = usageLimitsOf features root' := by
  unfold usageLimitsOf
  rw [optionalSection_eq_of_get?_eq _ (hget _ List.mem_cons_self)]

theorem plansOf_congr (catalog : Catalog) (bindings : Table Scalar)
    (hget : ∀ key ∈ Phase.plans.fieldNames, root.get? key = root'.get? key) :
    plansOf limits catalog bindings root = plansOf limits catalog bindings root' := by
  unfold plansOf
  rw [optionalSection_eq_of_get?_eq _ (hget _ List.mem_cons_self)]

theorem addOnsOf_congr (catalog : Catalog) (bindings : Table Scalar) (plans : Table Plan)
    (hget : ∀ key ∈ Phase.addOns.fieldNames, root.get? key = root'.get? key) :
    addOnsOf limits catalog bindings plans root = addOnsOf limits catalog bindings plans root' := by
  unfold addOnsOf
  rw [optionalSection_eq_of_get?_eq _ (hget _ List.mem_cons_self)]

/-- That a phase fails depends on the fields that are read up to it, and on no others. -/
theorem FailsIn.congr {phase : Phase} (h : FailsIn limits root e phase)
    (hpath : root.path = root'.path) (hget : ∀ earlier : Phase, earlier.rank ≤ phase.rank →
      ∀ key ∈ earlier.fieldNames, root.get? key = root'.get? key) :
    FailsIn limits root' e phase := by
  cases h with
  | attributes h =>
    refine .attributes ?_
    rwa [← attributesOf_congr hpath (hget .attributes (by decide))]
  | features hattributes h =>
    rw [attributesOf_congr hpath (hget .attributes (by decide))] at hattributes
    rw [featuresOf_congr hpath (hget .features (by decide))] at h
    exact .features hattributes h
  | usageLimits hattributes hfeatures h =>
    rw [attributesOf_congr hpath (hget .attributes (by decide))] at hattributes
    rw [featuresOf_congr hpath (hget .features (by decide))] at hfeatures
    rw [usageLimitsOf_congr _ (hget .usageLimits (by decide))] at h
    exact .usageLimits hattributes hfeatures h
  | plans hattributes hfeatures husageLimits h =>
    rw [attributesOf_congr hpath (hget .attributes (by decide))] at hattributes
    rw [featuresOf_congr hpath (hget .features (by decide))] at hfeatures
    rw [usageLimitsOf_congr _ (hget .usageLimits (by decide))] at husageLimits
    rw [plansOf_congr _ _ (hget .plans (by decide))] at h
    exact .plans hattributes hfeatures husageLimits h
  | addOns hattributes hfeatures husageLimits hplans h =>
    rw [attributesOf_congr hpath (hget .attributes (by decide))] at hattributes
    rw [featuresOf_congr hpath (hget .features (by decide))] at hfeatures
    rw [usageLimitsOf_congr _ (hget .usageLimits (by decide))] at husageLimits
    rw [plansOf_congr _ _ (hget .plans (by decide))] at hplans
    rw [addOnsOf_congr _ _ _ (hget .addOns (by decide))] at h
    exact .addOns hattributes hfeatures husageLimits hplans h

/-! ## Documents -/

/-- A mapping that has a tree is read by going through the tree. -/
theorem result_ofCanonical {d : Value} (hroot : Node.ofValue d = .ok root) (hd : d.IsMapping) :
    (ofCanonical limits d version).result = (ofNode limits version root).result := by
  obtain ⟨fields, hfields⟩ := (Node.shows_of_ofValue hroot).succeeds_asMapping_iff.2 hd
  simp only [ofCanonical, Logged.result_bind, result_phase, hroot]
  show (ParseError.ofConfig root.asMapping >>= fun _ => (ofNode limits version root).result) = _
  rw [hfields]
  rfl

/-- What was read of a document was read in its tree, phase by phase. -/
theorem exists_readFrom {d : Value} {pricing : Pricing}
    (h : (ofCanonical limits d version).result = .ok pricing) :
    pricing.version = version ∧ ∃ root, Node.ofValue d = .ok root ∧ pricing.ReadFrom limits root := by
  simp only [ofCanonical, Logged.result_bind, result_phase, Outcome.bind_eq_ok_iff,
    Outcome.ofConfig_eq_ok_iff, Outcome.ofRefusal_eq_ok_iff] at h
  obtain ⟨root, hroot, -, -, hread⟩ := h
  obtain ⟨hversion, hreadFrom⟩ := readFrom_of_ofNode hread
  exact ⟨hversion, root, hroot, hreadFrom⟩

/-- The first phase that fails decides the error of a document. Reading a mapping that has a
tree fails exactly if it fails in one of the phases, and then any mapping that has a tree and
the same fields up to that phase fails with the same error, whatever the fields are that
later phases read. -/
theorem ofCanonical_eq_error_of_phase {d : Value} (hroot : Node.ofValue d = .ok root)
    (hd : d.IsMapping) (h : (ofCanonical limits d version).result = .error e) :
    (∃ phase, FailsIn limits root e phase) ∧ ∀ phase, FailsIn limits root e phase →
      ∀ d' : Value, Outcome.Succeeds (Node.ofValue d') → d'.IsMapping →
        (∀ earlier : Phase, earlier.rank ≤ phase.rank →
          ∀ key ∈ earlier.fieldNames, d'.field? key = d.field? key) →
        (ofCanonical limits d' version).result = .error e := by
  rw [result_ofCanonical hroot hd, ofNode_eq_error_iff] at h
  refine ⟨h, fun phase hfails d' htree hd' hfields => ?_⟩
  obtain ⟨root', hroot'⟩ := htree
  have hpath : root.path = root'.path := by
    rw [Node.path_of_ofValueAt hroot, Node.path_of_ofValueAt hroot']
  have hfails' : FailsIn limits root' e phase :=
    hfails.congr hpath fun earlier hle key hkey =>
      Layout.get?_eq_of_field?_eq hroot hroot' hd hd' (hfields earlier hle key hkey).symm
  rw [result_ofCanonical hroot' hd', ofNode_eq_error_iff]
  exact ⟨phase, hfails'⟩

/-- A document whose plan has a unit that is no text, with some more fields. -/
def unitDocument (more : Fields) : Value :=
  .mapping ([(.text "saasName", .text "Demo"), (.text "currency", .text "EUR"),
    (.text "createdAt", .text "2024-08-31"),
    (.text "features", .mapping [(.text "sso", .mapping [(.text "type", .text "CAPABILITY"),
      (.text "valueType", .text "BOOLEAN"), (.text "defaultValue", .bool true)])]),
    (.text "plans", .mapping [(.text "basic", .mapping [(.text "unit", .int 1)])])] ++ more)

/-- The tree of that document without more fields. -/
def unitRoot : Node :=
  .mapping "" [("saasName", .scalar "saasName" (.text "Demo")),
    ("currency", .scalar "currency" (.text "EUR")),
    ("createdAt", .scalar "createdAt" (.text "2024-08-31")),
    ("features", .mapping "features" [("sso", .mapping "features.sso" [
      ("type", .scalar "features.sso.type" (.text "CAPABILITY")),
      ("valueType", .scalar "features.sso.valueType" (.text "BOOLEAN")),
      ("defaultValue", .scalar "features.sso.defaultValue" (.bool true))])]),
    ("plans", .mapping "plans" [("basic", .mapping "plans.basic" [
      ("unit", .scalar "plans.basic.unit" (.number (.int 1)))])])]

/-- The unit is reported, and not that the add-ons are no mapping. -/
theorem ofCanonical_eq_error_of_phase_unit :
    (ofCanonical ⟨64, 1000⟩ (unitDocument [])).result =
      .error (.config (.typeMismatch "plans.basic.unit" "integer" "text")) ∧
    (ofCanonical ⟨64, 1000⟩ (unitDocument [(.text "addOns", .int 7)])).result =
      .error (.config (.typeMismatch "plans.basic.unit" "integer" "text")) := by
  have hroot : Node.ofValue (unitDocument []) = .ok unitRoot := rfl
  have hattributes : (attributesOf unitRoot).toOption.isSome = true := by decide +kernel
  have hfeatures : (featuresOf ⟨64, 1000⟩ unitRoot).toOption.isSome = true := by decide +kernel
  obtain ⟨attributes, hattributes⟩ := Option.isSome_iff_exists.1 hattributes
  obtain ⟨features, hfeatures⟩ := Option.isSome_iff_exists.1 hfeatures
  rw [Outcome.toOption_eq_some_iff] at hattributes hfeatures
  have hfails : FailsIn ⟨64, 1000⟩ unitRoot
      (.config (.typeMismatch "plans.basic.unit" "integer" "text")) .plans :=
    .plans hattributes hfeatures rfl rfl
  have hd : (unitDocument []).IsMapping := ⟨_, rfl⟩
  have h : (ofCanonical ⟨64, 1000⟩ (unitDocument [])).result =
      .error (.config (.typeMismatch "plans.basic.unit" "integer" "text")) := by
    rw [result_ofCanonical hroot hd, ofNode_eq_error_iff]
    exact ⟨_, hfails⟩
  refine ⟨h, (ofCanonical_eq_error_of_phase hroot hd h).2 .plans hfails _ ?_ ⟨_, rfl⟩ ?_⟩
  · have htree : (Node.ofValue (unitDocument [(.text "addOns", .int 7)])).toOption.isSome = true := by
      decide +kernel
    obtain ⟨root', hroot'⟩ := Option.isSome_iff_exists.1 htree
    exact ⟨root', Outcome.toOption_eq_some_iff.1 hroot'⟩
  · intro earlier hle key hkey
    have hne : Value.text "addOns" ≠ .text key := by
      intro heq
      cases heq
      cases earlier with
      | addOns => exact absurd hle (by decide)
      | _ => exact absurd hkey (by decide)
    show Fields.present? (_ ++ [_]) key = Fields.present? (_ ++ []) key
    exact Layout.Edit.present?_dropUnread hne

end Pricing

end Tariff
