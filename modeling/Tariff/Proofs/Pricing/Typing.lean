import Tariff.Proofs.Pricing.Closed

/-!
# Pricings are typed

Every value that a pricing holds is of the type that the catalog declares for it, and
finite if it is a number: the defaults of features and usage limits, and the values that
plans and add-ons give instead (`Pricing.IsTyped`). A feature without a default has a
formula.
-/

namespace Tariff

variable {limits : Limits} {document : Value} {pricing : Pricing}

/-- Whether a feature has a default of its type, or else a formula. -/
structure Feature.IsTyped (f : Feature) : Prop where
  defaultValue : ∀ s, f.defaultValue = some s → f.valueType.Holds s
  hasValue : f.formula = none → f.defaultValue ≠ none

theorem Feature.isTyped_of_ofNode {id : String} {node : Node} {f : Feature}
    (h : Feature.ofNode limits id node = .ok f) : f.IsTyped := by
  simp only [Feature.ofNode, Outcome.bind_eq_ok_iff, Outcome.pure_eq_ok_iff] at h
  obtain ⟨type, -, valueType, -, formula, -, default?, hdefault, name, -, description, -, bindings,
    -, tags, -, rfl⟩ := h
  rw [Outcome.lift_eq_ok_iff] at hdefault
  unfold Feature.defaultOf at hdefault
  obtain ⟨found?, hfound, hdefault⟩ := Outcome.bind_eq_ok_iff.1 hdefault
  cases found? with
  | none =>
    cases formula with
    | none => cases hdefault
    | some f =>
      cases hdefault
      constructor
      · intro s hs
        cases hs
      · intro hnone
        cases hnone
  | some s =>
    cases hdefault
    exact ⟨fun t ht => Option.some.inj ht ▸ Node.holds_of_optional hfound,
      fun _ => Option.some_ne_none s⟩

theorem UsageLimit.holds_of_ofNode {features : Table Feature} {id : String} {node : Node}
    {u : UsageLimit} (h : UsageLimit.ofNode features id node = .ok u) :
    u.valueType.Holds u.defaultValue := by
  simp only [UsageLimit.ofNode, Outcome.bind_eq_ok_iff, Outcome.pure_eq_ok_iff] at h
  obtain ⟨type, -, valueType, -, linked, -, name, -, child, -, default, hdefault, unitNode, -, unit,
    -, description, -, rfl⟩ := h
  exact Node.holds_of_typed hdefault

namespace Pricing

/-- Whether the values that a pricing holds are of their types. -/
structure IsTyped (pricing : Pricing) : Prop where
  features : ∀ entry ∈ pricing.features, entry.2.IsTyped
  usageLimits : ∀ entry ∈ pricing.usageLimits, entry.2.valueType.Holds entry.2.defaultValue
  plans : ∀ entry ∈ pricing.plans, entry.2.overrides.Fit pricing.toCatalog
  addOns : ∀ entry ∈ pricing.addOns, entry.2.overrides.Fit pricing.toCatalog

theorem isTyped_of_ofCanonical {version : Version}
    (h : (ofCanonical limits document version).result = .ok pricing) : pricing.IsTyped := by
  obtain ⟨-, root, featureFields, limitFields, planFields, addOnFields, -, -, -, hfeatures, -,
    husageLimits, -, hplans, -, haddOns, -⟩ := ofCanonical_eq_ok h
  exact {
    features := Table.forall_mem_of_traverse hfeatures fun _ _ _ => Feature.isTyped_of_ofNode
    usageLimits := Table.forall_mem_of_traverse husageLimits fun _ _ _ =>
      UsageLimit.holds_of_ofNode
    plans := Table.forall_mem_of_traverse hplans fun _ _ _ hread => (Plan.closed_of_ofNode hread).2
    addOns := Table.forall_mem_of_traverse haddOns fun _ _ _ hread =>
      (AddOn.closed_of_ofNode hread).2 }

theorem isTyped_of_ofValue (h : (ofValue limits document).result = .ok pricing) :
    pricing.IsTyped := by
  obtain ⟨fields, v, out, -, -, hread⟩ := ofValue_eq_ok h
  exact isTyped_of_ofCanonical hread

end Pricing

end Tariff
