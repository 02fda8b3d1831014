import Tariff.Proofs.Pricing.Typing

/-!
# Pricings are sound

Beside the values that a pricing grants, which are of their types, it holds variables and
prices. No variable is infinite or "not a number", whether all formulas see it or only that of
one feature or price. The amount of a price is a finite number, and if the price has a formula,
that formula has just this amount as its value (`Price.IsSound`): its scope are the variables
that the pricing holds, of which those of the price hide those of the pricing.

`Pricing.IsSound` is all of this for a whole pricing, and every pricing that was read is sound
(`isSound_of_ofValue`).
-/

namespace Tariff

variable {limits : Limits} {document : Value} {pricing : Pricing} {id : String} {node : Node}

/-! ## Variables -/

/-- Whether no scalar of a table is infinite or "not a number". -/
def AreFinite (t : Table Scalar) : Prop := ∀ entry ∈ t, entry.2.isFinite = true

namespace Node

theorem isFinite_of_variableValue {s : Scalar} (h : node.variableValue = .ok s) :
    s.isFinite = true := by
  unfold variableValue at h
  split at h
  · obtain ⟨rfl, hfinite⟩ := finite_eq_ok_iff.1 h
    exact hfinite
  · cases h

theorem areFinite_of_declaredBindings {t : Table Scalar} (h : node.declaredBindings = .ok t) :
    AreFinite t := by
  obtain ⟨found?, hfound, rfl⟩ := Outcome.map_eq_ok_iff.1 h
  cases found? with
  | none => exact nofun
  | some found =>
    obtain ⟨child, hchild⟩ := exists_of_optional hfound
    obtain ⟨fields, -, hread⟩ := Outcome.bind_eq_ok_iff.1 hchild
    exact Table.forall_mem_of_traverse hread fun _ _ _ => isFinite_of_variableValue

end Node

/-! ## Prices -/

namespace Price

/-- Whether what a price holds agrees, given the variables that all formulas see. -/
structure IsSound (price : Price) (outer : Table Scalar) : Prop where
  amount : price.amount.isFinite = true
  bindings : AreFinite price.bindings
  evaluates : ∀ f, price.formula = some f →
    f.evaluate (scope price.bindings outer) = .ok (.number price.amount)

variable {outer own : Table Scalar} {price : Price}

theorem isSound_of_ofNode (hown : AreFinite own) (h : ofNode limits outer own node = .ok price) :
    price.IsSound outer := by
  unfold ofNode at h
  split at h
  · next path n =>
    obtain ⟨s, hs, heq⟩ := Outcome.bind_eq_ok_iff.1 h
    have hfinite := (Node.finite_eq_ok_iff.1 (Outcome.ofConfig_eq_ok_iff.1 hs)).2
    cases heq
    exact ⟨hfinite, hown, nofun⟩
  · next path source =>
    obtain ⟨f, -, h⟩ := Outcome.bind_eq_ok_iff.1 h
    obtain ⟨amount, hamount, heq⟩ := Outcome.bind_eq_ok_iff.1 h
    have hvalue : f.value (scope own outer) = .ok (.number amount) :=
      amountOf_eq_ok_iff.1 (Outcome.mapError_eq_ok_iff.1 hamount)
    cases heq
    refine ⟨?_, hown, ?_⟩
    · exact Bool.not_eq_eq_eq_not.1 (Formula.isNotFinite_of_value hvalue)
    · intro g hg
      cases hg
      exact Outcome.mapError_eq_ok_iff.2 hvalue
  · cases h

theorem isSound_of_ofEntry (h : ofEntry limits outer node = .ok (some price)) :
    price.IsSound outer := by
  obtain ⟨child?, -, h⟩ := Outcome.bind_eq_ok_iff.1 h
  obtain ⟨own, hown, h⟩ := Outcome.bind_eq_ok_iff.1 h
  have hfinite := Node.areFinite_of_declaredBindings (Outcome.ofConfig_eq_ok_iff.1 hown)
  cases child? with
  | none => cases h
  | some child =>
    obtain ⟨read, hread, heq⟩ := Outcome.bind_eq_ok_iff.1 h
    cases heq
    exact isSound_of_ofNode hfinite hread

end Price

/-! ## Entries -/

theorem Feature.areFinite_of_ofNode {f : Feature} (h : Feature.ofNode limits id node = .ok f) :
    AreFinite f.bindings := by
  simp only [Feature.ofNode, Outcome.bind_eq_ok_iff, Outcome.pure_eq_ok_iff] at h
  obtain ⟨type, -, valueType, -, formula, -, default?, -, name, -, description, -, bindings,
    hbindings, tags, -, rfl⟩ := h
  exact Node.areFinite_of_declaredBindings (Outcome.lift_eq_ok_iff.1 hbindings)

theorem UsageLimit.valueType_mem_of_ofNode {features : Table Feature} {u : UsageLimit}
    (h : UsageLimit.ofNode features id node = .ok u) : u.valueType ∈ UsageLimit.valueTypes := by
  simp only [UsageLimit.ofNode, Outcome.bind_eq_ok_iff, Outcome.pure_eq_ok_iff] at h
  obtain ⟨type, -, valueType, hvalueType, linked, -, name, -, child, -, default, -, unitNode, -,
    unit, -, description, -, rfl⟩ := h
  obtain ⟨declared, -, hallowed⟩ := Outcome.bind_eq_ok_iff.1 hvalueType
  split at hallowed
  · next hmem =>
    cases hallowed
    exact List.contains_iff_mem.1 hmem
  · cases hallowed

section Offers

variable {catalog : Catalog} {bindings : Table Scalar}

theorem Plan.isSound_of_ofNode {plan : Plan}
    (h : Plan.ofNode limits catalog bindings id node = .ok plan) :
    ∀ price, plan.price = some price → price.IsSound bindings := by
  simp only [Plan.ofNode, Outcome.bind_eq_ok_iff, Outcome.pure_eq_ok_iff,
    Outcome.ofConfig_eq_ok_iff] at h
  obtain ⟨description, -, price?, hprice, unit, -, isPrivate, -, overrides, -, rfl⟩ := h
  rintro price rfl
  exact Price.isSound_of_ofEntry hprice

theorem AddOn.isSound_of_ofNode {isPlan isAddOn : String → Bool} {addOn : AddOn}
    (h : AddOn.ofNode limits catalog bindings isPlan isAddOn id node = .ok addOn) :
    ∀ price, addOn.price = some price → price.IsSound bindings := by
  simp only [AddOn.ofNode, Outcome.bind_eq_ok_iff, Outcome.pure_eq_ok_iff,
    Outcome.ofConfig_eq_ok_iff] at h
  obtain ⟨description, -, price?, hprice, unit, -, availableFor, -, dependsOn, -, excludes, -,
    overrides, -, rfl⟩ := h
  rintro price rfl
  exact Price.isSound_of_ofEntry hprice

end Offers

theorem Attributes.areFinite_of_ofNode {attributes : Attributes}
    (h : Attributes.ofNode node = .ok attributes) : AreFinite attributes.bindings :=
  Node.areFinite_of_declaredBindings (readFrom_of_ofNode h).bindings

/-! ## Pricings -/

namespace Pricing

/-- Whether all values that a pricing holds are finite and of their types, and its prices agree
with their formulas. -/
structure IsSound (pricing : Pricing) : Prop extends pricing.IsTyped where
  /-- No usage limit is a text. -/
  usageLimitTypes : ∀ entry ∈ pricing.usageLimits, entry.2.valueType ∈ UsageLimit.valueTypes
  bindings : AreFinite pricing.bindings
  featureBindings : ∀ entry ∈ pricing.features, AreFinite entry.2.bindings
  planPrices : ∀ entry ∈ pricing.plans, ∀ price, entry.2.price = some price →
    price.IsSound pricing.bindings
  addOnPrices : ∀ entry ∈ pricing.addOns, ∀ price, entry.2.price = some price →
    price.IsSound pricing.bindings

/-- Every pricing that was read, from a document of whatever version, is sound. -/
theorem isSound_of_ofValue (h : (ofValue limits document).result = .ok pricing) :
    pricing.IsSound := by
  obtain ⟨fields, v, out, -, -, hread⟩ := ofValue_eq_ok h
  obtain ⟨-, root, featureFields, limitFields, planFields, addOnFields, -, hattributes, -,
    hfeatures, -, husageLimits, -, hplans, -, haddOns, -⟩ := ofCanonical_eq_ok hread
  exact {
    toIsTyped := isTyped_of_ofValue h
    usageLimitTypes := Table.forall_mem_of_traverse husageLimits fun _ _ _ =>
      UsageLimit.valueType_mem_of_ofNode
    bindings := Attributes.areFinite_of_ofNode hattributes
    featureBindings := Table.forall_mem_of_traverse hfeatures fun _ _ _ =>
      Feature.areFinite_of_ofNode
    planPrices := Table.forall_mem_of_traverse hplans fun _ _ _ => Plan.isSound_of_ofNode
    addOnPrices := Table.forall_mem_of_traverse haddOns fun _ _ _ => AddOn.isSound_of_ofNode }

/-- A document with a price whose own variable hides that of the document. -/
def pricedDocument : Value :=
  .mapping [
    (.text "syntaxVersion", .text "2.0"), (.text "saasName", .text "Demo"),
    (.text "createdAt", .text "2024-08-31"), (.text "currency", .text "EUR"),
    (.text "variables", .mapping [(.text "n", .int 10)]),
    (.text "features", .mapping [
      (.text "sso", .mapping [(.text "type", .text "CAPABILITY"),
        (.text "valueType", .text "BOOLEAN"), (.text "defaultValue", .bool true)])]),
    (.text "plans", .mapping [
      (.text "pro", .mapping [(.text "price", .text "n * 2"),
        (.text "variables", .mapping [(.text "n", .int 7)])])])]

/-- The pricing of that document is sound, and its price is the value of the formula. -/
theorem isSound_of_pricedDocument :
    ∃ pricing, (ofValue ⟨64, 1000⟩ pricedDocument).result = .ok pricing ∧ pricing.IsSound ∧
      ((pricing.plans.get? "pro").bind Plan.price).map Price.amount = some (.int 14) := by
  have hrun : ((ofValue ⟨64, 1000⟩ pricedDocument).result.toOption.map fun pricing =>
      ((pricing.plans.get? "pro").bind Plan.price).map Price.amount) = some (some (.int 14)) := by
    decide +kernel
  obtain ⟨pricing, hpricing, hamount⟩ := Option.map_eq_some_iff.1 hrun
  rw [Outcome.toOption_eq_some_iff] at hpricing
  exact ⟨pricing, hpricing, isSound_of_ofValue hpricing, hamount⟩

end Pricing

end Tariff
