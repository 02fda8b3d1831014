import Tariff.Proofs.Pricing.Accepted
import Tariff.Proofs.Version.FixedPoint

/-!
# Where formulas fail

A document can be refused while it is read for two sorts of reasons: for what is in it, and
because a price in it cannot be calculated. Reasons of the second sort come from nothing else
than the formula of the price of a plan or an add-on (`Node.PriceFails`): all that is read
before the plans, and all else that is read of an entry, is refused for reasons of the first
sort. So when a price cannot be calculated, the attributes, the features and the usage limits
have all been read (`Pricing.ofNode_eq_formula_error`).
-/

namespace Tariff

variable {α : Type} {limits : Limits} {outer : Table Scalar} {node : Node} {e : FormulaError}

/-- What is refused for what is in a document is not refused for a formula. -/
@[simp] theorem ParseError.ofConfig_eq_formula_error_iff {x : Except ConfigError α} :
    ParseError.ofConfig x = .error (.formula e) ↔ False := by
  cases x <;> simp

@[simp] theorem ParseError.ofRefusal_eq_formula_error_iff {x : Except (Refusal ConfigError) α} :
    ParseError.ofRefusal x = .error (.formula e) ↔ False := by
  rcases x with (cause | _) | a <;> simp

/-! ## Prices -/

/-- A formula gives no amount if it has no value, or one that is no number. -/
theorem Price.amountOf_eq_error_iff {path : String} {f : Formula} {scope : Formula.Scope} :
    Price.amountOf path f scope = .error e ↔
      f.evaluate scope = .error e ∨ ∃ v, f.evaluate scope = .ok v ∧ (∀ n, v ≠ .number n) ∧
        e = .priceNotNumeric path v.operandKind := by
  unfold Price.amountOf
  rw [Outcome.bind_eq_error_iff]
  refine or_congr_right (exists_congr fun v => and_congr_right fun _ => ?_)
  by_cases hv : ∃ n, v = .number n
  · obtain ⟨n, rfl⟩ := hv
    refine ⟨nofun, ?_⟩
    rintro ⟨hnumber, -⟩
    exact absurd rfl (hnumber n)
  · have hnumber : ∀ n, v ≠ .number n := fun n heq => hv ⟨n, heq⟩
    split
    · next n _ => exact absurd rfl (hnumber n)
    · simp [hnumber, eq_comm]

/-- Whether the price of an entry is a formula that was read and gives no amount. -/
def Node.PriceFails (limits : Limits) (outer : Table Scalar) (entry : Node) (e : FormulaError) :
    Prop :=
  ∃ own path source f, entry.declaredBindings = .ok own ∧
    entry.get? "price" = .ok (some (.scalar path (.text source))) ∧
    Formula.compile limits path source = .ok f ∧
    (f.evaluate (Price.scope own outer) = .error e ∨
      ∃ v, f.evaluate (Price.scope own outer) = .ok v ∧ (∀ n, v ≠ .number n) ∧
        e = .priceNotNumeric path v.operandKind)

namespace Price

theorem ofNode_eq_formula_error {own : Table Scalar}
    (h : ofNode limits outer own node = .error (.formula e)) :
    ∃ path source f, node = .scalar path (.text source) ∧ Formula.compile limits path source = .ok f ∧
      amountOf path f (scope own outer) = .error e := by
  unfold ofNode at h
  split at h
  · rcases Outcome.bind_eq_error_iff.1 h with hfinite | ⟨-, -, hdone⟩
    · exact (ParseError.ofConfig_eq_formula_error_iff.1 hfinite).elim
    · cases hdone
  · next path source =>
    simp only [Outcome.bind_eq_error_iff, ParseError.ofRefusal_eq_formula_error_iff, false_or,
      Outcome.ofRefusal_eq_ok_iff, Outcome.mapError_eq_error_iff] at h
    obtain ⟨f, hf, ⟨e', hamount, heq⟩ | ⟨amount, -, hdone⟩⟩ := h
    · cases heq
      exact ⟨path, source, f, rfl, hf, hamount⟩
    · cases hdone
  · cases h

theorem ofEntry_eq_formula_error (h : ofEntry limits outer node = .error (.formula e)) :
    node.PriceFails limits outer e := by
  unfold ofEntry at h
  simp only [Outcome.bind_eq_error_iff, ParseError.ofConfig_eq_formula_error_iff, false_or,
    Outcome.ofConfig_eq_ok_iff] at h
  obtain ⟨child?, hchild, own, hown, h⟩ := h
  cases child? with
  | none => cases h
  | some child =>
    rcases Outcome.bind_eq_error_iff.1 h with hprice | ⟨price, -, hdone⟩
    · obtain ⟨path, source, f, rfl, hf, hamount⟩ := ofNode_eq_formula_error hprice
      exact ⟨own, path, source, f, hown, hchild, hf, amountOf_eq_error_iff.1 hamount⟩
    · cases hdone

end Price

/-! ## Plans and add-ons -/

section Entries

variable {catalog : Catalog} {name : String}

theorem Plan.ofNode_eq_formula_error
    (h : Plan.ofNode limits catalog outer name node = .error (.formula e)) :
    node.PriceFails limits outer e := by
  unfold Plan.ofNode at h
  simp only [Outcome.bind_eq_error_iff, ParseError.ofConfig_eq_formula_error_iff, false_or] at h
  obtain ⟨description, -, hprice | ⟨price?, -, unit, -, private?, -, overrides, -, hdone⟩⟩ := h
  · exact Price.ofEntry_eq_formula_error hprice
  · cases hdone

theorem AddOn.ofNode_eq_formula_error {isPlan isAddOn : String → Bool}
    (h : AddOn.ofNode limits catalog outer isPlan isAddOn name node = .error (.formula e)) :
    node.PriceFails limits outer e := by
  unfold AddOn.ofNode at h
  simp only [Outcome.bind_eq_error_iff, ParseError.ofConfig_eq_formula_error_iff, false_or] at h
  obtain ⟨description, -, hprice | ⟨price?, -, unit, -, availableFor, -, dependsOn, -, excludes, -,
    overrides, -, hdone⟩⟩ := h
  · exact Price.ofEntry_eq_formula_error hprice
  · cases hdone

end Entries

/-! ## Documents -/

/-- Whether the attributes, the features and the usage limits of a document are read, and the
price of one of its plans or add-ons is a formula that gives no amount. -/
def Node.PricesFail (limits : Limits) (root : Node) (e : FormulaError) : Prop :=
  ∃ attributes featureFields features limitFields usageLimits,
    Attributes.ofNode root = .ok attributes ∧
    root.fieldsIn "features" = .ok featureFields ∧
    Feature.catalogOf limits featureFields = .ok features ∧
    root.fieldsIn "usageLimits" = .ok limitFields ∧
    UsageLimit.catalogOf features limitFields = .ok usageLimits ∧
    ∃ key ∈ ["plans", "addOns"], ∃ entries, root.fieldsIn key = .ok entries ∧
      ∃ entry ∈ entries, entry.2.PriceFails limits attributes.bindings e

namespace Pricing

variable {part : Section} {read : Table Node → Except ParseError (Table α)} {root : Node}

theorem sectionOf_eq_formula_error
    (h : (sectionOf part read node).result = .error (.formula e)) :
    ∃ fields, node.asMapping = .ok fields ∧ read fields = .error (.formula e) := by
  rw [result_sectionOf] at h
  simpa only [Outcome.bind_eq_error_iff, ParseError.ofConfig_eq_formula_error_iff, false_or,
    Outcome.ofConfig_eq_ok_iff] using h

theorem optionalSection_eq_formula_error
    (h : (optionalSection part read root).result = .error (.formula e)) :
    ∃ fields, root.fieldsIn part.key = .ok fields ∧ read fields = .error (.formula e) := by
  unfold optionalSection at h
  simp only [Logged.result_bind, result_phase, Outcome.bind_eq_error_iff,
    ParseError.ofConfig_eq_formula_error_iff, false_or, Outcome.ofConfig_eq_ok_iff] at h
  obtain ⟨child?, hchild, h⟩ := h
  unfold Node.fieldsIn
  rw [hchild]
  cases child? with
  | none => cases h
  | some child => exact sectionOf_eq_formula_error h

/-- When a document is refused for a formula, its attributes, features and usage limits have
been read, and the formula is the price of one of its plans or add-ons. -/
theorem ofNode_eq_formula_error {version : Version}
    (h : (ofNode limits version root).result = .error (.formula e)) :
    root.PricesFail limits e := by
  simp only [ofNode, Logged.result_bind, result_phase, Outcome.bind_eq_error_iff,
    ParseError.ofConfig_eq_formula_error_iff, ParseError.ofRefusal_eq_formula_error_iff, false_or,
    Outcome.ofConfig_eq_ok_iff, Outcome.ofRefusal_eq_ok_iff] at h
  obtain ⟨attributes, hattributes, node, hnode, hfeatures | ⟨features, hfeatures, h⟩⟩ := h
  · obtain ⟨fields, -, hread⟩ := sectionOf_eq_formula_error hfeatures
    exact (ParseError.ofRefusal_eq_formula_error_iff.1 hread).elim
  obtain ⟨featureFields, hfeatureFields, hfeatures⟩ := sectionOf_eq_ok hfeatures
  obtain husageLimits | ⟨usageLimits, husageLimits, h⟩ := h
  · obtain ⟨fields, -, hread⟩ := optionalSection_eq_formula_error husageLimits
    exact (ParseError.ofConfig_eq_formula_error_iff.1 hread).elim
  obtain ⟨limitFields, hlimitFields, husageLimits⟩ := optionalSection_eq_ok husageLimits rfl
  refine ⟨attributes, featureFields, features, limitFields, usageLimits, hattributes,
    fieldsIn_of_require hnode hfeatureFields, Outcome.ofRefusal_eq_ok_iff.1 hfeatures, hlimitFields,
    Outcome.ofConfig_eq_ok_iff.1 husageLimits, ?_⟩
  obtain hplans | ⟨plans, -, haddOns | ⟨addOns, -, h⟩⟩ := h
  · obtain ⟨entries, hentries, hread⟩ := optionalSection_eq_formula_error hplans
    obtain ⟨entry, hmem, hentry⟩ := Table.exists_of_traverse_error hread
    exact ⟨"plans", by simp, entries, hentries, entry, hmem, Plan.ofNode_eq_formula_error hentry⟩
  · obtain ⟨entries, hentries, hread⟩ := optionalSection_eq_formula_error haddOns
    obtain ⟨entry, hmem, hentry⟩ := Table.exists_of_traverse_error hread
    exact ⟨"addOns", by simp, entries, hentries, entry, hmem, AddOn.ofNode_eq_formula_error hentry⟩
  · split at h
    · cases h
    · cases h

/-- When a document of any version is refused for a formula, it has been brought to the
current version. -/
theorem ofValue_eq_formula_error {document : Value}
    (h : (ofValue limits document).result = .error (.formula e)) :
    ∃ r root, (Resolved.ofValue document).result = .ok r ∧
      Node.ofValue (.mapping r.fields) = .ok root ∧ root.PricesFail limits e := by
  rw [Resolved.result_pricingOfValue] at h
  rcases Outcome.bind_eq_error_iff.1 h with hresolved | ⟨r, hresolved, hread⟩
  · obtain ⟨refusal, -, heq⟩ := Outcome.mapError_eq_error_iff.1 hresolved
    cases refusal <;> cases heq
  · unfold ofCanonical at hread
    simp only [Logged.result_bind, result_phase, Outcome.bind_eq_error_iff,
      ParseError.ofConfig_eq_formula_error_iff, ParseError.ofRefusal_eq_formula_error_iff, false_or,
      Outcome.ofRefusal_eq_ok_iff] at hread
    obtain ⟨root, hroot, -, -, hread⟩ := hread
    exact ⟨r, root, Outcome.mapError_eq_ok_iff.1 hresolved, hroot, ofNode_eq_formula_error hread⟩

end Pricing

end Tariff
