import Tariff.Proofs.Document.Accepted
import Tariff.Proofs.Entitlement.Precedence
import Tariff.Proofs.Formula.Variables

/-!
# The variables of requests

What a request says of variables can only give other values to names that are declared and
that a formula mentions, and only the formula of a feature that neither the plan nor an active
add-on overrides. Two requests that agree on these names have the same answer, be it a snapshot
or an error (`answer_depends_on_declared`). Nor can a request make up for a name that is not
declared: as long as such a formula mentions one, there is no snapshot.

A name has to be declared for the feature that mentions it, by the pricing or by the feature
itself. What a request says of a name may so count for one feature and not for another.

The first part holds step by step, each step depending on no more of the variables than the
step before it. The second needs that evaluation is strict: a formula with a value has looked
all its names up (`Formula.scalar_of_evaluate`).
-/

namespace Tariff

/-! ## The scope of a formula -/

namespace Formula

/-- What is rebound depends only on the names that there are. -/
theorem Scope.rebind_congr {scope values values' : Scope} {name : String}
    (h : (scope name).isSome = true → values name = values' name) :
    scope.rebind values name = scope.rebind values' name := by
  unfold rebind
  cases hscope : scope name with
  | none => rfl
  | some v =>
    rw [hscope] at h
    rw [Option.map_some, Option.map_some, h rfl]

/-- The names that two tables declare, of which one hides those of the other. -/
theorem Scope.isSome_within_ofTable {inner outer : Table Scalar} {name : String} :
    ((ofTable inner).within (ofTable outer) name).isSome = true ↔
      outer.has name = true ∨ inner.has name = true := by
  unfold within
  rw [Option.isSome_or, Bool.or_eq_true, or_comm]
  simp [Table.has]

end Formula

namespace Feature

variable {f : Feature} {outer : Table Scalar} {request request' : Formula.Scope}

/-- The names that a formula sees are those that the pricing or its feature declares,
whatever a request says. -/
theorem isSome_scope {name : String} : (f.scope outer request name).isSome = true ↔
    outer.has name = true ∨ f.bindings.has name = true := by
  unfold scope
  rw [Formula.Scope.isSome_rebind]
  exact Formula.Scope.isSome_within_ofTable

/-- The value of a feature that nothing overrides depends only on the declared names that its
formula mentions. -/
theorem catalogValue_congr
    (h : ∀ formula, f.formula = some formula → ∀ name ∈ formula.variableNames,
      outer.has name = true ∨ f.bindings.has name = true → request name = request' name) :
    f.catalogValue outer request = f.catalogValue outer request' := by
  unfold catalogValue
  cases hformula : f.formula with
  | none => rfl
  | some formula =>
    have hvalue : formula.value (f.scope outer request) = formula.value (f.scope outer request') := by
      apply Formula.value_congr
      intro name hname
      apply Formula.Scope.rebind_congr
      intro hdeclared
      exact h formula hformula name hname (Formula.Scope.isSome_within_ofTable.1 hdeclared)
    dsimp only
    rw [Formula.evaluate, hvalue, ← Formula.evaluate]

end Feature

/-! ## What nothing overrides -/

namespace Pricing

variable {pricing : Pricing} {plan : Option String} {requested : List String}
  {overrides : Overrides} {request request' : Formula.Scope} {id : String} {f : Feature}

/-- Whether the plan or an active add-on gives a value to a feature. -/
def IsOverridden (pricing : Pricing) (plan : Option String) (requested : List String)
    (id : String) : Prop :=
  (∃ name p, plan = some name ∧ pricing.plans.get? name = some p ∧
      p.overrides.features.has id = true) ∨
    ∃ entry ∈ pricing.addOns, entry.1 ∈ requested ∧ entry.2.overrides.features.has id = true

/-- Whether a feature that nothing overrides has a formula that mentions a name. -/
def Mentions (pricing : Pricing) (plan : Option String) (requested : List String) (f : Feature)
    (name : String) : Prop :=
  ∃ id formula, (id, f) ∈ pricing.features ∧ ¬ pricing.IsOverridden plan requested id ∧
    f.formula = some formula ∧ name ∈ formula.variableNames

/-- Whether a name is declared where the formula of a feature sees it. -/
def Declares (pricing : Pricing) (f : Feature) (name : String) : Prop :=
  pricing.bindings.has name = true ∨ f.bindings.has name = true

theorem has_planOverrides_iff (hplan : pricing.planOverrides plan = .ok overrides) :
    overrides.features.has id = true ↔
      ∃ name p, plan = some name ∧ pricing.plans.get? name = some p ∧
        p.overrides.features.has id = true := by
  rcases planOverrides_eq_ok hplan with ⟨rfl, rfl⟩ | ⟨name, p, rfl, hp, rfl⟩
  · exact ⟨nofun, nofun⟩
  · constructor
    · intro hhas
      exact ⟨name, p, rfl, hp, hhas⟩
    · intro ⟨name', p', hname, hp', hhas⟩
      obtain rfl := Option.some.inj hname
      obtain rfl := Option.some.inj (hp.symm.trans hp')
      exact hhas

/-- A value that overrides a feature is found exactly if there is one. -/
theorem isSome_overriding?_iff (hplan : pricing.planOverrides plan = .ok overrides) :
    (overriding? id overrides.features ((pricing.requestedAddOns requested).map fun addOn =>
      addOn.overrides.features)).isSome = true ↔ pricing.IsOverridden plan requested id := by
  unfold overriding? IsOverridden
  rw [Option.isSome_or, Bool.or_eq_true, or_comm, ← List.map_reverse, List.findSome?_map,
    findSome?_requestedAddOns, List.findSome?_isSome_iff]
  refine or_congr (has_planOverrides_iff hplan) ?_
  constructor
  · rintro ⟨entry, hmem, hfound⟩
    split at hfound
    · next hcontains =>
      exact ⟨entry, List.mem_reverse.1 hmem, List.contains_iff_mem.1 hcontains, hfound⟩
    · cases hfound
  · rintro ⟨entry, hmem, hrequested, hhas⟩
    refine ⟨entry, List.mem_reverse.2 hmem, ?_⟩
    rw [if_pos (List.contains_iff_mem.2 hrequested)]
    exact hhas

/-- Nothing is found that overrides a feature exactly if nothing does. -/
theorem overriding?_eq_none_iff (hplan : pricing.planOverrides plan = .ok overrides) :
    overriding? id overrides.features
        ((pricing.requestedAddOns requested).map fun addOn => addOn.overrides.features) = none ↔
      ¬ pricing.IsOverridden plan requested id := by
  rw [← isSome_overriding?_iff hplan, Bool.not_eq_true, Option.isSome_eq_false_iff,
    Option.isNone_iff_eq_none]

/-- The value of a feature depends only on the declared names that its formula mentions, and
on none if the feature is overridden. -/
theorem featureValue_congr (hplan : pricing.planOverrides plan = .ok overrides)
    (hmem : (id, f) ∈ pricing.features)
    (h : ∀ name, pricing.Mentions plan requested f name → pricing.Declares f name →
      request name = request' name) :
    pricing.featureValue overrides (pricing.requestedAddOns requested) request id f =
      pricing.featureValue overrides (pricing.requestedAddOns requested) request' id f := by
  unfold featureValue
  split
  · rfl
  · next hnone =>
    apply Feature.catalogValue_congr
    intro formula hformula name hname hdeclared
    have hfree := (overriding?_eq_none_iff hplan).1 hnone
    exact h name ⟨id, formula, hmem, hfree, hformula, hname⟩ hdeclared

theorem grant_congr (hplan : pricing.planOverrides plan = .ok overrides)
    (h : ∀ f name, pricing.Mentions plan requested f name → pricing.Declares f name →
      request name = request' name) :
    pricing.grant plan overrides (pricing.requestedAddOns requested) request =
      pricing.grant plan overrides (pricing.requestedAddOns requested) request' := by
  unfold grant
  rw [Table.traverse_congr fun entry hentry => featureValue_congr hplan hentry (h entry.2)]

/-- All names that are mentioned are declared if a snapshot is granted. -/
theorem declares_of_grant (hplan : pricing.planOverrides plan = .ok overrides) {s : Snapshot}
    (h : pricing.grant plan overrides (pricing.requestedAddOns requested) request = .ok s)
    {name : String} (hmentions : pricing.Mentions plan requested f name) :
    pricing.Declares f name := by
  obtain ⟨id, formula, hmem, hfree, hformula, hname⟩ := hmentions
  obtain ⟨features, hfeatures, -⟩ := Outcome.bind_eq_ok_iff.1 h
  obtain ⟨v, hv⟩ := Table.succeeds_traverse_iff.1 ⟨features, hfeatures⟩ _ hmem
  unfold featureValue at hv
  rw [(overriding?_eq_none_iff hplan).2 hfree] at hv
  dsimp only at hv
  unfold Feature.catalogValue at hv
  rw [hformula] at hv
  obtain ⟨w, hw, -⟩ := Outcome.bind_eq_ok_iff.1 hv
  obtain ⟨value, hvalue⟩ := Formula.scalar_of_evaluate hw name hname
  exact Feature.isSome_scope.1 (Option.isSome_of_eq_some hvalue)

end Pricing

/-! ## Answers -/

namespace Request

/-- Whether the formula of a feature that a request does not override mentions a name. -/
def Mentions (request : Request) (pricing : Pricing) (f : Feature) (name : String) : Prop :=
  ∃ plan requested, planOf request.plan = .ok plan ∧ addOnsOf request.addOns = .ok requested ∧
    pricing.Mentions plan requested f name

/-- The answer to a request depends on its variables only as far as they are declared where
a formula mentions them that counts, and there is no snapshot if such a formula mentions a
name that is not declared. -/
theorem answer_depends_on_declared (request : Request) (pricing : Pricing) :
    (∀ v v' bindings bindings', bindingsOf v = .ok bindings → bindingsOf v' = .ok bindings' →
      (∀ f name, request.Mentions pricing f name → pricing.Declares f name →
        bindings name = bindings' name) →
      { request with bindings := v }.answer pricing =
        { request with bindings := v' }.answer pricing) ∧
      ∀ f name, request.Mentions pricing f name → ¬ pricing.Declares f name →
        ∀ v s, { request with bindings := v }.answer pricing ≠ .ok s := by
  constructor
  · intro v v' bindings bindings' hv hv' hagree
    unfold answer
    -- Plan and add-ons are looked at before the variables, and are the same in both requests.
    apply Outcome.bind_congr
    intro plan hplan
    apply Outcome.bind_congr
    intro overrides hoverrides
    apply Outcome.bind_congr
    intro requested hrequested
    apply Outcome.bind_congr
    intro active hactive
    have hactive := Pricing.activeAddOns_eq_ok (Outcome.mapError_eq_ok_iff.1 hactive)
    have hgrant : pricing.grant plan overrides active bindings =
        pricing.grant plan overrides active bindings' := by
      rw [hactive]
      apply Pricing.grant_congr (Outcome.mapError_eq_ok_iff.1 hoverrides)
      intro f name hmentions
      exact hagree f name ⟨plan, requested, hplan, hrequested, hmentions⟩
    rw [hv, hv']
    show (pricing.grant plan overrides active bindings).mapError _ =
      (pricing.grant plan overrides active bindings').mapError _
    rw [hgrant]
  · intro f name hmentions hdeclares v s hanswer
    obtain ⟨plan, overrides, requested, bindings, hplan, hoverrides, hrequested, -, hgrant⟩ :=
      answer_eq_ok hanswer
    obtain ⟨plan', requested', hplan', hrequested', hmentions⟩ := hmentions
    obtain rfl := Except.ok.inj (hplan.symm.trans hplan')
    obtain rfl := Except.ok.inj (hrequested.symm.trans hrequested')
    exact hdeclares (Pricing.declares_of_grant hoverrides hgrant hmentions)

/-- A pricing of two features with formulas, of which the plan overrides one. -/
def meteredPricing : Pricing where
  saasName := "Demo"
  currency := "EUR"
  createdAt := ⟨2024, 8, 31, by decide, by decide, by decide, by decide⟩
  hasAnnualPayment := false
  starts := none
  ends := none
  url := none
  label := none
  bindings := [("n", .number (.int 1)), ("m", .number (.int 1))]
  features := [
    ("quota", {
      id := "quota", name := "quota", type := .capability, valueType := .numeric,
      defaultValue := none, description := none, bindings := [], tags := [],
      formula := some ⟨"n + n", .binaryOf .add (.name "n") (.name "n")⟩ }),
    ("seats", {
      id := "seats", name := "seats", type := .capability, valueType := .numeric,
      defaultValue := none, description := none, bindings := [], tags := [],
      formula := some ⟨"-m", .unaryOf .negate (.name "m")⟩ })]
  usageLimits := []
  version := .v2_0
  plans := [("basic", {
    name := "basic", description := none, price := none, unit := none, isPrivate := false,
    overrides := ⟨[("seats", .number (.int 5))], []⟩ })]
  addOns := []

/-- A request for the plan. -/
def meteredRequest : Request where
  plan := .text "basic"

/-- Only the variable of the feature that is not overridden counts, and without its declaration
no request has a snapshot. -/
theorem answer_depends_on_declared_metered :
    { meteredRequest with
        bindings := .mapping [(.text "n", .int 7), (.text "m", .text "many")] }.answer
          meteredPricing =
        { meteredRequest with
          bindings := .mapping [(.text "n", .int 7), (.text "k", .int 0)] }.answer
            meteredPricing ∧
      ∀ v s, { meteredRequest with bindings := v }.answer
        { meteredPricing with bindings := [("m", .number (.int 1))] } ≠ .ok s := by
  constructor
  · apply (answer_depends_on_declared meteredRequest meteredPricing).1 _ _ _ _ rfl rfl
    rintro f name ⟨plan, requested, hplan, -, id, formula, hmem, hfree, hformula, hname⟩ -
    cases hplan
    rcases List.mem_cons.1 hmem with heq | hmem
    · cases heq
      cases hformula
      have hnames : name ∈ ["n", "n"] := Text.mem_sortUnique.1 hname
      obtain rfl : name = "n" := by simpa using hnames
      rfl
    · cases List.mem_singleton.1 hmem
      exact absurd (.inl ⟨"basic", _, rfl, rfl, rfl⟩) hfree
  · apply (answer_depends_on_declared meteredRequest _).2 _ "n"
    · refine ⟨some "basic", [], rfl, rfl, "quota", _, List.mem_cons_self, ?_, rfl, ?_⟩
      · rintro (⟨name, p, hname, hplan, hhas⟩ | ⟨entry, hentry, -⟩)
        · cases hname
          cases hplan
          cases hhas
        · cases hentry
      · exact Text.mem_sortUnique.2 List.mem_cons_self
    · exact not_or.2 ⟨nofun, nofun⟩

end Request

end Tariff
