import Tariff.Proofs.Pricing.Entries

/-!
# When plans and add-ons are read

A plan or an add-on is read exactly if it has the format of one. What they have in common
is read by the same steps in both, and so are the two lists of an add-on that refer to
other add-ons.

`Catalog.IsOf` is what the reading takes from the catalog of the document: of which type
the values of its identifiers are.
-/

namespace Tariff

open Outcome (Succeeds succeeds_bind_iff)

/-- Whether a catalog has the types that the catalog of a document declares. -/
structure Catalog.IsOf (catalog : Catalog) (document : Value) : Prop where
  features : ∀ id, catalog.featureType? id =
    ((document.entriesIn "features").get? id).bind Value.valueType?
  usageLimits : ∀ id, catalog.usageLimitType? id =
    ((document.entriesIn "usageLimits").get? id).bind Value.valueType?

variable {limits : Limits} {catalog : Catalog} {bindings : Table Scalar} {document : Value}
variable {node : Node} {v : Value} {name : String}

/-! ## Prices -/

theorem Price.amountOf_eq_ok_iff {path : String} {f : Formula} {scope : Formula.Scope}
    {n : Number} : Price.amountOf path f scope = .ok n ↔ f.value scope = .ok (.number n) := by
  unfold Price.amountOf Formula.evaluate
  simp only [Outcome.bind_eq_ok_iff, Outcome.mapError_eq_ok_iff]
  constructor
  · rintro ⟨v, hv, hrest⟩
    split at hrest
    · cases hrest
      exact hv
    · cases hrest
  · intro hv
    exact ⟨_, hv, rfl⟩

theorem Price.succeeds_ofNode_iff {own : Table Scalar} (h : node.Shows v) :
    Succeeds (Price.ofNode limits bindings own node) ↔
      v.IsPrice limits (Price.scope own bindings) := by
  unfold Price.ofNode Value.IsPrice Value.IsTyped
  simp only [Value.text?_eq_some_iff, h.scalar_iff]
  split
  · next path n =>
    rw [succeeds_bind_iff]
    constructor
    · rintro ⟨s, hs, -⟩
      obtain ⟨rfl, hfinite⟩ := Node.finite_eq_ok_iff.1 (Outcome.ofConfig_eq_ok_iff.1 hs)
      exact .inl ⟨_, ⟨path, rfl⟩, .numeric n hfinite⟩
    · rintro (⟨s, ⟨path', heq⟩, hholds⟩ | ⟨source, tree, m, ⟨path', heq⟩, -⟩)
      · cases heq
        have hfinite := (ValueType.holds_iff.1 hholds).2
        exact ⟨_, Outcome.ofConfig_eq_ok_iff.2 (Node.finite_eq_ok_iff.2 ⟨rfl, hfinite⟩), _, rfl⟩
      · cases heq
  · next path source =>
    simp only [succeeds_bind_iff, Outcome.ofRefusal_eq_ok_iff, Outcome.mapError_eq_ok_iff,
      Price.amountOf_eq_ok_iff, Formula.compile_eq_ok_iff]
    constructor
    · rintro ⟨⟨_, tree⟩, ⟨rfl, htree⟩, n, hn, -⟩
      exact .inr ⟨_, tree, n, ⟨path, rfl⟩, htree, hn⟩
    · rintro (⟨s, ⟨path', heq⟩, hholds⟩ | ⟨source', tree, n, ⟨path', heq⟩, htree, hn⟩)
      · cases heq
        cases hholds
      · cases heq
        exact ⟨⟨source, tree⟩, ⟨rfl, htree⟩, n, hn, _, rfl⟩
  · next hnumber htext =>
    constructor
    · rintro ⟨price, hprice⟩
      cases hprice
    · rintro (⟨s, ⟨path, rfl⟩, hholds⟩ | ⟨source, tree, n, ⟨path, rfl⟩, -⟩)
      · cases hholds with
        | numeric n hn => exact absurd rfl (hnumber path n)
      · exact absurd rfl (htext path source)

/-- The formula of a price sees the variables of its entry and those of the document. -/
theorem Price.scope_eq {own : Table Scalar} (hown : Node.BindsAll own (v.entriesIn "variables"))
    (houter : Node.BindsAll bindings (document.entriesIn "variables")) :
    Price.scope own bindings = v.declaredScope.within document.declaredScope := by
  unfold Price.scope
  rw [Pricing.ofTable_eq_declaredScope hown, Pricing.ofTable_eq_declaredScope houter]

theorem Price.succeeds_ofEntry_iff (h : node.Shows v) (hv : v.IsMapping)
    (houter : Node.BindsAll bindings (document.entriesIn "variables")) :
    Succeeds (Price.ofEntry limits bindings node) ↔
      v.Allows "variables" Value.IsVariables ∧
        v.Allows "price" (Value.IsPrice limits (v.declaredScope.within document.declaredScope)) := by
  obtain ⟨child?, hchild, hrel⟩ := h.exists_get? hv "price"
  rw [← h.succeeds_declaredBindings_iff hv]
  unfold Price.ofEntry Value.Allows
  simp only [succeeds_bind_iff, Outcome.ofConfig_eq_ok_iff, hchild, Except.ok.injEq,
    exists_eq_left']
  generalize v.field? "price" = w? at hrel ⊢
  cases hrel with
  | none =>
    constructor
    · rintro ⟨own, hown, -⟩
      exact ⟨⟨own, hown⟩, fun _ habsent => by cases habsent⟩
    · rintro ⟨⟨own, hown⟩, -⟩
      exact ⟨own, hown, none, rfl⟩
  | @some child w hshows =>
    have hprice : ∀ own, node.declaredBindings = .ok own →
        (Succeeds (Price.ofNode limits bindings own child) ↔
          w.IsPrice limits (v.declaredScope.within document.declaredScope)) := fun own hown => by
      rw [← Price.scope_eq (h.declaredBindings hown) houter]
      exact Price.succeeds_ofNode_iff hshows
    dsimp only
    simp only [succeeds_bind_iff, Option.some.injEq, forall_eq']
    constructor
    · rintro ⟨own, hown, price, hread, -⟩
      exact ⟨⟨own, hown⟩, (hprice own hown).1 ⟨price, hread⟩⟩
    · rintro ⟨⟨own, hown⟩, hformat⟩
      obtain ⟨price, hread⟩ := (hprice own hown).2 hformat
      exact ⟨own, hown, price, hread, _, rfl⟩

/-! ## Plans -/

theorem Overrides.succeeds_ofEntry_iff (hcatalog : catalog.IsOf document) (h : node.Shows v)
    (hv : v.IsMapping) :
    Succeeds (Overrides.ofEntry catalog node) ↔
      v.Allows "features" (Value.MapsTo · (document.IsOverride "features")) ∧
        v.Allows "usageLimits" (Value.MapsTo · (document.IsOverride "usageLimits")) := by
  rw [← h.succeeds_overrides_iff hv hcatalog.features,
    ← h.succeeds_overrides_iff hv hcatalog.usageLimits]
  unfold Overrides.ofEntry
  simp only [succeeds_bind_iff]
  constructor
  · rintro ⟨features, hfeatures, usageLimits, husageLimits, -⟩
    exact ⟨⟨features, hfeatures⟩, usageLimits, husageLimits⟩
  · rintro ⟨⟨features, hfeatures⟩, usageLimits, husageLimits⟩
    exact ⟨features, hfeatures, usageLimits, husageLimits, _, rfl⟩

theorem Plan.succeeds_ofNode_iff (hcatalog : catalog.IsOf document)
    (hbindings : Node.BindsAll bindings (document.entriesIn "variables")) (h : node.Shows v) :
    Succeeds (Plan.ofNode limits catalog bindings name node) ↔ document.IsPlan limits v := by
  simp only [Plan.ofNode, succeeds_bind_iff, Outcome.ofConfig_eq_ok_iff]
  constructor
  · rintro ⟨description, hdescription, price, hprice, unit, hunit, isPrivate, hprivate, overrides,
      hoverrides, -⟩
    have hv := h.isMapping_of_optional hdescription
    obtain ⟨hvariables, hpriceFormat⟩ :=
      (Price.succeeds_ofEntry_iff h hv hbindings).1 ⟨price, hprice⟩
    obtain ⟨hfeatures, husageLimits⟩ :=
      (Overrides.succeeds_ofEntry_iff hcatalog h hv).1 ⟨overrides, hoverrides⟩
    exact {
      mapping := hv
      description := (h.succeeds_text_iff hv).1 ⟨description, hdescription⟩
      bindings := hvariables
      price := hpriceFormat
      unit := (h.succeeds_text_iff hv).1 ⟨unit, hunit⟩
      features := hfeatures
      usageLimits := husageLimits
      isPrivate := (h.succeeds_bool_iff hv).1 ⟨isPrivate, hprivate⟩ }
  · intro hp
    have hv := hp.mapping
    obtain ⟨description, hdescription⟩ := (h.succeeds_text_iff hv).2 hp.description
    obtain ⟨price, hprice⟩ :=
      (Price.succeeds_ofEntry_iff h hv hbindings).2 ⟨hp.bindings, hp.price⟩
    obtain ⟨unit, hunit⟩ := (h.succeeds_text_iff hv).2 hp.unit
    obtain ⟨isPrivate, hprivate⟩ := (h.succeeds_bool_iff hv).2 hp.isPrivate
    obtain ⟨overrides, hoverrides⟩ :=
      (Overrides.succeeds_ofEntry_iff hcatalog h hv).2 ⟨hp.features, hp.usageLimits⟩
    exact ⟨description, hdescription, price, hprice, unit, hunit, isPrivate, hprivate, overrides,
      hoverrides, _, rfl⟩

/-! ## Add-ons -/

theorem AddOn.otherAddOns_eq_ok_iff {known : String → Bool} {key : String} {names : List String} :
    AddOn.otherAddOns known name key node = .ok names ↔
      node.references key known "addOns" = .ok names ∧ name ∉ names := by
  unfold AddOn.otherAddOns
  rw [Outcome.bind_eq_ok_iff]
  constructor
  · rintro ⟨found, hfound, hrest⟩
    split at hrest
    · cases hrest
    · next hother =>
      cases hrest
      exact ⟨hfound, by simpa using hother⟩
  · rintro ⟨hfound, hother⟩
    refine ⟨names, hfound, ?_⟩
    rw [if_neg (by simpa using hother)]
    rfl

theorem AddOn.succeeds_otherAddOns_iff {known : String → Bool} {key : String} (h : node.Shows v)
    (hv : v.IsMapping) (hknown : ∀ other, known other = true ↔ document.Declares "addOns" other) :
    Succeeds (AddOn.otherAddOns known name key node) ↔
      v.Allows key (Value.IsNames fun other => document.Declares "addOns" other ∧ other ≠ name) := by
  simp only [Succeeds, AddOn.otherAddOns_eq_ok_iff, h.references_eq_ok_iff hv, hknown,
    Value.Allows, Value.IsNames]
  constructor
  · rintro ⟨names, ⟨habsent, -⟩ | ⟨w, hw, hnames, hall⟩, hother⟩ w' hw'
    · cases habsent.symm.trans hw'
    · cases hw.symm.trans hw'
      exact ⟨names, hnames, fun other hmem => ⟨hall other hmem, fun heq => hother (heq ▸ hmem)⟩⟩
  · intro hallows
    cases hfield : v.field? key with
    | none => exact ⟨[], .inl ⟨rfl, rfl⟩, List.not_mem_nil⟩
    | some w =>
      obtain ⟨names, hnames, hall⟩ := hallows w hfield
      exact ⟨names, .inr ⟨w, rfl, hnames, fun other hmem => (hall other hmem).1⟩,
        fun hmem => (hall name hmem).2 rfl⟩

theorem AddOn.succeeds_ofNode_iff {isPlan isAddOn : String → Bool}
    (hcatalog : catalog.IsOf document)
    (hbindings : Node.BindsAll bindings (document.entriesIn "variables"))
    (hplans : ∀ plan, isPlan plan = true ↔ document.Declares "plans" plan)
    (haddOns : ∀ other, isAddOn other = true ↔ document.Declares "addOns" other)
    (h : node.Shows v) :
    Succeeds (AddOn.ofNode limits catalog bindings isPlan isAddOn name node) ↔
      document.IsAddOn limits name v := by
  simp only [AddOn.ofNode, succeeds_bind_iff, Outcome.ofConfig_eq_ok_iff]
  constructor
  · rintro ⟨description, hdescription, price, hprice, unit, hunit, availableFor, havailable,
      dependsOn, hdepends, excludes, hexcludes, overrides, hoverrides, -⟩
    have hv := h.isMapping_of_optional hdescription
    obtain ⟨hvariables, hpriceFormat⟩ :=
      (Price.succeeds_ofEntry_iff h hv hbindings).1 ⟨price, hprice⟩
    obtain ⟨hfeatures, husageLimits⟩ :=
      (Overrides.succeeds_ofEntry_iff hcatalog h hv).1 ⟨overrides, hoverrides⟩
    exact {
      mapping := hv
      description := (h.succeeds_text_iff hv).1 ⟨description, hdescription⟩
      bindings := hvariables
      price := hpriceFormat
      unit := (h.succeeds_text_iff hv).1 ⟨unit, hunit⟩
      features := hfeatures
      usageLimits := husageLimits
      availableFor := (h.succeeds_references_iff hv hplans).1 ⟨availableFor, havailable⟩
      dependsOn := (AddOn.succeeds_otherAddOns_iff h hv haddOns).1 ⟨dependsOn, hdepends⟩
      excludes := (AddOn.succeeds_otherAddOns_iff h hv haddOns).1 ⟨excludes, hexcludes⟩ }
  · intro ha
    have hv := ha.mapping
    obtain ⟨description, hdescription⟩ := (h.succeeds_text_iff hv).2 ha.description
    obtain ⟨price, hprice⟩ :=
      (Price.succeeds_ofEntry_iff h hv hbindings).2 ⟨ha.bindings, ha.price⟩
    obtain ⟨unit, hunit⟩ := (h.succeeds_text_iff hv).2 ha.unit
    obtain ⟨availableFor, havailable⟩ :=
      (h.succeeds_references_iff hv hplans).2 ha.availableFor
    obtain ⟨dependsOn, hdepends⟩ :=
      (AddOn.succeeds_otherAddOns_iff h hv haddOns).2 ha.dependsOn
    obtain ⟨excludes, hexcludes⟩ :=
      (AddOn.succeeds_otherAddOns_iff h hv haddOns).2 ha.excludes
    obtain ⟨overrides, hoverrides⟩ :=
      (Overrides.succeeds_ofEntry_iff hcatalog h hv).2 ⟨ha.features, ha.usageLimits⟩
    exact ⟨description, hdescription, price, hprice, unit, hunit, availableFor, havailable,
      dependsOn, hdepends, excludes, hexcludes, overrides, hoverrides, _, rfl⟩

end Tariff
