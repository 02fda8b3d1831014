import Tariff.Entitlement.Request
import Tariff.Proofs.Pricing.Reading
import Tariff.Proofs.Table

/-!
# The precedence of overrides

What a snapshot says of a feature or a usage limit, said of the document alone. Of the
add-ons that are active, the last in the document that gives a value to the identifier
decides; without one the plan does, if it gives a value; else the catalog, where a
formula counts before a default.

`Value.effective?` is that rule, with every part of it looked up in the document. The
parts of a pricing that the evaluation reads are those of the document
(`Reads.addOnOverride`, `Reads.planOverride`, `Reads.featureValue`,
`Reads.usageLimitValue`), so that the snapshots of a pricing follow the rule
(`follows_of_reads`). Each sort of capability has its own section in the catalog and in
every entry, and the rule for one sort looks at no section of the other
(`effective?_congr`).
-/

namespace Tariff

namespace Value

/-- The value that an active add-on gives to an identifier; of several the last counts. -/
def addOnOverride? (document : Value) (requested : List String) (sort : Capability)
    (id : String) : Option Scalar :=
  (document.entriesIn "addOns").reverse.findSome? fun addOn =>
    if requested.any fun name => Fields.isField name addOn then addOn.2.override? sort.key id
    else none

/-- The value that the plan gives to an identifier, if there is a plan. -/
def planOverride? (document : Value) (plan : Option String) (sort : Capability)
    (id : String) : Option Scalar :=
  plan.bind fun name =>
    ((document.entriesIn "plans").get? name).bind fun entry => entry.override? sort.key id

/-- The variables that an entry, or the document itself, declares. -/
def declaredScope (entry : Value) : Formula.Scope := fun name =>
  (((entry.entriesIn "variables").get? name).bind scalar?).map .scalar

/-- The variables that the formula in an entry of the catalog sees. -/
def formulaScope (document entry : Value) (request : Formula.Scope) : Formula.Scope :=
  (entry.declaredScope.within document.declaredScope).rebind request

/-- The value that an entry of the catalog gives by itself: that of its formula, if it has
one, else its default. Usage limits have no formulas. -/
def catalogValue? (limits : Limits) (document : Value) (request : Formula.Scope)
    (sort : Capability) (entry : Value) : Option Value :=
  match sort, entry.field? "formula" with
  | .feature, some _ =>
    (entry.formula? limits).bind fun formula =>
      (formula.evaluate (document.formulaScope entry request)).toOption
  | _, _ => (entry.scalarField? "defaultValue").map .scalar

/-- The value that a document gives to a capability for a plan, active add-ons and the
variables of a request. -/
def effective? (limits : Limits) (document : Value) (plan : Option String)
    (requested : List String) (request : Formula.Scope) (sort : Capability) (id : String) :
    Option Value :=
  (((document.addOnOverride? requested sort id).or
    (document.planOverride? plan sort id)).map .scalar).or
      (((document.entriesIn sort.key).get? id).bind
        (document.catalogValue? limits request sort))

/-! ## One sort apart from the other -/

/-- Whether entries of plans or add-ons override the same in the catalog of a sort. -/
def OverrideAlike (sort : Capability) (entries entries' : Fields) : Prop :=
  List.Forall₂ (fun entry entry' => entry.1 = entry'.1 ∧
    entry.2.entriesIn sort.key = entry'.2.entriesIn sort.key) entries entries'

/-- Whether two documents say the same of one sort of capability. Of the other sort they
may say what they like. -/
structure AgreeOn (sort : Capability) (document document' : Value) : Prop where
  catalog : document.entriesIn sort.key = document'.entriesIn sort.key
  variables_eq : document.entriesIn "variables" = document'.entriesIn "variables"
  plans : OverrideAlike sort (document.entriesIn "plans") (document'.entriesIn "plans")
  addOns : OverrideAlike sort (document.entriesIn "addOns") (document'.entriesIn "addOns")

variable {sort : Capability} {document document' : Value}

theorem override?_congr {entry entry' : Value}
    (h : entry.entriesIn sort.key = entry'.entriesIn sort.key) (id : String) :
    entry.override? sort.key id = entry'.override? sort.key id := by
  unfold override?
  rw [h]

theorem isField_congr {entry entry' : Value × Value} (h : entry.1 = entry'.1) (name : String) :
    Fields.isField name entry = Fields.isField name entry' := by
  unfold Fields.isField
  rw [h]

theorem AgreeOn.addOnOverride (h : document.AgreeOn sort document') (requested : List String)
    (id : String) :
    document.addOnOverride? requested sort id = document'.addOnOverride? requested sort id := by
  have hreverse := List.rel_reverse h.addOns
  unfold addOnOverride?
  generalize (document.entriesIn "addOns").reverse = entries at hreverse ⊢
  generalize (document'.entriesIn "addOns").reverse = entries' at hreverse ⊢
  -- From the last add-on to the first, the first that gives a value being the one that counts.
  induction hreverse with
  | nil => rfl
  | @cons entry entry' rest rest' hentry _ ih =>
    rw [List.findSome?_cons, List.findSome?_cons, ih, override?_congr hentry.2]
    simp only [isField_congr hentry.1]

theorem AgreeOn.planOverride (h : document.AgreeOn sort document') (plan : Option String)
    (id : String) :
    document.planOverride? plan sort id = document'.planOverride? plan sort id := by
  have hplans := h.plans
  unfold planOverride?
  cases plan with
  | none => rfl
  | some name =>
    rw [Option.bind_some, Option.bind_some]
    generalize document.entriesIn "plans" = entries at hplans ⊢
    generalize document'.entriesIn "plans" = entries' at hplans ⊢
    induction hplans with
    | nil => rfl
    | @cons entry entry' rest rest' hentry _ ih =>
      rw [Fields.get?_cons, Fields.get?_cons, isField_congr hentry.1]
      split
      · exact override?_congr hentry.2 id
      · exact ih

/-- What a document says of one sort depends on nothing that it says of the other. -/
theorem effective?_congr (h : document.AgreeOn sort document') (limits : Limits)
    (plan : Option String) (requested : List String) (request : Formula.Scope) (id : String) :
    document.effective? limits plan requested request sort id =
      document'.effective? limits plan requested request sort id := by
  have hscope : document.declaredScope = document'.declaredScope := by
    unfold declaredScope
    rw [h.variables_eq]
  have hcatalog : document.catalogValue? limits request sort =
      document'.catalogValue? limits request sort := by
    unfold catalogValue? formulaScope
    rw [hscope]
  unfold effective?
  rw [h.addOnOverride, h.planOverride, h.catalog, hcatalog]

end Value

/-! ## The overrides of a pricing -/

namespace Pricing

variable {limits : Limits} {pricing : Pricing} {document : Value}

/-- Searching the active add-ons is searching the entries that are requested. -/
theorem findSome?_requestedAddOns (pricing : Pricing) (requested : List String)
    (f : AddOn → Option Scalar) :
    (pricing.requestedAddOns requested).reverse.findSome? f =
      pricing.addOns.reverse.findSome? fun entry =>
        if requested.contains entry.1 then f entry.2 else none := by
  unfold requestedAddOns
  rw [← List.map_reverse, ← List.filter_reverse, List.findSome?_map, Table.findSome?_filter]
  rfl

/-- The value that active add-ons override. -/
theorem Reads.addOnOverride (h : pricing.Reads limits document) (requested : List String)
    (sort : Capability) (id : String) :
    ((pricing.requestedAddOns requested).map fun addOn =>
        addOn.overrides.values sort).reverse.findSome? (fun overrides => overrides.get? id) =
      document.addOnOverride? requested sort id := by
  rw [← List.map_reverse, List.findSome?_map, findSome?_requestedAddOns]
  refine h.addOns.findSome?_reverse ?_
  intro name addOn entry hreads
  show (if requested.contains name then (addOn.overrides.values sort).get? id else none) = _
  rw [hreads.2 sort id, List.contains_eq_any_beq]
  rfl

/-- Where the overrides of a plan come from: from the plan of the name, or there is none. -/
theorem planOverrides_eq_ok {plan : Option String} {overrides : Overrides}
    (h : pricing.planOverrides plan = .ok overrides) :
    (plan = none ∧ overrides = .empty) ∨
      ∃ name found, plan = some name ∧ pricing.plans.get? name = some found ∧
        overrides = found.overrides := by
  unfold planOverrides at h
  cases plan with
  | none =>
    dsimp only at h
    split at h
    · exact .inl ⟨rfl, (Except.ok.inj h).symm⟩
    · cases h
  | some name =>
    dsimp only at h
    split at h
    · next found hfound => exact .inr ⟨name, found, rfl, hfound, (Except.ok.inj h).symm⟩
    · cases h

/-- The value that the plan overrides. -/
theorem Reads.planOverride (h : pricing.Reads limits document) {plan : Option String}
    {overrides : Overrides} (hplan : pricing.planOverrides plan = .ok overrides)
    (sort : Capability) (id : String) :
    (overrides.values sort).get? id = document.planOverride? plan sort id := by
  unfold Value.planOverride?
  rcases planOverrides_eq_ok hplan with ⟨rfl, rfl⟩ | ⟨name, found, rfl, hfound, rfl⟩
  · cases sort <;> rfl
  · have hrel := h.plans.get? name
    rw [hfound] at hrel
    rw [Option.bind_some]
    generalize (document.entriesIn "plans").get? name = entry? at hrel ⊢
    cases hrel with
    | some hreads => exact hreads.2 sort id

/-- The value that overrides a capability. -/
theorem Reads.overriding (h : pricing.Reads limits document) {plan : Option String}
    {overrides : Overrides} (hplan : pricing.planOverrides plan = .ok overrides)
    (requested : List String) (sort : Capability) (id : String) :
    overriding? id (overrides.values sort)
        ((pricing.requestedAddOns requested).map fun addOn => addOn.overrides.values sort) =
      (document.addOnOverride? requested sort id).or (document.planOverride? plan sort id) := by
  unfold overriding?
  rw [h.addOnOverride, h.planOverride hplan]

/-! ## The catalog of a pricing -/

/-- The bindings that an entry declares are its scope. -/
theorem ofTable_eq_declaredScope {bindings : Table Scalar} {entry : Value}
    (h : Node.BindsAll bindings (entry.entriesIn "variables")) :
    Formula.Scope.ofTable bindings = entry.declaredScope := by
  funext name
  have hrel := h.get? name
  rw [Formula.Scope.ofTable_apply]
  unfold Value.declaredScope
  generalize bindings.get? name = s? at hrel ⊢
  generalize (entry.entriesIn "variables").get? name = v? at hrel ⊢
  cases hrel with
  | none => rfl
  | some hscalar => rw [Option.bind_some, hscalar]

/-- A value that passes the check of a feature is left as it is. -/
theorem checked_eq_ok {f : Feature} {v w : Value} (h : f.checked v = .ok w) : w = v := by
  unfold Feature.checked at h
  split at h
  · split at h
    · exact (Except.ok.inj h).symm
    · cases h
  · cases h

/-- The value of a feature that nothing overrides. -/
theorem Reads.catalogValue (h : pricing.Reads limits document) {id : String} {f : Feature}
    {entry v : Value} {request : Formula.Scope} (hfeature : f.Reads limits id entry)
    (hvalue : f.catalogValue pricing.bindings request = .ok v) :
    document.catalogValue? limits request .feature entry = some v := by
  have hscope : f.scope pricing.bindings request = document.formulaScope entry request := by
    unfold Feature.scope Value.formulaScope
    rw [ofTable_eq_declaredScope hfeature.bindings, ofTable_eq_declaredScope h.bindings]
  unfold Feature.catalogValue at hvalue
  unfold Value.catalogValue?
  cases hformula : f.formula with
  | none =>
    rw [hformula] at hvalue
    rw [hfeature.formula_present.1 hformula, ← hfeature.defaultValue_eq]
    cases hdefault : f.defaultValue with
    | none => exact absurd hdefault (hfeature.has_value hformula)
    | some s =>
      rw [hdefault] at hvalue
      rw [← Except.ok.inj hvalue]
      rfl
  | some formula =>
    rw [hformula] at hvalue
    have hpresent : entry.field? "formula" ≠ none := by
      intro hnone
      rw [hfeature.formula_present.2 hnone] at hformula
      cases hformula
    obtain ⟨source, hsource⟩ := Option.ne_none_iff_exists'.1 hpresent
    obtain ⟨result, hresult, hchecked⟩ := Outcome.bind_eq_ok_iff.1 hvalue
    rw [hsource, ← hfeature.formula_eq, hformula, ← hscope]
    dsimp only
    rw [Option.bind_some, hresult, checked_eq_ok hchecked]
    rfl

/-- The value of a feature is the one that the document gives to it. -/
theorem Reads.featureValue (h : pricing.Reads limits document) {plan : Option String}
    {overrides : Overrides} (hplan : pricing.planOverrides plan = .ok overrides)
    {requested : List String} {request : Formula.Scope} {id : String} {f : Feature}
    {entry v : Value} (hfeature : f.Reads limits id entry)
    (hentry : (document.entriesIn "features").get? id = some entry)
    (hvalue : pricing.featureValue overrides (pricing.requestedAddOns requested) request id f =
      .ok v) :
    document.effective? limits plan requested request .feature id = some v := by
  have hoverriding := h.overriding hplan requested .feature id
  simp only [Overrides.values] at hoverriding
  unfold Pricing.featureValue at hvalue
  unfold Value.effective?
  rw [← hoverriding]
  split at hvalue
  · next s hs =>
    rw [hs, ← Except.ok.inj hvalue]
    rfl
  · next hnone =>
    rw [hnone]
    show ((document.entriesIn "features").get? id).bind _ = some v
    rw [hentry]
    exact h.catalogValue hfeature hvalue

/-- The value of a usage limit is the one that the document gives to it. -/
theorem Reads.usageLimitValue (h : pricing.Reads limits document) {plan : Option String}
    {overrides : Overrides} (hplan : pricing.planOverrides plan = .ok overrides)
    (requested : List String) (request : Formula.Scope) {id : String} {u : UsageLimit}
    {entry : Value} (hdefault : entry.scalarField? "defaultValue" = some u.defaultValue)
    (hentry : (document.entriesIn "usageLimits").get? id = some entry) :
    document.effective? limits plan requested request .usageLimit id =
      some (usageLimitValue overrides (pricing.requestedAddOns requested) id u) := by
  have hoverriding := h.overriding hplan requested .usageLimit id
  simp only [Overrides.values] at hoverriding
  unfold Pricing.usageLimitValue Value.effective?
  rw [← hoverriding]
  cases overriding? id overrides.usageLimits
      ((pricing.requestedAddOns requested).map fun addOn => addOn.overrides.usageLimits) with
  | some s => rfl
  | none =>
    show ((document.entriesIn "usageLimits").get? id).bind _ = _
    rw [hentry]
    show (entry.scalarField? "defaultValue").map _ = _
    rw [hdefault]
    rfl

/-! ## Snapshots -/

/-- The values of a snapshot belong one by one to the entries of the document. -/
theorem Reads.matches_of_grant (h : pricing.Reads limits document) {plan : Option String}
    {overrides : Overrides} (hplan : pricing.planOverrides plan = .ok overrides)
    {requested : List String} {request : Formula.Scope} {s : Snapshot}
    (hgrant : pricing.grant plan overrides (pricing.requestedAddOns requested) request = .ok s)
    (sort : Capability) :
    ∃ values : Table Value, s.values sort = Fields.ofTable values ∧
      values.Matches (fun id v entry =>
        (document.entriesIn sort.key).get? id = some entry →
          document.effective? limits plan requested request sort id = some v)
        (document.entriesIn sort.key) := by
  obtain ⟨features, hfeatures, heq⟩ := Outcome.bind_eq_ok_iff.1 hgrant
  obtain rfl := Outcome.pure_eq_ok_iff.1 heq
  cases sort with
  | feature =>
    refine ⟨features, rfl, (h.features.traverse hfeatures).imp fun made entry hmade => ?_⟩
    obtain ⟨hkey, f, hreads, hvalue⟩ := hmade
    exact ⟨hkey, fun hentry => h.featureValue hplan hreads hentry hvalue⟩
  | usageLimit =>
    refine ⟨_, rfl, (h.usageLimits.map (Pricing.usageLimitValue overrides _)).imp
      fun made entry hmade => ?_⟩
    obtain ⟨hkey, u, hdefault, hvalue⟩ := hmade
    refine ⟨hkey, fun hentry => ?_⟩
    rw [← hvalue]
    exact h.usageLimitValue hplan requested request hdefault hentry

/-- The add-ons that are active are those requested. -/
theorem activeAddOns_eq_ok {plan : Option String} {requested : List String} {active : List AddOn}
    (h : pricing.activeAddOns plan requested = .ok active) :
    active = pricing.requestedAddOns requested := by
  unfold activeAddOns at h
  split at h
  · cases h
  · dsimp only at h
    split at h
    · cases h
    · exact (Except.ok.inj h).symm

end Pricing

namespace Request

variable {limits : Limits} {pricing : Pricing} {document : Value} {request : Request} {s : Snapshot}

/-- Whether the values of a snapshot are those that a document gives to a sort of
capability. -/
structure Follows (s : Snapshot) (limits : Limits) (document : Value) (plan : Option String)
    (requested : List String) (bindings : Formula.Scope) (sort : Capability) : Prop where
  /-- The identifiers are those of the catalog, in its order. -/
  ids : (s.values sort).map Prod.fst = (document.entriesIn sort.key).map Prod.fst
  /-- Every identifier of the catalog has its effective value. -/
  effective : ∀ id, (document.entriesIn sort.key).has id = true →
    ∃ v, (s.values sort).get? id = some v ∧
      document.effective? limits plan requested bindings sort id = some v

/-- What answering a request means. -/
theorem answer_eq_ok (h : request.answer pricing = .ok s) :
    ∃ plan overrides requested bindings, planOf request.plan = .ok plan ∧
      pricing.planOverrides plan = .ok overrides ∧ addOnsOf request.addOns = .ok requested ∧
      bindingsOf request.bindings = .ok bindings ∧
      pricing.grant plan overrides (pricing.requestedAddOns requested) bindings = .ok s := by
  simp only [answer, Outcome.bind_eq_ok_iff, Outcome.mapError_eq_ok_iff] at h
  obtain ⟨plan, hplan, overrides, hoverrides, requested, hrequested, active, hactive, bindings,
    hbindings, hgrant⟩ := h
  rw [Pricing.activeAddOns_eq_ok hactive] at hgrant
  exact ⟨plan, overrides, requested, bindings, hplan, hoverrides, hrequested, hbindings, hgrant⟩

theorem follows_of_reads (hreads : pricing.Reads limits document)
    (h : request.answer pricing = .ok s) :
    ∃ plan requested bindings, planOf request.plan = .ok plan ∧
      addOnsOf request.addOns = .ok requested ∧ bindingsOf request.bindings = .ok bindings ∧
      ∀ sort, Follows s limits document plan requested bindings sort := by
  obtain ⟨plan, overrides, requested, bindings, hplan, hoverrides, hrequested, hbindings, hgrant⟩ :=
    answer_eq_ok h
  refine ⟨plan, requested, bindings, hplan, hrequested, hbindings, fun sort => ?_⟩
  obtain ⟨values, hvalues, hmatches⟩ := hreads.matches_of_grant hoverrides hgrant sort
  constructor
  · rw [hvalues, hmatches.names]
    simp [Fields.ofTable, Table.names]
  · intro id hid
    rw [Fields.has_eq_isSome_get?] at hid
    obtain ⟨entry, hentry⟩ := Option.isSome_iff_exists.1 hid
    have hrel := hmatches.get? id
    rw [hvalues, Fields.get?_ofTable]
    generalize values.get? id = v? at hrel ⊢
    generalize hentry? : (document.entriesIn sort.key).get? id = entry? at hrel
    cases hrel with
    | none => cases hentry?.symm.trans hentry
    | @some v entry heffective => exact ⟨v, rfl, heffective rfl⟩

/-- An identifier is in a snapshot exactly if it is in the catalog. -/
theorem Follows.has_eq {plan : Option String} {requested : List String}
    {bindings : Formula.Scope} {sort : Capability}
    (h : Follows s limits document plan requested bindings sort) (id : String) :
    (s.values sort).has id = (document.entriesIn sort.key).has id := by
  have hkeys := congrArg (List.any · fun key => Fields.isField id (key, .null)) h.ids
  simp only [List.any_map] at hkeys
  exact hkeys

/-- Documents that say the same of a sort of capability give it the same values. -/
theorem Follows.get?_eq {plan : Option String} {requested : List String}
    {bindings : Formula.Scope} {sort : Capability} {document' : Value} {s' : Snapshot}
    (h : Follows s limits document plan requested bindings sort)
    (h' : Follows s' limits document' plan requested bindings sort)
    (hagree : document.AgreeOn sort document') (id : String) :
    (s.values sort).get? id = (s'.values sort).get? id := by
  by_cases hid : (document.entriesIn sort.key).has id = true
  · obtain ⟨v, hv, heffective⟩ := h.effective id hid
    obtain ⟨v', hv', heffective'⟩ := h'.effective id (hagree.catalog ▸ hid)
    rw [hv, hv', ← heffective, ← heffective']
    exact Value.effective?_congr hagree limits plan requested bindings id
  · have hnone := h.has_eq id
    have hnone' := h'.has_eq id
    rw [← hagree.catalog] at hnone'
    rw [eq_false_of_ne_true hid, Fields.has_eq_isSome_get?, Option.isSome_eq_false_iff,
      Option.isNone_iff_eq_none] at hnone hnone'
    rw [hnone, hnone']

/-- The values of a snapshot follow the precedence that the document gives them: the last
active add-on that has a value, else the plan, else the formula, else the default. Another
document that says the same of one sort of capability gives the same values to it,
whatever it says of the other. -/
theorem answer_follows_document {version : Version}
    (hpricing : (Pricing.ofCanonical limits document version).result = .ok pricing)
    (hanswer : request.answer pricing = .ok s) :
    ∃ plan requested bindings, planOf request.plan = .ok plan ∧
      addOnsOf request.addOns = .ok requested ∧ bindingsOf request.bindings = .ok bindings ∧
      ∀ sort, Follows s limits document plan requested bindings sort ∧
        ∀ document' version' pricing' s', document.AgreeOn sort document' →
          (Pricing.ofCanonical limits document' version').result = .ok pricing' →
          request.answer pricing' = .ok s' →
          ∀ id, (s.values sort).get? id = (s'.values sort).get? id := by
  obtain ⟨plan, requested, bindings, hplan, hrequested, hbindings, hfollows⟩ :=
    follows_of_reads (Pricing.reads_of_ofCanonical hpricing) hanswer
  refine ⟨plan, requested, bindings, hplan, hrequested, hbindings, fun sort => ⟨hfollows sort, ?_⟩⟩
  intro document' version' pricing' s' hagree hpricing' hanswer'
  obtain ⟨plan', requested', bindings', hplan', hrequested', hbindings', hfollows'⟩ :=
    follows_of_reads (Pricing.reads_of_ofCanonical hpricing') hanswer'
  obtain rfl := Except.ok.inj (hplan.symm.trans hplan')
  obtain rfl := Except.ok.inj (hrequested.symm.trans hrequested')
  obtain rfl := Except.ok.inj (hbindings.symm.trans hbindings')
  exact (hfollows sort).get?_eq (hfollows' sort) hagree

/-- A document whose plan and add-ons override a feature and a usage limit of one name. -/
def seatDocument : Value :=
  .mapping [
    (.text "saasName", .text "Demo"), (.text "currency", .text "EUR"),
    (.text "createdAt", .text "2024-08-31"),
    (.text "features", .mapping [
      (.text "sso", .mapping [(.text "type", .text "CAPABILITY"),
        (.text "valueType", .text "BOOLEAN"), (.text "defaultValue", .bool true)]),
      (.text "seats", .mapping [(.text "type", .text "CAPABILITY"),
        (.text "valueType", .text "NUMERIC"), (.text "defaultValue", .int 5)])]),
    (.text "usageLimits", .mapping [
      (.text "seats", .mapping [(.text "type", .text "RENEWABLE"),
        (.text "valueType", .text "NUMERIC"), (.text "defaultValue", .int 10),
        (.text "unit", .text "seat")])]),
    (.text "plans", .mapping [
      (.text "basic", .mapping [
        (.text "features", .mapping [(.text "sso", .mapping [(.text "value", .bool false)])]),
        (.text "usageLimits", .mapping [(.text "seats", .null)])])]),
    (.text "addOns", .mapping [
      (.text "extra", .mapping [
        (.text "features", .mapping [(.text "seats", .mapping [(.text "value", .int 0)]),
          (.text "sso", .mapping [(.text "value", .null)])])]),
      (.text "more", .mapping [
        (.text "features", .mapping [(.text "seats", .mapping [])])])])]

/-- A request for the plan with both add-ons. -/
def seatRequest : Request where
  plan := .text "basic"
  addOns := .list [.text "more", .text "extra"]

/-- The falsy values of the plan and of the first add-on count, the entries without a
value do not, and the usage limit keeps its default. -/
theorem answer_follows_seatDocument :
    ∃ pricing s, (Pricing.ofCanonical ⟨64, 1000⟩ seatDocument).result = .ok pricing ∧
      seatRequest.answer pricing = .ok s ∧
      (s.values .feature).get? "sso" = some (.bool false) ∧
      (s.values .feature).get? "seats" = some (.int 0) ∧
      (s.values .usageLimit).get? "seats" = some (.int 10) := by
  have hrun : ((Pricing.ofCanonical ⟨64, 1000⟩ seatDocument).result.toOption.bind fun pricing =>
      (seatRequest.answer pricing).toOption).isSome = true := by decide +kernel
  obtain ⟨s, hs⟩ := Option.isSome_iff_exists.1 hrun
  obtain ⟨pricing, hpricing, hanswer⟩ := Option.bind_eq_some_iff.1 hs
  rw [Outcome.toOption_eq_some_iff] at hpricing hanswer
  obtain ⟨plan, requested, bindings, hplan, hrequested, hbindings, hfollows⟩ :=
    answer_follows_document hpricing hanswer
  cases hplan
  cases hrequested
  obtain ⟨sso, hsso, heffective⟩ := (hfollows .feature).1.effective "sso" rfl
  obtain ⟨seats, hseats, hseatsEffective⟩ := (hfollows .feature).1.effective "seats" rfl
  obtain ⟨limit, hlimit, hlimitEffective⟩ := (hfollows .usageLimit).1.effective "seats" rfl
  refine ⟨pricing, s, hpricing, hanswer, ?_, ?_, ?_⟩
  · rw [hsso, ← heffective]
    rfl
  · rw [hseats, ← hseatsEffective]
    rfl
  · rw [hlimit, ← hlimitEffective]
    rfl

end Request

end Tariff
