import Tariff.Proofs.Entitlement.RoundTrip
import Tariff.Proofs.Entitlement.Written
import Tariff.Proofs.Pricing.Typing

/-!
# Snapshots are total

A snapshot that answers a request has a value for every feature and every usage limit of
the pricing and for nothing else, in the order of the catalog, and each value is of the
type that the catalog declares: never null, never a boolean for a number, and never an
infinite number (`Snapshot.Grants`). This holds whatever the request says of variables,
since what a formula makes of them is checked at last. Therefore every such snapshot has a
payload with nothing left out. It has bytes unless an integer in it has too many digits for a
text, which a formula can make of variables that have not.

A value may come from an add-on, from the plan, from a formula or from a default. For each
of these there is a lemma that it is of its type.
-/

namespace Tariff

/-! ## Where a value comes from -/

theorem ValueType.Holds.isFinite {valueType : ValueType} {s : Scalar} (h : valueType.Holds s) :
    s.isFinite = true :=
  (ValueType.holds_iff.1 h).2

/-- Whether a value is a scalar of a type. -/
def ValueType.HoldsValue (valueType : ValueType) (v : Value) : Prop :=
  ∃ s, v = .scalar s ∧ valueType.Holds s

/-- A value that overrides one of the catalog is of the type that the catalog declares. -/
theorem Overrides.Fit.overriding {catalog : Catalog} {plan : Overrides} {active : List AddOn}
    (hplan : plan.Fit catalog) (hactive : ∀ addOn ∈ active, addOn.overrides.Fit catalog)
    (sort : Capability) {id : String} {s : Scalar}
    (h : overriding? id (plan.values sort)
      (active.map fun addOn => addOn.overrides.values sort) = some s) :
    ∃ valueType, catalog.type? sort id = some valueType ∧ valueType.Holds s := by
  rcases Option.or_eq_some_iff.1 h with hfound | ⟨-, hfound⟩
  · obtain ⟨overrides, hmem, hget⟩ := List.exists_of_findSome?_eq_some hfound
    obtain ⟨addOn, haddOn, rfl⟩ := List.mem_map.1 (List.mem_reverse.1 hmem)
    exact hactive addOn haddOn sort _ (Table.mem_of_get? hget)
  · exact hplan sort _ (Table.mem_of_get? hfound)

namespace Feature

variable {f : Feature} {v w : Value}

/-- What a formula gives is of the type of its feature, once it has been checked. -/
theorem holds_of_checked (hfinite : Formula.isNotFinite v = false) (h : f.checked v = .ok w) :
    f.valueType.HoldsValue w := by
  unfold checked at h
  split at h
  · next s =>
    split at h
    · next haccepts =>
      cases h
      refine ⟨s, rfl, ValueType.holds_iff.2 ⟨haccepts, ?_⟩⟩
      cases s with
      | number n => exact Bool.not_eq_eq_eq_not.1 hfinite
      | bool b => rfl
      | text t => rfl
    · cases h
  · cases h

theorem IsTyped.catalogValue (hf : f.IsTyped) {outer : Table Scalar} {request : Formula.Scope}
    (h : f.catalogValue outer request = .ok v) : f.valueType.HoldsValue v := by
  unfold Feature.catalogValue at h
  split at h
  · next formula hformula =>
    obtain ⟨result, hresult, hchecked⟩ := Outcome.bind_eq_ok_iff.1 h
    have hfinite := Formula.isNotFinite_of_value (Outcome.mapError_eq_ok_iff.1 hresult)
    exact holds_of_checked hfinite hchecked
  · next hformula =>
    cases h
    obtain ⟨s, hs⟩ := Option.ne_none_iff_exists'.1 (hf.hasValue hformula)
    exact ⟨s, by rw [hs]; rfl, hf.defaultValue s hs⟩

end Feature

/-! ## The values of a snapshot -/

namespace Pricing

variable {pricing : Pricing} {plan : Overrides} {active : List AddOn} {request : Formula.Scope}

/-- Whether a value is of a type that goes with an identifier: that of its entry in the
catalog, or that of the first entry of the same identifier, to which overrides refer. As
long as no identifier occurs twice these are one. -/
def Admits (pricing : Pricing) (sort : Capability) (id : String) (declared : ValueType)
    (v : Value) : Prop :=
  ∃ valueType, valueType.HoldsValue v ∧
    (valueType = declared ∨ pricing.toCatalog.type? sort id = some valueType)

theorem admits_featureValue (hplan : plan.Fit pricing.toCatalog)
    (hactive : ∀ addOn ∈ active, addOn.overrides.Fit pricing.toCatalog) {id : String}
    {f : Feature} (hf : f.IsTyped) {v : Value}
    (h : pricing.featureValue plan active request id f = .ok v) :
    pricing.Admits .feature id f.valueType v := by
  unfold Pricing.featureValue at h
  split at h
  · next s hs =>
    cases h
    obtain ⟨valueType, htype, hholds⟩ := hplan.overriding hactive .feature hs
    exact ⟨valueType, ⟨s, rfl, hholds⟩, .inr htype⟩
  · exact ⟨f.valueType, hf.catalogValue h, .inl rfl⟩

theorem admits_usageLimitValue (hplan : plan.Fit pricing.toCatalog)
    (hactive : ∀ addOn ∈ active, addOn.overrides.Fit pricing.toCatalog) (id : String)
    {u : UsageLimit} (hu : u.valueType.Holds u.defaultValue) :
    pricing.Admits .usageLimit id u.valueType (usageLimitValue plan active id u) := by
  unfold usageLimitValue
  cases hs : overriding? id plan.usageLimits
      (active.map fun addOn => addOn.overrides.usageLimits) with
  | some s =>
    obtain ⟨valueType, htype, hholds⟩ := hplan.overriding hactive .usageLimit hs
    exact ⟨valueType, ⟨s, rfl, hholds⟩, .inr htype⟩
  | none => exact ⟨u.valueType, ⟨u.defaultValue, rfl, hu⟩, .inl rfl⟩

/-- The plan of a request overrides what is in the catalog, if there is a plan. -/
theorem IsTyped.planOverrides (h : pricing.IsTyped) {name : Option String} {overrides : Overrides}
    (hplan : pricing.planOverrides name = .ok overrides) : overrides.Fit pricing.toCatalog := by
  rcases planOverrides_eq_ok hplan with ⟨-, rfl⟩ | ⟨_, found, -, hfound, rfl⟩
  · intro sort
    cases sort <;> exact nofun
  · exact h.plans _ (Table.mem_of_get? hfound)

theorem IsTyped.requestedAddOns (h : pricing.IsTyped) (requested : List String) :
    ∀ addOn ∈ pricing.requestedAddOns requested, addOn.overrides.Fit pricing.toCatalog := by
  intro addOn hmem
  obtain ⟨entry, hentry, rfl⟩ := List.mem_map.1 hmem
  exact h.addOns entry (List.mem_filter.1 hentry).1

/-- The names of a sort of capability. -/
def capabilities (pricing : Pricing) : Capability → List String
  | .feature => pricing.features.names
  | .usageLimit => pricing.usageLimits.names

theorem has_eq_true_iff (pricing : Pricing) (sort : Capability) (id : String) :
    pricing.toCatalog.has sort id = true ↔ id ∈ pricing.capabilities sort := by
  cases sort <;> exact Option.isSome_iff_exists.trans Table.exists_get?_iff

end Pricing

/-- Whether values are those of a sort of capability of a pricing, each of its type. -/
structure Pricing.Values (pricing : Pricing) (sort : Capability) (values : Table Value) :
    Prop where
  names : values.names = pricing.capabilities sort
  scalars : ∀ entry ∈ values, ∃ valueType : ValueType, valueType.HoldsValue entry.2
  typed : ∀ id v, values.get? id = some v → ∃ valueType,
    pricing.toCatalog.type? sort id = some valueType ∧ valueType.HoldsValue v

namespace Pricing

variable {pricing : Pricing} {sort : Capability}

/-- Values that are made of the entries of a catalog one by one. -/
theorem values_of_traverse {α ε : Type} {t : Table α} {f : String → α → Except ε Value}
    {typeOf : α → ValueType} {values : Table Value}
    (hnames : t.names = pricing.capabilities sort)
    (htype : ∀ id, pricing.toCatalog.type? sort id = (t.get? id).map typeOf)
    (hvalue : ∀ id a v, (id, a) ∈ t → f id a = .ok v → pricing.Admits sort id (typeOf a) v)
    (h : t.traverse f = .ok values) : pricing.Values sort values where
  names := (Table.names_of_traverse h).trans hnames
  scalars entry hentry := by
    obtain ⟨a, ha, hmade⟩ := Table.exists_of_mem_traverse h entry hentry
    obtain ⟨valueType, hholds, -⟩ := hvalue _ a _ ha hmade
    exact ⟨valueType, hholds⟩
  typed id v hv := by
    obtain ⟨a, ha, hmade⟩ := Table.exists_get?_of_traverse h hv
    have hdeclared : pricing.toCatalog.type? sort id = some (typeOf a) := by
      rw [htype, ha]
      rfl
    obtain ⟨valueType, hholds, rfl | hfound⟩ := hvalue id a v (Table.mem_of_get? ha) hmade
    · exact ⟨_, hdeclared, hholds⟩
    · exact ⟨valueType, hfound, hholds⟩

/-- The values of a snapshot are those of the catalog. -/
theorem IsTyped.values_of_grant (hpricing : pricing.IsTyped) {name : Option String}
    {overrides : Overrides} (hplan : pricing.planOverrides name = .ok overrides)
    {requested : List String} {request : Formula.Scope} {s : Snapshot}
    (h : pricing.grant name overrides (pricing.requestedAddOns requested) request = .ok s)
    (sort : Capability) :
    ∃ values, s.values sort = Fields.ofTable values ∧ pricing.Values sort values := by
  obtain ⟨features, hfeatures, heq⟩ := Outcome.bind_eq_ok_iff.1 h
  cases heq
  have hoverrides := hpricing.planOverrides hplan
  have hactive := hpricing.requestedAddOns requested
  cases sort with
  | feature =>
    exact ⟨features, rfl, values_of_traverse rfl (fun _ => rfl)
      (fun id f v hmem hmade => admits_featureValue hoverrides hactive
        (hpricing.features _ hmem) hmade) hfeatures⟩
  | usageLimit =>
    refine ⟨_, rfl, values_of_traverse (ε := Unit) rfl (fun _ => rfl)
      (fun id u v hmem hmade => ?_) (Table.traverse_ok (usageLimitValue overrides _) _)⟩
    cases hmade
    exact admits_usageLimitValue hoverrides hactive id (hpricing.usageLimits _ hmem)

end Pricing

/-! ## The bytes of a snapshot -/

/-- What a snapshot grants of a sort of capability of a pricing. -/
structure Snapshot.Grants (s : Snapshot) (pricing : Pricing) (sort : Capability) : Prop where
  /-- The identifiers are those of the catalog, in its order. -/
  ids : (s.values sort).map Prod.fst = (pricing.capabilities sort).map Value.text
  /-- Every value is a scalar, and finite if it is a number. -/
  scalars : ∀ entry ∈ s.values sort, ∃ valueType : ValueType, valueType.HoldsValue entry.2
  /-- The value of an identifier is of the type that the catalog declares for it. -/
  typed : ∀ id v, (s.values sort).get? id = some v → ∃ valueType,
    pricing.toCatalog.type? sort id = some valueType ∧ valueType.HoldsValue v
  /-- The payload leaves nothing out. -/
  payload : (Payload.ofSnapshot s).entries sort = s.values sort
  /-- Only what the catalog has not is unknown. -/
  unknown : ∀ id, s.value sort id = .error (.unknownCapability sort id) ↔
    pricing.toCatalog.has sort id = false

namespace Pricing.Values

variable {pricing : Pricing} {sort : Capability} {values : Table Value} {s : Snapshot}

/-- A section whose values are scalars has no nulls to leave out. -/
theorem sectionOf_eq (h : pricing.Values sort values) :
    Payload.sectionOf (Fields.ofTable values) = Fields.ofTable values := by
  refine List.filter_eq_self.2 fun entry hentry => ?_
  obtain ⟨made, hmade, rfl⟩ := List.mem_map.1 hentry
  obtain ⟨valueType, scalar, hscalar, -⟩ := h.scalars made hmade
  show (!made.2.isNull) = true
  rw [hscalar]
  rfl

theorem grants (h : pricing.Values sort values) (hvalues : s.values sort = Fields.ofTable values) :
    s.Grants pricing sort where
  ids := by
    rw [hvalues, ← h.names]
    simp [Fields.ofTable, Table.names]
  scalars entry hentry := by
    rw [hvalues] at hentry
    obtain ⟨made, hmade, rfl⟩ := List.mem_map.1 hentry
    exact h.scalars made hmade
  typed id v hv := by
    rw [hvalues, Fields.get?_ofTable] at hv
    exact h.typed id v hv
  payload := by
    rw [Snapshot.entries_ofSnapshot, hvalues, h.sectionOf_eq]
  unknown id := by
    have hhas := pricing.has_eq_true_iff sort id
    rw [← h.names, ← Table.exists_get?_iff] at hhas
    unfold Snapshot.value
    rw [hvalues, Fields.get?_ofTable, ← Bool.not_eq_true, hhas]
    cases values.get? id <;> simp

end Pricing.Values

/-- A snapshot whose sections are values of a pricing has bytes exactly if its integers have
texts, and nothing else can be in the way. What is written are tables of finite scalars, so it
does not matter whether an identifier occurs twice. -/
theorem Snapshot.serializedBytes_of_values {s : Snapshot} {pricing : Pricing}
    (h : ∀ sort, ∃ values, s.values sort = Fields.ofTable values ∧ pricing.Values sort values) :
    ((∃ content, s.serializedBytes = .ok content) ↔
      ∀ sort, ∀ entry ∈ s.values sort, ∀ n, entry.2 = .int n → Text.isWritable n = true) ∧
    Outcome.FailsOnly (· = .overlong) s.serializedBytes := by
  have hsection : ∀ sort, ∃ values, (Payload.ofSnapshot s).entries sort = Fields.ofTable values ∧
      s.values sort = Fields.ofTable values ∧ pricing.Values sort values := by
    intro sort
    obtain ⟨values, heq, hvalues⟩ := h sort
    exact ⟨values, (hvalues.grants heq).payload.trans heq, heq, hvalues⟩
  constructor
  · rw [exists_serializedBytes_iff_sections]
    refine forall_congr' fun sort => ?_
    obtain ⟨values, hpayload, heq, hvalues⟩ := hsection sort
    rw [hpayload, heq, Json.exists_valueText_mapping_iff]
    unfold Fields.ofTable
    rw [List.forall_mem_map]
    refine forall₂_congr fun entry hentry => ?_
    obtain ⟨valueType, scalar, hscalar, hholds⟩ := hvalues.scalars entry hentry
    rw [hscalar, Json.valueText, Json.exists_scalarText_iff]
    constructor
    · intro hnumber n hn
      exact (hnumber (.int n) (Value.scalar.inj hn)).2
    · rintro hint n rfl
      refine ⟨hholds.isFinite, ?_⟩
      cases n with
      | int n => exact hint n rfl
      | float x => rfl
  · refine failsOnly_serializedBytes fun sort => ?_
    obtain ⟨values, hpayload, -, hvalues⟩ := hsection sort
    rw [hpayload]
    refine Json.failsOnly_valueText_mapping fun entry hentry => ?_
    obtain ⟨valueType, scalar, hscalar, hholds⟩ := hvalues.scalars entry hentry
    rw [hscalar, Json.valueText]
    refine Json.failsOnly_scalarText ?_
    rintro n rfl
    exact hholds.isFinite

/-- The integer that a value is. -/
def Value.int? : Value → Option Int
  | .int n => some n
  | _ => none

theorem Value.int?_eq_some_iff {v : Value} {n : Int} : v.int? = some n ↔ v = .int n := by
  unfold int?
  split
  · next m => simp
  · next hother => exact ⟨nofun, fun heq => absurd heq (hother n)⟩

namespace Request

variable {limits : Limits} {document : Value} {pricing : Pricing}
variable {request : Request} {s : Snapshot}

/-- The sections of an answer are values of the pricing. -/
theorem exists_values_of_answer (hpricing : (Pricing.ofValue limits document).result = .ok pricing)
    (hanswer : request.answer pricing = .ok s) (sort : Capability) :
    ∃ values, s.values sort = Fields.ofTable values ∧ pricing.Values sort values := by
  have htyped := Pricing.isTyped_of_ofValue hpricing
  obtain ⟨plan, overrides, requested, bindings, -, hplan, -, -, hgrant⟩ := answer_eq_ok hanswer
  exact htyped.values_of_grant hplan hgrant sort

/-- Every answer to a request, whatever the request is, has a value of its type for each
capability of the pricing. It has bytes exactly if each of its integers has a text, and an
integer of too many digits is all that can be in the way. -/
theorem answer_total (hpricing : (Pricing.ofValue limits document).result = .ok pricing)
    (hanswer : request.answer pricing = .ok s) :
    (∀ sort, s.Grants pricing sort) ∧
    ((∃ content, s.serializedBytes = .ok content) ↔
      ∀ sort, ∀ entry ∈ s.values sort, ∀ n, entry.2 = .int n → Text.isWritable n = true) ∧
    ∀ fault, s.serializedBytes = .error fault → fault = .overlong := by
  have hvalues := exists_values_of_answer hpricing hanswer
  obtain ⟨hwritten, hfails⟩ := Snapshot.serializedBytes_of_values hvalues
  refine ⟨fun sort => ?_, hwritten, hfails⟩
  obtain ⟨values, heq, hsort⟩ := hvalues sort
  exact hsort.grants heq

/-- A document with a feature that has a formula, beside one with a default. -/
def quotaDocument : Value :=
  .mapping [
    (.text "syntaxVersion", .text "2.0"),
    (.text "saasName", .text "Demo"), (.text "currency", .text "EUR"),
    (.text "createdAt", .text "2024-08-31"), (.text "variables", .mapping [(.text "n", .int 1)]),
    (.text "features", .mapping [
      (.text "quota", .mapping [(.text "type", .text "CAPABILITY"),
        (.text "valueType", .text "NUMERIC"), (.text "formula", .text "n * 2")]),
      (.text "sso", .mapping [(.text "type", .text "CAPABILITY"),
        (.text "valueType", .text "BOOLEAN"), (.text "defaultValue", .bool false)])]),
    (.text "plans", .mapping [(.text "basic", .mapping [])])]

/-- A request that gives a value to the variable of the formula, and to a name that there is
not a value that is no value of a variable. -/
def quotaRequest : Request where
  plan := .text "basic"
  bindings := .mapping [(.text "n", .int 7), (.text "other", .foreign "object")]

/-- The answer to that request is total, with a value that the formula gives and one that is
a default, and has bytes. -/
theorem answer_total_quota :
    ∃ pricing s, (Pricing.ofValue ⟨64, 1000⟩ quotaDocument).result = .ok pricing ∧
      quotaRequest.answer pricing = .ok s ∧
      (∀ sort, s.Grants pricing sort) ∧ ∃ content, s.serializedBytes = .ok content := by
  have hrun : ((Pricing.ofValue ⟨64, 1000⟩ quotaDocument).result.toOption.bind fun pricing =>
      (quotaRequest.answer pricing).toOption.map fun s => (s.features, s.usageLimits)) =
        some ([(.text "quota", .int 14), (.text "sso", .bool false)], []) := by
    with_unfolding_all rfl
  obtain ⟨pricing, hpricing, hs⟩ := Option.bind_eq_some_iff.1 hrun
  obtain ⟨s, hanswer, hsections⟩ := Option.map_eq_some_iff.1 hs
  rw [Outcome.toOption_eq_some_iff] at hpricing hanswer
  obtain ⟨hfeatures, husageLimits⟩ := Prod.mk.inj hsections
  obtain ⟨hgrants, hwritten, -⟩ := answer_total hpricing hanswer
  refine ⟨pricing, s, hpricing, hanswer, hgrants, hwritten.2 fun sort entry hentry n hn => ?_⟩
  cases sort with
  | feature =>
    rw [Snapshot.values, hfeatures] at hentry
    simp only [List.mem_cons, List.not_mem_nil, or_false] at hentry
    rcases hentry with rfl | rfl <;> cases hn
    rfl
  | usageLimit =>
    rw [Snapshot.values, husageLimits] at hentry
    cases hentry

/-- A request that gives the variable of the formula an integer. -/
def integerRequest (n : Int) : Request where
  plan := .text "basic"
  bindings := .mapping [(.text "n", .int n)]

/-- The answer to that request has a numeric value for the quota, and no bytes. -/
theorem answer_without_bytes :
    ∃ pricing s, (Pricing.ofValue ⟨64, 1000⟩ quotaDocument).result = .ok pricing ∧
      (integerRequest Text.leastUnwritable).answer pricing = .ok s ∧
      s.features.get? "quota" = some (.int (Text.leastUnwritable * 2)) ∧
      s.serializedBytes = .error .overlong := by
  have hrun : ∀ n, ((Pricing.ofValue ⟨64, 1000⟩ quotaDocument).result.toOption.bind fun pricing =>
      ((integerRequest n).answer pricing).toOption.bind fun s =>
        (s.features.get? "quota").bind Value.int?) = some (n * 2) := by
    intro n
    with_unfolding_all rfl
  obtain ⟨pricing, hpricing, hs⟩ := Option.bind_eq_some_iff.1 (hrun Text.leastUnwritable)
  obtain ⟨s, hanswer, hquota⟩ := Option.bind_eq_some_iff.1 hs
  obtain ⟨v, hv, hint⟩ := Option.bind_eq_some_iff.1 hquota
  rw [Outcome.toOption_eq_some_iff] at hpricing hanswer
  obtain rfl := Value.int?_eq_some_iff.1 hint
  have hhuge : ¬Text.isWritable (Text.leastUnwritable * 2) = true := by
    intro hwritable
    have hle : Text.leastUnwritable.natAbs ≤ (Text.leastUnwritable * 2).natAbs := by
      rw [Int.natAbs_mul]
      exact Nat.le_mul_of_pos_right _ (by decide)
    have hleast := Text.isWritable_of_natAbs_le hle hwritable
    rw [Text.isWritable_leastUnwritable] at hleast
    cases hleast
  obtain ⟨hwritten, hfails⟩ :=
    Snapshot.serializedBytes_of_values (exists_values_of_answer hpricing hanswer)
  refine ⟨pricing, s, hpricing, hanswer, hv, ?_⟩
  cases hbytes : s.serializedBytes with
  | ok content =>
    exact absurd (hwritten.1 ⟨content, hbytes⟩ .feature _ (Fields.mem_of_get? hv) _ rfl) hhuge
  | error fault => rw [hfails fault hbytes]

end Request

end Tariff
