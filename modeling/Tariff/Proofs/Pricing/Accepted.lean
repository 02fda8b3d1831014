import Tariff.Proofs.Pricing.Offers
import Tariff.Proofs.Text.Digits

/-!
# When a document is read

A document in the current syntax is read exactly if it has the format of
`Value.IsCanonical` (`Pricing.ofCanonical_accepts_iff`). Nothing else is refused, and
nothing else is let pass.

The sections are read one after the other, and the later ones refer to the earlier ones.
What has been read of a section matches its entries in the document one by one, so that
references into what was read are references into the document.
-/

namespace Tariff

open Outcome (Succeeds succeeds_bind_iff)

/-! ## Attributes -/

theorem Temporal.canonicalInstant_eq_ok_iff {field t : String} {i : Instant} :
    canonicalInstant field t = .ok i ↔
      ∃ m, Iso.moment? t = some m ∧ m.isNaive = false ∧ m.toInstant? = some i := by
  unfold canonicalInstant
  split
  · next hnone => simp [hnone]
  · next m hm =>
    simp only [hm, Option.some.injEq, exists_eq_left']
    split
    · next hnaive => simp [hnaive]
    · next hoffset =>
      unfold instantOf
      cases m.toInstant? with
      | none => simp
      | some j => simp [hoffset]

namespace Attributes

variable {root : Node} {document : Value} {key : String}

theorem succeeds_instantOf_iff (h : root.Shows document) (hv : document.IsMapping) :
    Succeeds (instantOf root key) ↔ document.Allows key Value.IsInstant := by
  refine h.succeeds_optional_iff hv fun child w hshows => ?_
  rw [succeeds_bind_iff]
  simp only [hshows.asText_eq_ok_iff, Succeeds, Temporal.canonicalInstant_eq_ok_iff,
    Value.IsInstant, Value.moment?, Option.bind_eq_some_iff]
  constructor
  · rintro ⟨t, ht, i, m, hm, hoffset, hi⟩
    exact ⟨m, ⟨t, ht, hm⟩, hoffset, Moment.toInstant?_isSome_iff.1 (by rw [hi]; rfl)⟩
  · rintro ⟨m, ⟨t, ht, hm⟩, hoffset, hrange⟩
    obtain ⟨i, hi⟩ := Option.isSome_iff_exists.1 (Moment.toInstant?_isSome_iff.2 hrange)
    exact ⟨t, ht, i, m, hm, hoffset, hi⟩

/-- An instant that was read is the point in time of the moment in the field. -/
theorem microseconds_of_instantOf {i? : Option Instant} (h : root.Shows document)
    (hread : instantOf root key = .ok i?) :
    i?.map Instant.microseconds =
      ((document.field? key).bind Value.moment?).map Moment.utcMicroseconds := by
  rcases h.optional hread with ⟨habsent, rfl⟩ | ⟨w, child, i, hfield, hshows, hi, rfl⟩
  · rw [habsent]
    rfl
  · obtain ⟨t, ht, hi⟩ := Outcome.bind_eq_ok_iff.1 hi
    obtain ⟨m, hm, -, hinstant⟩ := Temporal.canonicalInstant_eq_ok_iff.1 hi
    have htext := hshows.asText_eq_ok_iff.1 ht
    rw [hfield, Option.bind_some]
    unfold Value.moment?
    rw [htext, Option.bind_some, hm, Option.map_some, Option.map_some,
      Moment.microseconds_of_toInstant? hinstant]

theorem succeeds_checkOrder_iff {starts ends : Option Instant} :
    Succeeds (checkOrder starts ends) ↔
      ∀ s e, starts.map Instant.microseconds = some s → ends.map Instant.microseconds = some e →
        s ≤ e := by
  cases starts with
  | none => exact ⟨fun _ => nofun, fun _ => ⟨(), rfl⟩⟩
  | some starts =>
    cases ends with
    | none => exact ⟨fun _ _ _ _ => nofun, fun _ => ⟨(), rfl⟩⟩
    | some ends =>
      unfold checkOrder Instant.before Succeeds
      by_cases hbefore : ends.microseconds < starts.microseconds
      · simp [hbefore]
      · simp [hbefore]
        omega

theorem succeeds_labelOf_iff {node : Node} {v : Value} (h : node.Shows v) :
    Succeeds (labelOf node) ↔ v.IsLabel := by
  unfold labelOf Value.IsLabel Value.IsText
  simp only [h.scalar_iff, ← h.asText_eq_ok_iff]
  split
  · next path n =>
    have htext : ¬∃ t, (Node.scalar path (.number n)).asText = .ok t := by
      rintro ⟨t, ht⟩
      cases ht
    rw [or_iff_right htext]
    split
    · next hwritable => exact ⟨fun _ => ⟨n, ⟨path, rfl⟩, hwritable⟩, fun _ => ⟨_, rfl⟩⟩
    · next hunwritable =>
      constructor
      · rintro ⟨t, ht⟩
        cases ht
      · rintro ⟨_, ⟨_, heq⟩, hwritable⟩
        cases heq
        exact absurd hwritable hunwritable
  · next hne =>
    simp only [Succeeds, Outcome.lift_eq_ok_iff]
    constructor
    · exact .inl
    · rintro (htext | ⟨n, ⟨path, rfl⟩, -⟩)
      · exact htext
      · exact absurd rfl (hne path n)

theorem succeeds_createdAtOf_iff (h : root.Shows document) (hv : document.IsMapping) :
    Succeeds (createdAtOf root) ↔ document.Requires "createdAt" Value.IsDate := by
  refine h.succeeds_require_iff hv fun child w hshows => ?_
  simp only [succeeds_bind_iff, hshows.asText_eq_ok_iff, Value.IsDate]
  refine exists_congr fun t => ?_
  rw [exists_and_left]
  refine and_congr_right fun _ => ?_
  unfold Temporal.canonicalDate Succeeds
  cases Iso.date? t <;> simp

theorem succeeds_ofNode_iff (h : root.Shows document) (hv : document.IsMapping) :
    Succeeds (Attributes.ofNode root) ↔ document.HasAttributes := by
  have hlabel : Succeeds (root.optionalLifted "version" labelOf) ↔
      document.Allows "version" Value.IsLabel :=
    h.succeeds_optionalLifted_iff hv fun child w hshows => succeeds_labelOf_iff hshows
  have hordered : ∀ {starts ends}, instantOf root "starts" = .ok starts →
      instantOf root "ends" = .ok ends → (Succeeds (checkOrder starts ends) ↔
        ∀ s e, (document.field? "starts").bind Value.moment? = some s →
          (document.field? "ends").bind Value.moment? = some e →
            s.utcMicroseconds ≤ e.utcMicroseconds) := fun hstarts hends => by
    rw [succeeds_checkOrder_iff, microseconds_of_instantOf h hstarts,
      microseconds_of_instantOf h hends]
    simp only [Option.map_eq_some_iff]
    constructor
    · exact fun hall s e hs he => hall _ _ ⟨s, hs, rfl⟩ ⟨e, he, rfl⟩
    · rintro hall _ _ ⟨s, hs, rfl⟩ ⟨e, he, rfl⟩
      exact hall s e hs he
  simp only [Attributes.ofNode, succeeds_bind_iff, Outcome.lift_eq_ok_iff]
  constructor
  · rintro ⟨saasName, hsaasName, currency, hcurrency, createdAt, hcreatedAt, annual?, hannual,
      starts, hstarts, ends, hends, ordered, horder, url, hurl, label, hlabelRead, bindings,
      hbindings, -⟩
    exact {
      saasName := (h.succeeds_required_text_iff hv).1 ⟨saasName, hsaasName⟩
      currency := (h.succeeds_required_text_iff hv).1 ⟨currency, hcurrency⟩
      createdAt := (succeeds_createdAtOf_iff h hv).1 ⟨createdAt, hcreatedAt⟩
      hasAnnualPayment := (h.succeeds_bool_iff hv).1 ⟨annual?, hannual⟩
      starts := (succeeds_instantOf_iff h hv).1 ⟨starts, hstarts⟩
      ends := (succeeds_instantOf_iff h hv).1 ⟨ends, hends⟩
      ordered := (hordered hstarts hends).1 ⟨ordered, horder⟩
      url := (h.succeeds_text_iff hv).1 ⟨url, hurl⟩
      label := hlabel.1 ⟨label, hlabelRead⟩
      bindings := (h.succeeds_declaredBindings_iff hv).1 ⟨bindings, hbindings⟩ }
  · intro ha
    obtain ⟨saasName, hsaasName⟩ := (h.succeeds_required_text_iff hv).2 ha.saasName
    obtain ⟨currency, hcurrency⟩ := (h.succeeds_required_text_iff hv).2 ha.currency
    obtain ⟨createdAt, hcreatedAt⟩ := (succeeds_createdAtOf_iff h hv).2 ha.createdAt
    obtain ⟨annual?, hannual⟩ := (h.succeeds_bool_iff hv).2 ha.hasAnnualPayment
    obtain ⟨starts, hstarts⟩ := (succeeds_instantOf_iff h hv).2 ha.starts
    obtain ⟨ends, hends⟩ := (succeeds_instantOf_iff h hv).2 ha.ends
    obtain ⟨ordered, horder⟩ := (hordered hstarts hends).2 ha.ordered
    obtain ⟨url, hurl⟩ := (h.succeeds_text_iff hv).2 ha.url
    obtain ⟨label, hlabelRead⟩ := hlabel.2 ha.label
    obtain ⟨bindings, hbindings⟩ := (h.succeeds_declaredBindings_iff hv).2 ha.bindings
    exact ⟨saasName, hsaasName, currency, hcurrency, createdAt, hcreatedAt, annual?, hannual,
      starts, hstarts, ends, hends, ordered, horder, url, hurl, label, hlabelRead, bindings,
      hbindings, _, rfl⟩

end Attributes

/-! ## Sections -/

namespace Table

variable {α : Type} {R : String → α → Value → Prop} {t : Table α} {entries : Fields}

theorem Matches.has_eq (h : t.Matches R entries) (name : String) :
    t.has name = entries.has name := by
  have hrel := h.get? name
  rw [Fields.has_eq_isSome_get?]
  unfold Table.has
  generalize t.get? name = a? at hrel ⊢
  generalize entries.get? name = v? at hrel ⊢
  cases hrel <;> rfl

theorem Matches.isEmpty_iff (h : t.Matches R entries) : t.isEmpty = true ↔ entries = [] := by
  cases h <;> simp

end Table

namespace Pricing

variable {limits : Limits} {version : Version} {root : Node} {document : Value}

theorem result_sectionOf {α : Type} {part : Section}
    {read : Table Node → Except ParseError (Table α)} {node : Node} :
    (sectionOf part read node).result = ParseError.ofConfig node.asMapping >>= read := by
  simp only [sectionOf, Logged.result_bind, result_phase, Logged.result_pure, Logged.result_emit]
  cases ParseError.ofConfig node.asMapping with
  | error e => rfl
  | ok fields =>
    show (read fields >>= fun made => .ok made) = read fields
    cases read fields <;> rfl

/-- A section that is read entry by entry is read if it is a mapping of entries that have
the format. -/
theorem succeeds_sectionOf_iff {α : Type} {part : Section}
    {read : Table Node → Except ParseError (Table α)} {node : Node} {v : Value}
    {Q : String → Value → Prop} (h : node.Shows v)
    (hread : ∀ fields entries, v = .mapping entries → Node.ShowAll fields entries →
      (Succeeds (read fields) ↔ ∀ name w, (Value.text name, w) ∈ entries → Q name w)) :
    Succeeds (sectionOf part read node).result ↔ v.MapsTo Q := by
  rw [result_sectionOf, succeeds_bind_iff]
  simp only [Outcome.ofConfig_eq_ok_iff]
  constructor
  · rintro ⟨fields, hfields, hmade⟩
    obtain ⟨entries, rfl, hentries⟩ := h.asMapping hfields
    exact ⟨entries, rfl, (hread fields entries rfl hentries).1 hmade⟩
  · rintro ⟨entries, rfl, hformat⟩
    obtain ⟨fields, hfields⟩ := h.succeeds_asMapping_iff.2 ⟨entries, rfl⟩
    obtain ⟨entries', heq, hentries⟩ := h.asMapping hfields
    cases heq
    exact ⟨fields, hfields, (hread fields entries rfl hentries).2 hformat⟩

theorem succeeds_optionalSection_iff {α : Type} {part : Section}
    {read : Table Node → Except ParseError (Table α)} {Q : String → Value → Prop}
    (h : root.Shows document) (hv : document.IsMapping)
    (hread : ∀ fields, Node.ShowAll fields (document.entriesIn part.key) →
      (Succeeds (read fields) ↔
        ∀ name w, (Value.text name, w) ∈ document.entriesIn part.key → Q name w)) :
    Succeeds (optionalSection part read root).result ↔
      document.Allows part.key (Value.MapsTo · Q) := by
  obtain ⟨child?, hchild, hrel⟩ := h.exists_get? hv part.key
  unfold optionalSection Value.Allows
  rw [Logged.result_bind, result_phase, hchild]
  generalize hfield : document.field? part.key = w? at hrel ⊢
  cases hrel with
  | none => exact ⟨fun _ => nofun, fun _ => ⟨[], rfl⟩⟩
  | @some child w hshows =>
    show Succeeds (sectionOf part read child).result ↔ _
    simp only [Option.some.injEq, forall_eq']
    refine succeeds_sectionOf_iff hshows fun fields entries heq hentries => ?_
    have hsection : document.entriesIn part.key = entries := by
      unfold Value.entriesIn
      rw [hfield, heq]
    rw [← hsection] at hentries ⊢
    exact hread fields hentries

/-! ## The four sections -/

/-- Whether features are those of the entries of a document, as far as later sections ask. -/
abbrev FeaturesOf (features : Table Feature) (document : Value) : Prop :=
  features.Matches (fun _ f v => v.valueType? = some f.valueType) (document.entriesIn "features")

/-- Whether usage limits are those of the entries of a document, as far as later sections
ask. -/
abbrev UsageLimitsOf (usageLimits : Table UsageLimit) (document : Value) : Prop :=
  usageLimits.Matches (fun _ u v => v.valueType? = some u.valueType)
    (document.entriesIn "usageLimits")

theorem Catalog.isOf_of_matches {catalog : Catalog} (hfeatures : FeaturesOf catalog.features document)
    (husageLimits : UsageLimitsOf catalog.usageLimits document) : catalog.IsOf document where
  features id := by
    have hrel := hfeatures.get? id
    unfold Catalog.featureType?
    generalize catalog.features.get? id = f? at hrel ⊢
    generalize (document.entriesIn "features").get? id = v? at hrel ⊢
    cases hrel with
    | none => rfl
    | some htype => exact htype.symm
  usageLimits id := by
    have hrel := husageLimits.get? id
    unfold Catalog.usageLimitType?
    generalize catalog.usageLimits.get? id = u? at hrel ⊢
    generalize (document.entriesIn "usageLimits").get? id = v? at hrel ⊢
    cases hrel with
    | none => rfl
    | some htype => exact htype.symm

theorem succeeds_features_iff (h : root.Shows document) (hv : document.IsMapping) :
    (∃ node, root.require "features" = .ok node ∧ Succeeds (sectionOf .features
      (fun entries => ParseError.ofRefusal (Feature.catalogOf limits entries)) node).result) ↔
    document.Requires "features" (Value.MapsTo · fun _ => Value.IsFeature limits) := by
  have hsection : ∀ {node w}, node.Shows w → (Succeeds (sectionOf .features
      (fun entries => ParseError.ofRefusal (Feature.catalogOf limits entries)) node).result ↔
        w.MapsTo fun _ => Value.IsFeature limits) := fun hshows =>
    succeeds_sectionOf_iff hshows fun fields entries _ hentries => by
      rw [Outcome.succeeds_ofRefusal_iff]
      exact hentries.succeeds_traverse_iff fun id child v hshows =>
        Feature.succeeds_ofNode_iff hshows
  constructor
  · rintro ⟨node, hnode, hread⟩
    obtain ⟨w, hw, hshows⟩ := h.require hnode
    exact ⟨w, hw, (hsection hshows).1 hread⟩
  · rintro ⟨w, hw, hformat⟩
    have hrequired : Succeeds (root.require "features" >>= Node.asMapping) :=
      (h.succeeds_require_iff (P := Value.IsMapping) hv
        fun child v hshows => hshows.succeeds_asMapping_iff).2
        ⟨w, hw, hformat.elim fun entries hentries => ⟨entries, hentries.1⟩⟩
    obtain ⟨node, hnode, -⟩ := succeeds_bind_iff.1 hrequired
    obtain ⟨w', hw', hshows⟩ := h.require hnode
    cases hw.symm.trans hw'
    exact ⟨node, hnode, (hsection hshows).2 hformat⟩

theorem featuresOf_of_read {node : Node} {features : Table Feature} (h : root.Shows document)
    (hnode : root.require "features" = .ok node)
    (hread : (sectionOf .features
      (fun entries => ParseError.ofRefusal (Feature.catalogOf limits entries)) node).result =
        .ok features) : FeaturesOf features document := by
  obtain ⟨fields, hfields, hmade⟩ := sectionOf_eq_ok hread
  rw [Outcome.ofRefusal_eq_ok_iff] at hmade
  refine ((h.fieldsIn (fieldsIn_of_require hnode hfields)).traverse hmade).imp
    fun made entry hentry => ⟨hentry.1, ?_⟩
  obtain ⟨child, hshows, hchild⟩ := hentry.2
  exact Feature.valueType_of_ofNode hshows hchild

theorem succeeds_usageLimits_iff {features : Table Feature} (h : root.Shows document)
    (hv : document.IsMapping) (hfeatures : FeaturesOf features document) :
    Succeeds (optionalSection .usageLimits
      (fun entries => ParseError.ofConfig (UsageLimit.catalogOf features entries)) root).result ↔
    document.Allows "usageLimits" (Value.MapsTo · fun _ => Value.IsUsageLimit document) := by
  refine succeeds_optionalSection_iff h hv fun fields hentries => ?_
  rw [Outcome.succeeds_ofConfig_iff]
  refine hentries.succeeds_traverse_iff fun id child v hshows =>
    UsageLimit.succeeds_ofNode_iff (fun name => ?_) hshows
  rw [hfeatures.has_eq, Value.Declares]

theorem usageLimitsOf_of_read {features : Table Feature} {usageLimits : Table UsageLimit}
    (h : root.Shows document)
    (hread : (optionalSection .usageLimits
      (fun entries => ParseError.ofConfig (UsageLimit.catalogOf features entries)) root).result =
        .ok usageLimits) : UsageLimitsOf usageLimits document := by
  obtain ⟨fields, hfields, hmade⟩ := optionalSection_eq_ok hread rfl
  rw [Outcome.ofConfig_eq_ok_iff] at hmade
  refine ((h.fieldsIn hfields).traverse hmade).imp fun made entry hentry => ⟨hentry.1, ?_⟩
  obtain ⟨child, hshows, hchild⟩ := hentry.2
  exact UsageLimit.valueType_of_ofNode hshows hchild

section Offers

variable {catalog : Catalog} {bindings : Table Scalar}

theorem succeeds_plans_iff (h : root.Shows document) (hv : document.IsMapping)
    (hcatalog : catalog.IsOf document)
    (hbindings : Node.BindsAll bindings (document.entriesIn "variables")) :
    Succeeds (optionalSection .plans (Plan.catalogOf limits catalog bindings) root).result ↔
      document.Allows "plans" (Value.MapsTo · fun _ => Value.IsPlan limits document) :=
  succeeds_optionalSection_iff h hv fun _ hentries =>
    hentries.succeeds_traverse_iff fun _ _ _ hshows =>
      Plan.succeeds_ofNode_iff hcatalog hbindings hshows

/-- The things of an optional section are as many as its entries, under the same names. -/
theorem matches_of_optionalSection {α : Type} {part : Section}
    {read : Table Node → Except ParseError (Table α)} {made : Table α} (h : root.Shows document)
    (hentries : ∀ fields, ∃ f : String → Node → Except ParseError α, read fields = fields.traverse f)
    (hread : (optionalSection part read root).result = .ok made) :
    made.Matches (fun _ _ _ => True) (document.entriesIn part.key) := by
  have hnone : read [] = .ok [] := (hentries []).elim fun f hf => hf
  obtain ⟨fields, hfields, hmade⟩ := optionalSection_eq_ok hread hnone
  obtain ⟨f, hf⟩ := hentries fields
  rw [hf] at hmade
  exact ((h.fieldsIn hfields).traverse hmade).imp fun made entry hentry => ⟨hentry.1, trivial⟩

theorem plansOf_of_read {plans : Table Plan} (h : root.Shows document)
    (hread : (optionalSection .plans (Plan.catalogOf limits catalog bindings) root).result =
      .ok plans) : plans.Matches (fun _ _ _ => True) (document.entriesIn "plans") :=
  matches_of_optionalSection h (fun _ => ⟨_, rfl⟩) hread

theorem addOnsOf_of_read {plans : Table Plan} {addOns : Table AddOn} (h : root.Shows document)
    (hread : (optionalSection .addOns (AddOn.catalogOf limits catalog bindings plans) root).result =
      .ok addOns) : addOns.Matches (fun _ _ _ => True) (document.entriesIn "addOns") :=
  matches_of_optionalSection h (fun _ => ⟨_, rfl⟩) hread

theorem succeeds_addOns_iff {plans : Table Plan} (h : root.Shows document)
    (hv : document.IsMapping) (hcatalog : catalog.IsOf document)
    (hbindings : Node.BindsAll bindings (document.entriesIn "variables"))
    (hplans : plans.Matches (fun _ _ _ => True) (document.entriesIn "plans")) :
    Succeeds (optionalSection .addOns (AddOn.catalogOf limits catalog bindings plans) root).result ↔
      document.Allows "addOns" (Value.MapsTo · (Value.IsAddOn limits document)) := by
  refine succeeds_optionalSection_iff h hv fun fields hentries => ?_
  refine hentries.succeeds_traverse_iff fun name child v hshows =>
    AddOn.succeeds_ofNode_iff hcatalog hbindings (fun plan => ?_) (fun other => ?_) hshows
  · rw [hplans.has_eq, Value.Declares]
  · rw [Table.Matches.has_eq hentries, Value.Declares]
    rfl

end Offers

/-! ## Documents -/

theorem hasAttributes_of_ofCanonical {pricing : Pricing}
    (h : (ofCanonical limits document version).result = .ok pricing) : document.HasAttributes := by
  simp only [ofCanonical, ofNode, Logged.result_bind, result_phase, Outcome.bind_eq_ok_iff,
    Outcome.ofConfig_eq_ok_iff, Outcome.ofRefusal_eq_ok_iff] at h
  obtain ⟨root, hroot, fields, hfields, attributes, hattributes, -⟩ := h
  have hshows := Node.shows_of_ofValue hroot
  exact (Attributes.succeeds_ofNode_iff hshows (hshows.succeeds_asMapping_iff.1
    ⟨fields, hfields⟩)).1 ⟨attributes, hattributes⟩

/-- A document is read as a pricing exactly if it has the format of the current syntax. -/
theorem ofCanonical_accepts_iff (limits : Limits) (document : Value) (version : Version) :
    (∃ pricing, (ofCanonical limits document version).result = .ok pricing) ↔
      document.IsCanonical limits := by
  change Succeeds _ ↔ _
  simp only [ofCanonical, ofNode, Logged.result_bind, result_phase, succeeds_bind_iff,
    Outcome.ofConfig_eq_ok_iff, Outcome.ofRefusal_eq_ok_iff]
  constructor
  · rintro ⟨root, hroot, fields, hfields, attributes, hattributes, node, hnode, features, hfeatures,
      usageLimits, husageLimits, plans, hplans, addOns, haddOns, hoffered⟩
    have h := Node.shows_of_ofValue hroot
    have hv := h.succeeds_asMapping_iff.1 ⟨fields, hfields⟩
    have hbindings := h.declaredBindings (bindings_of_ofNode hattributes)
    have hfeaturesOf := featuresOf_of_read h hnode hfeatures
    have hcatalog : Catalog.IsOf ⟨features, usageLimits⟩ document :=
      Catalog.isOf_of_matches hfeaturesOf (usageLimitsOf_of_read h husageLimits)
    have hplansOf := plansOf_of_read h hplans
    have haddOnsOf := addOnsOf_of_read h haddOns
    exact {
      toHasAttributes := (Attributes.succeeds_ofNode_iff h hv).1 ⟨attributes, hattributes⟩
      tree := ⟨root, hroot⟩
      mapping := hv
      features := (succeeds_features_iff h hv).1 ⟨node, hnode, features, hfeatures⟩
      usageLimits := (succeeds_usageLimits_iff h hv hfeaturesOf).1 ⟨usageLimits, husageLimits⟩
      plans := (succeeds_plans_iff h hv hcatalog hbindings).1 ⟨plans, hplans⟩
      addOns := (succeeds_addOns_iff h hv hcatalog hbindings hplansOf).1 ⟨addOns, haddOns⟩
      offered := by
        obtain ⟨pricing, hpricing⟩ := hoffered
        split at hpricing
        · cases hpricing
        · next hsome =>
          rw [Bool.and_eq_true, hplansOf.isEmpty_iff, haddOnsOf.isEmpty_iff] at hsome
          exact Classical.not_and_iff_not_or_not.1 hsome }
  · intro hd
    obtain ⟨root, hroot⟩ := hd.tree
    have h := Node.shows_of_ofValue hroot
    have hv := hd.mapping
    obtain ⟨fields, hfields⟩ := h.succeeds_asMapping_iff.2 hv
    obtain ⟨attributes, hattributes⟩ :=
      (Attributes.succeeds_ofNode_iff h hv).2 hd.toHasAttributes
    have hbindings := h.declaredBindings (bindings_of_ofNode hattributes)
    obtain ⟨node, hnode, features, hfeatures⟩ := (succeeds_features_iff h hv).2 hd.features
    have hfeaturesOf := featuresOf_of_read h hnode hfeatures
    obtain ⟨usageLimits, husageLimits⟩ :=
      (succeeds_usageLimits_iff h hv hfeaturesOf).2 hd.usageLimits
    have hcatalog : Catalog.IsOf ⟨features, usageLimits⟩ document :=
      Catalog.isOf_of_matches hfeaturesOf (usageLimitsOf_of_read h husageLimits)
    obtain ⟨plans, hplans⟩ := (succeeds_plans_iff h hv hcatalog hbindings).2 hd.plans
    have hplansOf := plansOf_of_read h hplans
    obtain ⟨addOns, haddOns⟩ :=
      (succeeds_addOns_iff h hv hcatalog hbindings hplansOf).2 hd.addOns
    have haddOnsOf := addOnsOf_of_read h haddOns
    refine ⟨root, hroot, fields, hfields, attributes, hattributes, node, hnode, features, hfeatures,
      usageLimits, husageLimits, plans, hplans, addOns, haddOns, ?_⟩
    have hsome : ¬(plans.isEmpty && addOns.isEmpty) = true := by
      rw [Bool.and_eq_true, hplansOf.isEmpty_iff, haddOnsOf.isEmpty_iff]
      exact Classical.not_and_iff_not_or_not.2 hd.offered
    rw [if_neg hsome]
    exact ⟨_, rfl⟩

/-- A document whose pricing is labelled with an integer. -/
def labelledDocument (label : Int) : Value :=
  .mapping [
    (.text "saasName", .text "Demo"), (.text "currency", .text "EUR"),
    (.text "createdAt", .text "2024-08-31"), (.text "version", .int label),
    (.text "features", .mapping []), (.text "plans", .mapping [(.text "PRO", .mapping [])])]

/-- Not every number can label a pricing: of two documents that differ in their labels alone,
both of them integers, one is read and the other is not. -/
theorem unwritable_label_is_not_read :
    (∃ pricing, (ofCanonical ⟨64, 1000⟩ (labelledDocument 1)).result = .ok pricing) ∧
    ¬∃ pricing, (ofCanonical ⟨64, 1000⟩ (labelledDocument Text.leastUnwritable)).result =
      .ok pricing := by
  constructor
  · have hread : ((ofCanonical ⟨64, 1000⟩ (labelledDocument 1)).result.toOption.bind
        fun pricing => pricing.label) = some "1" := by decide +kernel
    obtain ⟨pricing, hpricing, -⟩ := Option.bind_eq_some_iff.1 hread
    exact ⟨pricing, Outcome.toOption_eq_some_iff.1 hpricing⟩
  · rintro ⟨pricing, hpricing⟩
    rcases (hasAttributes_of_ofCanonical hpricing).label _ rfl with ⟨t, ht⟩ | ⟨n, hn, hwritable⟩
    · cases ht
    · cases hn
      exact absurd hwritable (Bool.eq_false_iff.1 Text.isWritable_leastUnwritable)

end Pricing

end Tariff
