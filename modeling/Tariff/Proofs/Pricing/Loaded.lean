import Tariff.Proofs.Document.Dates
import Tariff.Proofs.Pricing.Closed
import Tariff.Proofs.Version.Carried

/-!
# Documents, however they were loaded

Some loaders of a document recognise its dates and moments, others leave them as texts. It
makes no difference to the pricing that is read: `Pricing.result_ofValue_datesAsText` is for
documents of all versions.

Two readers see dates. The steps of the version ladder bring those of three fields to one
form, and carry all others along as they are; so a step commutes with giving dates as texts
(`Fields.fromV1_0_datesAsText`, `Fields.fromV1_1_datesAsText`), and what comes up the ladder
differs at most in dates that no step looked at. The tree of the document, from which the
pricing is read, is then the same. The start and the end are brought to UTC, for which a
moment has to be read back from its text with its offset (`Fields.BoundsReadBack`); so are
all moments but those with an offset of less than a second (`Moment.asRead_eq_self_iff`).

Only an error can tell: that of a date in the place of a version tag shows the date.
-/

namespace Tariff

/-! ## The steps of the ladder -/

namespace Fields

variable (fields : Fields)

theorem checkWindows_datesAsText (v : Version) :
    fields.datesAsText.checkWindows v = fields.checkWindows v := by
  unfold checkWindows
  rw [misplaced_datesAsText]

/-- A document declares the same version. -/
theorem declared_datesAsText_eq_ok_iff {v : Version} :
    fields.datesAsText.declared = .ok v ↔ fields.declared = .ok v := by
  rw [declared_eq_ok_iff, declared_eq_ok_iff, present?_datesAsText, present?_datesAsText]
  cases fields.present? "syntaxVersion" <;> cases fields.present? "version" <;>
    simp [Version.read?_datesAsText]

/-- A part of a legacy date is a number, which no date and no text is. -/
theorem datePart_datesAsText (name : String) :
    fields.datesAsText.datePart name = fields.datePart name := by
  unfold datePart
  rw [present?_datesAsText]
  cases fields.present? name with
  | none => rfl
  | some v => cases v <;> simp only [Option.map_some, Value.datesAsText] <;> rfl

/-- The first step commutes with giving dates as texts. -/
theorem fromV1_0_datesAsText :
    fields.datesAsText.fromV1_0 = datesAsText <$> fields.fromV1_0 := by
  unfold fromV1_0
  rw [checkWindows_datesAsText, datePart_datesAsText, datePart_datesAsText, datePart_datesAsText]
  simp only [map_bind]
  refine bind_congr fun _ => bind_congr fun day => bind_congr fun month => bind_congr fun year => ?_
  cases Date.ofYMD? year.toNat month.toNat day.toNat with
  | none => rfl
  | some date =>
    rw [map_pure, datesAsText_set, datesAsText_set, datesAsText_without]
    rfl

/-- Whether the start and the end of a document, where these are moments, are read back from
their standard texts. -/
def BoundsReadBack : Prop := ∀ name ∈ bounds, ∀ v, fields.present? name = some v → v.ReadsBack

theorem boundsReadBack_of_fromV1_0 {fields out : Fields} (h : fields.BoundsReadBack)
    (first : fields.fromV1_0 = .ok out) : out.BoundsReadBack := by
  obtain ⟨_, _, _, _, -, -, -, -, -, rfl⟩ := fromV1_0_eq_ok first
  intro name hname v hv
  have hother : name ≠ "createdAt" ∧ name ≠ "version" ∧ name ∉ legacyDateFields :=
    (by decide : ∀ bound ∈ bounds, bound ≠ "createdAt" ∧ bound ≠ "version" ∧
      bound ∉ legacyDateFields) name hname
  refine h name hname v ?_
  rw [present?_eq_some_iff] at hv ⊢
  rwa [get?_set_of_ne _ _ hother.1, get?_set_of_ne _ _ hother.2.1,
    get?_without_of_not_mem hother.2.2] at hv

theorem normalizeBound_datesAsText {source : Fields} (h : source.BoundsReadBack)
    (migrated : Fields) {name : String} (hname : name ∈ bounds) :
    normalizeBound source.datesAsText migrated.datesAsText name =
      datesAsText <$> normalizeBound source migrated name := by
  unfold normalizeBound
  rw [present?_datesAsText]
  cases hv : source.present? name with
  | none => rfl
  | some v =>
    dsimp only [Option.map_some]
    rw [Temporal.normalizeInstant_datesAsText name (h name hname v hv)]
    cases Temporal.normalizeInstant name v with
    | error e => rfl
    | ok stamp => exact congrArg Except.ok (datesAsText_set migrated name (.text stamp)).symm

theorem datesAsText_retagged : fields.retagged.datesAsText = fields.datesAsText.retagged := by
  unfold retagged
  rw [get?_datesAsText, ← datesAsText_without]
  cases fields.get? "syntaxVersion" <;> rfl

/-- The last step commutes with giving dates as texts. -/
theorem fromV1_1_datesAsText (h : fields.BoundsReadBack) :
    fields.datesAsText.fromV1_1 = datesAsText <$> fields.fromV1_1 := by
  unfold fromV1_1
  rw [checkWindows_datesAsText, present?_datesAsText, map_bind]
  refine bind_congr fun _ => ?_
  cases fields.present? "createdAt" with
  | none => rfl
  | some created =>
    dsimp only [Option.map_some]
    rw [← Outcome.lift_map, Temporal.normalizeDate_datesAsText, map_bind]
    refine congrArg Refusal.lift (bind_congr fun date => ?_)
    have hdated : (fields.datesAsText.retagged.set "createdAt" (.text date)) =
        (fields.retagged.set "createdAt" (.text date)).datesAsText := by
      rw [datesAsText_set, datesAsText_retagged, Value.datesAsText]
    rw [hdated, normalizeBound_datesAsText h _ (by decide), map_bind, bind_map_left]
    exact bind_congr fun migrated => normalizeBound_datesAsText h migrated (by decide)

end Fields

namespace Resolved

variable {fields : Fields}

/-- A document with its dates as texts goes up the ladder exactly if the document does, and
arrives as that with its dates as texts. -/
theorem ascent_datesAsText_iff (h : fields.BoundsReadBack) {v : Version} {out : Fields} :
    Ascent v fields.datesAsText out ↔ ∃ out', Ascent v fields out' ∧ out'.datesAsText = out := by
  have hlast : ∀ {fields out : Fields}, fields.BoundsReadBack →
      (fields.datesAsText.fromV1_1 = .ok out ↔
        ∃ out', fields.fromV1_1 = .ok out' ∧ out'.datesAsText = out) := by
    intro fields out h
    rw [Fields.fromV1_1_datesAsText fields h]
    exact Outcome.map_eq_ok_iff
  constructor
  · intro ascent
    cases ascent with
    | current => exact ⟨fields, .current fields, rfl⟩
    | fromV1_1 last =>
      obtain ⟨out', last, hout⟩ := (hlast h).1 last
      exact ⟨out', .fromV1_1 last, hout⟩
    | fromV1_0 first last =>
      rw [Fields.fromV1_0_datesAsText] at first
      obtain ⟨between', hfirst, rfl⟩ := Outcome.map_eq_ok_iff.1 first
      obtain ⟨out', last, hout⟩ := (hlast (Fields.boundsReadBack_of_fromV1_0 h hfirst)).1 last
      exact ⟨out', .fromV1_0 hfirst last, hout⟩
  · rintro ⟨out', ascent, rfl⟩
    cases ascent with
    | current => exact .current _
    | fromV1_1 last => exact .fromV1_1 ((hlast h).2 ⟨out', last, rfl⟩)
    | fromV1_0 first last =>
      refine .fromV1_0 ?_
        ((hlast (Fields.boundsReadBack_of_fromV1_0 h first)).2 ⟨out', last, rfl⟩)
      rw [Fields.fromV1_0_datesAsText, first]
      rfl

/-- A document with its dates as texts is resolved exactly if the document is, and as that
with its dates as texts. -/
theorem ofFields_datesAsText_eq_ok_iff (h : fields.BoundsReadBack) {r : Resolved} :
    (ofFields fields.datesAsText).result = .ok r ↔
      ∃ out, (ofFields fields).result = .ok ⟨out, r.declared, r.version⟩ ∧
        out.datesAsText = r.fields := by
  rw [ofFields_eq_ok_iff, Fields.declared_datesAsText_eq_ok_iff, ascent_datesAsText_iff h]
  simp only [ofFields_eq_ok_iff]
  constructor
  · rintro ⟨hdeclared, ⟨out, ascent, hout⟩, hversion, hwindows⟩
    rw [← hout, Fields.misplaced_datesAsText] at hwindows
    exact ⟨out, ⟨hdeclared, ascent, hversion, hwindows⟩, hout⟩
  · rintro ⟨out, ⟨hdeclared, ascent, hversion, hwindows⟩, hout⟩
    rw [← Fields.misplaced_datesAsText, hout] at hwindows
    exact ⟨hdeclared, ⟨out, ascent, hout⟩, hversion, hwindows⟩

end Resolved

/-! ## Pricings -/

namespace Pricing

/-- A document in the current syntax is read with the same outcome, be it a pricing or an
error. -/
theorem ofCanonical_datesAsText (limits : Limits) (document : Value) (version : Version) :
    ofCanonical limits document.datesAsText version = ofCanonical limits document version := by
  unfold ofCanonical
  rw [Node.ofValue_datesAsText]

/-- It does not matter whether dates were recognised when a document was loaded: a document
of any version is read as a pricing exactly if the one with its dates and moments as texts is,
and then as the same pricing. What is assumed of the texts of moments is that the start and
the end are read back from theirs. -/
theorem result_ofValue_datesAsText (limits : Limits) (document : Value) (pricing : Pricing)
    (h : ∀ fields, document = .mapping fields → Fields.BoundsReadBack fields) :
    (ofValue limits document.datesAsText).result = .ok pricing ↔
      (ofValue limits document).result = .ok pricing := by
  rw [ofValue_eq_ok_iff, ofValue_eq_ok_iff]
  constructor
  · rintro ⟨entries, r, hdocument, hresolved, hread⟩
    obtain ⟨fields, rfl⟩ := Value.eq_mapping_of_datesAsText hdocument
    rw [Fields.datesAsText_mapping] at hdocument
    cases hdocument
    obtain ⟨out, hout, hfields⟩ :=
      (Resolved.ofFields_datesAsText_eq_ok_iff (h fields rfl)).1 hresolved
    rw [← hfields, ← Fields.datesAsText_mapping, ofCanonical_datesAsText] at hread
    exact ⟨fields, _, rfl, hout, hread⟩
  · rintro ⟨fields, r, rfl, hresolved, hread⟩
    refine ⟨fields.datesAsText, ⟨r.fields.datesAsText, r.declared, r.version⟩,
      Fields.datesAsText_mapping fields,
      (Resolved.ofFields_datesAsText_eq_ok_iff (h fields rfl)).2 ⟨r.fields, hresolved, rfl⟩, ?_⟩
    rw [← Fields.datesAsText_mapping, ofCanonical_datesAsText]
    exact hread

/-- Noon of a day, an hour ahead of UTC. -/
def localNoon : Moment := ⟨⟨2025, 6, 15, by decide, by decide, by decide, by decide⟩,
  ⟨43200000000, by decide⟩, some ⟨3600000000, by decide, by decide⟩⟩

/-- A document whose dates the loader recognised: the one of its creation, and its start. -/
def loadedDocument : Value :=
  .mapping [
    (.text "version", .text "1.1"), (.text "saasName", .text "Demo"),
    (.text "createdAt", .date localNoon.date), (.text "currency", .text "EUR"),
    (.text "starts", .moment localNoon),
    (.text "features", .mapping [
      (.text "sso", .mapping [(.text "type", .text "CAPABILITY"),
        (.text "valueType", .text "BOOLEAN"), (.text "defaultValue", .bool true)])]),
    (.text "plans", .mapping [(.text "basic", .mapping [])])]

/-- That document starts at the same instant if its dates are given as texts. -/
theorem result_of_loadedDocument :
    ∃ pricing, (ofValue {} loadedDocument.datesAsText).result = .ok pricing ∧
      (ofValue {} loadedDocument).result = .ok pricing ∧
      pricing.starts.map Instant.isoText = some "2025-06-15T11:00:00+00:00" := by
  have hrun : ((ofValue {} loadedDocument).result.toOption.map fun pricing =>
      pricing.starts.map Instant.isoText) = some (some "2025-06-15T11:00:00+00:00") := by
    decide +kernel
  obtain ⟨pricing, hpricing, hstarts⟩ := Option.map_eq_some_iff.1 hrun
  rw [Outcome.toOption_eq_some_iff] at hpricing
  have hnoon : Iso.moment? localNoon.isoText = some localNoon := by
    rw [Iso.moment?_isoText, Moment.asRead_eq_self_iff.2 (by rintro o ⟨⟩; decide)]
  have hbounds : ∀ fields, loadedDocument = .mapping fields → Fields.BoundsReadBack fields := by
    rintro fields ⟨⟩ name hname v hv m rfl
    rcases List.mem_pair.1 hname with rfl | rfl
    · have hstart : some (Value.moment localNoon) = some (.moment m) := hv
      cases hstart
      exact hnoon
    · have hend : none = some (Value.moment m) := hv
      cases hend
  exact ⟨pricing, (result_ofValue_datesAsText {} loadedDocument pricing hbounds).2 hpricing,
    hpricing, hstarts⟩

end Pricing

end Tariff
