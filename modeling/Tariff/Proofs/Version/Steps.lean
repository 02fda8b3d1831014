import Tariff.Proofs.Document.Fields
import Tariff.Proofs.Outcome
import Tariff.Version.Resolved

/-!
# What the version ladder does

The way back from a document that was brought to the current version: which version it
declared and by which tag, what each step left in the fields that carry the tag and
the date, and through which steps it went.

* `declared_eq_ok_iff` says when a document declares a version.
* `get?_tag_of_fromV1_1` says what the last step leaves under the new tag. A null that
  is there already stays, which is the one way in which a document in the current
  syntax is left without a tag.
* `ofFields_eq_ok_iff` is the outcome of the whole ladder, without its log.
-/

namespace Tariff

namespace Version

theorem parse_eq_ok_iff {field : String} {raw : Value} {v : Version} :
    Version.parse field raw = .ok v ↔ read? raw = some v := by
  unfold Version.parse
  split
  · next w h => simp [h]
  · next h =>
    rw [h]
    split <;> exact ⟨nofun, nofun⟩

theorem ensureSupported_eq_ok_iff {v w : Version} :
    v.ensureSupported = .ok w ↔ v ∈ supported ∧ v = w := by
  unfold ensureSupported
  split
  · next h => simp [h]
  · next h => simp [h]

/-- Only one version that can be read is not older than the current one. -/
theorem mem_supported_iff {v : Version} :
    v ∈ supported ↔ v = .v1_0 ∨ v = .v1_1 ∨ v = .v2_0 := by
  simp [supported]

/-- The versions that can be read can be written. -/
theorem isWritable_of_mem_supported {v : Version} (h : v ∈ supported) : v.isWritable = true := by
  rcases mem_supported_iff.1 h with rfl | rfl | rfl <;> decide

end Version

namespace Fields

variable {fields out : Fields} {v : Version}

/-- The new tag declares the current version only. -/
theorem declared_of_newTag {raw : Value} (hnew : fields.present? "syntaxVersion" = some raw) :
    fields.declared = .ok v ↔ Version.read? raw = some v ∧ v = .v2_0 := by
  unfold declared
  rw [hnew]
  simp only [Outcome.bind_eq_ok_iff, Version.parse_eq_ok_iff, Version.ensureSupported_eq_ok_iff,
    Version.mem_supported_iff]
  constructor
  · rintro ⟨w, hread, w', ⟨hmem, rfl⟩, hrest⟩
    rcases hmem with rfl | rfl | rfl
    · cases hrest
    · cases hrest
    · cases hrest
      exact ⟨hread, rfl⟩
  · rintro ⟨hread, rfl⟩
    exact ⟨.v2_0, hread, .v2_0, ⟨.inr (.inr rfl), rfl⟩, rfl⟩

/-- The old tag declares an older version only. -/
theorem declared_of_oldTag {raw : Value} (hnew : fields.present? "syntaxVersion" = none)
    (hold : fields.present? "version" = some raw) :
    fields.declared = .ok v ↔ Version.read? raw = some v ∧ (v = .v1_0 ∨ v = .v1_1) := by
  unfold declared
  rw [hnew, hold]
  simp only [Outcome.bind_eq_ok_iff, Version.parse_eq_ok_iff, Version.ensureSupported_eq_ok_iff,
    Version.mem_supported_iff]
  constructor
  · rintro ⟨w, hread, w', ⟨hmem, rfl⟩, hrest⟩
    rcases hmem with rfl | rfl | rfl
    · cases hrest
      exact ⟨hread, .inl rfl⟩
    · cases hrest
      exact ⟨hread, .inr rfl⟩
    · cases hrest
  · rintro ⟨hread, rfl | rfl⟩
    · exact ⟨.v1_0, hread, .v1_0, ⟨.inl rfl, rfl⟩, rfl⟩
    · exact ⟨.v1_1, hread, .v1_1, ⟨.inr (.inl rfl), rfl⟩, rfl⟩

/-- A document without a tag is of the oldest version. -/
theorem declared_of_untagged (hnew : fields.present? "syntaxVersion" = none)
    (hold : fields.present? "version" = none) : fields.declared = .ok v ↔ v = .v1_0 := by
  unfold declared
  rw [hnew, hold, Outcome.pure_eq_ok_iff]
  exact eq_comm

/-- A document declares the current version by the new tag, an older one by the old tag,
and the oldest by none. -/
theorem declared_eq_ok_iff :
    fields.declared = .ok v ↔
      (∃ raw, fields.present? "syntaxVersion" = some raw ∧ Version.read? raw = some v ∧
        v = .v2_0) ∨
      fields.present? "syntaxVersion" = none ∧
        ((∃ raw, fields.present? "version" = some raw ∧ Version.read? raw = some v ∧
            (v = .v1_0 ∨ v = .v1_1)) ∨
          fields.present? "version" = none ∧ v = .v1_0) := by
  cases hnew : fields.present? "syntaxVersion" with
  | some raw => simp [declared_of_newTag hnew]
  | none =>
    cases hold : fields.present? "version" with
    | some raw => simp [declared_of_oldTag hnew hold]
    | none => simp [declared_of_untagged hnew hold]

theorem checkWindows_eq_ok_iff {u : Unit} :
    fields.checkWindows v = .ok u ↔ fields.misplaced v = [] := by
  unfold checkWindows
  split
  · next h => simp [h]
  · next hne =>
    simp only [reduceCtorEq, false_iff]
    exact fun h => hne h

/-- For a version that can be written the fields that it does not have are reported. -/
theorem checkWindows_eq_error_iff (hv : v.isWritable = true) {refusal : Refusal ConfigError} :
    fields.checkWindows v = .error refusal ↔
      fields.misplaced v ≠ [] ∧
        refusal = .because (.version (.mixedFields (fields.misplaced v) v)) := by
  have hshown : ∀ names, (ConfigError.version (.mixedFields names v)).refusal =
      .because (.version (.mixedFields names v)) :=
    fun names => ConfigError.refusal_of_isWritable hv
  unfold checkWindows
  split
  · next h => simp [h]
  · next hne =>
    have hmisplaced : fields.misplaced v ≠ [] := fun h => hne h
    simp [hmisplaced, hshown, eq_comm]

/-- The only field that the oldest version has not is the date. -/
theorem misplaced_v1_0 :
    fields.misplaced .v1_0 = if fields.has "createdAt" then ["createdAt"] else [] := by
  have hday : Version.v1_0.outside (.v1_0, some .v1_0) = false := by decide
  have hcreated : Version.v1_0.outside (.v1_1, none) = true := by decide
  by_cases h : fields.has "createdAt" = true <;>
    simp [misplaced, Version.fieldWindows, hday, hcreated, h]

/-! ## The steps -/

theorem fromV1_0_eq_ok (h : fields.fromV1_0 = .ok out) :
    ∃ day month year date, fields.misplaced .v1_0 = [] ∧
      fields.datePart "day" = .ok day ∧ fields.datePart "month" = .ok month ∧
      fields.datePart "year" = .ok year ∧
      Date.ofYMD? year.toNat month.toNat day.toNat = some date ∧
      out = ((fields.without legacyDateFields).set "version" (.text Version.v1_1.text)).set
        "createdAt" (.text date.text) := by
  simp only [fromV1_0, Outcome.bind_eq_ok_iff, checkWindows_eq_ok_iff] at h
  obtain ⟨-, hwindows, day, hday, month, hmonth, year, hyear, h⟩ := h
  split at h
  · cases h
  · next date hdate =>
    cases h
    exact ⟨day, month, year, date, hwindows, hday, hmonth, hyear, hdate, rfl⟩

/-- The first step does not touch the new tag. -/
theorem get?_tag_of_fromV1_0 (h : fields.fromV1_0 = .ok out) :
    out.get? "syntaxVersion" = fields.get? "syntaxVersion" := by
  obtain ⟨day, month, year, date, -, -, -, -, -, rfl⟩ := fromV1_0_eq_ok h
  rw [get?_set_of_ne _ _ (by decide), get?_set_of_ne _ _ (by decide),
    get?_without_of_not_mem (by decide)]

theorem fromV1_1_eq_ok (h : fields.fromV1_1 = .ok out) :
    ∃ created date dated, fields.misplaced .v1_1 = [] ∧
      fields.present? "createdAt" = some created ∧
      Temporal.normalizeDate "createdAt" created = .ok date ∧
      normalizeBound fields (fields.retagged.set "createdAt" (.text date)) "starts" = .ok dated ∧
      normalizeBound fields dated "ends" = .ok out := by
  simp only [fromV1_1, Outcome.bind_eq_ok_iff, checkWindows_eq_ok_iff] at h
  obtain ⟨-, hwindows, h⟩ := h
  split at h
  · cases h
  · next created hcreated =>
    simp only [Outcome.lift_eq_ok_iff, Outcome.bind_eq_ok_iff] at h
    obtain ⟨date, hdate, dated, hstarts, hends⟩ := h
    exact ⟨created, date, dated, hwindows, hcreated, hdate, hstarts, hends⟩

/-- Bringing one bound to its form leaves every other field alone. -/
theorem get?_of_normalizeBound {source migrated : Fields} {name other : String}
    (h : normalizeBound source migrated name = .ok out) (hne : other ≠ name) :
    out.get? other = migrated.get? other := by
  unfold normalizeBound at h
  split at h
  · cases h
    rfl
  · simp only [Outcome.map_eq_ok_iff] at h
    obtain ⟨stamp, -, rfl⟩ := h
    exact get?_set_of_ne _ _ hne

/-- A field that is neither a bound nor the date is after the last step what retagging
made of it. -/
theorem get?_of_fromV1_1 (h : fields.fromV1_1 = .ok out) {name : String}
    (hcreated : name ≠ "createdAt") (hstarts : name ≠ "starts") (hends : name ≠ "ends") :
    out.get? name = fields.retagged.get? name := by
  obtain ⟨created, date, dated, -, -, -, hs, he⟩ := fromV1_1_eq_ok h
  rw [get?_of_normalizeBound he hends, get?_of_normalizeBound hs hstarts,
    get?_set_of_ne _ _ hcreated]

/-- The last step carries all fields along but the tags, the date and the bounds. -/
theorem get?_of_fromV1_1_of_not_mem (h : fields.fromV1_1 = .ok out) {name : String}
    (hname : name ∉ ["version", "syntaxVersion"] ++ ["createdAt", "starts", "ends"]) :
    out.get? name = fields.get? name := by
  simp only [List.mem_append, List.mem_cons, List.not_mem_nil, or_false, not_or] at hname
  obtain ⟨⟨hversion, htag⟩, hcreated, hstarts, hends⟩ := hname
  rw [get?_of_fromV1_1 h hcreated hstarts hends, retagged, get?_cons,
    if_neg (by simpa using Ne.symm htag), get?_without_of_not_mem (by simp [hversion, htag])]

/-- The last step sets the new tag only where there was none: a null stays. -/
theorem get?_tag_of_fromV1_1 (h : fields.fromV1_1 = .ok out) :
    out.get? "syntaxVersion" =
      some ((fields.get? "syntaxVersion").getD (.text Version.v2_0.text)) := by
  rw [get?_of_fromV1_1 h (by decide) (by decide) (by decide)]
  simp [retagged, get?_cons]

/-- The last step takes the old tag away. -/
theorem get?_oldTag_of_fromV1_1 (h : fields.fromV1_1 = .ok out) :
    out.get? "version" = none := by
  rw [get?_of_fromV1_1 h (by decide) (by decide) (by decide)]
  unfold retagged
  rw [get?_cons, if_neg (by simp), get?_without_of_mem (by simp)]

/-- The last step leaves a date. -/
theorem has_createdAt_of_fromV1_1 (h : fields.fromV1_1 = .ok out) :
    out.has "createdAt" = true := by
  obtain ⟨created, date, dated, -, -, -, hs, he⟩ := fromV1_1_eq_ok h
  rw [has_eq_isSome_get?, get?_of_normalizeBound he (by decide),
    get?_of_normalizeBound hs (by decide), get?_set_self]
  rfl

end Fields

/-! ## The whole ladder -/

namespace Resolved

/-- The way of a document of some version up to the current one. -/
inductive Ascent : Version → Fields → Fields → Prop where
  | current (fields : Fields) : Ascent .v2_0 fields fields
  | fromV1_1 {fields out : Fields} (last : fields.fromV1_1 = .ok out) : Ascent .v1_1 fields out
  | fromV1_0 {fields between out : Fields} (first : fields.fromV1_0 = .ok between)
      (last : between.fromV1_1 = .ok out) : Ascent .v1_0 fields out

/-- The fields that a step of the ladder may change: the tags, the dates and the bounds. -/
def changedFields : List String :=
  Fields.legacyDateFields ++ (["version", "syntaxVersion"] ++ ["createdAt", "starts", "ends"])

/-- Every other field comes up the ladder as it is. -/
theorem Ascent.get?_eq {v : Version} {fields out : Fields} (ascent : Ascent v fields out)
    {name : String} (hname : name ∉ changedFields) : out.get? name = fields.get? name := by
  have hlast : name ∉ ["version", "syntaxVersion"] ++ ["createdAt", "starts", "ends"] :=
    fun hmem => hname (List.mem_append_right _ hmem)
  cases ascent with
  | current => rfl
  | fromV1_1 last => exact Fields.get?_of_fromV1_1_of_not_mem last hlast
  | fromV1_0 first last =>
    obtain ⟨day, month, year, date, -, -, -, -, -, rfl⟩ := Fields.fromV1_0_eq_ok first
    have hcreated : name ≠ "createdAt" := fun heq => hname (heq ▸ by decide)
    have hversion : name ≠ "version" := fun heq => hname (heq ▸ by decide)
    rw [Fields.get?_of_fromV1_1_of_not_mem last hlast, Fields.get?_set_of_ne _ _ hcreated,
      Fields.get?_set_of_ne _ _ hversion,
      Fields.get?_without_of_not_mem fun hmem => hname (List.mem_append_left _ hmem)]

/-- Taking a step, without its log. -/
theorem result_climb (reached : Fields × Version) (migration : Migration) :
    (climb reached migration).result =
      if reached.2 = migration.source then
        (migration.step reached.1).map fun migrated => (migrated, migration.target)
      else .ok reached := by
  unfold climb
  split
  · simp only [Logged.result_bind, Logged.result_ofExcept, Logged.result_emit,
      Logged.result_pure]
    cases migration.step reached.1 <;> rfl
  · rfl

/-- The step from the version that was reached is taken. -/
theorem climb_of_source {fields out : Fields} {v w target : Version}
    {step : Fields → Except (Refusal ConfigError) Fields} :
    (climb (fields, v) ⟨v, target, step⟩).result = .ok (out, w) ↔
      step fields = .ok out ∧ w = target := by
  rw [result_climb, if_pos rfl, Outcome.map_eq_ok_iff]
  constructor
  · rintro ⟨migrated, hstep, hreached⟩
    cases hreached
    exact ⟨hstep, rfl⟩
  · rintro ⟨hstep, rfl⟩
    exact ⟨out, hstep, rfl⟩

/-- A step from another version is passed over. -/
theorem climb_of_ne_source {reached : Fields × Version} {m : Migration}
    (h : reached.2 ≠ m.source) : (climb reached m).result = .ok reached := by
  rw [result_climb, if_neg h]

/-- The steps are taken in their order. -/
theorem ladder_eq_ok_iff {start reached : Fields × Version} :
    (Migration.ladder.foldlM climb start).result = .ok reached ↔
      ∃ between, (climb start ⟨.v1_0, .v1_1, Fields.fromV1_0⟩).result = .ok between ∧
        (climb between ⟨.v1_1, .v2_0, Fields.fromV1_1⟩).result = .ok reached := by
  simp [Migration.ladder]

/-- The ladder leads from a version that can be read to the current one. -/
theorem climb_ladder_eq_ok_iff {fields out : Fields} {v w : Version}
    (hv : v ∈ Version.supported) :
    (Migration.ladder.foldlM climb (fields, v)).result = .ok (out, w) ↔
      w = .v2_0 ∧ Ascent v fields out := by
  rw [ladder_eq_ok_iff]
  -- Each version enters the ladder at its own step and passes over those before it.
  rcases Version.mem_supported_iff.1 hv with rfl | rfl | rfl
  · constructor
    · rintro ⟨⟨between, reached⟩, hfirst, hlast⟩
      obtain ⟨first, rfl⟩ := climb_of_source.1 hfirst
      obtain ⟨last, rfl⟩ := climb_of_source.1 hlast
      exact ⟨rfl, .fromV1_0 first last⟩
    · rintro ⟨rfl, ascent⟩
      cases ascent with
      | fromV1_0 first last =>
        exact ⟨_, climb_of_source.2 ⟨first, rfl⟩, climb_of_source.2 ⟨last, rfl⟩⟩
  · rw [climb_of_ne_source (show Version.v1_1 ≠ .v1_0 by decide)]
    constructor
    · rintro ⟨reached, hfirst, hlast⟩
      cases hfirst
      obtain ⟨last, rfl⟩ := climb_of_source.1 hlast
      exact ⟨rfl, .fromV1_1 last⟩
    · rintro ⟨rfl, ascent⟩
      cases ascent with
      | fromV1_1 last => exact ⟨_, rfl, climb_of_source.2 ⟨last, rfl⟩⟩
  · rw [climb_of_ne_source (show Version.v2_0 ≠ .v1_0 by decide)]
    constructor
    · rintro ⟨reached, hfirst, hlast⟩
      cases hfirst
      rw [climb_of_ne_source (show Version.v2_0 ≠ .v1_1 by decide)] at hlast
      cases hlast
      exact ⟨rfl, .current fields⟩
    · rintro ⟨rfl, ascent⟩
      cases ascent with
      | current => exact ⟨_, rfl, climb_of_ne_source (show Version.v2_0 ≠ .v1_1 by decide)⟩

/-- Only versions that can be read are declared. -/
theorem mem_supported_of_declared {fields : Fields} {v : Version} (h : fields.declared = .ok v) :
    v ∈ Version.supported := by
  rw [Version.mem_supported_iff]
  rcases Fields.declared_eq_ok_iff.1 h with ⟨-, -, -, rfl⟩ | ⟨-, ⟨-, -, -, hv⟩ | ⟨-, rfl⟩⟩
  · exact .inr (.inr rfl)
  · rcases hv with rfl | rfl
    · exact .inl rfl
    · exact .inr (.inl rfl)
  · exact .inl rfl

/-- The outcome of bringing a document to the current version. -/
theorem ofFields_eq_ok_iff {fields : Fields} {r : Resolved} :
    (ofFields fields).result = .ok r ↔
      fields.declared = .ok r.declared ∧ Ascent r.declared fields r.fields ∧
        r.version = .v2_0 ∧ r.fields.misplaced .v2_0 = [] := by
  obtain ⟨out, declared, version⟩ := r
  have hreport : ∀ x : Resolved, (if x.declared ≠ Version.current then do
        Logged.emit (.legacyResolved x.declared x.version)
        return x
      else return x : Logged (Refusal ConfigError) Resolved).result = .ok x := by
    intro x
    split <;> rfl
  simp only [ofFields, Logged.result_bind, Logged.result_ofExcept, Outcome.bind_eq_ok_iff,
    Fields.checkWindows_eq_ok_iff]
  constructor
  · rintro ⟨v, hdeclared, ⟨migrated, w⟩, hclimb, -, hwindows, hr⟩
    cases (hreport ⟨migrated, v, w⟩).symm.trans hr
    obtain ⟨rfl, ascent⟩ := (climb_ladder_eq_ok_iff (mem_supported_of_declared hdeclared)).1 hclimb
    exact ⟨hdeclared, ascent, rfl, hwindows⟩
  · rintro ⟨hdeclared, ascent, rfl, hwindows⟩
    exact ⟨declared, hdeclared, (out, .v2_0),
      (climb_ladder_eq_ok_iff (mem_supported_of_declared hdeclared)).2 ⟨rfl, ascent⟩,
      (), hwindows, hreport ⟨out, declared, .v2_0⟩⟩

/-- A document with fields that its declared version does not have is refused for them,
whatever else is wrong with it. -/
theorem ofFields_of_misplaced {fields : Fields} {v : Version} (hdeclared : fields.declared = .ok v)
    (hmisplaced : fields.misplaced v ≠ []) :
    (ofFields fields).result =
      .error (.because (.version (.mixedFields (fields.misplaced v) v))) := by
  have hsupported := mem_supported_of_declared hdeclared
  have hwindows := (Fields.checkWindows_eq_error_iff
    (Version.isWritable_of_mem_supported hsupported)).2 ⟨hmisplaced, rfl⟩
  simp only [ofFields, Migration.ladder, List.foldlM_cons, List.foldlM_nil, Logged.result_bind,
    Logged.result_ofExcept, Logged.result_pure, hdeclared, result_climb]
  have h₁ : Version.v1_1 ≠ .v1_0 := by decide
  have h₂ : Version.v2_0 ≠ .v1_0 := by decide
  have h₃ : Version.v2_0 ≠ .v1_1 := by decide
  rcases Version.mem_supported_iff.1 hsupported with rfl | rfl | rfl
  · simp [Fields.fromV1_0, hwindows, bind, Except.bind, Except.map]
  · simp [Fields.fromV1_1, hwindows, h₁, bind, Except.bind, Except.map]
  · simp [hwindows, h₂, h₃, bind, Except.bind]

/-- A document is brought to the current version exactly if its fields are. -/
theorem ofValue_mapping (fields : Fields) :
    (ofValue (.mapping fields)).result = (ofFields fields).result := by
  unfold ofValue
  rw [Logged.result_bind]
  rfl

end Resolved

end Tariff
