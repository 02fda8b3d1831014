import Tariff.Proofs.Document.Normalized
import Tariff.Proofs.Version.Climb
import Tariff.Proofs.Version.LegacyDate

/-!
# Fields out of place

Some fields exist only in some versions, and a document that has one which its version lacks
is refused. The check is made on the way up the ladder as often as a step is taken, and once
more at the end, each time for the version reached by then. Only the first of these checks
can fail: whatever a step leaves is in place for the version that the step leads to
(`Resolved.misplaced_of_step`), so everything that is reached is in place if the start was.
And nothing else that a step can find wrong is a matter of versions.

`Resolved.version_error_iff_misplaced` is what the declared version alone decides.
-/

namespace Tariff

/-- Whether a version is outside the window of a field. -/
def Version.lacks (v : Version) (name : String) : Bool :=
  Version.fieldWindows.any fun window => window.1 == name && v.outside window.2

/-- The parts of a date are in the oldest version only, and the date in all others. -/
theorem Version.lacks_iff {v : Version} (hv : v ∈ Version.supported) {name : String} :
    v.lacks name = true ↔
      name ∈ Fields.legacyDateFields ∧ v ≠ .v1_0 ∨ name = "createdAt" ∧ v = .v1_0 := by
  have hparts : v.outside (.v1_0, some .v1_0) = decide (v ≠ .v1_0) := by
    rcases Version.mem_supported_iff.1 hv with rfl | rfl | rfl <;> decide
  have hcreated : v.outside (.v1_1, none) = decide (v = .v1_0) := by
    rcases Version.mem_supported_iff.1 hv with rfl | rfl | rfl <;> decide
  unfold Version.lacks Version.fieldWindows Fields.legacyDateFields
  simp only [List.any_cons, List.any_nil, Bool.or_false, Bool.or_eq_true, Bool.and_eq_true,
    beq_iff_eq, hparts, hcreated, decide_eq_true_eq, List.mem_cons, List.not_mem_nil, or_false,
    @eq_comm _ name]
  tauto

namespace Fields

variable {fields out : Fields} {v : Version} {name : String} {refusal : Refusal ConfigError}

/-- The fields that are bound to some versions, in the order in which they are named. -/
def windowed : List String := legacyDateFields ++ ["createdAt"]

/-- The misplaced fields are those that are there and that the version lacks. -/
theorem misplaced_eq :
    fields.misplaced v = windowed.filter fun name => fields.has name && v.lacks name := by
  have hnames : windowed = Version.fieldWindows.map Prod.fst := rfl
  have hlacks : ∀ window ∈ Version.fieldWindows, v.lacks window.1 = v.outside window.2 := by
    simp [Version.fieldWindows, Version.lacks]
  rw [hnames, List.filter_map]
  unfold misplaced
  congr 1
  exact List.filter_congr fun window hwindow => by
    rw [Function.comp_apply, hlacks window hwindow]

theorem misplaced_eq_nil_iff :
    fields.misplaced v = [] ↔ ∀ name ∈ windowed, fields.has name = true → v.lacks name = false := by
  rw [misplaced_eq, List.filter_eq_nil_iff]
  simp only [Bool.and_eq_true, not_and, Bool.not_eq_true]

/-- In every version but the oldest a document is in place without the parts of a date. -/
theorem misplaced_eq_nil_of_later (hv : v = .v1_1 ∨ v = .v2_0) :
    fields.misplaced v = [] ↔ ∀ name ∈ legacyDateFields, fields.get? name = none := by
  have hlater : v ≠ .v1_0 := by rcases hv with rfl | rfl <;> decide
  have hsupported : v ∈ Version.supported := Version.mem_supported_iff.2 (.inr hv)
  have hparts : ∀ name ∈ legacyDateFields, v.lacks name = true := fun name hname =>
    (Version.lacks_iff hsupported).2 (.inl ⟨hname, hlater⟩)
  have hcreated : v.lacks "createdAt" = false := by
    rw [← Bool.not_eq_true, Version.lacks_iff hsupported]
    simp [legacyDateFields, hlater]
  rw [misplaced_eq_nil_iff, windowed, List.forall_mem_append, List.forall_mem_singleton]
  simp only [hcreated, implies_true, and_true]
  refine forall_congr' fun name => forall_congr' fun hname => ?_
  rw [hparts name hname, has_eq_isSome_get?]
  simp

/-! ## The last step -/

/-- What can be wrong with a document for the last step. -/
theorem fromV1_1_eq_error (h : fields.fromV1_1 = .error refusal) :
    fields.checkWindows .v1_1 = .error refusal ∨ ∃ e, refusal = .because e ∧
      (e = .missing "createdAt" ∨ (∃ v, Temporal.normalizeDate "createdAt" v = .error e) ∨
        ∃ name v, Temporal.normalizeInstant name v = .error e) := by
  have hbound : ∀ {migrated name e}, normalizeBound fields migrated name = .error e →
      ∃ v, Temporal.normalizeInstant name v = .error e := by
    intro migrated name e h
    unfold normalizeBound at h
    split at h
    · cases h
    · next v _ => exact ⟨v, Outcome.map_eq_error_iff.1 h⟩
  unfold fromV1_1 at h
  rcases Outcome.bind_eq_error_iff.1 h with hwindows | ⟨-, -, h⟩
  · exact .inl hwindows
  · split at h
    · cases h
      exact .inr ⟨_, rfl, .inl rfl⟩
    · next created _ =>
      obtain ⟨e, he, rfl⟩ := Outcome.lift_eq_error_iff.1 h
      simp only [Outcome.bind_eq_error_iff] at he
      refine .inr ⟨e, rfl, .inr ?_⟩
      rcases he with hdate | ⟨date, -, hstarts | ⟨dated, -, hends⟩⟩
      · exact .inl ⟨created, hdate⟩
      · exact .inr ⟨"starts", hbound hstarts⟩
      · exact .inr ⟨"ends", hbound hends⟩

end Fields

namespace Resolved

variable {fields out : Fields} {v : Version} {a b : Fields × Version} {m : Migration}
  {done : List Migration} {fault : VersionFault}

/-! ## What a step leaves -/

/-- What a step leaves is in place for the version that it leads to. -/
theorem misplaced_of_step (hm : m ∈ Migration.ladder) (h : m.step fields = .ok out) :
    out.misplaced m.target = [] := by
  -- The first step takes the parts of the date away, and the last carries along what is left
  -- of them, which is nothing by its own check.
  rcases Migration.mem_ladder_iff.1 hm with rfl | rfl
  · obtain ⟨-, d, -, -, -, rfl⟩ := Fields.fromV1_0_eq_ok_iff.1 h
    refine (Fields.misplaced_eq_nil_of_later (.inl rfl)).2 fun name hname => ?_
    have hcreated : name ≠ "createdAt" := by
      rintro rfl
      revert hname
      decide
    have hversion : name ≠ "version" := by
      rintro rfl
      revert hname
      decide
    rw [Fields.get?_set_of_ne _ _ hcreated, Fields.get?_set_of_ne _ _ hversion,
      Fields.get?_without_of_mem hname]
  · obtain ⟨-, -, -, hmisplaced, -⟩ := Fields.fromV1_1_eq_ok h
    refine (Fields.misplaced_eq_nil_of_later (.inr rfl)).2 fun name hname => ?_
    have hkept : name ∉ ["version", "syntaxVersion"] ++ ["createdAt", "starts", "ends"] := by
      revert name
      decide
    rw [Fields.get?_of_fromV1_1_of_not_mem h hkept]
    exact (Fields.misplaced_eq_nil_of_later (.inl rfl)).1 hmisplaced name hname

/-- A step fails with an error of versions only for fields that were out of place before. -/
theorem misplaced_of_step_error (hm : m ∈ Migration.ladder)
    (h : m.step fields = .error (.because (.version fault))) :
    fields.misplaced m.source ≠ [] := by
  rcases Migration.mem_ladder_iff.1 hm with rfl | rfl
  · rcases Fields.fromV1_0_eq_error_iff.1 h with ⟨hcreated, -⟩ | ⟨-, e, hfault, heq⟩
    · show fields.misplaced .v1_0 ≠ []
      rw [Ne, Fields.misplaced_v1_0_eq_nil_iff, hcreated]
      decide
    · obtain ⟨-, rfl⟩ := Refusal.showing_eq_because_iff.1 heq.symm
      exact absurd hfault Fields.DateFault.ne_version
  · rcases Fields.fromV1_1_eq_error h with hwindows | ⟨e, heq, hmissing | ⟨created, hdate⟩ |
      ⟨name, bound, hinstant⟩⟩
    · exact ((Fields.checkWindows_eq_error_iff (by decide)).1 hwindows).1
    · cases heq
      cases hmissing
    · cases heq
      cases (Temporal.normalizeDate_eq_error_iff.1 hdate).2
    · cases heq
      rcases Temporal.normalizeInstant_eq_error_iff.1 hinstant with ⟨-, heq⟩ | ⟨m, -, -, heq⟩
      · cases heq
      · cases heq

/-! ## The whole way -/

/-- Everything on the way is in place if the start was. -/
theorem Climbs.misplaced_eq_nil (climbs : Climbs a done b) (h : a.1.misplaced a.2 = []) :
    b.1.misplaced b.2 = [] :=
  climbs.invariant (P := fun fields v => fields.misplaced v = [])
    (fun _ hm _ _ hstep _ => misplaced_of_step hm hstep) h

/-- A document that is in place for its version is not refused for its version. -/
theorem ne_version_error_of_misplaced_eq_nil (hdeclared : fields.declared = .ok v)
    (h : fields.misplaced v = []) :
    (ofFields fields).result ≠ .error (.because (.version fault)) := by
  intro herror
  obtain ⟨done, b, climbs, -, ⟨-, hok, -⟩ | ⟨e, hrefused, hresult, -⟩⟩ := ofFields_climbs hdeclared
  · rw [hok] at herror
    cases herror
  · have hplaced := climbs.misplaced_eq_nil h
    rw [hresult] at herror
    cases herror
    rcases hrefused with hwindows | ⟨m, hm, hsource, hstep⟩
    · have hok : b.1.checkWindows b.2 = .ok () := Fields.checkWindows_eq_ok_iff.2 hplaced
      rw [hok] at hwindows
      cases hwindows
    · rw [← hsource] at hplaced
      exact misplaced_of_step_error hm hstep hplaced

/-- The declared version alone decides whether a document is refused for its version. It is
if it has a field, be it null, that the version lacks, and the error then names these fields
in their order and the version. If it has none, no later check of fields fails. In a document
that was resolved no part of a date is left. -/
theorem version_error_iff_misplaced (hdeclared : fields.declared = .ok v) :
    ((∃ fault, (ofValue (.mapping fields)).result = .error (.because (.version fault))) ↔
      ∃ name ∈ ["day", "month", "year", "createdAt"],
        fields.has name = true ∧ v.lacks name = true) ∧
    ((∃ name ∈ ["day", "month", "year", "createdAt"],
        fields.has name = true ∧ v.lacks name = true) →
      (ofValue (.mapping fields)).result =
        .error (.because (.version (.mixedFields
          (["day", "month", "year", "createdAt"].filter fun name =>
            fields.has name && v.lacks name) v)))) ∧
    ((∀ name ∈ ["day", "month", "year", "createdAt"],
        fields.has name = true → v.lacks name = false) →
      ∀ done b, Climbs (fields, v) done b → b.1.checkWindows b.2 = .ok ()) ∧
    (∀ r, (ofValue (.mapping fields)).result = .ok r →
      ∀ name ∈ ["day", "month", "year"], r.fields.has name = false) := by
  have hmisplaced : fields.misplaced v ≠ [] ↔ ∃ name ∈ ["day", "month", "year", "createdAt"],
      fields.has name = true ∧ v.lacks name = true := by
    rw [Ne, Fields.misplaced_eq_nil_iff]
    push Not
    simp only [Bool.not_eq_false]
    rfl
  have hmixed : fields.misplaced v ≠ [] → (ofValue (.mapping fields)).result =
      .error (.because (.version (.mixedFields (fields.misplaced v) v))) := fun h =>
    (ofValue_mapping fields).trans (ofFields_of_misplaced hdeclared h)
  refine ⟨?_, ?_, ?_, ?_⟩
  · rw [← hmisplaced]
    constructor
    · rintro ⟨fault, herror⟩ hplaced
      rw [ofValue_mapping] at herror
      exact ne_version_error_of_misplaced_eq_nil hdeclared hplaced herror
    · exact fun h => ⟨_, hmixed h⟩
  · rw [← hmisplaced]
    intro h
    rw [hmixed h, Fields.misplaced_eq]
    rfl
  · intro h done b climbs
    exact Fields.checkWindows_eq_ok_iff.2
      (climbs.misplaced_eq_nil (Fields.misplaced_eq_nil_iff.2 h))
  · intro r hr name hname
    rw [ofValue_mapping] at hr
    obtain ⟨-, -, -, hplaced⟩ := ofFields_eq_ok_iff.1 hr
    rw [Fields.has_eq_isSome_get?,
      (Fields.misplaced_eq_nil_of_later (.inr rfl)).1 hplaced name hname]
    rfl

/-- A document of version 1.1 with a year that is null, a day that is none, and a date that
is a number. -/
def mixedDocument : Fields :=
  [(.text "version", .text "1.1"), (.text "year", .null), (.text "createdAt", .int 5),
   (.text "day", .int 40)]

/-- It is refused for day and year, though nothing about it is right; without them it is
refused, but not for its version. -/
theorem version_error_iff_misplaced_mixedDocument :
    mixedDocument.declared = .ok .v1_1 ∧
      (ofValue (.mapping mixedDocument)).result =
        .error (.because (.version (.mixedFields ["day", "year"] .v1_1))) ∧
      ¬∃ fault, (ofValue (.mapping (mixedDocument.without ["day", "year"]))).result =
        .error (.because (.version fault)) := by
  have hdeclared : mixedDocument.declared = .ok .v1_1 := rfl
  have hdeclared' : (mixedDocument.without ["day", "year"]).declared = .ok .v1_1 := rfl
  refine ⟨hdeclared, (version_error_iff_misplaced hdeclared).2.1 (by decide), ?_⟩
  rw [(version_error_iff_misplaced hdeclared').1]
  decide

end Resolved

end Tariff
