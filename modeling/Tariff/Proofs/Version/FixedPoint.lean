import Tariff.Pricing.Basic
import Tariff.Proofs.Version.Steps

/-!
# Documents that are current already

Bringing a document to the current version a second time should change nothing: what
was written in the current syntax is read in it. It is so for every document but one
sort. A document of an old version may have the new tag with the value null, which
counts as absent; the last step keeps that null instead of setting the tag, and what it
leaves is taken for a document of the oldest version, with a date that this version
does not have.

`resolved_is_current` says so for all documents, and `untagged_after_ladder` is the
smallest of the exceptions.
-/

namespace Tariff.Resolved

variable {fields : Fields} {r : Resolved}

/-- Only a document of an old version has a null under the new tag. -/
theorem not_current_of_null_tag (hnull : fields.get? "syntaxVersion" = some .null)
    {v : Version} (h : fields.declared = .ok v) : v ≠ .v2_0 := by
  have habsent : fields.present? "syntaxVersion" = none :=
    Fields.present?_eq_none_iff.2 (.inr hnull)
  rcases Fields.declared_eq_ok_iff.1 h with ⟨raw, htag, -⟩ | ⟨-, ⟨-, -, -, hv⟩ | ⟨-, rfl⟩⟩
  · rw [habsent] at htag
    cases htag
  · rcases hv with rfl | rfl <;> decide
  · decide

/-- What the ladder leaves of the tags of a document of an old version, and a date. -/
theorem tags_of_ascent {v : Version} {out : Fields} (ascent : Ascent v fields out)
    (hold : v ≠ .v2_0) :
    out.get? "syntaxVersion" =
        some ((fields.get? "syntaxVersion").getD (.text Version.v2_0.text)) ∧
      out.get? "version" = none ∧ out.has "createdAt" = true := by
  cases ascent with
  | current => exact absurd rfl hold
  | fromV1_1 last =>
    exact ⟨Fields.get?_tag_of_fromV1_1 last, Fields.get?_oldTag_of_fromV1_1 last,
      Fields.has_createdAt_of_fromV1_1 last⟩
  | fromV1_0 first last =>
    rw [← Fields.get?_tag_of_fromV1_0 first]
    exact ⟨Fields.get?_tag_of_fromV1_1 last, Fields.get?_oldTag_of_fromV1_1 last,
      Fields.has_createdAt_of_fromV1_1 last⟩

/-- A document that the ladder left under its tag declares the current version. -/
theorem declared_of_tag (h : fields.get? "syntaxVersion" = some (.text Version.v2_0.text)) :
    fields.declared = .ok .v2_0 := by
  have hpresent : fields.present? "syntaxVersion" = some (.text Version.v2_0.text) :=
    Fields.present?_eq_some_iff.2 ⟨h, by simp⟩
  exact (Fields.declared_of_newTag hpresent).2 ⟨by decide, rfl⟩

/-- Without a null under its tag, a document that was resolved declares the current
version. -/
theorem declared_of_resolved (h : (ofFields fields).result = .ok r)
    (hnull : fields.get? "syntaxVersion" ≠ some .null) : r.fields.declared = .ok .v2_0 := by
  obtain ⟨hdeclared, ascent, -, -⟩ := ofFields_eq_ok_iff.1 h
  by_cases hold : r.declared = .v2_0
  · rw [hold] at ascent hdeclared
    cases ascent
    exact hdeclared
  · refine declared_of_tag ?_
    obtain ⟨htag, -⟩ := tags_of_ascent ascent hold
    have habsent : fields.get? "syntaxVersion" = none := by
      rcases Fields.declared_eq_ok_iff.1 hdeclared with ⟨-, -, -, hv⟩ | ⟨hpresent, -⟩
      · exact absurd hv hold
      · exact (Fields.present?_eq_none_iff.1 hpresent).resolve_right hnull
    rw [htag, habsent]
    rfl

/-- With a null under its tag, a document that was resolved declares the oldest version,
and has a date that this version does not have. -/
theorem declared_of_resolved_null (h : (ofFields fields).result = .ok r)
    (hnull : fields.get? "syntaxVersion" = some .null) :
    r.fields.declared = .ok .v1_0 ∧ r.fields.misplaced .v1_0 = ["createdAt"] := by
  obtain ⟨hdeclared, ascent, -, -⟩ := ofFields_eq_ok_iff.1 h
  obtain ⟨htag, hversion, hdate⟩ :=
    tags_of_ascent ascent (not_current_of_null_tag hnull hdeclared)
  rw [hnull] at htag
  have hnew : r.fields.present? "syntaxVersion" = none :=
    Fields.present?_eq_none_iff.2 (.inr htag)
  have hold : r.fields.present? "version" = none := Fields.present?_eq_none_iff.2 (.inl hversion)
  refine ⟨(Fields.declared_of_untagged hnew hold).2 rfl, ?_⟩
  rw [Fields.misplaced_v1_0, hdate, if_pos rfl]

/-- A resolved document that declares the current version is resolved as it is. -/
theorem ofFields_of_current (h : (ofFields fields).result = .ok r)
    (hdeclared : r.fields.declared = .ok .v2_0) :
    (ofFields r.fields).result = .ok ⟨r.fields, .v2_0, .v2_0⟩ := by
  obtain ⟨-, -, -, hwindows⟩ := ofFields_eq_ok_iff.1 h
  exact ofFields_eq_ok_iff.2 ⟨hdeclared, .current r.fields, rfl, hwindows⟩

/-- Reading a document is resolving it and reading what results. -/
theorem result_pricingOfValue (limits : Limits) (document : Value) :
    (Pricing.ofValue limits document).result =
      ((ofValue document).result.mapError ParseError.refused >>= fun r =>
        (Pricing.ofCanonical limits (.mapping r.fields) r.version).result) := by
  unfold Pricing.ofValue
  simp only [Logged.result_bind, Logged.result_onError, Logged.result_emit, Logged.result_pure,
    Logged.result_mapError]
  cases (ofValue document).result with
  | error e => rfl
  | ok r =>
    change ((Pricing.ofCanonical limits (.mapping r.fields) r.version).result >>= fun pricing =>
      .ok pricing) = (Pricing.ofCanonical limits (.mapping r.fields) r.version).result
    cases (Pricing.ofCanonical limits (.mapping r.fields) r.version).result <;> rfl

theorem result_ofValue_pricing (limits : Limits) (fields : Fields) :
    (Pricing.ofValue limits (.mapping fields)).result =
      ((ofFields fields).result.mapError ParseError.refused >>= fun r =>
        (Pricing.ofCanonical limits (.mapping r.fields) r.version).result) := by
  rw [result_pricingOfValue, ofValue_mapping]

/-- A document that was resolved is resolved again, unchanged and with the same outcome of
reading it, exactly if it has no null under the tag of the current version. With one, what
was made of it is a document of the oldest version that has a date it must not have, and is
refused for that. -/
theorem resolved_is_current (h : (ofValue (.mapping fields)).result = .ok r) :
    (fields.get? "syntaxVersion" ≠ some .null →
      r.fields.declared = .ok .v2_0 ∧
        (ofValue (.mapping r.fields)).result = .ok ⟨r.fields, .v2_0, .v2_0⟩ ∧
        ∀ limits, (Pricing.ofValue limits (.mapping r.fields)).result =
          (Pricing.ofValue limits (.mapping fields)).result) ∧
    (fields.get? "syntaxVersion" = some .null →
      r.fields.declared = .ok .v1_0 ∧
        (ofValue (.mapping r.fields)).result =
          .error (.because (.version (.mixedFields ["createdAt"] .v1_0))) ∧
        ∀ limits, (Pricing.ofValue limits (.mapping r.fields)).result =
          .error (.config (.version (.mixedFields ["createdAt"] .v1_0)))) := by
  rw [ofValue_mapping] at h ⊢
  have hversion : r.version = .v2_0 := (ofFields_eq_ok_iff.1 h).2.2.1
  constructor
  · intro hnull
    have hdeclared := declared_of_resolved h hnull
    have hagain := ofFields_of_current h hdeclared
    refine ⟨hdeclared, hagain, fun limits => ?_⟩
    rw [result_ofValue_pricing, result_ofValue_pricing, hagain, h, ← hversion]
    rfl
  · intro hnull
    obtain ⟨hdeclared, hmisplaced⟩ := declared_of_resolved_null h hnull
    have hagain := ofFields_of_misplaced hdeclared (by rw [hmisplaced]; simp)
    rw [hmisplaced] at hagain
    refine ⟨hdeclared, hagain, fun limits => ?_⟩
    rw [result_ofValue_pricing, hagain]
    rfl

/-- A document of version 1.1 with a null under the tag of the current version. -/
def nullTagged : Fields :=
  [(.text "syntaxVersion", .null), (.text "version", .text "1.1"),
   (.text "createdAt", .text "2024-08-31")]

/-- What the ladder makes of that document, which is still without a tag. -/
def nullTaggedResolved : Resolved :=
  ⟨[(.text "syntaxVersion", .null), (.text "createdAt", .text "2024-08-31")], .v1_1, .v2_0⟩

/-- A document that was resolved may be refused when it is resolved again. -/
theorem untagged_after_ladder :
    (ofValue (.mapping nullTagged)).result = .ok nullTaggedResolved ∧
      (ofValue (.mapping nullTaggedResolved.fields)).result =
        .error (.because (.version (.mixedFields ["createdAt"] .v1_0))) :=
  ⟨rfl, rfl⟩

/-- Without the null, what becomes of the same document is read back as it is; with it,
reading it back is refused. -/
theorem resolved_is_current_nullTagged :
    (ofValue (.mapping [(.text "syntaxVersion", .text "2.0"),
        (.text "createdAt", .text "2024-08-31")])).result =
      .ok ⟨[(.text "syntaxVersion", .text "2.0"), (.text "createdAt", .text "2024-08-31")],
        .v2_0, .v2_0⟩ ∧
    nullTaggedResolved.fields.declared = .ok .v1_0 := by
  have htagged : (ofValue (.mapping (nullTagged.without ["syntaxVersion"]))).result =
      .ok ⟨[(.text "syntaxVersion", .text "2.0"), (.text "createdAt", .text "2024-08-31")],
        .v1_1, .v2_0⟩ := rfl
  have hnull : (ofValue (.mapping nullTagged)).result = .ok nullTaggedResolved := rfl
  have habsent : (nullTagged.without ["syntaxVersion"]).get? "syntaxVersion" ≠ some .null := by
    rw [Fields.get?_without_of_mem (by simp)]
    simp
  exact ⟨((resolved_is_current htagged).1 habsent).2.1, ((resolved_is_current hnull).2 rfl).1⟩

end Tariff.Resolved
