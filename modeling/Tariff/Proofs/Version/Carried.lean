import Tariff.Proofs.Calendar.Stamp
import Tariff.Proofs.Document.Normalized
import Tariff.Proofs.Version.Windows

/-!
# What the ladder carries along

A step of the ladder sets or takes away the tags, the date and its parts, and it brings the
bounds of the validity to their form. Everything else in a document is carried along: no other
field is lost, added or moved, and none but the bounds gets another value.
`Fields.carries_of_step` says so of one step and `Ascent.carries` of all steps together.

Fields are compared as lists of entries, so that their order is part of what is said, and so
are entries whose keys are no texts.
-/

namespace Tariff

namespace Fields

variable {fields fields' out : Fields} {name : String} {names names' : List String} {v : Value}

/-! ## Keys and what is taken away -/

/-- Setting a field that is there leaves the keys as they are. -/
theorem keys_set (h : fields.has name = true) :
    (fields.set name v).map Prod.fst = fields.map Prod.fst := by
  induction fields with
  | nil => cases h
  | cons entry rest ih =>
    by_cases hentry : isField name entry = true
    · rw [set, if_pos hentry]
      rfl
    · have hrest : Fields.has rest name = true := by
        unfold has at h ⊢
        rwa [List.any_cons, Bool.eq_false_of_not_eq_true hentry, Bool.false_or] at h
      rw [set, if_neg hentry, List.map_cons, List.map_cons, ih hrest]

/-- Setting a field changes nothing once the field is taken away. -/
theorem without_set (h : name ∈ names) : (fields.set name v).without names = fields.without names := by
  have hgone : ∀ {entry : Value × Value}, isField name entry = true →
      (!(names.any fun name => isField name entry)) = false := by
    intro entry hentry
    rw [List.any_eq_true.2 ⟨name, h, hentry⟩, Bool.not_true]
  unfold without
  induction fields with
  | nil =>
    have hentry : isField name (.text name, v) = true := isField_eq_true_iff.2 rfl
    rw [set, List.filter_cons_of_neg (by rw [hgone hentry]; decide)]
  | cons entry rest ih =>
    by_cases hentry : isField name entry = true
    · have hset : isField name (entry.1, v) = true := hentry
      rw [set, if_pos hentry, List.filter_cons_of_neg (by rw [hgone hset]; decide),
        List.filter_cons_of_neg (by rw [hgone hentry]; decide)]
    · rw [set, if_neg hentry, List.filter_cons, List.filter_cons, ih]

/-- Taking away some fields first changes nothing if they are taken away later. -/
theorem without_without (h : ∀ name ∈ names, name ∈ names') :
    (fields.without names).without names' = fields.without names' := by
  unfold without
  rw [List.filter_filter]
  refine List.filter_congr fun entry _ => ?_
  cases hgone : names'.any fun name => isField name entry with
  | true => rfl
  | false =>
    have hkept : (names.any fun name => isField name entry) = false := by
      rw [List.any_eq_false] at hgone ⊢
      exact fun name hname => hgone name (h name hname)
    rw [hkept]
    rfl

/-- Fields with the same keys have the same keys after some were taken away. -/
theorem keys_without_congr (h : fields.map Prod.fst = fields'.map Prod.fst) :
    (fields.without names).map Prod.fst = (fields'.without names).map Prod.fst := by
  have hkeys : ∀ fields : Fields, (fields.without names).map Prod.fst =
      (fields.map Prod.fst).filter fun key => !(names.any fun name => isField name (key, .null)) := by
    intro fields
    rw [List.filter_map]
    rfl
  rw [hkeys, hkeys, h]

/-- To take away fields that are not there changes nothing. -/
theorem without_of_absent (hsub : ∀ name ∈ names, name ∈ names')
    (habsent : ∀ name ∈ names', name ∉ names → fields.get? name = none) :
    fields.without names' = fields.without names := by
  refine List.filter_congr fun entry hentry => congrArg _ ?_
  rw [Bool.eq_iff_iff, List.any_eq_true, List.any_eq_true]
  constructor
  · rintro ⟨name, hname, hfield⟩
    refine ⟨name, ?_, hfield⟩
    by_contra hnot
    have hhas : fields.has name = true := List.any_eq_true.2 ⟨entry, hentry, hfield⟩
    rw [has_eq_isSome_get?, habsent name hname hnot] at hhas
    cases hhas
  · rintro ⟨name, hname, hfield⟩
    exact ⟨name, hsub name hname, hfield⟩

/-! ## One step -/

/-- The fields that a step of the ladder sets or takes away. -/
def owned : List String := ["version", "syntaxVersion", "createdAt"] ++ legacyDateFields

/-- The bounds of the validity. -/
def bounds : List String := ["starts", "ends"]

/-- Whether one document has the fields of another that no step owns, in the same order, and
with the same values but for the bounds. -/
structure Carries (fields out : Fields) : Prop where
  keys : (out.without owned).map Prod.fst = (fields.without owned).map Prod.fst
  entries : out.without (owned ++ bounds) = fields.without (owned ++ bounds)

theorem Carries.refl (fields : Fields) : fields.Carries fields := ⟨rfl, rfl⟩

theorem Carries.trans {between : Fields} (h : fields.Carries between) (h' : between.Carries out) :
    fields.Carries out :=
  ⟨h'.keys.trans h.keys, h'.entries.trans h.entries⟩

/-- To set or take away a field that a step owns carries the others along. -/
theorem carries_set (h : name ∈ owned) : fields.Carries (fields.set name v) :=
  ⟨by rw [without_set h], without_set (List.mem_append_left _ h)⟩

theorem carries_without (h : ∀ name ∈ names, name ∈ owned) : fields.Carries (fields.without names) :=
  ⟨by rw [without_without h],
    without_without fun name hname => List.mem_append_left _ (h name hname)⟩

theorem carries_fromV1_0 (h : fields.fromV1_0 = .ok out) : fields.Carries out := by
  obtain ⟨-, -, -, -, -, -, -, -, -, rfl⟩ := fromV1_0_eq_ok h
  have hparts : ∀ name ∈ legacyDateFields, name ∈ owned := by decide
  exact ((carries_without hparts).trans (carries_set (by decide))).trans (carries_set (by decide))

theorem carries_retagged : fields.Carries fields.retagged := by
  have hcons : ∀ {tag : Value} {rest : Fields} {names : List String}, "syntaxVersion" ∈ names →
      Fields.without ((.text "syntaxVersion", tag) :: rest) names = rest.without names := by
    intro tag rest names h
    have hfield : isField "syntaxVersion" (.text "syntaxVersion", tag) = true := rfl
    unfold without
    rw [List.filter_cons_of_neg]
    rw [List.any_eq_true.2 ⟨_, h, hfield⟩]
    decide
  have htags : fields.Carries (fields.without ["version", "syntaxVersion"]) :=
    carries_without (by decide)
  refine htags.trans ⟨?_, ?_⟩
  · rw [retagged, hcons (by decide)]
  · rw [retagged, hcons (by decide)]

/-- A bound is left as it is unless it is there, and then brought to its form. -/
theorem normalizeBound_eq_ok_iff {source migrated : Fields} :
    normalizeBound source migrated name = .ok out ↔
      (source.present? name = none ∧ migrated = out) ∨ ∃ v t, source.present? name = some v ∧
        Temporal.normalizeInstant name v = .ok t ∧ migrated.set name (.text t) = out := by
  unfold normalizeBound
  cases source.present? name with
  | none => simp
  | some v => simp [Outcome.map_eq_ok_iff]

/-- A bound is set only where it is. -/
theorem carries_normalizeBound {source migrated : Fields} (hbound : name ∈ bounds)
    (h : normalizeBound source migrated name = .ok out)
    (hget : migrated.get? name = source.get? name) : migrated.Carries out := by
  rcases normalizeBound_eq_ok_iff.1 h with ⟨-, rfl⟩ | ⟨v, t, hpresent, -, rfl⟩
  · exact .refl _
  · have hhas : migrated.has name = true := by
      rw [has_eq_isSome_get?, hget, (present?_eq_some_iff.1 hpresent).1]
      rfl
    exact ⟨keys_without_congr (keys_set hhas), without_set (List.mem_append_right _ hbound)⟩

/-- The tags and the date are no bounds. -/
theorem get?_dated {name : String} (h : name ∈ bounds) (date : Value) :
    (fields.retagged.set "createdAt" date).get? name = fields.get? name := by
  have hcreated : name ≠ "createdAt" := fun heq => absurd (heq ▸ h) (by decide)
  have htag : "syntaxVersion" ≠ name := fun heq => absurd (heq ▸ h) (by decide)
  have htags : name ∉ ["version", "syntaxVersion"] := by
    rintro hmem
    revert name
    decide
  rw [get?_set_of_ne _ _ hcreated, retagged, get?_cons, if_neg (by simpa using htag),
    get?_without_of_not_mem htags]

theorem carries_fromV1_1 (h : fields.fromV1_1 = .ok out) : fields.Carries out := by
  obtain ⟨created, date, dated, -, -, -, hstarts, hends⟩ := fromV1_1_eq_ok h
  have hfirst := carries_normalizeBound (by decide) hstarts (get?_dated (by decide) _)
  have hlast := carries_normalizeBound (by decide) hends
    ((get?_of_normalizeBound hstarts (by decide)).trans (get?_dated (by decide) _))
  exact ((carries_retagged.trans (carries_set (by decide))).trans hfirst).trans hlast

/-- Every step of the ladder carries along what it does not own. -/
theorem carries_of_step {m : Migration} (hm : m ∈ Migration.ladder) (h : m.step fields = .ok out) :
    fields.Carries out := by
  rcases Migration.mem_ladder_iff.1 hm with rfl | rfl
  · exact carries_fromV1_0 h
  · exact carries_fromV1_1 h

/-! ## The bounds and the date -/

/-- What becomes of a bound: it is kept if it is null or absent, and else brought to its
form. -/
def BringsBound (fields out : Fields) (name : String) : Prop :=
  (fields.present? name = none → out.get? name = fields.get? name) ∧
    ∀ v, fields.present? name = some v →
      ∃ t, Temporal.normalizeInstant name v = .ok t ∧ out.get? name = some (.text t)

theorem bringsBound_of_normalizeBound {source migrated : Fields}
    (h : normalizeBound source migrated name = .ok out)
    (hget : migrated.get? name = source.get? name) : source.BringsBound out name := by
  rcases normalizeBound_eq_ok_iff.1 h with ⟨hnone, rfl⟩ | ⟨v, t, hpresent, ht, rfl⟩
  · refine ⟨fun _ => hget, fun v hpresent => ?_⟩
    cases hnone.symm.trans hpresent
  · refine ⟨fun hnone => ?_, fun w hw => ?_⟩
    · cases hnone.symm.trans hpresent
    · cases hpresent.symm.trans hw
      exact ⟨t, ht, get?_set_self _ _ _⟩

theorem bringsBound_of_fromV1_1 (h : fields.fromV1_1 = .ok out) (hname : name ∈ bounds) :
    fields.BringsBound out name := by
  obtain ⟨created, date, dated, -, -, -, hstarts, hends⟩ := fromV1_1_eq_ok h
  have hstart := bringsBound_of_normalizeBound hstarts (get?_dated (by decide) _)
  have hend := bringsBound_of_normalizeBound hends
    ((get?_of_normalizeBound hstarts (by decide)).trans (get?_dated (by decide) _))
  rcases List.mem_pair.1 hname with rfl | rfl
  · unfold BringsBound
    rw [get?_of_normalizeBound hends (by decide)]
    exact hstart
  · exact hend

/-- The first step leaves the bounds alone. -/
theorem get?_bound_of_fromV1_0 (h : fields.fromV1_0 = .ok out) (hname : name ∈ bounds) :
    out.get? name = fields.get? name := by
  obtain ⟨-, -, -, -, -, -, -, -, -, rfl⟩ := fromV1_0_eq_ok h
  have hcreated : name ≠ "createdAt" := fun heq => absurd (heq ▸ hname) (by decide)
  have hversion : name ≠ "version" := fun heq => absurd (heq ▸ hname) (by decide)
  have hparts : name ∉ legacyDateFields := by
    revert name
    decide
  rw [get?_set_of_ne _ _ hcreated, get?_set_of_ne _ _ hversion, get?_without_of_not_mem hparts]

end Fields

/-- Whether a text has the form `YYYY-MM-DD`. -/
def HasDateForm (t : String) : Prop := List.Forall₂ FitsMark dateForm t.toList

theorem Date.hasDateForm_text (d : Date) : HasDateForm d.text := by
  unfold HasDateForm Date.text
  rw [String.toList_ofList]
  exact fits_date d

/-- The last step leaves the date in its form. -/
theorem Fields.get?_createdAt_of_fromV1_1 {fields out : Fields} (h : fields.fromV1_1 = .ok out) :
    ∃ t, out.get? "createdAt" = some (.text t) ∧ HasDateForm t := by
  obtain ⟨created, date, dated, -, -, hdate, hstarts, hends⟩ := fromV1_1_eq_ok h
  obtain ⟨m, -, rfl⟩ := Temporal.normalizeDate_eq_ok_iff.1 hdate
  refine ⟨m.date.text, ?_, m.date.hasDateForm_text⟩
  rw [get?_of_normalizeBound hends (by decide), get?_of_normalizeBound hstarts (by decide),
    get?_set_self]

/-! ## The whole ladder -/

namespace Resolved

variable {fields : Fields} {r : Resolved}

/-- What was carried up the ladder from an old version. -/
theorem Ascent.carries {v : Version} {out : Fields} (ascent : Ascent v fields out)
    (hold : v = .v1_0 ∨ v = .v1_1) :
    fields.Carries out ∧ (∀ name ∈ Fields.bounds, fields.BringsBound out name) ∧
      out.get? "version" = none ∧ ∃ t, out.get? "createdAt" = some (.text t) ∧ HasDateForm t := by
  cases ascent with
  | current => exact absurd hold (by decide)
  | fromV1_1 last =>
    exact ⟨Fields.carries_of_step (Migration.mem_ladder_iff.2 (.inr rfl)) last,
      fun _ => Fields.bringsBound_of_fromV1_1 last, Fields.get?_oldTag_of_fromV1_1 last,
      Fields.get?_createdAt_of_fromV1_1 last⟩
  | fromV1_0 first last =>
    have hfirst := Fields.carries_of_step (Migration.mem_ladder_iff.2 (.inl rfl)) first
    have hlast := Fields.carries_of_step (Migration.mem_ladder_iff.2 (.inr rfl)) last
    refine ⟨hfirst.trans hlast, fun name hname => ?_, Fields.get?_oldTag_of_fromV1_1 last,
      Fields.get?_createdAt_of_fromV1_1 last⟩
    have hbrings := Fields.bringsBound_of_fromV1_1 last hname
    unfold Fields.BringsBound Fields.present? at hbrings ⊢
    rwa [Fields.get?_bound_of_fromV1_0 first hname] at hbrings

/-- A document of an old version that is resolved keeps all its fields but the tags and the date
with its parts, in their order. All of them but the bounds of the validity keep their values, and
so do bounds that are null; the other bounds become the texts of their instants. There is no old
tag any more, and a date in its form. -/
theorem resolved_carries_fields (h : (ofValue (.mapping fields)).result = .ok r)
    (hdeclared : fields.declared = .ok .v1_0 ∨ fields.declared = .ok .v1_1) :
    (r.fields.without ["syntaxVersion", "createdAt"]).map Prod.fst =
      (fields.without ["version", "syntaxVersion", "createdAt", "day", "month", "year"]).map
        Prod.fst ∧
    r.fields.without ["syntaxVersion", "createdAt", "starts", "ends"] =
      fields.without ["version", "syntaxVersion", "createdAt", "day", "month", "year", "starts",
        "ends"] ∧
    (∀ bound ∈ ["starts", "ends"],
      (fields.get? bound = none → r.fields.get? bound = none) ∧
      (fields.get? bound = some .null → r.fields.get? bound = some .null) ∧
      ∀ v, fields.get? bound = some v → v ≠ .null →
        ∃ t, Temporal.normalizeInstant bound v = .ok t ∧ r.fields.get? bound = some (.text t)) ∧
    r.fields.has "version" = false ∧
    ∃ t, r.fields.get? "createdAt" = some (.text t) ∧ HasDateForm t := by
  rw [ofValue_mapping, ofFields_eq_ok_iff] at h
  obtain ⟨hfound, ascent, -, hmisplaced⟩ := h
  have hold : r.declared = .v1_0 ∨ r.declared = .v1_1 := by
    rw [hfound] at hdeclared
    simpa using hdeclared
  obtain ⟨hcarries, hbounds, hversion, hdate⟩ := ascent.carries hold
  -- Of the fields that a step owns, what was resolved has the new tag and the date only.
  have habsent : ∀ name ∈ Fields.owned, name ∉ ["syntaxVersion", "createdAt"] →
      r.fields.get? name = none := by
    intro name hname hnot
    have hparts := (Fields.misplaced_eq_nil_of_later (.inr rfl)).1 hmisplaced
    rcases List.mem_append.1 hname with htag | hpart
    · have heq : name = "version" := by
        revert name
        decide
      rw [heq, hversion]
    · exact hparts name hpart
  refine ⟨?_, ?_, fun bound hbound => ?_, ?_, hdate⟩
  · rw [← Fields.without_of_absent (by decide) habsent, hcarries.keys]
    rfl
  · have habsent' : ∀ name ∈ Fields.owned ++ Fields.bounds,
        name ∉ ["syntaxVersion", "createdAt"] ++ Fields.bounds → r.fields.get? name = none := by
      intro name hname hnot
      rw [List.mem_append, not_or] at hnot
      exact habsent name ((List.mem_append.1 hname).resolve_right hnot.2) hnot.1
    have hentries := hcarries.entries
    rw [Fields.without_of_absent (by decide) habsent'] at hentries
    exact hentries
  · obtain ⟨hkept, hbrought⟩ := hbounds bound hbound
    refine ⟨fun hnone => ?_, fun hnull => ?_, fun v hv hne => ?_⟩
    · rw [hkept (Fields.present?_eq_none_iff.2 (.inl hnone)), hnone]
    · rw [hkept (Fields.present?_eq_none_iff.2 (.inr hnull)), hnull]
    · exact hbrought v (Fields.present?_eq_some_iff.2 ⟨hv, hne⟩)
  · rw [Fields.has_eq_isSome_get?, hversion]
    rfl

/-- A document of version 1.0, with a field that no version knows, a null and a date for
bounds, and a key that is no text. -/
def scatteredFields : Fields :=
  [(.text "year", .int 2024), (.text "ends", .text "2025-01-01"), (.text "month", .int 8),
   (.text "notes", .list [.null]), (.int 7, .text "seven"), (.text "day", .int 31),
   (.text "starts", .null)]

/-- What the ladder makes of that document. -/
def scatteredResolved : Resolved :=
  ⟨[(.text "syntaxVersion", .text "2.0"), (.text "ends", .text "2025-01-01T00:00:00Z"),
    (.text "notes", .list [.null]), (.int 7, .text "seven"), (.text "starts", .null),
    (.text "createdAt", .text "2024-08-31")], .v1_0, .v2_0⟩

/-- The fields stay in their order around the parts of the date. -/
theorem resolved_carries_fields_scattered :
    (ofValue (.mapping scatteredFields)).result = .ok scatteredResolved ∧
    (scatteredFields.without ["version", "syntaxVersion", "createdAt", "day", "month", "year"]).map
      Prod.fst = [.text "ends", .text "notes", .int 7, .text "starts"] ∧
    (scatteredResolved.fields.without ["syntaxVersion", "createdAt"]).map Prod.fst =
      [.text "ends", .text "notes", .int 7, .text "starts"] ∧
    scatteredResolved.fields.get? "starts" = some .null ∧
    ∃ t, scatteredResolved.fields.get? "createdAt" = some (.text t) ∧ HasDateForm t := by
  have h : (ofValue (.mapping scatteredFields)).result = .ok scatteredResolved := rfl
  obtain ⟨hkeys, -, hbounds, -, hdate⟩ := resolved_carries_fields h (.inl rfl)
  exact ⟨h, rfl, hkeys.trans rfl, (hbounds "starts" (by decide)).2.1 rfl, hdate⟩

end Resolved

end Tariff
