import Tariff.Proofs.Pricing.Explained
import Tariff.Proofs.Pricing.PriceFault
import Tariff.Proofs.Version.Climb
import Tariff.Proofs.Version.Short

/-!
# What is reported of reading a document

Whatever value is given as a document, it is read as a pricing, or refused for a cause that
its caller is promised: for what is in it, or for a price that cannot be calculated. Reading
is done in two parts, each with events of its own: on the way up the ladder every completed
step is reported, and after that the sections that were read and a formula without a value
(`Event.OfResolving`, `Event.OfReading`). One event more ends it, and says how it ended.

There is one way out beside these: an integer with too many digits to be read or shown is no
cause and is not reported. A document that is short, read within limits that can be shown, has no
such integer (`Pricing.ofValue_ne_overlong`).

`Pricing.ofValue_reported` is the whole account.
-/

namespace Tariff

/-! ## Classes of errors -/

/-- The classes of the errors for which a document is refused for what is in it. -/
def ConfigError.codes : List String :=
  ["CONFIG_STRUCTURE_ERROR", "MISSING_REQUIRED_FIELD", "TYPE_MISMATCH", "UNKNOWN_ENUM_VALUE",
    "UNRESOLVED_REFERENCE", "VERSION_ERROR", "EXPRESSION_SYNTAX_ERROR", "INVALID_VALUE"]

theorem ConfigError.code_mem_codes (e : ConfigError) : e.report.code ∈ ConfigError.codes := by
  cases e <;> simp [ConfigError.report, ConfigError.structureReport, ConfigError.codes]

theorem FormulaError.code_report (e : FormulaError) : e.report.code = FormulaError.code := by
  cases e <;> rfl

/-! ## Events of a sort -/

namespace Logged

variable {ε δ α β : Type} {P : Event → Prop} {x : Logged ε α}

/-- Whether all that is reported is of one sort. -/
def Reports (P : Event → Prop) (x : Logged ε α) : Prop := ∀ e ∈ x.events, P e

theorem reports_pure (a : α) : (pure a : Logged ε α).Reports P := nofun

theorem reports_ofExcept (r : Except ε α) : (ofExcept r).Reports P := nofun

theorem reports_emit {e : Event} (h : P e) : (emit e : Logged ε Unit).Reports P := by
  unfold Reports
  rw [events_emit, List.forall_mem_singleton]
  exact h

theorem Reports.bind {next : α → Logged ε β} (hx : x.Reports P) (hnext : ∀ a, (next a).Reports P) :
    (x >>= next).Reports P := by
  unfold Reports
  cases h : x.result with
  | error e =>
    rw [events_bind_error h]
    exact hx
  | ok a =>
    rw [events_bind_ok h, List.forall_mem_append]
    exact ⟨hx, hnext a⟩

theorem Reports.onError {trace : ε → List Event} (hx : x.Reports P)
    (htrace : ∀ e, ∀ event ∈ trace e, P event) : (x.onError trace).Reports P := by
  unfold Reports Logged.onError
  split
  · exact hx
  · next e _ => exact List.forall_mem_append.2 ⟨hx, htrace e⟩

end Logged

namespace Event

/-- What is reported of a document on its way up the ladder. -/
inductive OfResolving : Event → Prop where
  | documentMigrated (source target : Version) : OfResolving (.documentMigrated source target)
  | legacyResolved (declared version : Version) : OfResolving (.legacyResolved declared version)

/-- What is reported of a document in the current syntax while it is read. -/
inductive OfReading : Event → Prop where
  | sectionParsed (part : Section) (count : Nat) : OfReading (.sectionParsed part count)
  | formulaFailed (source : String) (fault : FormulaFault) : OfReading (.formulaFailed source fault)

/-- The events that report a completed step of the ladder. -/
def migrations (events : List Event) : List Event :=
  events.filter fun e => e.name == "Document migrated"

variable {e : Event}

theorem migrations_append (first second : List Event) :
    migrations (first ++ second) = migrations first ++ migrations second :=
  List.filter_append _ _

theorem migrations_eq_nil {events : List Event} (h : ∀ e ∈ events, e.name ≠ "Document migrated") :
    migrations events = [] := by
  unfold migrations
  rw [List.filter_eq_nil_iff]
  exact fun e he => by simpa using h e he

/-- Every completed step is reported as a migration. -/
theorem migrations_map_event (done : List Migration) :
    migrations (done.map Migration.event) = done.map Migration.event := by
  unfold migrations
  rw [List.filter_eq_self, List.forall_mem_map]
  exact fun m _ => rfl

theorem OfResolving.name_not_mem (h : e.OfResolving) :
    e.name ∉ ["Pricing parsed", "Pricing parse failed"] := by
  cases h with
  | documentMigrated source target =>
    show "Document migrated" ∉ _
    decide
  | legacyResolved declared version =>
    show "Legacy document resolved" ∉ _
    decide

theorem OfReading.name_not_mem (h : e.OfReading) :
    e.name ∉ ["Pricing parsed", "Pricing parse failed"] ∧ e.name ≠ "Document migrated" := by
  cases h with
  | sectionParsed part count =>
    show part.title ++ " parsed" ∉ _ ∧ part.title ++ " parsed" ≠ _
    cases part <;> decide
  | formulaFailed source fault =>
    show "Formula evaluation failed" ∉ _ ∧ "Formula evaluation failed" ≠ _
    decide

end Event

/-! ## Resolving -/

namespace Resolved

variable {document : Value}

/-- Whether a document is a mapping that declares its version. -/
def Declares (document : Value) (fields : Fields) (v : Version) : Prop :=
  document = .mapping fields ∧ fields.declared = .ok v

/-- Of a document that declares its version the completed steps are reported, and then perhaps
its arrival; of any other document nothing is. -/
theorem events_ofValue (document : Value) :
    (∃ fields v done b, Declares document fields v ∧ Climbs (fields, v) done b ∧ Stops b ∧
      ∃ arrived, (arrived = [] ∨ arrived = [.legacyResolved v b.2]) ∧
        (ofValue document).events = done.map Migration.event ++ arrived) ∨
    ((∀ fields v, ¬Declares document fields v) ∧ (ofValue document).events = []) := by
  cases document with
  | mapping fields =>
    cases hdeclared : Fields.declared fields with
    | error e =>
      refine .inr ⟨?_, ?_⟩
      · rintro fields' v ⟨heq, hv⟩
        cases heq
        rw [hdeclared] at hv
        cases hv
      · rw [ofValue_of_undeclared hdeclared]
    | ok v =>
      have hevents : (ofValue (.mapping fields)).events = (ofFields fields).events := rfl
      rw [hevents]
      left
      obtain ⟨done, b, climbs, stops, ⟨-, -, hlog⟩ | ⟨e, -, -, hlog⟩⟩ := ofFields_climbs hdeclared
      · refine ⟨fields, v, done, b, ⟨rfl, hdeclared⟩, climbs, stops, _, ?_, hlog⟩
        split
        · exact .inl rfl
        · exact .inr rfl
      · exact ⟨fields, v, done, b, ⟨rfl, hdeclared⟩, climbs, stops, [], .inl rfl,
          hlog.trans (List.append_nil _).symm⟩
  | _ => exact .inr ⟨nofun, rfl⟩

theorem reports_ofValue (document : Value) : (ofValue document).Reports Event.OfResolving := by
  unfold Logged.Reports
  rcases events_ofValue document with ⟨fields, v, done, b, -, -, -, arrived, harrived, hevents⟩ |
    ⟨-, hevents⟩
  · rw [hevents, List.forall_mem_append, List.forall_mem_map]
    refine ⟨fun m _ => .documentMigrated m.source m.target, ?_⟩
    rcases harrived with rfl | rfl
    · exact nofun
    · rw [List.forall_mem_singleton]
      exact .legacyResolved v b.2
  · rw [hevents]
    exact nofun

/-- The steps that are reported as migrations are those that were completed. -/
theorem migrations_ofValue (document : Value) :
    (∃ fields v done b, Declares document fields v ∧ Climbs (fields, v) done b ∧ Stops b ∧
      Event.migrations (ofValue document).events = done.map Migration.event) ∨
    ((∀ fields v, ¬Declares document fields v) ∧
      Event.migrations (ofValue document).events = []) := by
  rcases events_ofValue document with
    ⟨fields, v, done, b, hdeclares, climbs, stops, arrived, harrived, hevents⟩ | ⟨hnone, hevents⟩
  · have hrest : Event.migrations arrived = [] := by
      refine Event.migrations_eq_nil ?_
      rcases harrived with rfl | rfl
      · exact nofun
      · rw [List.forall_mem_singleton]
        show "Legacy document resolved" ≠ _
        decide
    refine .inl ⟨fields, v, done, b, hdeclares, climbs, stops, ?_⟩
    rw [hevents, Event.migrations_append, Event.migrations_map_event, hrest, List.append_nil]
  · rw [hevents]
    exact .inr ⟨hnone, rfl⟩

end Resolved

/-! ## The two parts of reading -/

namespace Pricing

open Event (OfReading)

variable {α : Type} {limits : Limits} {document : Value}

theorem reports_phase (outcome : Except ParseError α) : (phase outcome).Reports OfReading := by
  refine (Logged.reports_ofExcept outcome).onError fun e event hevent => ?_
  cases e with
  | config e => cases hevent
  | formula e =>
    cases e with
    | fault source reason =>
      obtain rfl := List.mem_singleton.1 hevent
      exact .formulaFailed source reason
    | _ => cases hevent
  | overlong => cases hevent

theorem reports_sectionOf (part : Section) (read : Table Node → Except ParseError (Table α))
    (node : Node) : (sectionOf part read node).Reports OfReading :=
  (reports_phase _).bind fun _ => (reports_phase _).bind fun made =>
    (Logged.reports_emit (.sectionParsed part made.length)).bind fun _ => Logged.reports_pure made

theorem reports_optionalSection (part : Section)
    (read : Table Node → Except ParseError (Table α)) (root : Node) :
    (optionalSection part read root).Reports OfReading := by
  refine (reports_phase _).bind fun node? => ?_
  cases node? with
  | none => exact Logged.reports_pure _
  | some node => exact reports_sectionOf part read node

theorem reports_ofNode (version : Version) (root : Node) :
    (ofNode limits version root).Reports OfReading := by
  refine (reports_phase _).bind fun attributes => ?_
  refine (reports_phase _).bind fun node => ?_
  refine (reports_sectionOf _ _ _).bind fun features => ?_
  refine (reports_optionalSection _ _ _).bind fun usageLimits => ?_
  refine (reports_optionalSection _ _ _).bind fun plans => ?_
  refine (reports_optionalSection _ _ _).bind fun addOns => ?_
  split
  · exact reports_phase _
  · exact Logged.reports_pure _

theorem reports_ofCanonical (version : Version) :
    (ofCanonical limits document version).Reports OfReading :=
  (reports_phase _).bind fun root => (reports_phase _).bind fun _ => reports_ofNode version root

/-- How the reading of a document ended, as it is reported, if it is. -/
def ending? : Except ParseError Pricing → Option Event
  | .ok pricing => some (.pricingParsed pricing.saasName pricing.version pricing.features.length
      pricing.usageLimits.length pricing.plans.length pricing.addOns.length)
  | .error e => e.report?.map .parseFailed

/-- A document is brought to the current version, and then read; in the end it is reported how
it ended. -/
theorem events_ofValue (limits : Limits) (document : Value) :
    ∃ later, (∀ e ∈ later, e.OfReading) ∧ (ofValue limits document).events =
      (Resolved.ofValue document).events ++ later ++
        (ending? (ofValue limits document).result).toList := by
  have hended : ∀ x : Logged ParseError Pricing,
      (x.onError (fun e => e.report?.toList.map Event.parseFailed) >>= fun pricing => do
        Logged.emit (.pricingParsed pricing.saasName pricing.version pricing.features.length
          pricing.usageLimits.length pricing.plans.length pricing.addOns.length)
        return pricing) = ⟨x.events ++ (ending? x.result).toList, x.result⟩ := by
    rintro ⟨events, e | pricing⟩
    · cases e <;> rfl
    · rfl
  unfold ofValue
  rw [hended]
  cases hresolved : ((Resolved.ofValue document).mapError ParseError.refused).result with
  | error e =>
    rw [Logged.events_bind_error hresolved]
    exact ⟨[], nofun, by rw [List.append_nil]; rfl⟩
  | ok r =>
    rw [Logged.events_bind_ok hresolved]
    exact ⟨_, reports_ofCanonical r.version, rfl⟩

theorem name_of_ending? {outcome : Except ParseError Pricing} {last : Event}
    (h : ending? outcome = some last) :
    (∃ pricing, outcome = .ok pricing ∧ last.name = "Pricing parsed") ∨
      ∃ e report, outcome = .error e ∧ e.report? = some report ∧ last = .parseFailed report := by
  cases outcome with
  | ok pricing =>
    cases h
    exact .inl ⟨pricing, rfl, rfl⟩
  | error e =>
    obtain ⟨report, hreport, rfl⟩ := Option.map_eq_some_iff.1 h
    exact .inr ⟨e, report, rfl, hreport, rfl⟩

/-- Every end is reported but one. -/
theorem exists_ending? {outcome : Except ParseError Pricing} (h : outcome ≠ .error .overlong) :
    ∃ last, ending? outcome = some last := by
  rcases outcome with e | pricing
  · cases e with
    | config e | formula e => exact ⟨_, rfl⟩
    | overlong => exact absurd rfl h
  · exact ⟨_, rfl⟩

/-- Only the resolving of a document reports migrations. -/
theorem migrations_ofValue (limits : Limits) (document : Value) :
    Event.migrations (ofValue limits document).events =
      Event.migrations (Resolved.ofValue document).events := by
  obtain ⟨later, hlater, hevents⟩ := events_ofValue limits document
  have hlast : ∀ e ∈ (ending? (ofValue limits document).result).toList,
      e.name ≠ "Document migrated" := by
    intro e he
    rcases name_of_ending? (Option.mem_toList.1 he) with ⟨pricing, -, hname⟩ | ⟨_, _, -, -, rfl⟩
    · rw [hname]
      decide
    · show "Pricing parse failed" ≠ _
      decide
  rw [hevents, Event.migrations_append, Event.migrations_append,
    Event.migrations_eq_nil fun e he => (hlater e he).name_not_mem.2,
    Event.migrations_eq_nil hlast, List.append_nil, List.append_nil]

/-- A short document, read within limits that can be shown, is read or refused with a report. -/
theorem ofValue_ne_overlong (hlimits : limits.AreWritable) (h : document.IsShort) :
    (ofValue limits document).result ≠ .error .overlong := by
  intro hoverlong
  rw [Resolved.result_pricingOfValue] at hoverlong
  rcases Outcome.bind_eq_error_iff.1 hoverlong with hresolved | ⟨r, hresolved, hread⟩
  · obtain ⟨refusal, hrefusal, heq⟩ := Outcome.mapError_eq_error_iff.1 hresolved
    cases refusal with
    | because e => cases heq
    | overlong => exact Resolved.ofValue_ne_overlong h hrefusal
  · have hfields := Resolved.isShort_of_ofValue h (Outcome.mapError_eq_ok_iff.1 hresolved)
    exact ofCanonical_ne_overlong hlimits hfields hread

/-- Whatever is given as a document, it is read as a pricing or refused, for what is in it or
for a price that cannot be calculated, the latter after all that stands before the plans has
been read; or it is given up for an integer with too many digits, which does not happen to short
documents. Unless it is given up, the last event that is reported says how it ended, and no other
does; else none does. Steps of the ladder are reported as migrations just as far as they were
completed. -/
theorem ofValue_reported (limits : Limits) (document : Value) :
    ((∃ pricing, (ofValue limits document).result = .ok pricing) ∨
      (∃ e, (ofValue limits document).result = .error (.config e) ∧
        e.report.code ∈ ConfigError.codes) ∨
      (∃ e, (ofValue limits document).result = .error (.formula e) ∧
        e.report.code = "EXPRESSION_EVALUATION_ERROR" ∧
        ∃ r root, (Resolved.ofValue document).result = .ok r ∧
          Node.ofValue (.mapping r.fields) = .ok root ∧ root.PricesFail limits e) ∨
      (ofValue limits document).result = .error .overlong ∧
        ¬(limits.AreWritable ∧ document.IsShort)) ∧
    ((ofValue limits document).result ≠ .error .overlong →
      ∃ before last, (ofValue limits document).events = before ++ [last] ∧
        (∀ e ∈ before, e.name ∉ ["Pricing parsed", "Pricing parse failed"]) ∧
        (∀ pricing, (ofValue limits document).result = .ok pricing →
          last.name = "Pricing parsed") ∧
        ∀ e, (ofValue limits document).result = .error e →
          ∃ report, e.report? = some report ∧ last.name = "Pricing parse failed" ∧
            last.fields = [("code", .text report.code), ("error", .text report.message)]) ∧
    ((ofValue limits document).result = .error .overlong →
      ∀ e ∈ (ofValue limits document).events,
        e.name ∉ ["Pricing parsed", "Pricing parse failed"]) ∧
    ((∃ fields v done b, Resolved.Declares document fields v ∧
        Resolved.Climbs (fields, v) done b ∧ Resolved.Stops b ∧
        Event.migrations (ofValue limits document).events = done.map Migration.event) ∨
      ((∀ fields v, ¬Resolved.Declares document fields v) ∧
        Event.migrations (ofValue limits document).events = [])) := by
  obtain ⟨later, hlater, hevents⟩ := events_ofValue limits document
  have hbefore : ∀ e ∈ (Resolved.ofValue document).events ++ later,
      e.name ∉ ["Pricing parsed", "Pricing parse failed"] :=
    List.forall_mem_append.2 ⟨fun e he => (Resolved.reports_ofValue document e he).name_not_mem,
      fun e he => (hlater e he).name_not_mem.1⟩
  refine ⟨?_, fun hreported => ?_, fun hoverlong => ?_, ?_⟩
  · cases h : (ofValue limits document).result with
    | ok pricing => exact .inl ⟨pricing, rfl⟩
    | error e =>
      cases e with
      | config e => exact .inr (.inl ⟨e, rfl, e.code_mem_codes⟩)
      | formula e => exact .inr (.inr (.inl ⟨e, rfl, e.code_report, ofValue_eq_formula_error h⟩))
      | overlong =>
        exact .inr (.inr (.inr ⟨rfl, fun ⟨hlimits, hshort⟩ => ofValue_ne_overlong hlimits hshort h⟩))
  · obtain ⟨last, hlast⟩ := exists_ending? hreported
    rw [hlast] at hevents
    refine ⟨(Resolved.ofValue document).events ++ later, last, hevents, hbefore, ?_, ?_⟩
    · intro pricing h
      rcases name_of_ending? hlast with ⟨-, -, hname⟩ | ⟨e, -, he, -, -⟩
      · exact hname
      · rw [h] at he
        cases he
    · intro e h
      rcases name_of_ending? hlast with ⟨pricing, hpricing, -⟩ | ⟨e', report, he, hreport, rfl⟩
      · rw [h] at hpricing
        cases hpricing
      · cases h.symm.trans he
        exact ⟨report, hreport, rfl, rfl⟩
  · rw [hoverlong] at hevents
    rw [hevents, List.forall_mem_append]
    exact ⟨hbefore, nofun⟩
  · rw [migrations_ofValue]
    exact Resolved.migrations_ofValue document

/-- A document of the oldest version with a plan whose price divides by zero. -/
def unpricedFields : Fields :=
  [(.text "saasName", .text "Demo"), (.text "currency", .text "EUR"),
   (.text "day", .int 31), (.text "month", .int 8), (.text "year", .int 2024),
   (.text "features", .mapping [
     (.text "sso", .mapping [(.text "type", .text "CAPABILITY"),
       (.text "valueType", .text "BOOLEAN"), (.text "defaultValue", .bool true)])]),
   (.text "plans", .mapping [(.text "basic", .mapping [(.text "price", .text "1 / 0")])])]

/-- It is refused for that price after both steps of the ladder, and that is the last thing
reported. -/
theorem ofValue_reported_unpriced :
    ∃ e before last done b,
      (ofValue ⟨64, 1000⟩ (.mapping unpricedFields)).result = .error (.formula e) ∧
      e.report.code = "EXPRESSION_EVALUATION_ERROR" ∧
      (ofValue ⟨64, 1000⟩ (.mapping unpricedFields)).events = before ++ [last] ∧
      last.name = "Pricing parse failed" ∧
      (∀ e ∈ before, e.name ∉ ["Pricing parsed", "Pricing parse failed"]) ∧
      Resolved.Climbs (unpricedFields, .v1_0) done b ∧ Resolved.Stops b ∧ done.length = 2 := by
  have hrefused : (match (ofValue ⟨64, 1000⟩ (.mapping unpricedFields)).result with
      | .error (.formula _) => true
      | _ => false) = true := by
    rw [Resolved.result_pricingOfValue]
    decide +kernel
  have hlength : (Event.migrations
      (ofValue ⟨64, 1000⟩ (.mapping unpricedFields)).events).length = 2 := by
    rw [migrations_ofValue]
    decide +kernel
  obtain ⟨houtcome, hended, -, hmigrations⟩ :=
    ofValue_reported ⟨64, 1000⟩ (.mapping unpricedFields)
  rcases houtcome with ⟨pricing, h⟩ | ⟨e, h, -⟩ | ⟨e, h, hcode, -⟩ | ⟨h, -⟩
  · rw [h] at hrefused
    cases hrefused
  · rw [h] at hrefused
    cases hrefused
  · obtain ⟨before, last, hevents, hbefore, -, hlast⟩ := hended (by rw [h]; nofun)
    obtain ⟨-, -, hname, -⟩ := hlast _ h
    obtain ⟨fields, v, done, b, ⟨hfields, hv⟩, climbs, stops, hdone⟩ | ⟨-, hnone⟩ := hmigrations
    · cases hfields
      cases (show unpricedFields.declared = .ok .v1_0 from rfl).symm.trans hv
      refine ⟨e, before, last, done, b, h, hcode, hevents, hname, hbefore, climbs, stops, ?_⟩
      rw [hdone, List.length_map] at hlength
      exact hlength
    · rw [hnone] at hlength
      cases hlength
  · rw [h] at hrefused
    cases hrefused

/-- A document with a tag that spells a version, but with too many digits. -/
def overlongTagged : Fields := [(.text "version", Version.roundTag Text.overlongDigits)]

/-- It is refused for no cause, and nothing is reported of that. -/
theorem overlong_tag_is_not_reported :
    (ofValue ⟨64, 1000⟩ (.mapping overlongTagged)).result = .error .overlong ∧
      (ofValue ⟨64, 1000⟩ (.mapping overlongTagged)).events = [] := by
  have hparse : Version.parse "version" (Version.roundTag Text.overlongDigits) = .error .overlong :=
    Version.parse_of_overlong (Version.spells_roundTag Text.denotes_overlongDigits)
      (.inl Text.maxDigits_lt_length_overlongDigits)
  have hdeclared : overlongTagged.declared = .error .overlong := by
    have hnew : overlongTagged.present? "syntaxVersion" = none := rfl
    have hold : overlongTagged.present? "version" =
      some (Version.roundTag Text.overlongDigits) := rfl
    unfold Fields.declared
    rw [hnew, hold]
    dsimp only
    rw [hparse]
    rfl
  unfold ofValue
  rw [Resolved.ofValue_of_undeclared hdeclared]
  exact ⟨rfl, rfl⟩

end Pricing

end Tariff
