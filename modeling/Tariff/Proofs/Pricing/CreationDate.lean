import Tariff.Proofs.Document.Normalized
import Tariff.Proofs.Pricing.Closed
import Tariff.Proofs.Version.Climb
import Tariff.Proofs.Version.LegacyDate

/-!
# When a pricing was created

A document of an old version gives the date of its creation in a form of its own: as three
integers, or as a date or a date with a time. On the way up the ladder it is written as text,
possibly twice, and in the end it is read from that text. It is the same date still: that of
the three integers, or the date as it was written, whatever the offset of its time
(`Pricing.createdAt_of_legacy`). What is refused on the way is refused for the first fault in
the three integers.
-/

namespace Tariff

variable {limits : Limits} {fields between out : Fields} {document : Value} {pricing : Pricing}

/-! ## What is read in the end -/

theorem Attributes.createdAt_of_ofNode {root : Node} {attributes : Attributes}
    (h : root.Shows document) (hread : Attributes.ofNode root = .ok attributes) :
    (∃ w t, document.field? "createdAt" = some w ∧ w.scalar? = some (.text t) ∧
      Temporal.canonicalDate "createdAt" t = .ok attributes.createdAt) ∧
    (document.field? "version" = none → attributes.label = none) := by
  obtain ⟨hcreated, -, hlabel, -⟩ := readFrom_of_ofNode hread
  obtain ⟨dateNode, hdateNode, hcreated⟩ := Outcome.bind_eq_ok_iff.1 hcreated
  obtain ⟨t, ht, hdate⟩ := Outcome.bind_eq_ok_iff.1 hcreated
  obtain ⟨w, hw, hshows⟩ := h.require hdateNode
  refine ⟨⟨w, t, hw, hshows.asText ht, hdate⟩, fun habsent => ?_⟩
  rcases h.optionalLifted hlabel with ⟨-, hnone⟩ | ⟨v, -, -, hv, -⟩
  · exact hnone
  · rw [habsent] at hv
    cases hv

namespace Pricing

/-- A pricing read of what the last step left was created at the date that the step found,
as it was written there, and has no label. -/
theorem createdAt_of_fromV1_1 (h : fields.fromV1_1 = .ok out)
    (hread : (ofCanonical limits (.mapping out) .v2_0).result = .ok pricing) :
    pricing.version = .v2_0 ∧ pricing.label = none ∧
      ∃ created m, fields.present? "createdAt" = some created ∧
        created.writtenMoment? = some m ∧ pricing.createdAt = m.date := by
  obtain ⟨hversion, root, -, -, -, -, hshows, hattributes, -⟩ := ofCanonical_eq_ok hread
  obtain ⟨⟨w, t, hw, ht, hdate⟩, hlabel⟩ := Attributes.createdAt_of_ofNode hshows hattributes
  obtain ⟨created, date, dated, -, hcreated, hnormalized, hstarts, hends⟩ := Fields.fromV1_1_eq_ok h
  obtain ⟨m, hm, rfl⟩ := Temporal.normalizeDate_eq_ok_iff.1 hnormalized
  -- The step set the date, and neither bound touched it.
  have hset : out.get? "createdAt" = some (.text m.date.text) := by
    rw [Fields.get?_of_normalizeBound hends (by decide),
      Fields.get?_of_normalizeBound hstarts (by decide), Fields.get?_set_self]
  have hlabelled : out.present? "version" = none :=
    Fields.present?_eq_none_iff.2 (.inl (Fields.get?_oldTag_of_fromV1_1 h))
  refine ⟨hversion, hlabel hlabelled, created, m, hcreated, hm, ?_⟩
  cases (Fields.present?_eq_some_iff.2 ⟨hset, nofun⟩).symm.trans hw
  cases ht
  rw [Temporal.canonicalDate_text] at hdate
  exact (Except.ok.inj hdate).symm

/-- The first step sets the date that its three integers are. -/
theorem writtenMoment?_of_fromV1_0 (h : fields.fromV1_0 = .ok between) :
    ∃ d : Date, fields.present? "day" = some (.int d.day) ∧
      fields.present? "month" = some (.int d.month) ∧
      fields.present? "year" = some (.int d.year) ∧
      ∃ created, between.present? "createdAt" = some created ∧
        created.writtenMoment? = some (.ofDate d) := by
  obtain ⟨-, d, hday, hmonth, hyear, rfl⟩ := Fields.fromV1_0_eq_ok_iff.1 h
  refine ⟨d, hday, hmonth, hyear, .text d.text, ?_, Temporal.looseMoment?_text d⟩
  exact Fields.present?_eq_some_iff.2 ⟨Fields.get?_set_self _ _ _, nofun⟩

/-- A pricing was read of what came up the ladder from the declared version. -/
theorem ascent_of_ofValue {v : Version} (hdeclared : fields.declared = .ok v)
    (h : (ofValue limits (.mapping fields)).result = .ok pricing) :
    ∃ out, Resolved.Ascent v fields out ∧
      (ofCanonical limits (.mapping out) .v2_0).result = .ok pricing := by
  obtain ⟨entries, r, heq, hresolved, hread⟩ := ofValue_eq_ok_iff.1 h
  cases heq
  obtain ⟨hdeclared', ascent, hversion, -⟩ := Resolved.ofFields_eq_ok_iff.1 hresolved
  rw [hdeclared] at hdeclared'
  cases hdeclared'
  exact ⟨r.fields, ascent, hversion ▸ hread⟩

/-- A document that is refused by the first step is refused for that. -/
theorem ofValue_of_fromV1_0_error {e : Refusal ConfigError}
    (hdeclared : fields.declared = .ok .v1_0) (h : fields.fromV1_0 = .error e) :
    (ofValue limits (.mapping fields)).result = .error (ParseError.refused e) := by
  have hclimb : Resolved.climb (fields, .v1_0) ⟨.v1_0, .v1_1, Fields.fromV1_0⟩ = ⟨[], .error e⟩ :=
    Resolved.climb_of_refused (m := ⟨.v1_0, .v1_1, Fields.fromV1_0⟩) h
  have hrefused : (Resolved.ofFields fields).result = .error e := by
    rw [Resolved.ofFields_of_declared hdeclared, Migration.ladder, List.foldlM_cons, hclimb]
    rfl
  rw [Resolved.result_ofValue_pricing, hrefused]
  rfl

/-- The date of a document of an old version is that of the pricing that is read from it.

A document of the oldest version that has no date in the later form is taken up its first step
exactly if its three integers are a date of the calendar, and is else refused for the first
fault in them; only if that shows an integer with too many digits, it is refused without a cause.
A pricing read from it was created at that date. A pricing read from a document of version 1.1 was
created at its date as it is written. Both have the current version and no label. -/
theorem createdAt_of_legacy (limits : Limits) (fields : Fields) :
    (fields.declared = .ok .v1_0 → fields.has "createdAt" = false →
      ((∃ out, fields.fromV1_0 = .ok out) ↔
        ∃ year month day, fields.present? "year" = some (.int year) ∧
          fields.present? "month" = some (.int month) ∧
          fields.present? "day" = some (.int day) ∧ IsCalendarDate year month day) ∧
      (∀ refusal, fields.fromV1_0 = .error refusal ↔
        ∃ e, fields.DateFault e ∧ refusal = e.refusal) ∧
      (∀ e, fields.DateFault e → (ofValue limits (.mapping fields)).result =
        .error (if e.isWritable then .config e else .overlong)) ∧
      ∀ pricing, (ofValue limits (.mapping fields)).result = .ok pricing →
        fields.present? "year" = some (.int pricing.createdAt.year) ∧
          fields.present? "month" = some (.int pricing.createdAt.month) ∧
          fields.present? "day" = some (.int pricing.createdAt.day) ∧
          pricing.version = .v2_0 ∧ pricing.label = none) ∧
    (fields.declared = .ok .v1_1 →
      ∀ pricing, (ofValue limits (.mapping fields)).result = .ok pricing →
        (∃ created m, fields.present? "createdAt" = some created ∧
          created.writtenMoment? = some m ∧ pricing.createdAt = m.date) ∧
        pricing.version = .v2_0 ∧ pricing.label = none) := by
  constructor
  · intro hdeclared hcreated
    have herror : ∀ refusal, fields.fromV1_0 = .error refusal ↔
        ∃ e, fields.DateFault e ∧ refusal = e.refusal := by
      intro refusal
      rw [Fields.fromV1_0_eq_error_iff, hcreated]
      simp
    refine ⟨?_, herror, fun e fault => ?_, fun pricing h => ?_⟩
    · constructor
      · rintro ⟨out, h⟩
        obtain ⟨d, hday, hmonth, hyear, -⟩ := writtenMoment?_of_fromV1_0 h
        exact ⟨d.year, d.month, d.day, hyear, hmonth, hday, isCalendarDate_iff.2 ⟨d, rfl, rfl, rfl⟩⟩
      · rintro ⟨year, month, day, hyear, hmonth, hday, hdate⟩
        obtain ⟨d, rfl, rfl, rfl⟩ := isCalendarDate_iff.1 hdate
        exact ⟨_, Fields.fromV1_0_eq_ok_iff.2 ⟨hcreated, d, hday, hmonth, hyear, rfl⟩⟩
    · rw [ofValue_of_fromV1_0_error hdeclared ((herror _).2 ⟨e, fault, rfl⟩), ConfigError.refusal]
      cases e.isWritable <;> rfl
    · obtain ⟨out, ascent, hread⟩ := ascent_of_ofValue hdeclared h
      cases ascent with
      | fromV1_0 first last =>
        obtain ⟨d, hday, hmonth, hyear, created, hcreated', hmoment⟩ :=
          writtenMoment?_of_fromV1_0 first
        obtain ⟨hcurrent, hlabel, created', m, hpresent, hm, hdate⟩ :=
          createdAt_of_fromV1_1 last hread
        cases hcreated'.symm.trans hpresent
        cases hmoment.symm.trans hm
        rw [hdate]
        exact ⟨hyear, hmonth, hday, hcurrent, hlabel⟩
  · intro hdeclared pricing h
    obtain ⟨out, ascent, hread⟩ := ascent_of_ofValue hdeclared h
    cases ascent with
    | fromV1_1 last =>
      obtain ⟨hcurrent, hlabel, hdate⟩ := createdAt_of_fromV1_1 last hread
      exact ⟨hdate, hcurrent, hlabel⟩

/-- What is the same in the following two documents. -/
def undatedFields : Fields :=
  [(.text "saasName", .text "Demo"), (.text "currency", .text "EUR"),
   (.text "features", .mapping [
     (.text "sso", .mapping [(.text "type", .text "CAPABILITY"),
       (.text "valueType", .text "BOOLEAN"), (.text "defaultValue", .bool true)])]),
   (.text "plans", .mapping [(.text "basic", .mapping [])])]

/-- A document of the leap day of the year 4. -/
def leapDayFields : Fields :=
  (.text "year", .int 4) :: (.text "month", .int 2) :: (.text "day", .int 29) :: undatedFields

/-- A document of the last evening of a year, at an offset by which it is the next in UTC. -/
def lastEveningFields : Fields :=
  (.text "version", .text "1.1") ::
    (.text "createdAt", .text "2024-12-31T23:30:00-05:00") :: undatedFields

/-- The one pricing was created on the leap day, the other in the old year, and a document
with a day of any size is refused for the month that comes next. -/
theorem createdAt_of_legacy_leapDay :
    (∃ pricing, (ofValue ⟨64, 1000⟩ (.mapping leapDayFields)).result = .ok pricing ∧
      (pricing.createdAt.year = 4 ∧ pricing.createdAt.month = 2 ∧ pricing.createdAt.day = 29) ∧
      pricing.version = .v2_0 ∧ pricing.label = none) ∧
    (∃ pricing, (ofValue ⟨64, 1000⟩ (.mapping lastEveningFields)).result = .ok pricing ∧
      pricing.createdAt.text = "2024-12-31" ∧ pricing.version = .v2_0 ∧ pricing.label = none) ∧
    (ofValue ⟨64, 1000⟩ (.mapping [(.text "day", .int (10 ^ 30)), (.text "month", .int 0)])).result =
      .error (.config (.invalid "month" (.notPositive 0))) := by
  refine ⟨?_, ?_, ?_⟩
  · have hrun : (ofValue ⟨64, 1000⟩ (.mapping leapDayFields)).result.toOption.isSome = true := by
      decide +kernel
    obtain ⟨pricing, hpricing⟩ := Option.isSome_iff_exists.1 hrun
    rw [Outcome.toOption_eq_some_iff] at hpricing
    obtain ⟨hyear, hmonth, hday, hversion, hlabel⟩ :=
      ((createdAt_of_legacy _ leapDayFields).1 rfl rfl).2.2.2 pricing hpricing
    have hint : ∀ {n k : Int}, some (Value.int n) = some (.int k) → n = k := by
      intro n k h
      cases h
      rfl
    have hyear' := hint (n := 4) hyear
    have hmonth' := hint (n := 2) hmonth
    have hday' := hint (n := 29) hday
    exact ⟨pricing, hpricing, by omega, hversion, hlabel⟩
  · have hrun : (ofValue ⟨64, 1000⟩ (.mapping lastEveningFields)).result.toOption.isSome = true := by
      decide +kernel
    obtain ⟨pricing, hpricing⟩ := Option.isSome_iff_exists.1 hrun
    rw [Outcome.toOption_eq_some_iff] at hpricing
    obtain ⟨⟨created, m, hcreated, hm, hdate⟩, hversion, hlabel⟩ :=
      (createdAt_of_legacy _ lastEveningFields).2 rfl pricing hpricing
    have hread : (Value.text "2024-12-31T23:30:00-05:00").writtenMoment?.map
        (fun m => m.date.text) = some "2024-12-31" := by decide +kernel
    cases hcreated
    rw [hm] at hread
    exact ⟨pricing, hpricing, hdate ▸ Option.some.inj hread, hversion, hlabel⟩
  · have hfault : Fields.DateFault [(.text "day", .int (10 ^ 30)), (.text "month", .int 0)]
        (.invalid "month" (.notPositive 0)) := by
      refine .part (show _ = ["day"] ++ "month" :: _ from rfl) ?_ (.notPositive rfl (by decide))
      rw [List.forall_mem_singleton]
      exact ⟨10 ^ 30, rfl, by decide⟩
    rw [((createdAt_of_legacy _ _).1 rfl rfl).2.2.1 _ hfault]
    exact congrArg Except.error (if_pos (by decide))

/-- A document of the oldest version whose day is an integer of any size. -/
def dayFields (day : Int) : Fields :=
  [(.text "day", .int day), (.text "month", .int 1), (.text "year", .int 2024)]

theorem fromV1_0_dayFields {day : Int} (hpos : 0 < day) (hunwritable : Text.isWritable day = false) :
    (dayFields day).fromV1_0 = .error .overlong := by
  have hdate : ¬IsCalendarDate 2024 1 day := by
    intro h
    have hle : day ≤ 31 := h.day_le
    have hwritable : Text.isWritable day = true :=
      Text.isWritable_of_natAbs_le (n := 31) (by omega) (by decide)
    rw [hunwritable] at hwritable
    cases hwritable
  have hfault : (dayFields day).DateFault (.invalid "day" (.noSuchDate 2024 1 day)) :=
    .noDate ⟨rfl, hpos⟩ ⟨rfl, by decide⟩ ⟨rfl, by decide⟩ hdate
  rw [Fields.fromV1_0_of_dateFault rfl hfault]
  refine congrArg Except.error (Refusal.showing_eq_overlong_iff.2 ?_)
  rw [ConfigError.isWritable, ValueFault.isWritable, hunwritable, Bool.and_false]

/-- A day that is no day of the calendar and that cannot be written is not refused for a cause. -/
theorem unwritable_day_has_no_error :
    (dayFields Text.leastUnwritable).declared = .ok .v1_0 ∧
    (dayFields Text.leastUnwritable).has "createdAt" = false ∧
    (dayFields Text.leastUnwritable).fromV1_0 = .error .overlong ∧
    ∀ limits, (ofValue limits (.mapping (dayFields Text.leastUnwritable))).result =
      .error .overlong := by
  have hstep := fromV1_0_dayFields (Int.pow_pos (by decide)) Text.isWritable_leastUnwritable
  exact ⟨rfl, rfl, hstep, fun limits => ofValue_of_fromV1_0_error rfl hstep⟩

end Pricing

end Tariff
