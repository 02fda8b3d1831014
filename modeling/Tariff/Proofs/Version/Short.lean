import Tariff.Proofs.Document.Short
import Tariff.Proofs.Version.Tags
import Tariff.Proofs.Version.Windows

/-!
# Short documents on the ladder

A short document stays short on its way up the ladder (`Fields.isShort_of_step`), for what a step
sets are dates and instants. Wherever it is refused on the way, there is a cause
(`Resolved.ofValue_ne_overlong`): its tag is read if it spells a version, and the parts of its
date can be shown.
-/

namespace Tariff

open Text (maxDigits)

namespace Version

variable {raw : Value} {v : Version} {cs : List Char} {field : String}

/-- A version that is read can be written. -/
theorem isWritable_of_read? (h : read? raw = some v) : v.isWritable = true := by
  simp only [read?, Option.bind_eq_bind, Option.bind_eq_some_iff, Option.pure_def,
    Option.some.injEq] at h
  obtain ⟨⟨major, minor⟩, -, m, hmajor, n, hminor, rfl⟩ := h
  exact Bool.and_eq_true_iff.2
    ⟨Text.isWritable_of_integer? hmajor, Text.isWritable_of_integer? hminor⟩

theorem Shows.length_le (h : Shows raw cs) (hraw : raw.IsShort) : cs.length ≤ maxDigits := by
  cases hraw with
  | scalar hs =>
    cases h with
    | text h =>
      obtain ⟨before, after, hsplit, -, -⟩ := h
      refine Nat.le_trans ?_ hs
      rw [← String.length_toList, hsplit, List.length_append, List.length_append]
      omega
    | float x => exact Nat.le_trans (Nat.le_of_eq String.length_toList) hs
  | _ => cases h

/-- A short tag is read, or refused for a cause. -/
theorem parse_ne_overlong (hraw : raw.IsShort) : parse field raw ≠ .error .overlong := by
  intro h
  by_cases hspells : ∃ major minor v, Spells raw major minor v
  · obtain ⟨major, minor, v, hspells⟩ := hspells
    have hlength := hspells.shows_runs.length_le hraw
    rw [List.length_append, List.length_cons] at hlength
    have hread : parse field raw = .ok v :=
      parse_eq_ok_iff.2 (read?_eq_some_iff.2 ⟨major, minor, hspells, by omega, by omega⟩)
    rw [hread] at h
    cases h
  · push Not at hspells
    have hshown : (ConfigError.version (.malformed field raw)).isWritable = true := hraw.isWritable
    rw [parse_of_malformed hspells, ConfigError.refusal_of_isWritable hshown] at h
    cases h

theorem ensureSupported_ne_overlong (hv : v.isWritable = true) :
    v.ensureSupported ≠ .error .overlong := by
  have hshown : (ConfigError.version (.unsupported v)).isWritable = true := hv
  unfold ensureSupported
  rw [ConfigError.refusal_of_isWritable hshown]
  split <;> exact nofun

/-- What goes on from a short tag fails for a cause if it does so for every version that can be
read. -/
theorem parse_bind_ne_overlong {next : Version → Except (Refusal ConfigError) Version}
    (hraw : raw.IsShort) (hnext : ∀ v : Version, v.isWritable = true → next v ≠ .error .overlong) :
    (do next (← (← parse field raw).ensureSupported)) ≠ .error .overlong := by
  intro h
  rcases Outcome.bind_eq_error_iff.1 h with h | ⟨v, hv, h⟩
  · exact parse_ne_overlong hraw h
  have hwritable := isWritable_of_read? (parse_eq_ok_iff.1 hv)
  rcases Outcome.bind_eq_error_iff.1 h with h | ⟨w, hw, h⟩
  · exact ensureSupported_ne_overlong hwritable h
  · obtain ⟨-, rfl⟩ := ensureSupported_eq_ok_iff.1 hw
    exact hnext v hwritable h

end Version

namespace Fields

variable {fields out : Fields} {v : Version} {name : String} {value : Value}

/-- Whether all that is in the fields of a document is short. -/
abbrev IsShort (fields : Fields) : Prop := (Value.mapping fields).IsShort

theorem isShort_iff :
    fields.IsShort ↔ ∀ entry ∈ fields, entry.1.IsShort ∧ entry.2.IsShort := by
  constructor
  · intro h entry hentry
    cases h with
    | mapping hkeys h => exact ⟨hkeys entry hentry, h entry hentry⟩
  · exact fun h => .mapping (fun entry hentry => (h entry hentry).1)
      fun entry hentry => (h entry hentry).2

theorem IsShort.get? (h : fields.IsShort) (hget : fields.get? name = some value) :
    value.IsShort :=
  (isShort_iff.1 h _ (mem_of_get? hget)).2

theorem IsShort.present? (h : fields.IsShort) (hget : fields.present? name = some value) :
    value.IsShort :=
  h.get? (present?_eq_some_iff.1 hget).1

theorem declared_ne_overlong (h : fields.IsShort) : fields.declared ≠ .error .overlong := by
  unfold declared
  split
  · next raw hraw =>
    refine Version.parse_bind_ne_overlong (h.present? hraw) fun v hv => ?_
    have hshown : (ConfigError.version (.legacyUnderSyntaxVersion v)).isWritable = true := hv
    rw [ConfigError.refusal_of_isWritable hshown]
    split <;> exact nofun
  · split
    · next raw hraw =>
      refine Version.parse_bind_ne_overlong (h.present? hraw) fun v hv => ?_
      have hshown : (ConfigError.version (.currentUnderVersion v)).isWritable = true := hv
      rw [ConfigError.refusal_of_isWritable hshown]
      split <;> exact nofun
    · exact nofun

/-! ## The steps -/

theorem checkWindows_ne_overlong (hv : v ∈ Version.supported) :
    fields.checkWindows v ≠ .error .overlong := by
  intro h
  have hwindows := (checkWindows_eq_error_iff (Version.isWritable_of_mem_supported hv)).1 h
  cases hwindows.2

theorem IsShort.isWritable_of_isPart (h : fields.IsShort) {n : Int} (hpart : fields.IsPart name n) :
    Text.isWritable n = true :=
  (h.present? hpart.1).isWritable

/-- The fault in the date of a short document can be shown. -/
theorem DateFault.isWritable {e : ConfigError} (h : fields.IsShort) (fault : fields.DateFault e) :
    e.isWritable = true := by
  cases fault with
  | part _ _ fault =>
    cases fault with
    | notPositive hn => exact (h.present? hn).isWritable
    | absent | mistyped => rfl
  | noDate hday hmonth hyear =>
    have hdate := Bool.and_eq_true_iff.2
      ⟨h.isWritable_of_isPart hyear, h.isWritable_of_isPart hmonth⟩
    exact Bool.and_eq_true_iff.2 ⟨hdate, h.isWritable_of_isPart hday⟩

theorem fromV1_0_ne_overlong (h : fields.IsShort) : fields.fromV1_0 ≠ .error .overlong := by
  intro herror
  rcases fromV1_0_eq_error_iff.1 herror with ⟨-, heq⟩ | ⟨-, e, fault, heq⟩
  · cases heq
  · rw [ConfigError.refusal_of_isWritable (fault.isWritable h)] at heq
    cases heq

theorem fromV1_1_ne_overlong : fields.fromV1_1 ≠ .error .overlong := by
  intro herror
  rcases fromV1_1_eq_error herror with hwindows | ⟨e, heq, -⟩
  · exact checkWindows_ne_overlong (by decide) hwindows
  · cases heq

theorem IsShort.without (h : fields.IsShort) (names : List String) :
    (fields.without names).IsShort :=
  isShort_iff.2 fun entry hentry => isShort_iff.1 h entry (List.mem_of_mem_filter hentry)

theorem IsShort.set (h : fields.IsShort) (hname : name.length ≤ maxDigits)
    (hvalue : value.IsShort) : (fields.set name value).IsShort := by
  rw [isShort_iff] at h ⊢
  induction fields with
  | nil => exact List.forall_mem_singleton.2 ⟨.scalar hname, hvalue⟩
  | cons entry rest ih =>
    rw [List.forall_mem_cons] at h
    unfold Fields.set
    split
    · exact List.forall_mem_cons.2 ⟨⟨h.1.1, hvalue⟩, h.2⟩
    · exact List.forall_mem_cons.2 ⟨h.1, ih h.2⟩

theorem IsShort.retagged (h : fields.IsShort) : fields.retagged.IsShort := by
  have htag : ((fields.get? "syntaxVersion").getD (.text Version.v2_0.text)).IsShort := by
    cases hget : fields.get? "syntaxVersion" with
    | none => exact .scalar (by decide)
    | some v => exact h.get? hget
  exact isShort_iff.2 (List.forall_mem_cons.2
    ⟨⟨.scalar (by decide), htag⟩, isShort_iff.1 (h.without _)⟩)

theorem IsShort.normalizeBound {source : Fields} (h : fields.IsShort)
    (hname : name.length ≤ maxDigits) (hbound : normalizeBound source fields name = .ok out) :
    out.IsShort := by
  unfold Fields.normalizeBound at hbound
  split at hbound
  · cases hbound
    exact h
  · obtain ⟨stamp, hstamp, rfl⟩ := Outcome.map_eq_ok_iff.1 hbound
    obtain ⟨m, i, -, -, rfl⟩ := Temporal.normalizeInstant_eq_ok_iff.1 hstamp
    exact h.set hname (.scalar i.isShort_stamp)

/-- What a step makes of a short document is short. -/
theorem isShort_of_step {m : Migration} (hm : m ∈ Migration.ladder) (h : fields.IsShort)
    (hstep : m.step fields = .ok out) : out.IsShort := by
  rcases Migration.mem_ladder_iff.1 hm with rfl | rfl
  · obtain ⟨day, month, year, date, -, -, -, -, -, rfl⟩ := fromV1_0_eq_ok hstep
    have htagged := (h.without legacyDateFields).set (show "version".length ≤ maxDigits by decide)
      (.scalar (s := .text Version.v1_1.text) (by decide))
    exact htagged.set (by decide) (.scalar date.isShort_text)
  · obtain ⟨created, date, dated, -, -, hdate, hstarts, hends⟩ := fromV1_1_eq_ok hstep
    obtain ⟨m, -, rfl⟩ := Temporal.normalizeDate_eq_ok_iff.1 hdate
    have hdated := h.retagged.set (show "createdAt".length ≤ maxDigits by decide)
      (.scalar m.date.isShort_text)
    exact (hdated.normalizeBound (by decide) hstarts).normalizeBound (by decide) hends

end Fields

namespace Resolved

variable {fields : Fields} {v : Version} {a b : Fields × Version} {done : List Migration}

/-- Whatever is reached from a short document is short, and in a version that can be read. -/
theorem Climbs.isShort (climbs : Climbs a done b) (h : a.1.IsShort) (hv : a.2 ∈ Version.supported) :
    b.1.IsShort ∧ b.2 ∈ Version.supported := by
  refine climbs.invariant (P := fun fields v => fields.IsShort ∧ v ∈ Version.supported) ?_ ⟨h, hv⟩
  intro m hm fields out hstep hshort
  refine ⟨Fields.isShort_of_step hm hshort.1 hstep, ?_⟩
  rcases Migration.mem_ladder_iff.1 hm with rfl | rfl <;> decide

/-- A short document that is refused on its way up the ladder is refused for a cause. -/
theorem ofFields_ne_overlong (h : fields.IsShort) :
    (ofFields fields).result ≠ .error .overlong := by
  intro herror
  cases hdeclared : fields.declared with
  | error e =>
    rw [ofFields_of_undeclared hdeclared] at herror
    cases herror
    exact Fields.declared_ne_overlong h hdeclared
  | ok v =>
    obtain ⟨done, b, climbs, -, ⟨-, hok, -⟩ | ⟨e, hrefused, hresult, -⟩⟩ :=
      ofFields_climbs hdeclared
    · rw [hok] at herror
      cases herror
    · rw [hresult] at herror
      cases herror
      obtain ⟨hshort, hsupported⟩ := climbs.isShort h (mem_supported_of_declared hdeclared)
      rcases hrefused with hwindows | ⟨m, hm, -, hstep⟩
      · exact Fields.checkWindows_ne_overlong hsupported hwindows
      · rcases Migration.mem_ladder_iff.1 hm with rfl | rfl
        · exact Fields.fromV1_0_ne_overlong hshort hstep
        · exact Fields.fromV1_1_ne_overlong hstep

theorem ofValue_ne_overlong {document : Value} (h : document.IsShort) :
    (ofValue document).result ≠ .error .overlong := by
  cases document with
  | mapping fields =>
    rw [ofValue_mapping]
    exact ofFields_ne_overlong h
  | _ => exact nofun

/-- What a short document is brought to is short. -/
theorem isShort_of_ofFields {r : Resolved} (h : fields.IsShort)
    (hr : (ofFields fields).result = .ok r) : r.fields.IsShort := by
  have hdeclared := (ofFields_eq_ok_iff.1 hr).1
  obtain ⟨done, b, climbs, -, ⟨-, hok, -⟩ | ⟨e, -, hresult, -⟩⟩ := ofFields_climbs hdeclared
  · have hfields : r.fields = b.1 :=
      congrArg Resolved.fields (Except.ok.inj (hr.symm.trans hok))
    rw [hfields]
    exact (climbs.isShort h (mem_supported_of_declared hdeclared)).1
  · rw [hresult] at hr
    cases hr

theorem isShort_of_ofValue {document : Value} {r : Resolved} (h : document.IsShort)
    (hr : (ofValue document).result = .ok r) : r.fields.IsShort := by
  cases document with
  | mapping fields =>
    rw [ofValue_mapping] at hr
    exact isShort_of_ofFields h hr
  | _ => cases hr

end Resolved

end Tariff
