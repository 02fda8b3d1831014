import Tariff.Proofs.Entitlement.Plain
import Tariff.Proofs.Json.Objects
import Tariff.Proofs.Outcome

/-!
# Which snapshots have bytes

A mapping with text keys is written if all its values are, and fails only as one of them
does (`Json.exists_valueText_mapping_iff`, `Json.failsOnly_valueText_mapping`). So a snapshot
whose values are scalars has bytes exactly if every number in it has a text: it is finite and,
as an integer, does not have too many digits (`Snapshot.exists_serializedBytes_iff`).
-/

namespace Tariff

namespace Json

/-- A sequence of steps over a list succeeds exactly if each of them does. -/
theorem exists_mapM_eq_ok_iff {α β ε : Type} {f : α → Except ε β} {as : List α} :
    (∃ bs, as.mapM f = .ok bs) ↔ ∀ a ∈ as, ∃ b, f a = .ok b := by
  induction as with
  | nil => simp [pure, Except.pure]
  | cons a as ih =>
    rw [List.forall_mem_cons, ← ih, List.mapM_cons]
    cases f a with
    | error e => simp [bind, Except.bind]
    | ok b => cases as.mapM f <;> simp [bind, Except.bind, pure, Except.pure]

theorem member?_eq_map (entry : String × Value) :
    member? entry = (valueText entry.2).map (memberText entry.1) := by
  unfold member?
  cases valueText entry.2 <;> rfl

/-- A mapping from texts is written exactly if its values are. -/
theorem exists_valueText_mapping_iff {t : Table Value} :
    (∃ text, valueText (.mapping (Fields.ofTable t)) = .ok text) ↔
      ∀ entry ∈ t, ∃ text, valueText entry.2 = .ok text := by
  have hmember : ∀ entry : String × Value,
      (∃ text, member? entry = .ok text) ↔ ∃ text, valueText entry.2 = .ok text := by
    intro entry
    rw [member?_eq_map]
    cases valueText entry.2 <;> simp [Except.map]
  have hsorted : (∃ texts, t.sorted.mapM member? = .ok texts) ↔
      ∀ entry ∈ t, ∃ text, valueText entry.2 = .ok text := by
    rw [exists_mapM_eq_ok_iff]
    simp only [hmember, Table.mem_sorted]
  rw [← hsorted, valueText_mapping]
  cases t.sorted.mapM member? <;> simp [Except.map]

variable {P : WriteFault → Prop}

/-- A mapping from texts fails to be written only as its values do. -/
theorem failsOnly_valueText_mapping {t : Table Value}
    (h : ∀ entry ∈ t, Outcome.FailsOnly P (valueText entry.2)) :
    Outcome.FailsOnly P (valueText (.mapping (Fields.ofTable t))) := by
  rw [valueText_mapping]
  refine (Outcome.failsOnly_mapM fun entry hentry => ?_).map _
  rw [member?_eq_map]
  exact (h entry (Table.mem_sorted.1 hentry)).map _

/-- A scalar has a text exactly if it is no number without one. -/
theorem exists_scalarText_iff {s : Scalar} :
    (∃ text, scalarText s = .ok text) ↔
      ∀ n, s = .number n → n.isFinite = true ∧ n.isWritable = true := by
  refine ⟨?_, exists_scalarText⟩
  rintro ⟨text, htext⟩ n rfl
  obtain ⟨hfinite, hwritable, -⟩ := numberText_eq_ok_iff.1 htext
  exact ⟨hfinite, hwritable⟩

/-- A finite scalar has no text only if it is an integer of too many digits. -/
theorem failsOnly_scalarText {s : Scalar} (h : ∀ n, s = .number n → n.isFinite = true) :
    Outcome.FailsOnly (· = .overlong) (scalarText s) := by
  cases s with
  | bool b => exact Outcome.failsOnly_ok _
  | text s => exact Outcome.failsOnly_ok _
  | number n =>
    show Outcome.FailsOnly _ (numberText n)
    unfold numberText
    rw [if_pos (h n rfl)]
    split
    · exact Outcome.failsOnly_ok _
    · exact Outcome.failsOnly_error rfl

/-- A section is written exactly if its numbers have texts. -/
theorem exists_valueText_ofScalars_iff {t : Table Scalar} :
    (∃ text, valueText (.mapping (Fields.ofScalars t)) = .ok text) ↔
      ∀ entry ∈ t, ∀ n, entry.2 = .number n → n.isFinite = true ∧ n.isWritable = true := by
  unfold Fields.ofScalars
  rw [exists_valueText_mapping_iff]
  simp only [Table.mapValues, List.forall_mem_map, valueText, exists_scalarText_iff]

end Json

namespace Snapshot

variable {s : Snapshot}

/-- The payload of a snapshot is a mapping of two sections. -/
theorem toValue_ofSnapshot_eq (s : Snapshot) : (Payload.ofSnapshot s).toValue =
    .mapping (Fields.ofTable ([Capability.feature, .usageLimit].map fun sort =>
      (sort.key, .mapping ((Payload.ofSnapshot s).entries sort)))) := rfl

/-- A snapshot has bytes exactly if both its sections are written. -/
theorem exists_serializedBytes_iff_sections :
    (∃ bytes, s.serializedBytes = .ok bytes) ↔
      ∀ sort, ∃ text, Json.valueText (.mapping ((Payload.ofSnapshot s).entries sort)) =
        .ok text := by
  have hwritten : (∃ bytes, s.serializedBytes = .ok bytes) ↔
      ∃ text, Json.valueText (Payload.ofSnapshot s).toValue = .ok text := by
    unfold serializedBytes serialize Json.write
    cases Json.valueText (Payload.ofSnapshot s).toValue <;> simp [Except.map]
  rw [hwritten, toValue_ofSnapshot_eq, Json.exists_valueText_mapping_iff]
  simp only [List.forall_mem_map]
  constructor
  · intro h sort
    exact h sort (by cases sort <;> simp)
  · intro h sort _
    exact h sort

theorem failsOnly_serializedBytes {P : Json.WriteFault → Prop}
    (h : ∀ sort, Outcome.FailsOnly P
      (Json.valueText (.mapping ((Payload.ofSnapshot s).entries sort)))) :
    Outcome.FailsOnly P s.serializedBytes := by
  unfold serializedBytes serialize Json.write
  rw [toValue_ofSnapshot_eq]
  refine ((Json.failsOnly_valueText_mapping fun entry hentry => ?_).map _).map _
  obtain ⟨sort, -, rfl⟩ := List.mem_map.1 hentry
  exact h sort

/-- A plain snapshot has bytes exactly if its numbers have texts. -/
theorem exists_serializedBytes_iff (hplain : s.IsPlain) :
    (∃ bytes, s.serializedBytes = .ok bytes) ↔ s.IsWritable := by
  rw [exists_serializedBytes_iff_sections]
  refine forall_congr' fun sort => ?_
  have hsection : (Payload.ofSnapshot s).entries sort = Fields.ofScalars (s.values sort).granted := by
    cases sort
    · exact (hplain .feature).sectionOf_eq
    · exact (hplain .usageLimit).sectionOf_eq
  rw [hsection, Json.exists_valueText_ofScalars_iff]
  exact ⟨(hplain sort).isWritable_of_granted, Fields.isWritable_granted⟩

end Snapshot

end Tariff
