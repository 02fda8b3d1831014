import Tariff.Proofs.Entitlement.Written
import Tariff.Proofs.Text.Bytes

/-!
# Reading back the bytes of a snapshot

The bytes of a snapshot are read back as a payload with the same values that are not null,
of the same types, in the order of their identifiers (`ofBytes_serializedBytes`). That
order is all that is lost, and it is the order in which the bytes were written, so that
writing what was read gives the same bytes again. Only a snapshot with a number that has no
text has no bytes, and an integer can be too large for one (`oversized`).
-/

namespace Tariff

namespace Fields

/-- A section in the order of its identifiers, without nulls. -/
def inOrder (fields : Fields) : Fields := ofScalars (granted fields).sorted

variable {fields : Fields}

/-- Putting a section in order changes nothing but the order and the nulls. -/
theorem IsPlain.inOrder_perm (h : IsPlain fields) :
    (inOrder fields).Perm (Payload.sectionOf fields) := by
  rw [h.sectionOf_eq]
  exact ((Table.sorted_perm _).map _).map _

theorem IsPlain.inOrder (h : IsPlain fields) : IsPlain (inOrder fields) :=
  isPlain_ofScalars (Table.nodup_sorted h.nodup_granted)

/-- What is in order has no nulls. -/
theorem IsPlain.sectionOf_inOrder (h : IsPlain fields) :
    Payload.sectionOf (Fields.inOrder fields) = Fields.inOrder fields := by
  rw [h.inOrder.sectionOf_eq]
  unfold Fields.inOrder
  rw [granted_ofScalars]

/-- The order of a section does not show in its text. -/
theorem IsPlain.valueText_inOrder (h : IsPlain fields) :
    Json.valueText (.mapping (Fields.inOrder fields)) =
      Json.valueText (.mapping (Payload.sectionOf fields)) := by
  have hnodup : ((granted fields).sorted.mapValues Value.scalar).names.Nodup := by
    rw [Table.names_mapValues]
    exact Table.nodup_sorted h.nodup_granted
  rw [h.sectionOf_eq]
  exact Json.valueText_mapping_perm ((Table.sorted_perm _).map _) hnodup

end Fields

namespace Payload

/-- The text of a payload is made of those of its sections. -/
theorem write_toValue_congr {p q : Payload}
    (h : ∀ sort, Json.valueText (.mapping (p.entries sort)) =
      Json.valueText (.mapping (q.entries sort))) :
    Json.write p.toValue = Json.write q.toValue := by
  have hmembers : Json.memberTexts ([Capability.feature, .usageLimit].map fun sort =>
        (.text sort.key, .mapping (p.entries sort))) =
      Json.memberTexts ([Capability.feature, .usageLimit].map fun sort =>
        (.text sort.key, .mapping (q.entries sort))) := by
    simp only [List.map_cons, List.map_nil, Json.memberTexts, h]
  unfold Json.write toValue
  rw [Json.valueText, Json.valueText, hmembers]

end Payload

namespace Snapshot

variable {s : Snapshot}

/-- The payload that the bytes of a snapshot are read as. -/
def inOrder (s : Snapshot) : Payload := ⟨s.features.inOrder, s.usageLimits.inOrder⟩

@[simp] theorem entries_inOrder (s : Snapshot) (sort : Capability) :
    s.inOrder.entries sort = (s.values sort).inOrder := by
  cases sort <;> rfl

theorem entries_ofSnapshot (s : Snapshot) (sort : Capability) :
    (Payload.ofSnapshot s).entries sort = Payload.sectionOf (s.values sort) := by
  cases sort <;> rfl

/-- Both payloads have the same text. -/
theorem IsPlain.write_inOrder (h : s.IsPlain) : Json.write s.inOrder.toValue = s.serialize := by
  refine Payload.write_toValue_congr fun sort => ?_
  rw [entries_inOrder, entries_ofSnapshot]
  exact (h sort).valueText_inOrder

/-- A section whose numbers have texts is read back in order. -/
theorem conveys_ofScalars {t : Table Scalar} (hnodup : t.names.Nodup)
    (hwritable : ∀ entry ∈ t, ∀ n, entry.2 = .number n →
      n.isFinite = true ∧ n.isWritable = true) :
    Json.Conveys (.mapping (Fields.ofScalars t)) (.mapping (Fields.ofScalars t.sorted)) :=
  Json.conveys_mapping (fun entry hentry => Json.conveys_scalar (hwritable entry hentry)) hnodup

/-- The two sections of a snapshot by their keys, which are in order. -/
def sections (s : Snapshot) : Table (Table Scalar) :=
  [Capability.feature, .usageLimit].map fun sort => (sort.key, (s.values sort).granted)

theorem sorted_sections (s : Snapshot) : s.sections.sorted = s.sections :=
  Table.sorted_of_pairwise (List.pairwise_cons.2
    ⟨fun entry hentry => List.mem_singleton.1 hentry ▸ (by decide : "features" ≤ "usageLimits"),
      List.pairwise_singleton _ _⟩)

/-- The payload of a plain snapshot is made of its two sections. -/
theorem toValue_ofSnapshot (hplain : s.IsPlain) : (Payload.ofSnapshot s).toValue =
    .mapping (Fields.ofTable (s.sections.mapValues fun t => .mapping (Fields.ofScalars t))) := by
  show Value.mapping [(.text "features", .mapping (Payload.sectionOf (s.values .feature))),
    (.text "usageLimits", .mapping (Payload.sectionOf (s.values .usageLimit)))] = _
  rw [(hplain .feature).sectionOf_eq, (hplain .usageLimit).sectionOf_eq]
  rfl

/-- The payload of a snapshot is read back in order. -/
theorem conveys_payload (hplain : s.IsPlain) (hwritable : s.IsWritable) :
    Json.Conveys (Payload.ofSnapshot s).toValue s.inOrder.toValue := by
  have hsections : ∀ entry ∈ s.sections, Json.Conveys (.mapping (Fields.ofScalars entry.2))
      (.mapping (Fields.ofScalars entry.2.sorted)) := by
    intro entry hentry
    obtain ⟨sort, -, rfl⟩ := List.mem_map.1 hentry
    exact conveys_ofScalars (hplain sort).nodup_granted (Fields.isWritable_granted (hwritable sort))
  have hnodup : s.sections.names.Nodup := by
    show ["features", "usageLimits"].Nodup
    decide
  have hconveys : Json.Conveys
      (.mapping (Fields.ofTable (s.sections.mapValues fun t => .mapping (Fields.ofScalars t))))
      (.mapping (Fields.ofTable (s.sections.sorted.mapValues fun t =>
        .mapping (Fields.ofScalars t.sorted)))) := Json.conveys_mapping hsections hnodup
  rw [sorted_sections] at hconveys
  rw [toValue_ofSnapshot hplain]
  exact hconveys

/-- The payload of a mapping that a payload is. -/
theorem ofValue_toValue (p : Payload) : Payload.ofValue p.toValue = .ok p := rfl

/-- The bytes of a snapshot whose numbers have texts are there, and they are read as its
payload in order. -/
theorem exists_serializedBytes (hplain : s.IsPlain) (hwritable : s.IsWritable) :
    ∃ bytes, s.serializedBytes = .ok bytes ∧ Payload.ofBytes bytes = .ok s.inOrder := by
  obtain ⟨text, hwrite, hread⟩ := (conveys_payload hplain hwritable).exists_write
  refine ⟨text.toUTF8.toList, Outcome.map_eq_ok_iff.2 ⟨text, hwrite, rfl⟩, ?_⟩
  unfold Payload.ofBytes
  rw [Text.fromUTF8?_toUTF8]
  show Payload.ofText text = _
  unfold Payload.ofText
  rw [hread]
  exact ofValue_toValue s.inOrder

/-- Reading undoes writing. The bytes of a plain snapshot whose numbers have texts are read as a
payload that has, in both sections, the entries of the snapshot whose value is not null, each with
the same value of the same type; and what was read, as a payload or as a snapshot, is
written as the same bytes. -/
theorem ofBytes_serializedBytes (s : Snapshot) (hplain : s.IsPlain) (hwritable : s.IsWritable) :
    ∃ bytes p, s.serializedBytes = .ok bytes ∧ Payload.ofBytes bytes = .ok p ∧
      (∀ sort, (p.entries sort).Perm (Payload.sectionOf (s.values sort))) ∧
      ((Json.write p.toValue).map fun text => text.toUTF8.toList) = .ok bytes ∧
      ∀ again : Snapshot, (∀ sort, again.values sort = p.entries sort) →
        again.serializedBytes = .ok bytes := by
  obtain ⟨bytes, hbytes, hread⟩ := exists_serializedBytes hplain hwritable
  refine ⟨bytes, s.inOrder, hbytes, hread, ?_, ?_, ?_⟩
  · intro sort
    rw [entries_inOrder]
    exact (hplain sort).inOrder_perm
  · rw [hplain.write_inOrder]
    exact hbytes
  · intro again hagain
    have hpayload : Payload.ofSnapshot again = s.inOrder := by
      have hsections : ∀ sort, Payload.sectionOf (again.values sort) = s.inOrder.entries sort := by
        intro sort
        rw [hagain, entries_inOrder]
        exact (hplain sort).sectionOf_inOrder
      show Payload.mk (Payload.sectionOf (again.values .feature))
        (Payload.sectionOf (again.values .usageLimit)) = _
      rw [hsections, hsections]
      rfl
    unfold serializedBytes serialize
    rw [hpayload, hplain.write_inOrder]
    exact hbytes

/-- A snapshot with a value of every sort, not in the order of its identifiers. -/
def mixed : Snapshot where
  plan := none
  addOns := []
  features := [(.text "zero", .float (.zero true)), (.text "\u00e9\"\\", .text "\u007f\x01\u2028"),
    (.text "off", .bool false), (.text "absent", .null)]
  usageLimits := [(.text "many", .int (-12345678901234567890123)), (.text "one", .int 1)]

theorem isPlain_mixed : mixed.IsPlain := by
  intro sort
  cases sort
  · refine ⟨by simp [mixed, values], ?_, by simp [mixed, values]⟩
    show [Value.text "zero", .text "\u00e9\"\\", .text "off", .text "absent"].Nodup
    simp
  · refine ⟨by simp [mixed, values], ?_, by simp [mixed, values]⟩
    show [Value.text "many", .text "one"].Nodup
    simp

theorem isWritable_many : Text.isWritable (-12345678901234567890123) = true :=
  @Text.isWritable_of_lt _ 23 (by decide) (by decide)

theorem isWritable_mixed : mixed.IsWritable := by
  intro sort entry hentry n hn
  cases sort
  · simp only [mixed, values, List.mem_cons, List.not_mem_nil, or_false] at hentry
    rcases hentry with rfl | rfl | rfl | rfl <;> cases hn
    exact ⟨rfl, rfl⟩
  · simp only [mixed, values, List.mem_cons, List.not_mem_nil, or_false] at hentry
    rcases hentry with rfl | rfl <;> cases hn
    · exact ⟨rfl, isWritable_many⟩
    · exact ⟨rfl, rfl⟩

/-- Negative zero, control characters and a large integer are read back. -/
theorem ofBytes_serializedBytes_mixed :
    ∃ bytes p, mixed.serializedBytes = .ok bytes ∧ Payload.ofBytes bytes = .ok p ∧
      (p.entries .feature).Perm [(.text "zero", .float (.zero true)),
        (.text "\u00e9\"\\", .text "\u007f\x01\u2028"), (.text "off", .bool false)] ∧
      (p.entries .usageLimit).Perm
        [(.text "many", .int (-12345678901234567890123)), (.text "one", .int 1)] := by
  obtain ⟨bytes, p, hbytes, hread, hperm, -⟩ :=
    ofBytes_serializedBytes mixed isPlain_mixed isWritable_mixed
  exact ⟨bytes, p, hbytes, hread, hperm .feature, hperm .usageLimit⟩

/-- A snapshot with an integer that has no text. -/
def oversized : Snapshot where
  plan := none
  addOns := []
  features := []
  usageLimits := [(.text "many", .int Text.leastUnwritable)]

theorem isPlain_oversized : oversized.IsPlain := by
  intro sort
  cases sort
  · exact ⟨nofun, List.nodup_nil, nofun⟩
  · exact ⟨by simp [oversized, values], List.nodup_singleton _, by simp [oversized, values]⟩

theorem not_isWritable_oversized : ¬oversized.IsWritable := by
  intro h
  have hwritable := (h .usageLimit _ List.mem_cons_self _ rfl).2
  exact absurd hwritable (Bool.eq_false_iff.1 Text.isWritable_leastUnwritable)

/-- A snapshot with an integer of any size need not be read back: it may have no bytes. -/
theorem oversized_is_not_read_back :
    oversized.IsPlain ∧ ¬∃ bytes p, oversized.serializedBytes = .ok bytes ∧
      Payload.ofBytes bytes = .ok p := by
  refine ⟨isPlain_oversized, ?_⟩
  rintro ⟨bytes, p, hbytes, -⟩
  exact not_isWritable_oversized ((exists_serializedBytes_iff isPlain_oversized).1 ⟨bytes, hbytes⟩)

end Snapshot

end Tariff
