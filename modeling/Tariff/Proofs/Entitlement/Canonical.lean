import Tariff.Proofs.Entitlement.Difference
import Tariff.Proofs.Json.Lexemes

/-!
# Canonical bytes

The bytes of a snapshot depend on its values alone, and the values on the bytes: two
snapshots have the same bytes exactly if every identifier has in both the same value of the
same type, or none (`Snapshot.serializedBytes_eq_iff`). One direction is that the writer
puts the identifiers in order, the other that the bytes can be read back.

What the bytes look like is said of the text that they are (`Snapshot.IsCanonical`). It is
compact and in ASCII, and the identifiers of each object stand in the order of their code
points, as they are read and not as they are spelled.
-/

namespace Tariff

namespace Fields

variable {fields other : Fields}

theorem IsPlain.get?_granted_eq_iff (h : fields.IsPlain) (h' : other.IsPlain) {id : String} :
    fields.granted.get? id = other.granted.get? id ↔ fields.present? id = other.present? id := by
  rw [← h.get?_granted, ← h'.get?_granted]
  exact (Option.map_injective fun _ _ heq => Value.scalar.inj heq).eq_iff.symm

/-- Plain sections are the same in order exactly if every identifier has the same value. -/
theorem IsPlain.inOrder_eq_iff (h : fields.IsPlain) (h' : other.IsPlain) :
    fields.inOrder = other.inOrder ↔ ∀ id, fields.present? id = other.present? id := by
  have hsorted : fields.granted.sorted = other.granted.sorted ↔
      ∀ id, fields.present? id = other.present? id := by
    rw [Table.sorted_eq_iff h.nodup_granted h'.nodup_granted]
    simp only [h.get?_granted_eq_iff h']
  rw [← hsorted]
  constructor
  · intro heq
    have hgranted : fields.inOrder.granted = other.inOrder.granted := congrArg granted heq
    unfold Fields.inOrder at hgranted
    rwa [granted_ofScalars, granted_ofScalars] at hgranted
  · intro heq
    unfold Fields.inOrder
    rw [heq]

/-- Plain sections that grant the same in any order have the same values. -/
theorem IsPlain.present?_eq_of_perm (h : fields.IsPlain) (h' : other.IsPlain)
    (hperm : fields.granted.Perm other.granted) (id : String) :
    fields.present? id = other.present? id := by
  refine (h.inOrder_eq_iff h').1 ?_ id
  unfold Fields.inOrder
  rw [Table.sorted_eq_of_perm hperm h.nodup_granted]

/-- An identifier has a value exactly if it is among those of the values that are granted. -/
theorem IsPlain.mem_names_granted_iff (h : fields.IsPlain) {id : String} :
    id ∈ fields.granted.names ↔ fields.present? id ≠ none := by
  rw [← Table.exists_get?_iff, ← h.get?_granted, Ne, Option.map_eq_none_iff, ← Ne,
    Option.ne_none_iff_exists']

end Fields

namespace Snapshot

variable {s a b : Snapshot}

/-! ## Equal bytes -/

/-- The payload in order is determined by the values. -/
theorem inOrder_eq_iff (ha : a.IsPlain) (hb : b.IsPlain) :
    a.inOrder = b.inOrder ↔
      ∀ sort id, (a.values sort).present? id = (b.values sort).present? id := by
  constructor
  · intro heq sort
    have hsection := congrArg (Payload.entries · sort) heq
    simp only [entries_inOrder] at hsection
    exact ((ha sort).inOrder_eq_iff (hb sort)).1 hsection
  · intro hvalues
    have hsections : ∀ sort, (a.values sort).inOrder = (b.values sort).inOrder := fun sort =>
      ((ha sort).inOrder_eq_iff (hb sort)).2 (hvalues sort)
    exact congrArg₂ Payload.mk (hsections .feature) (hsections .usageLimit)

/-- Two snapshots have the same bytes exactly if they have the same values. -/
theorem serializedBytes_eq_iff (ha : a.IsPlain) (hb : b.IsPlain) (hwritable : a.IsWritable)
    (hwritable' : b.IsWritable) :
    a.serializedBytes = b.serializedBytes ↔
      ∀ sort id, (a.values sort).present? id = (b.values sort).present? id := by
  rw [← inOrder_eq_iff ha hb]
  constructor
  · intro heq
    obtain ⟨bytes, hbytes, hread⟩ := exists_serializedBytes ha hwritable
    obtain ⟨bytes', hbytes', hread'⟩ := exists_serializedBytes hb hwritable'
    rw [hbytes, hbytes'] at heq
    cases heq
    rw [hread] at hread'
    exact Except.ok.inj hread'
  · intro heq
    unfold serializedBytes
    rw [← ha.write_inOrder, ← hb.write_inOrder, heq]

/-- What has the same values does not differ. -/
theorem differ_eq_false_of_values (ha : a.IsPlain) (hb : b.IsPlain)
    (h : ∀ sort id, (a.values sort).present? id = (b.values sort).present? id) :
    Entitlement.differ (.snapshot a) (.snapshot b) = .ok false := by
  rw [Entitlement.differ_eq_ok_false_iff (Entitlement.isPlain_snapshot ha)
    (Entitlement.isPlain_snapshot hb)]
  intro sort id
  have hgranted : (Entitlement.snapshot a).granted? sort id =
      (Entitlement.snapshot b).granted? sort id := by
    rw [Entitlement.granted?_eq rfl fun sort => (Entitlement.isPlain_sections ha sort).1,
      Entitlement.granted?_eq rfl fun sort => (Entitlement.isPlain_sections hb sort).1,
      (Entitlement.isPlain_sections ha sort).2, (Entitlement.isPlain_sections hb sort).2]
    exact ((ha sort).get?_granted_eq_iff (hb sort)).2 (h sort id)
  rw [hgranted]
  exact Entitlement.Agrees.refl (.snapshot b) sort id

/-! ## The text of a snapshot -/

/-- The characters of a scalar. -/
def scalarChars (v : Scalar) : List Char := (Json.scalarText v).toOption.getD []

/-- The characters of a section. -/
def sectionChars (t : Table Scalar) : List Char :=
  '\x7b' :: (Json.membersText scalarChars t.sorted ++ ['\x7d'])

/-- The characters of a snapshot. -/
def chars (s : Snapshot) : List Char :=
  '\x7b' :: (Json.membersText sectionChars s.sections ++ ['\x7d'])

theorem scalarText_eq_ok (hwritable : s.IsWritable) {sort : Capability} {entry : String × Scalar}
    (hentry : entry ∈ (s.values sort).granted) :
    Json.scalarText entry.2 = .ok (scalarChars entry.2) := by
  have hnumber := Fields.isWritable_granted (hwritable sort) entry hentry
  obtain ⟨text, htext, -⟩ := Json.conveys_scalar hnumber
  rw [Json.valueText] at htext
  unfold scalarChars
  rw [htext]
  rfl

theorem serialize_eq_ok (hplain : s.IsPlain) (hwritable : s.IsWritable) :
    s.serialize = .ok (String.ofList s.chars) := by
  have hsections : ∀ entry ∈ s.sections,
      Json.valueText (.mapping (Fields.ofScalars entry.2)) = .ok (sectionChars entry.2) := by
    intro entry hentry
    obtain ⟨sort, -, rfl⟩ := List.mem_map.1 hentry
    refine Json.valueText_mapping_eq_ok fun granting hgranting => ?_
    rw [Json.valueText]
    exact scalarText_eq_ok hwritable hgranting
  unfold serialize Json.write
  rw [toValue_ofSnapshot hplain, Json.valueText_mapping_eq_ok hsections, sorted_sections]
  rfl

/-- The sections are tidy, and so is the object around them. -/
theorem tidy_sections (hwritable : s.IsWritable) :
    Json.Tidy (Json.membersText sectionChars s.sections)
      (s.sections.flatMap fun entry => [entry.2.sorted.names]) s.sections.names := by
  refine Json.tidy_membersText (fun t : Table Scalar => [t.sorted.names]) fun entry hentry => ?_
  obtain ⟨sort, -, rfl⟩ := List.mem_map.1 hentry
  have hscalars : ∀ granting ∈ (s.values sort).granted.sorted,
      Json.Tidy (scalarChars granting.2) [] [] := fun granting hgranting =>
    Json.tidy_scalarText (scalarText_eq_ok hwritable (Table.mem_sorted.1 hgranting))
  have hobject := (Json.tidy_membersText (fun _ => []) hscalars).object
  rwa [List.flatMap_eq_nil_iff.2 fun _ _ => rfl] at hobject

theorem objectKeys_chars (hwritable : s.IsWritable) :
    Json.objectKeys s.chars =
      [(s.values .feature).granted.sorted.names, (s.values .usageLimit).granted.sorted.names,
        ["features", "usageLimits"]] :=
  (tidy_sections hwritable).objectKeys_object

/-- Whether bytes are compact ASCII text with two objects in one, the features and the usage
limits of a snapshot, and the keys of each object in strictly increasing order. -/
structure IsCanonical (s : Snapshot) (bytes : List UInt8) : Prop where
  ascii : ∀ byte ∈ bytes, byte.toNat < 0x80
  text : ∃ text, String.fromUTF8? ⟨bytes.toArray⟩ = some text ∧
    (∀ c, .mark c ∈ Json.lexemes text.toList → Text.isBlank c = false) ∧
    (∀ keys ∈ Json.objectKeys text.toList, keys.Pairwise (· < ·)) ∧
    ∃ ids : Capability → List String,
      Json.objectKeys text.toList = [ids .feature, ids .usageLimit, ["features", "usageLimits"]] ∧
        ∀ sort id, id ∈ ids sort ↔ (s.values sort).present? id ≠ none

/-- Names in order are strictly increasing, if none occurs twice. -/
theorem pairwise_names_sorted {t : Table Scalar} (h : t.names.Nodup) :
    t.sorted.names.Pairwise (· < ·) := by
  have hle : t.sorted.names.Pairwise (· ≤ ·) := List.pairwise_map.2 (Table.pairwise_sorted t)
  refine (hle.and (Table.nodup_sorted h)).imp fun hab => ?_
  exact String.not_le.1 fun hba => hab.2 (String.le_antisymm hab.1 hba)

theorem exists_isCanonical (hplain : s.IsPlain) (hwritable : s.IsWritable) :
    ∃ bytes, s.serializedBytes = .ok bytes ∧ s.IsCanonical bytes := by
  have htidy := (tidy_sections hwritable).object
  have hascii : ∀ byte ∈ (String.ofList s.chars).toUTF8.toList, byte.toNat < 0x80 :=
    Text.lt_of_mem_toUTF8 htidy.ascii
  have hserialized : s.serializedBytes = .ok (String.ofList s.chars).toUTF8.toList := by
    unfold serializedBytes
    rw [serialize_eq_ok hplain hwritable]
    rfl
  refine ⟨_, hserialized, hascii, String.ofList s.chars, Text.fromUTF8?_toUTF8 _, ?_, ?_, ?_⟩
  · rw [String.toList_ofList]
    exact htidy.spaceless
  · rw [String.toList_ofList, objectKeys_chars hwritable]
    intro keys hkeys
    simp only [List.mem_cons, List.not_mem_nil, or_false] at hkeys
    rcases hkeys with rfl | rfl | rfl
    · exact pairwise_names_sorted (hplain .feature).nodup_granted
    · exact pairwise_names_sorted (hplain .usageLimit).nodup_granted
    · decide
  · rw [String.toList_ofList]
    refine ⟨fun sort => (s.values sort).granted.sorted.names, objectKeys_chars hwritable, ?_⟩
    intro sort id
    have hperm : (s.values sort).granted.sorted.names.Perm (s.values sort).granted.names :=
      (Table.sorted_perm _).map Prod.fst
    rw [hperm.mem_iff]
    exact (hplain sort).mem_names_granted_iff

/-- The bytes of a snapshot are a canonical form. They are there for every plain snapshot whose
numbers have texts and look the same whatever it is: ASCII, compact, the keys of every object in
strictly increasing order. Two snapshots have the same bytes exactly if every identifier has
the same value of the same type in both or a value in neither, so that order, nulls, plan
and add-ons do not matter; and two snapshots with the same bytes do not differ. -/
theorem serializedBytes_canonical (a b : Snapshot) (ha : a.IsPlain) (hb : b.IsPlain)
    (hwritable : a.IsWritable) (hwritable' : b.IsWritable) :
    (∃ bytes, a.serializedBytes = .ok bytes ∧ a.IsCanonical bytes) ∧
    (a.serializedBytes = b.serializedBytes ↔
      ∀ sort id, (a.values sort).present? id = (b.values sort).present? id) ∧
    (a.serializedBytes = b.serializedBytes →
      Entitlement.differ (.snapshot a) (.snapshot b) = .ok false) := by
  have hiff := serializedBytes_eq_iff ha hb hwritable hwritable'
  refine ⟨exists_isCanonical ha hwritable, hiff, ?_⟩
  intro heq
  exact differ_eq_false_of_values ha hb (hiff.1 heq)

/-- `mixed` in another order, with another null, a plan and an add-on. -/
def mixedAgain : Snapshot where
  plan := some "PRO"
  addOns := ["extra"]
  features := [(.text "zero", .float (.zero true)), (.text "gone", .null),
    (.text "off", .bool false), (.text "\u00e9\"\\", .text "\u007f\x01\u2028")]
  usageLimits := [(.text "one", .int 1), (.text "many", .int (-12345678901234567890123))]

/-- `mixed` with `true` in place of one. -/
def mixedTypes : Snapshot where
  plan := none
  addOns := []
  features := mixed.features
  usageLimits := [(.text "many", .int (-12345678901234567890123)), (.text "one", .bool true)]

theorem isPlain_mixedAgain : mixedAgain.IsPlain := by
  intro sort
  cases sort
  · refine ⟨by simp [mixedAgain, values], ?_, by simp [mixedAgain, values]⟩
    show [Value.text "zero", .text "gone", .text "off", .text "\u00e9\"\\"].Nodup
    simp
  · refine ⟨by simp [mixedAgain, values], ?_, by simp [mixedAgain, values]⟩
    show [Value.text "one", .text "many"].Nodup
    simp

theorem isWritable_mixedAgain : mixedAgain.IsWritable := by
  intro sort entry hentry n hn
  cases sort
  · simp only [mixedAgain, values, List.mem_cons, List.not_mem_nil, or_false] at hentry
    rcases hentry with rfl | rfl | rfl | rfl <;> cases hn
    exact ⟨rfl, rfl⟩
  · simp only [mixedAgain, values, List.mem_cons, List.not_mem_nil, or_false] at hentry
    rcases hentry with rfl | rfl <;> cases hn
    · exact ⟨rfl, rfl⟩
    · exact ⟨rfl, isWritable_many⟩

theorem isPlain_mixedTypes : mixedTypes.IsPlain := by
  intro sort
  cases sort
  · exact isPlain_mixed .feature
  · exact ⟨by simp [mixedTypes, values], (isPlain_mixed .usageLimit).distinct,
      by simp [mixedTypes, values]⟩

theorem isWritable_mixedTypes : mixedTypes.IsWritable := by
  intro sort entry hentry n hn
  cases sort
  · exact isWritable_mixed .feature entry hentry n hn
  · simp only [mixedTypes, values, List.mem_cons, List.not_mem_nil, or_false] at hentry
    rcases hentry with rfl | rfl <;> cases hn
    exact ⟨rfl, isWritable_many⟩

/-- The same values in another order have the same bytes, one and `true` have not. -/
theorem serializedBytes_canonical_mixed :
    mixed.serializedBytes = mixedAgain.serializedBytes ∧
    Entitlement.differ (.snapshot mixed) (.snapshot mixedAgain) = .ok false ∧
    mixed.serializedBytes ≠ mixedTypes.serializedBytes ∧
    ∃ bytes, mixed.serializedBytes = .ok bytes ∧ mixed.IsCanonical bytes := by
  obtain ⟨hcanonical, hiff, hdiffer⟩ := serializedBytes_canonical mixed mixedAgain isPlain_mixed
    isPlain_mixedAgain isWritable_mixed isWritable_mixedAgain
  obtain ⟨-, hiff', -⟩ := serializedBytes_canonical mixed mixedTypes isPlain_mixed
    isPlain_mixedTypes isWritable_mixed isWritable_mixedTypes
  have hsame : mixed.serializedBytes = mixedAgain.serializedBytes := by
    refine hiff.2 fun sort => ?_
    apply (isPlain_mixed sort).present?_eq_of_perm (isPlain_mixedAgain sort)
    cases sort
    · exact .cons _ (.swap _ _ _)
    · exact .swap _ _ _
  refine ⟨hsame, hdiffer hsame, ?_, hcanonical⟩
  intro heq
  have hone : some (Value.int 1) = some (.bool true) := hiff'.1 heq .usageLimit "one"
  cases hone

/-- `oversized` for a plan. -/
def oversizedAgain : Snapshot := { oversized with plan := some "PRO" }

/-- Snapshots with the same values have no bytes in common if one of the values has no text. -/
theorem oversized_has_no_bytes_in_common :
    oversized.IsPlain ∧ oversizedAgain.IsPlain ∧
    (∀ sort id, (oversized.values sort).present? id = (oversizedAgain.values sort).present? id) ∧
    ¬∃ bytes, oversized.serializedBytes = .ok bytes ∧
      oversizedAgain.serializedBytes = .ok bytes := by
  refine ⟨isPlain_oversized, fun sort => isPlain_oversized sort, fun sort _ => ?_, ?_⟩
  · cases sort <;> rfl
  · rintro ⟨bytes, hbytes, -⟩
    exact not_isWritable_oversized
      ((exists_serializedBytes_iff isPlain_oversized).1 ⟨bytes, hbytes⟩)

end Snapshot

end Tariff
