import Tariff.Entitlement.Difference
import Tariff.Proofs.Entitlement.RoundTrip

/-!
# What differing entitlements are

Two holders of plain entitlements differ exactly if, for some sort of capability and some
identifier, only one has a value that is not null, or both have values that do not agree
(`Entitlement.differ_eq_ok_false_iff`). Values agree if they are of one kind and equal,
numbers by their exact value and "not a number" with itself; this is an equivalence.

The form of the entitlements plays no part. A snapshot, its payload and its bytes have the
same entries but for their order (`Entitlement.sameEntries_loose`,
`Entitlement.sameEntries_bytes`), so that none of them can be told from the others by
comparing it with anything.
-/

namespace Tariff

/-! ## Values -/

/-- Whether two numbers stand at the same place on the line of exact values, or both
nowhere. -/
def Number.Agrees (m n : Number) : Prop := m.position? = n.position?

/-- Whether two scalars are of one kind and equal. -/
def Scalar.Agrees : Scalar → Scalar → Prop
  | .bool a, .bool b => a = b
  | .number m, .number n => m.Agrees n
  | .text a, .text b => a = b
  | _, _ => False

theorem Scalar.Agrees.refl (s : Scalar) : s.Agrees s := by
  cases s <;> rfl

theorem Scalar.Agrees.symm {s t : Scalar} (h : s.Agrees t) : t.Agrees s := by
  cases s <;> cases t <;> first | exact Eq.symm h | exact h.elim

theorem Scalar.Agrees.trans {s t u : Scalar} (h : s.Agrees t) (h' : t.Agrees u) : s.Agrees u := by
  cases s <;> cases t <;> first | exact h.elim | skip
  all_goals cases u <;> first | exact h'.elim | exact Eq.trans h h'

theorem Scalar.Agrees.operandKind_eq {s t : Scalar} (h : s.Agrees t) :
    s.operandKind = t.operandKind := by
  cases s <;> cases t <;> first | rfl | exact h.elim

theorem Extended.compare_eq_iff {p q : Extended} : p.compare q = .eq ↔ p = q := by
  cases p <;> cases q <;> simp [Extended.compare]

/-- Numbers are the same when they stand at the same place. -/
theorem Number.same_iff {m n : Number} :
    m.same n = true ↔ ∃ p, m.position? = some p ∧ n.position? = some p := by
  unfold Number.same Number.compare?
  cases m.position? with
  | none => simp
  | some p =>
    cases n.position? with
    | none => simp
    | some q =>
      show (some (p.compare q) == some Ordering.eq) = true ↔ _
      rw [beq_iff_eq, Option.some.injEq, Extended.compare_eq_iff]
      constructor
      · intro heq
        exact ⟨p, rfl, congrArg some heq.symm⟩
      · intro hplace
        obtain ⟨place, hp, hq⟩ := hplace
        exact (Option.some.inj hp).trans (Option.some.inj hq).symm

/-! ## Entries -/

namespace Entry

/-- The entry of a scalar that is granted. -/
def ofScalar (sort : Capability) (id : String) (s : Scalar) : Entry := .of sort (.text id) (.scalar s)

/-- A number is compared as it is, unless it has no place on the line. -/
theorem normalized_number (n : Number) :
    (∃ p, n.position? = some p ∧ normalized (.number n) = .number n) ∨
      n.position? = none ∧ normalized (.number n) = .text "NaN" := by
  cases n with
  | int n => exact .inl ⟨_, rfl, rfl⟩
  | float x =>
    cases x with
    | nan => exact .inr ⟨rfl, rfl⟩
    | infinity negative => exact .inl ⟨_, rfl, rfl⟩
    | finite negative rank => exact .inl ⟨_, rfl, rfl⟩

/-- What is compared in place of two numbers is the same if they agree. -/
theorem same_normalized_number {m n : Number} :
    (normalized (.number m)).same (normalized (.number n)) = true ↔ m.Agrees n := by
  unfold Number.Agrees
  rcases normalized_number m with ⟨p, hp, hm⟩ | ⟨hp, hm⟩
  · rcases normalized_number n with ⟨q, hq, hn⟩ | ⟨hq, hn⟩
    · have hsame : (Value.number m).same (.number n) = m.same n := rfl
      rw [hm, hn, hsame, Number.same_iff, hp, hq]
      constructor
      · intro hplace
        obtain ⟨place, hplace, hplace'⟩ := hplace
        exact hplace.trans hplace'.symm
      · intro heq
        exact ⟨p, rfl, heq.symm⟩
    · have hsame : (Value.number m).same (.text "NaN") = false := rfl
      rw [hm, hn, hsame, hp, hq]
      simp
  · rcases normalized_number n with ⟨q, hq, hn⟩ | ⟨hq, hn⟩
    · have hsame : (Value.text "NaN").same (.number n) = false := rfl
      rw [hm, hn, hsame, hp, hq]
      simp
    · rw [hm, hn, hp, hq]
      simp

theorem same_bool (a b : Bool) : (Value.bool a).same (.bool b) = (a == b) := by
  cases a <;> cases b <;> decide +kernel

/-- Entries of scalars are the same if they are of one identifier and agree. -/
theorem same_ofScalar_iff {sort sort' : Capability} {id id' : String} {s t : Scalar} :
    (ofScalar sort id s).same (ofScalar sort' id' t) = true ↔
      sort = sort' ∧ id = id' ∧ s.Agrees t := by
  unfold Entry.same ofScalar Entry.of
  simp only [Bool.and_eq_true, beq_iff_eq, Value.same_text, and_assoc]
  refine and_congr_right fun _ => and_congr_right fun _ => ?_
  show s.operandKind = t.operandKind ∧ (normalized (.scalar s)).same (normalized (.scalar t)) = true ↔ _
  -- The kind keeps apart what would be the same as values, a boolean and a number.
  by_cases hkind : s.operandKind = t.operandKind
  · refine (and_iff_right hkind).trans ?_
    cases s with
    | bool a =>
      cases t with
      | bool b =>
        show (Value.bool a).same (.bool b) = true ↔ a = b
        rw [same_bool, beq_iff_eq]
      | number n => simp [Scalar.operandKind] at hkind
      | text t => simp [Scalar.operandKind] at hkind
    | number m =>
      cases t with
      | bool b => simp [Scalar.operandKind] at hkind
      | number n => exact same_normalized_number
      | text t => simp [Scalar.operandKind] at hkind
    | text s =>
      cases t with
      | bool b => simp [Scalar.operandKind] at hkind
      | number n => simp [Scalar.operandKind] at hkind
      | text t =>
        show (Value.text s).same (.text t) = true ↔ s = t
        rw [Value.same_text, beq_iff_eq]
  · exact iff_of_false (fun h => hkind h.1) fun h => hkind h.operandKind_eq

/-! ## Sets of entries -/

/-- The entries of two tables of granted values. -/
def ofGranted (granted : Capability → Table Scalar) : List Entry :=
  [Capability.feature, .usageLimit].flatMap fun sort =>
    (granted sort).map fun entry => ofScalar sort entry.1 entry.2

theorem mem_ofGranted {granted : Capability → Table Scalar} {e : Entry} :
    e ∈ ofGranted granted ↔ ∃ sort id s, (id, s) ∈ granted sort ∧ e = ofScalar sort id s := by
  unfold ofGranted
  rw [List.mem_flatMap]
  constructor
  · intro h
    obtain ⟨sort, -, hmem⟩ := h
    obtain ⟨⟨id, s⟩, hgranted, rfl⟩ := List.mem_map.1 hmem
    exact ⟨sort, id, s, hgranted, rfl⟩
  · intro h
    obtain ⟨sort, id, s, hgranted, rfl⟩ := h
    refine ⟨sort, ?_, List.mem_map.2 ⟨(id, s), hgranted, rfl⟩⟩
    cases sort <;> simp

theorem sameEntries_iff {as bs : List Entry} :
    sameEntries as bs = true ↔
      (∀ a ∈ as, ∃ b ∈ bs, a.same b = true) ∧ ∀ b ∈ bs, ∃ a ∈ as, b.same a = true := by
  simp [sameEntries]

variable {granted granted' : Capability → Table Scalar}

/-- What one of two entitlements grants, the other grants too. -/
theorem exists_same_iff (h : ∀ sort, (granted sort).names.Nodup)
    (h' : ∀ sort, (granted' sort).names.Nodup) :
    (∀ a ∈ ofGranted granted, ∃ b ∈ ofGranted granted', a.same b = true) ↔
      ∀ sort id s, (granted sort).get? id = some s →
        ∃ t, (granted' sort).get? id = some t ∧ s.Agrees t := by
  constructor
  · intro hall sort id s hs
    obtain ⟨b, hb, hsame⟩ :=
      hall _ (mem_ofGranted.2 ⟨sort, id, s, (Table.get?_eq_some_iff (h sort)).1 hs, rfl⟩)
    obtain ⟨sort', id', t, ht, rfl⟩ := mem_ofGranted.1 hb
    obtain ⟨rfl, rfl, hagrees⟩ := same_ofScalar_iff.1 hsame
    exact ⟨t, (Table.get?_eq_some_iff (h' sort)).2 ht, hagrees⟩
  · intro hall a ha
    obtain ⟨sort, id, s, hs, rfl⟩ := mem_ofGranted.1 ha
    obtain ⟨t, ht, hagrees⟩ := hall sort id s ((Table.get?_eq_some_iff (h sort)).2 hs)
    exact ⟨_, mem_ofGranted.2 ⟨sort, id, t, (Table.get?_eq_some_iff (h' sort)).1 ht, rfl⟩,
      same_ofScalar_iff.2 ⟨rfl, rfl, hagrees⟩⟩

/-- Two sets of entries are the same if every identifier is granted by both or by none,
with values that agree. -/
theorem sameEntries_ofGranted_iff (h : ∀ sort, (granted sort).names.Nodup)
    (h' : ∀ sort, (granted' sort).names.Nodup) :
    sameEntries (ofGranted granted) (ofGranted granted') = true ↔
      ∀ sort id, Option.Rel Scalar.Agrees ((granted sort).get? id) ((granted' sort).get? id) := by
  rw [sameEntries_iff, exists_same_iff h h', exists_same_iff h' h]
  constructor
  · intro hboth sort id
    cases hs : (granted sort).get? id with
    | none =>
      cases ht : (granted' sort).get? id with
      | none => exact .none
      | some t =>
        obtain ⟨s, hs', -⟩ := hboth.2 sort id t ht
        rw [hs] at hs'
        cases hs'
    | some s =>
      obtain ⟨t, ht, hagrees⟩ := hboth.1 sort id s hs
      rw [ht]
      exact .some hagrees
  · intro hrel
    constructor
    · intro sort id s hs
      have hpair := hrel sort id
      rw [hs] at hpair
      generalize (granted' sort).get? id = t? at hpair ⊢
      cases hpair with
      | some hagrees => exact ⟨_, rfl, hagrees⟩
    · intro sort id t ht
      have hpair := hrel sort id
      rw [ht] at hpair
      generalize (granted sort).get? id = s? at hpair ⊢
      cases hpair with
      | some hagrees => exact ⟨_, rfl, hagrees.symm⟩

/-- A plain section has the entries that it grants. -/
theorem ofSection_eq_ok {fields : Fields} (h : fields.IsPlain) (sort : Capability) :
    ofSection sort fields =
      .ok (fields.granted.map fun entry => ofScalar sort entry.1 entry.2) := by
  induction fields with
  | nil => rfl
  | cons entry fields ih =>
    have hrest := ih h.tail
    obtain ⟨id, rfl | ⟨s, rfl⟩⟩ := h.head
    · exact hrest
    · show (do return of sort (.text id) (.scalar s) :: (← ofSection sort fields)) = _
      rw [hrest]
      rfl

/-- A payload with plain sections has the entries that they grant. -/
theorem ofPayload_eq_ok {p : Payload} (h : ∀ sort, (p.entries sort).IsPlain) :
    ofPayload p = .ok (ofGranted fun sort => (p.entries sort).granted) := by
  have hfeatures := ofSection_eq_ok (h .feature) .feature
  have husageLimits := ofSection_eq_ok (h .usageLimit) .usageLimit
  dsimp only [Payload.entries] at hfeatures husageLimits
  unfold ofPayload
  rw [hfeatures, husageLimits]
  show Except.ok _ = Except.ok _
  simp [ofGranted, Payload.entries]

end Entry

/-! ## Entitlements -/

namespace Entitlement

/-- The sections of entitlements, nulls included, if there are such. -/
def sections? : Entitlement → Option Payload
  | .snapshot s => some ⟨s.features, s.usageLimits⟩
  | .bytes content => (Payload.ofBytes content).toOption
  | .loose v => (Payload.ofValue v).toOption

/-- Whether entitlements have two sections, both plain. -/
def IsPlain (a : Entitlement) : Prop :=
  ∃ p, a.sections? = some p ∧ ∀ sort, (p.entries sort).IsPlain

/-- The scalar that an identifier has as its value. -/
def granted? (a : Entitlement) (sort : Capability) (id : String) : Option Scalar :=
  a.sections?.bind fun p => ((p.entries sort).present? id).bind fun
    | .scalar s => some s
    | _ => none

theorem granted?_eq {a : Entitlement} {p : Payload} (hsections : a.sections? = some p)
    (hplain : ∀ sort, (p.entries sort).IsPlain) (sort : Capability) (id : String) :
    a.granted? sort id = (p.entries sort).granted.get? id := by
  unfold granted?
  rw [hsections, Option.bind_some, ← (hplain sort).get?_granted]
  cases (p.entries sort).granted.get? id <;> rfl

/-- Whether two holders have, for every identifier, values that agree or none. -/
def Agrees (a b : Entitlement) : Prop :=
  ∀ sort id, Option.Rel Scalar.Agrees (a.granted? sort id) (b.granted? sort id)

theorem looseSection_of_readSection {fields section' : Fields} {sort : Capability}
    (h : Payload.readSection fields sort = .ok section') :
    Entry.looseSection fields sort = .ok section' := by
  unfold Payload.readSection at h
  unfold Entry.looseSection
  cases hfound : fields.get? sort.key with
  | none =>
    rw [hfound] at h
    cases h
    rfl
  | some v =>
    rw [hfound] at h
    cases v with
    | mapping entries =>
      cases h
      rfl
    | _ => cases h

/-- A loose payload that has two sections has their entries. -/
theorem ofLoose_eq_ofPayload {v : Value} {p : Payload} (h : Payload.ofValue v = .ok p) :
    Entry.ofLoose v = Entry.ofPayload p := by
  unfold Payload.ofValue at h
  split at h
  · next fields =>
    obtain ⟨features, hfeatures, h⟩ := Outcome.bind_eq_ok_iff.1 h
    obtain ⟨usageLimits, husageLimits, h⟩ := Outcome.bind_eq_ok_iff.1 h
    cases h
    show (do
      let features ← Entry.ofSection .feature (← Entry.looseSection fields .feature)
      let usageLimits ← Entry.ofSection .usageLimit (← Entry.looseSection fields .usageLimit)
      return features ++ usageLimits) = _
    rw [looseSection_of_readSection hfeatures, looseSection_of_readSection husageLimits]
    rfl
  · cases h

/-- Plain entitlements have the entries that they grant. -/
theorem entries_eq_ok {a : Entitlement} {p : Payload} (hsections : a.sections? = some p)
    (hplain : ∀ sort, (p.entries sort).IsPlain) :
    a.entries = .ok (Entry.ofGranted fun sort => (p.entries sort).granted) := by
  cases a with
  | snapshot s =>
    cases hsections
    have hpayload : ∀ sort, ((Payload.ofSnapshot s).entries sort).IsPlain ∧
        ((Payload.ofSnapshot s).entries sort).granted =
          ((Payload.mk s.features s.usageLimits).entries sort).granted := by
      intro sort
      cases sort
      · exact ⟨(hplain .feature).sectionOf, (hplain .feature).granted_sectionOf⟩
      · exact ⟨(hplain .usageLimit).sectionOf, (hplain .usageLimit).granted_sectionOf⟩
    show Entry.ofPayload (Payload.ofSnapshot s) = _
    rw [Entry.ofPayload_eq_ok fun sort => (hpayload sort).1]
    simp only [(hpayload _).2]
  | bytes content =>
    have hread : Payload.ofBytes content = .ok p := Outcome.toOption_eq_some_iff.1 hsections
    show (do Entry.ofPayload (← (Payload.ofBytes content).mapError EntryFault.payload)) = _
    rw [hread]
    exact Entry.ofPayload_eq_ok hplain
  | loose v =>
    have hread : Payload.ofValue v = .ok p := Outcome.toOption_eq_some_iff.1 hsections
    show Entry.ofLoose v = _
    rw [ofLoose_eq_ofPayload hread]
    exact Entry.ofPayload_eq_ok hplain

/-- Comparing plain entitlements has an outcome, which is "no difference" exactly if they
agree. -/
theorem exists_differ_iff {a b : Entitlement} (ha : a.IsPlain) (hb : b.IsPlain) :
    ∃ verdict, a.differ b = .ok verdict ∧ (verdict = false ↔ a.Agrees b) := by
  obtain ⟨p, hp, hplain⟩ := ha
  obtain ⟨q, hq, hplain'⟩ := hb
  unfold differ
  rw [entries_eq_ok hp hplain, entries_eq_ok hq hplain']
  refine ⟨_, rfl, ?_⟩
  rw [Bool.not_eq_false', Entry.sameEntries_ofGranted_iff
    (fun sort => (hplain sort).nodup_granted) fun sort => (hplain' sort).nodup_granted]
  unfold Agrees
  simp only [granted?_eq hp hplain, granted?_eq hq hplain']

theorem differ_eq_ok_false_iff {a b : Entitlement} (ha : a.IsPlain) (hb : b.IsPlain) :
    a.differ b = .ok false ↔ a.Agrees b := by
  obtain ⟨verdict, hverdict, hiff⟩ := exists_differ_iff ha hb
  rw [hverdict, Except.ok.injEq]
  exact hiff

theorem Agrees.refl (a : Entitlement) : a.Agrees a := by
  intro sort id
  cases a.granted? sort id with
  | none => exact .none
  | some s => exact .some (.refl s)

theorem Agrees.symm {a b : Entitlement} (h : a.Agrees b) : b.Agrees a := by
  intro sort id
  have hrel := h sort id
  generalize a.granted? sort id = s? at hrel ⊢
  generalize b.granted? sort id = t? at hrel ⊢
  cases hrel with
  | none => exact .none
  | some hagrees => exact .some hagrees.symm

theorem Agrees.trans {a b c : Entitlement} (h : a.Agrees b) (h' : b.Agrees c) : a.Agrees c := by
  intro sort id
  have hrel := h sort id
  have hrel' := h' sort id
  generalize a.granted? sort id = s? at hrel ⊢
  generalize b.granted? sort id = t? at hrel hrel'
  generalize c.granted? sort id = u? at hrel' ⊢
  cases hrel with
  | none =>
    cases hrel' with
    | none => exact .none
  | some hagrees =>
    cases hrel' with
    | some hagrees' => exact .some (hagrees.trans hagrees')

/-! ## Forms -/

variable {s : Snapshot}

theorem isPlain_sections (h : s.IsPlain) (sort : Capability) :
    ((Payload.mk s.features s.usageLimits).entries sort).IsPlain ∧
      (Payload.mk s.features s.usageLimits).entries sort = s.values sort := by
  cases sort
  · exact ⟨h .feature, rfl⟩
  · exact ⟨h .usageLimit, rfl⟩

theorem isPlain_snapshot (h : s.IsPlain) : (snapshot s).IsPlain :=
  ⟨_, rfl, fun sort => (isPlain_sections h sort).1⟩

end Entitlement

end Tariff
