import Tariff.Proofs.Version.Steps

/-!
# How far documents come

A document is taken up the ladder step by step and may be refused on the way. `Climbs` is
that way: the steps that were completed, and the document and version that they led to.
`Stops` is where it ends, since no further step can be completed.

`ofFields_climbs` is what becomes of a document that declares its version: it is taken as
far as it comes, and reported are the steps that were completed and no others. So whatever
every step keeps holds of all that is reached.
-/

namespace Tariff

/-- What is reported of a step that was completed. -/
def Migration.event (m : Migration) : Event := .documentMigrated m.source m.target

theorem Migration.mem_ladder_iff {m : Migration} :
    m ∈ ladder ↔ m = ⟨.v1_0, .v1_1, Fields.fromV1_0⟩ ∨ m = ⟨.v1_1, .v2_0, Fields.fromV1_1⟩ := by
  simp [ladder]

namespace Resolved

variable {fields out : Fields} {v : Version} {a b : Fields × Version} {m : Migration}
  {e : Refusal ConfigError}

/-- Whether steps of the ladder, all of them completed, lead from a document of a version to
another. -/
inductive Climbs : Fields × Version → List Migration → Fields × Version → Prop where
  | rest (a : Fields × Version) : Climbs a [] a
  | step {fields out : Fields} {m : Migration} {done : List Migration} {b : Fields × Version}
      (mem : m ∈ Migration.ladder) (completed : m.step fields = .ok out)
      (onward : Climbs (out, m.target) done b) : Climbs (fields, m.source) (m :: done) b

/-- Whether no step of the ladder can be completed from here. -/
def Stops (a : Fields × Version) : Prop :=
  ∀ m ∈ Migration.ladder, m.source = a.2 → ∀ out, m.step a.1 ≠ .ok out

/-- Whether a document is refused where it has come to, for its fields or by the next step. -/
def Refused (a : Fields × Version) (e : Refusal ConfigError) : Prop :=
  a.1.checkWindows a.2 = .error e ∨
    ∃ m ∈ Migration.ladder, m.source = a.2 ∧ m.step a.1 = .error e

/-- What holds at the start and is kept by every step holds of all that is reached. -/
theorem Climbs.invariant {done : List Migration} {P : Fields → Version → Prop}
    (climbs : Climbs a done b)
    (hstep : ∀ m ∈ Migration.ladder, ∀ fields out, m.step fields = .ok out → P fields m.source →
      P out m.target)
    (h : P a.1 a.2) : P b.1 b.2 := by
  induction climbs with
  | rest a => exact h
  | step mem completed onward ih => exact ih (hstep _ mem _ _ completed h)

/-! ## One step -/

theorem climb_of_completed (h : m.step fields = .ok out) :
    climb (fields, m.source) m = ⟨[m.event], .ok (out, m.target)⟩ := by
  unfold climb
  rw [if_pos rfl, h]
  rfl

theorem climb_of_refused (h : m.step fields = .error e) :
    climb (fields, m.source) m = ⟨[], .error e⟩ := by
  unfold climb
  rw [if_pos rfl, h]
  rfl

theorem climb_of_passed (h : a.2 ≠ m.source) : climb a m = ⟨[], .ok a⟩ := by
  unfold climb
  rw [if_neg h]
  rfl

/-! ## The whole ladder -/

/-- Steps of the ladder, taken one after the other, lead as far as they are completed, and
report just that. -/
theorem climbs_of_steps {steps : List Migration} (hsteps : ∀ m ∈ steps, m ∈ Migration.ladder)
    (a : Fields × Version) :
    ∃ done b, Climbs a done b ∧ (steps.foldlM climb a).events = done.map Migration.event ∧
      ((steps.foldlM climb a).result = .ok b ∨
        ∃ m ∈ Migration.ladder, m.source = b.2 ∧ ∃ e, m.step b.1 = .error e ∧
          (steps.foldlM climb a).result = .error e) := by
  induction steps generalizing a with
  | nil => exact ⟨[], a, .rest a, rfl, .inl rfl⟩
  | cons m steps ih =>
    obtain ⟨fields, v⟩ := a
    obtain ⟨hm, hrest⟩ := List.forall_mem_cons.1 hsteps
    rw [List.foldlM_cons]
    -- The step is refused, completed, or passed over.
    by_cases hv : v = m.source
    · subst hv
      cases hstep : m.step fields with
      | error e =>
        rw [climb_of_refused hstep]
        exact ⟨[], _, .rest _, rfl, .inr ⟨m, hm, rfl, e, hstep, rfl⟩⟩
      | ok out =>
        obtain ⟨done, b, climbs, hevents, hresult⟩ := ih hrest (out, m.target)
        rw [climb_of_completed hstep]
        exact ⟨m :: done, b, .step hm hstep climbs, congrArg (m.event :: ·) hevents, hresult⟩
    · rw [climb_of_passed hv]
      exact ih hrest (fields, v)

/-- No two steps of the ladder start at the same version. -/
theorem eq_of_source_eq {m n : Migration} (hm : m ∈ Migration.ladder) (hn : n ∈ Migration.ladder)
    (h : m.source = n.source) : m = n := by
  have hne : Version.v1_0 ≠ .v1_1 := by decide
  rcases Migration.mem_ladder_iff.1 hm with rfl | rfl <;>
    rcases Migration.mem_ladder_iff.1 hn with rfl | rfl
  · rfl
  · exact absurd h hne
  · exact absurd h.symm hne
  · rfl

/-- No step of the ladder starts at the current version. -/
theorem source_ne_current (hm : m ∈ Migration.ladder) : m.source ≠ .v2_0 := by
  rcases Migration.mem_ladder_iff.1 hm with rfl | rfl
  · show Version.v1_0 ≠ .v2_0
    decide
  · show Version.v1_1 ≠ .v2_0
    decide

/-- The ladder takes a document as far as it comes. -/
theorem climbs_of_ladder (hv : v ∈ Version.supported) (fields : Fields) :
    ∃ done b, Climbs (fields, v) done b ∧ Stops b ∧
      (Migration.ladder.foldlM climb (fields, v)).events = done.map Migration.event ∧
      ((Migration.ladder.foldlM climb (fields, v)).result = .ok b ∨
        ∃ m ∈ Migration.ladder, m.source = b.2 ∧ ∃ e, m.step b.1 = .error e ∧
          (Migration.ladder.foldlM climb (fields, v)).result = .error e) := by
  obtain ⟨done, b, climbs, hevents, hresult⟩ :=
    climbs_of_steps (show ∀ m ∈ Migration.ladder, m ∈ Migration.ladder from fun m hm => hm)
      (fields, v)
  refine ⟨done, b, climbs, ?_, hevents, hresult⟩
  intro n hn hsource out hout
  rcases hresult with hok | ⟨m, hm, hm', e, hstep, -⟩
  · obtain ⟨hcurrent, -⟩ := (climb_ladder_eq_ok_iff hv).1 hok
    exact source_ne_current hn (hsource.trans hcurrent)
  · obtain rfl := eq_of_source_eq hn hm (hsource.trans hm'.symm)
    rw [hstep] at hout
    cases hout

/-! ## Documents -/

/-- What is done with a document of a version where it has come to. -/
def arrival (declared : Version) (reached : Fields × Version) :
    Logged (Refusal ConfigError) Resolved := do
  Logged.ofExcept (reached.1.checkWindows reached.2)
  if declared ≠ Version.current then
    Logged.emit (.legacyResolved declared reached.2)
  return ⟨reached.1, declared, reached.2⟩

theorem arrival_of_refused (h : a.1.checkWindows a.2 = .error e) :
    arrival v a = ⟨[], .error e⟩ := by
  unfold arrival
  rw [h]
  rfl

theorem arrival_of_misplaced_eq_nil (h : a.1.misplaced a.2 = []) :
    arrival v a =
      ⟨if v = .v2_0 then [] else [.legacyResolved v a.2], .ok ⟨a.1, v, a.2⟩⟩ := by
  have hwindows : a.1.checkWindows a.2 = .ok () := Fields.checkWindows_eq_ok_iff.2 h
  unfold arrival
  rw [hwindows]
  by_cases hv : v = .v2_0
  · subst hv
    rfl
  · have hlegacy : v ≠ Version.current := hv
    rw [if_neg hv]
    dsimp only
    rw [if_pos hlegacy]
    rfl

/-- A document that declares its version goes up the ladder and arrives. -/
theorem ofFields_of_declared (hdeclared : fields.declared = .ok v) :
    ofFields fields = Migration.ladder.foldlM climb (fields, v) >>= arrival v := by
  unfold ofFields
  rw [hdeclared]
  rfl

/-- A document that does not declare its version is refused for that, and nothing is reported. -/
theorem ofFields_of_undeclared (h : fields.declared = .error e) :
    ofFields fields = ⟨[], .error e⟩ := by
  unfold ofFields
  rw [h]
  rfl

theorem ofValue_of_undeclared (h : fields.declared = .error e) :
    ofValue (.mapping fields) = ⟨[], .error e⟩ :=
  ofFields_of_undeclared h

/-- What becomes of a document that declares its version. It is taken as far as it comes, and
is resolved if its fields are in place there, and else refused. -/
theorem ofFields_climbs (hdeclared : fields.declared = .ok v) :
    ∃ done b, Climbs (fields, v) done b ∧ Stops b ∧
      ((b.1.misplaced b.2 = [] ∧ (ofFields fields).result = .ok ⟨b.1, v, b.2⟩ ∧
          (ofFields fields).events = done.map Migration.event ++
            if v = .v2_0 then [] else [.legacyResolved v b.2]) ∨
        ∃ e, Refused b e ∧ (ofFields fields).result = .error e ∧
          (ofFields fields).events = done.map Migration.event) := by
  obtain ⟨done, b, climbs, stops, hevents, hresult⟩ :=
    climbs_of_ladder (mem_supported_of_declared hdeclared) fields
  refine ⟨done, b, climbs, stops, ?_⟩
  rw [ofFields_of_declared hdeclared, ← hevents, Logged.result_bind]
  rcases hresult with hok | ⟨m, hm, hsource, e, hstep, herror⟩
  · rw [Logged.events_bind_ok hok, hok]
    cases hwindows : b.1.checkWindows b.2 with
    | error e =>
      rw [arrival_of_refused hwindows, List.append_nil]
      exact .inr ⟨e, .inl hwindows, congrArg Logged.result (arrival_of_refused hwindows), rfl⟩
    | ok _ =>
      have hplaced := Fields.checkWindows_eq_ok_iff.1 hwindows
      have harrival := arrival_of_misplaced_eq_nil (v := v) hplaced
      rw [harrival]
      exact .inl ⟨hplaced, congrArg Logged.result harrival, rfl⟩
  · rw [Logged.events_bind_error herror, herror]
    exact .inr ⟨e, .inr ⟨m, hm, hsource, hstep⟩, rfl, rfl⟩

end Resolved

end Tariff
