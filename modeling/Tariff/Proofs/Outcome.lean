import Tariff.Error.Parse
import Tariff.Log.Logged

/-!
# Successful outcomes

When a computation that can fail has a result. Reading a document is one long
sequence of such computations, and every theorem about a document that was read
starts from the outcome and works back to what each step found. The lemmas here are
the steps of that way back; none of them mentions a document.

`Outcome.FailsOnly` says of what sort the errors are that a computation can fail with, and
`Outcome.Rel` compares the outcomes of two runs, errors included.
-/

namespace Tariff.Outcome

variable {ε δ α β : Type}

/-- A sequence succeeds exactly if its steps do. -/
@[simp] theorem bind_eq_ok_iff {x : Except ε α} {next : α → Except ε β} {b : β} :
    (x >>= next) = .ok b ↔ ∃ a, x = .ok a ∧ next a = .ok b := by
  cases x with
  | error e => simp [bind, Except.bind]
  | ok a => simp [bind, Except.bind]

/-- What follows a step matters only for the result that the step has. -/
theorem bind_congr {x : Except ε α} {next next' : α → Except ε β}
    (h : ∀ a, x = .ok a → next a = next' a) : (x >>= next) = (x >>= next') := by
  cases x with
  | error e => rfl
  | ok a => exact h a rfl

@[simp] theorem pure_eq_ok_iff {a b : α} : (pure a : Except ε α) = .ok b ↔ a = b := by
  simp [pure, Except.pure]

@[simp] theorem map_eq_ok_iff {f : α → β} {x : Except ε α} {b : β} :
    x.map f = .ok b ↔ ∃ a, x = .ok a ∧ f a = b := by
  cases x <;> simp [Except.map]

/-- Renaming an error makes no success. -/
@[simp] theorem mapError_eq_ok_iff {f : ε → δ} {x : Except ε α} {a : α} :
    x.mapError f = .ok a ↔ x = .ok a := by
  cases x with
  | error e => exact ⟨nofun, nofun⟩
  | ok b =>
    constructor
    · intro h
      cases h
      rfl
    · intro h
      cases h
      rfl

@[simp] theorem lift_eq_ok_iff {x : Except ε α} {a : α} : Refusal.lift x = .ok a ↔ x = .ok a :=
  mapError_eq_ok_iff

theorem lift_map (f : α → β) (x : Except ε α) : Refusal.lift (f <$> x) = f <$> Refusal.lift x := by
  cases x <;> rfl

@[simp] theorem ofConfig_eq_ok_iff {x : Except ConfigError α} {a : α} :
    ParseError.ofConfig x = .ok a ↔ x = .ok a :=
  mapError_eq_ok_iff

@[simp] theorem ofRefusal_eq_ok_iff {x : Except (Refusal ConfigError) α} {a : α} :
    ParseError.ofRefusal x = .ok a ↔ x = .ok a :=
  mapError_eq_ok_iff

/-! What is there is read, and nothing else. -/

theorem none_eq_ok_iff {read : α → Except ε β} {b? : Option β} :
    (pure none : Except ε (Option β)) = .ok b? ↔
      Option.Rel (fun a b => read a = .ok b) none b? := by
  rw [pure_eq_ok_iff]
  constructor
  · rintro rfl
    exact .none
  · rintro ⟨⟩
    rfl

theorem some_eq_ok_iff {read : α → Except ε β} {a : α} {b? : Option β} :
    (do return some (← read a)) = .ok b? ↔
      Option.Rel (fun a b => read a = .ok b) (some a) b? := by
  simp only [bind_eq_ok_iff, pure_eq_ok_iff]
  constructor
  · rintro ⟨b, hb, rfl⟩
    exact .some hb
  · rintro ⟨hb⟩
    exact ⟨_, hb, rfl⟩

/-! ## Errors -/

/-- A sequence fails with the error of the first of its steps that fails. -/
theorem bind_eq_error_iff {x : Except ε α} {next : α → Except ε β} {e : ε} :
    (x >>= next) = .error e ↔ x = .error e ∨ ∃ a, x = .ok a ∧ next a = .error e := by
  cases x with
  | error e' => simp [bind, Except.bind]
  | ok a => simp [bind, Except.bind]

theorem map_eq_error_iff {f : α → β} {x : Except ε α} {e : ε} :
    x.map f = .error e ↔ x = .error e := by
  cases x <;> simp [Except.map]

theorem mapError_eq_error_iff {f : ε → δ} {x : Except ε α} {d : δ} :
    x.mapError f = .error d ↔ ∃ e, x = .error e ∧ f e = d := by
  cases x with
  | error e =>
    constructor
    · intro h
      exact ⟨e, rfl, Except.error.inj h⟩
    · rintro ⟨_, heq, rfl⟩
      cases heq
      rfl
  | ok a => exact ⟨nofun, by rintro ⟨_, heq, -⟩; cases heq⟩

theorem lift_eq_error_iff {x : Except ε α} {refusal : Refusal ε} :
    Refusal.lift x = .error refusal ↔ ∃ e, x = .error e ∧ Refusal.because e = refusal :=
  mapError_eq_error_iff

theorem toOption_eq_some_iff {x : Except ε α} {a : α} : x.toOption = some a ↔ x = .ok a := by
  cases x <;> simp [Except.toOption]

/-! ## Sorts of errors -/

variable {P : ε → Prop}

/-- Whether all errors that a computation can fail with are of some sort. -/
def FailsOnly (P : ε → Prop) (x : Except ε α) : Prop := ∀ e, x = .error e → P e

theorem failsOnly_ok (a : α) : FailsOnly P (.ok a : Except ε α) := nofun

theorem failsOnly_error {e : ε} (h : P e) : FailsOnly P (.error e : Except ε α) := by
  rintro _ ⟨⟩
  exact h

/-- A sequence fails only as its steps do. -/
theorem FailsOnly.bind {x : Except ε α} {next : α → Except ε β} (h : FailsOnly P x)
    (hnext : ∀ a, x = .ok a → FailsOnly P (next a)) : FailsOnly P (x >>= next) := by
  intro e he
  rcases bind_eq_error_iff.1 he with hx | ⟨a, ha, hfails⟩
  · exact h e hx
  · exact hnext a ha e hfails

theorem FailsOnly.map {x : Except ε α} (h : FailsOnly P x) (f : α → β) :
    FailsOnly P (x.map f) := fun e he => h e (map_eq_error_iff.1 he)

theorem failsOnly_mapM {f : α → Except ε β} {as : List α} (h : ∀ a ∈ as, FailsOnly P (f a)) :
    FailsOnly P (as.mapM f) := by
  induction as with
  | nil => exact failsOnly_ok []
  | cons a rest ih =>
    rw [List.forall_mem_cons] at h
    rw [List.mapM_cons]
    exact h.1.bind fun b _ => (ih h.2).bind fun bs _ => failsOnly_ok (b :: bs)

/-! ## Two runs -/

/-- Whether two computations fail with the same error, or have results that are related. -/
inductive Rel (R : α → β → Prop) : Except ε α → Except ε β → Prop
  | error (e : ε) : Rel R (.error e) (.error e)
  | ok {a : α} {b : β} (h : R a b) : Rel R (.ok a) (.ok b)

theorem Rel.mapError {R : α → β → Prop} {x : Except ε α} {y : Except ε β} (h : Rel R x y)
    (f : ε → δ) : Rel R (x.mapError f) (y.mapError f) := by
  cases h with
  | error e => exact .error (f e)
  | ok hab => exact .ok hab

/-- Related computations go on to the same outcome, if related results do. -/
theorem Rel.bind_eq {γ : Type} {R : α → β → Prop} {x : Except ε α} {y : Except ε β}
    {next : α → Except ε γ} {next' : β → Except ε γ} (h : Rel R x y)
    (hnext : ∀ a b, R a b → next a = next' b) : (x >>= next) = (y >>= next') := by
  cases h with
  | error e => rfl
  | ok hab => exact hnext _ _ hab

end Tariff.Outcome
