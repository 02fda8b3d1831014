import Tariff.Formula.Evaluation
import Tariff.Proofs.Outcome

/-!
# Steps of evaluation

When a step of evaluation has a value, and what the value is: looking a name up, an operator
that needs numbers, arithmetic and quotients, and the check of a whole formula. Later proofs
take an evaluation apart by these and do not look at the code of the operators.
-/

namespace Tariff.Formula

variable {scope : Scope} {operator : BinaryOperator} {v w u : Value}

/-- A name that has a value as an operand has a scalar. -/
theorem lookUp_eq_ok_iff {name : String} :
    lookUp scope name = .ok v ↔ ∃ s, scope name = some (.scalar s) ∧ v = .scalar s := by
  unfold lookUp
  split
  · next h => simp [h]
  · next s h => simp [h, eq_comm]
  · next w hnot h =>
    refine iff_of_false nofun ?_
    rintro ⟨s, hs, -⟩
    exact hnot s (Option.some.inj (h.symm.trans hs))

theorem twoNumbers_eq_ok_iff {m n : Number} :
    twoNumbers operator v w = .ok (m, n) ↔ v = .number m ∧ w = .number n := by
  unfold twoNumbers
  split
  · simp
  · next hnot =>
    refine iff_of_false nofun ?_
    rintro ⟨rfl, rfl⟩
    exact hnot m n rfl rfl

/-- Arithmetic has the result of its operation on two numbers. -/
theorem arithmetic_eq_ok_iff {operation : Number → Number → Option Number} :
    arithmetic operator operation v w = .ok u ↔
      ∃ m n result, v = .number m ∧ w = .number n ∧ operation m n = some result ∧
        u = .number result := by
  unfold arithmetic
  rw [Outcome.bind_eq_ok_iff]
  constructor
  · rintro ⟨⟨m, n⟩, hnumbers, hresult⟩
    obtain ⟨rfl, rfl⟩ := twoNumbers_eq_ok_iff.1 hnumbers
    dsimp only at hresult
    split at hresult
    · next result hsome =>
      cases hresult
      exact ⟨m, n, result, rfl, rfl, hsome, rfl⟩
    · cases hresult
  · rintro ⟨m, n, result, rfl, rfl, hsome, rfl⟩
    refine ⟨(m, n), rfl, ?_⟩
    dsimp only
    rw [hsome]
    rfl

/-- A quotient has the result of its operation on two numbers of which the second is not
zero. -/
theorem divide_eq_ok_iff :
    divide v w = .ok u ↔ ∃ m n result, v = .number m ∧ w = .number n ∧ n.isZero = false ∧
      Number.div? m n = some result ∧ u = .number result := by
  unfold divide
  rw [Outcome.bind_eq_ok_iff]
  constructor
  · rintro ⟨⟨m, n⟩, hnumbers, hresult⟩
    obtain ⟨rfl, rfl⟩ := twoNumbers_eq_ok_iff.1 hnumbers
    dsimp only at hresult
    split at hresult
    · cases hresult
    · next hzero =>
      obtain ⟨_, _, result, hm, hn, hsome, hu⟩ := arithmetic_eq_ok_iff.1 hresult
      cases hm
      cases hn
      exact ⟨m, n, result, rfl, rfl, Bool.eq_false_iff.2 hzero, hsome, hu⟩
  · rintro ⟨m, n, result, rfl, rfl, hzero, hsome, rfl⟩
    refine ⟨(m, n), rfl, ?_⟩
    dsimp only
    rw [hzero]
    exact arithmetic_eq_ok_iff.2 ⟨m, n, result, rfl, rfl, hsome, rfl⟩

/-- A formula has the value of its tree, if that is no number that is not finite. -/
theorem evaluate_eq_ok_iff {f : Formula} :
    f.evaluate scope = .ok v ↔ f.root.value scope = .ok v ∧ isNotFinite v = false := by
  unfold evaluate value
  rw [Outcome.mapError_eq_ok_iff, Outcome.bind_eq_ok_iff]
  constructor
  · rintro ⟨w, hw, hchecked⟩
    split at hchecked
    · cases hchecked
    · next hfinite =>
      cases hchecked
      exact ⟨hw, Bool.eq_false_iff.2 hfinite⟩
  · rintro ⟨hv, hfinite⟩
    refine ⟨v, hv, ?_⟩
    rw [hfinite]
    rfl

/-- The error of a formula without a value is a fault of that formula. -/
theorem exists_fault_of_evaluate {f : Formula} (h : ∀ v, f.evaluate scope ≠ .ok v) :
    ∃ fault, f.evaluate scope = .error (.fault f.source fault) := by
  unfold evaluate at h ⊢
  cases hvalue : f.value scope with
  | ok v => exact absurd (Outcome.mapError_eq_ok_iff.2 hvalue) (h v)
  | error fault => exact ⟨fault, rfl⟩

end Tariff.Formula
