import Tariff.Proofs.Formula.Compiled
import Tariff.Proofs.Formula.Evaluation
import Tariff.Proofs.Number.Finite

/-!
# Finite arithmetic in formulas

Arithmetic never makes a number that is not finite, and it works on none, with one exception:
a finite number divided by an infinite one is zero, and this is not refused
(`arithmetic_stays_finite`, `infinite_divisor_is_not_refused`). An operation is checked by its
result alone. That is enough for sums, differences and products, in which every operand that
is not finite shows, and for the number that is divided, but not for the divisor.

An expression has a value only if all its parts have one (`Expr.exists_value_of_within`), so
that what an operation does with two numbers settles what every step of an evaluation has done.
-/

namespace Tariff.Formula

/-! ## Steps of arithmetic -/

/-- The operators of arithmetic. -/
def arithmeticOperators : List BinaryOperator := [.add, .sub, .mul, .div]

variable {operator : BinaryOperator} {v w u : Value}

/-- What arithmetic makes of two values, it makes of finite numbers, but for a divisor. -/
theorem finiteStep_of_applyBinary (hoperator : operator ∈ arithmeticOperators)
    (h : applyBinary operator v w = .ok u) :
    ∃ m n result, v = .number m ∧ w = .number n ∧ u = .number result ∧
      Number.FiniteStep (operator = .div) m n result := by
  simp only [arithmeticOperators, List.mem_cons, List.not_mem_nil, or_false] at hoperator
  rcases hoperator with rfl | rfl | rfl | rfl
  · obtain ⟨m, n, result, rfl, rfl, hsome, rfl⟩ := arithmetic_eq_ok_iff.1 h
    exact ⟨m, n, result, rfl, rfl, rfl, Number.finiteStep_of_add? hsome⟩
  · obtain ⟨m, n, result, rfl, rfl, hsome, rfl⟩ := arithmetic_eq_ok_iff.1 h
    exact ⟨m, n, result, rfl, rfl, rfl, Number.finiteStep_of_sub? hsome⟩
  · obtain ⟨m, n, result, rfl, rfl, hsome, rfl⟩ := arithmetic_eq_ok_iff.1 h
    exact ⟨m, n, result, rfl, rfl, rfl, Number.finiteStep_of_mul? hsome⟩
  · obtain ⟨m, n, result, rfl, rfl, -, hsome, rfl⟩ := divide_eq_ok_iff.1 h
    exact ⟨m, n, result, rfl, rfl, rfl, Number.finiteStep_of_div? rfl hsome⟩

/-! ## Parts of expressions -/

namespace Expr

variable {scope : Scope} {part e left right operand : Expr} {depth : Nat} {n : Number}

/-- The parts of an expression that has a value have one each. -/
theorem exists_value_of_within (h : part.Within e) {v : Value} (hv : e.value scope = .ok v) :
    ∃ w, part.value scope = .ok w := by
  induction h generalizing v with
  | whole => exact ⟨v, hv⟩
  | operand _ ih =>
    obtain ⟨w, hw, -⟩ := Outcome.bind_eq_ok_iff.1 hv
    exact ih hw
  | left _ ih =>
    obtain ⟨w, hw, -⟩ := Outcome.bind_eq_ok_iff.1 hv
    exact ih hw
  | right _ ih =>
    obtain ⟨w, -, hrest⟩ := Outcome.bind_eq_ok_iff.1 hv
    obtain ⟨w', hw', -⟩ := Outcome.bind_eq_ok_iff.1 hrest
    exact ih hw'

/-- The steps of arithmetic in an expression that has a value. -/
theorem finiteStep_of_within (hoperator : operator ∈ arithmeticOperators)
    (h : (Expr.binary operator left right depth).Within e) {v : Value}
    (hv : e.value scope = .ok v) :
    ∃ m n result : Number, left.value scope = .ok (.number m) ∧
      right.value scope = .ok (.number n) ∧
      (Expr.binary operator left right depth).value scope = .ok (.number result) ∧
      Number.FiniteStep (operator = .div) m n result := by
  obtain ⟨u, hu⟩ := exists_value_of_within h hv
  obtain ⟨x, hx, hrest⟩ := Outcome.bind_eq_ok_iff.1 hu
  obtain ⟨y, hy, happly⟩ := Outcome.bind_eq_ok_iff.1 hrest
  obtain ⟨m, n, result, rfl, rfl, rfl, hstep⟩ := finiteStep_of_applyBinary hoperator happly
  exact ⟨m, n, result, hx, hy, hu, hstep⟩

/-- Whether all arithmetic in an expression works on finite numbers and makes finite numbers. -/
def StaysFinite (scope : Scope) (e : Expr) : Prop :=
  ∀ operator ∈ arithmeticOperators, ∀ left right depth,
    (Expr.binary operator left right depth).Within e →
      ∃ m n result : Number, left.value scope = .ok (.number m) ∧
        right.value scope = .ok (.number n) ∧
        (Expr.binary operator left right depth).value scope = .ok (.number result) ∧
        m.isFinite = true ∧ n.isFinite = true ∧ result.isFinite = true

/-- Whether some divisor in an expression is infinite. -/
def DividesByInfinity (scope : Scope) (e : Expr) : Prop :=
  ∃ left right depth, (Expr.binary .div left right depth).Within e ∧
    ∃ n : Number, right.value scope = .ok (.number n) ∧ n.IsInfinite

/-- Whether an expression hands on a number: it is a literal or a name for it, perhaps with
minus signs before it. -/
inductive HandsOn (scope : Scope) (n : Number) : Expr → Prop where
  | literal : HandsOn scope n (.literal (.number n))
  | name {text : String} (h : scope text = some (.number n)) : HandsOn scope n (.name text)
  | negated {operand : Expr} {depth : Nat} (h : HandsOn scope n operand) :
      HandsOn scope n (.unary .negate operand depth)

/-- What hands on a number has it as its value, or the one of opposite sign. -/
theorem HandsOn.exists_value (h : operand.HandsOn scope n) :
    ∃ m, operand.value scope = .ok (.number m) ∧ (m = n ∨ m = n.neg) := by
  induction h with
  | literal => exact ⟨n, rfl, .inl rfl⟩
  | name h => exact ⟨n, lookUp_eq_ok_iff.2 ⟨.number n, h, rfl⟩, .inl rfl⟩
  | negated _ ih =>
    obtain ⟨m, hm, hsign⟩ := ih
    refine ⟨m.neg, Outcome.bind_eq_ok_iff.2 ⟨.number m, hm, rfl⟩, ?_⟩
    rcases hsign with rfl | rfl
    · exact .inr rfl
    · exact .inl n.neg_neg

/-- Whether it is finite, or infinite, does not depend on the sign of what is handed on. -/
theorem HandsOn.isFinite_eq {m : Number} (h : operand.HandsOn scope n)
    (hm : operand.value scope = .ok (.number m)) :
    m.isFinite = n.isFinite ∧ (m.IsInfinite → n.IsInfinite) := by
  obtain ⟨m', hm', hsign⟩ := h.exists_value
  cases hm.symm.trans hm'
  rcases hsign with rfl | rfl
  · exact ⟨rfl, id⟩
  · exact ⟨n.isFinite_neg, n.isInfinite_of_neg⟩

end Expr

/-! ## Whole formulas -/

/-- If a formula has a value, its arithmetic works on finite numbers alone unless there is an
infinite divisor, and makes finite numbers in any case. A number that is not finite, if it
comes to an operand of arithmetic as it is or with minus signs, leaves the formula without a
value, unless it is infinite and a divisor. -/
theorem arithmetic_stays_finite (f : Formula) (scope : Scope) :
    (∀ v, f.evaluate scope = .ok v →
      (f.root.StaysFinite scope ↔ ¬f.root.DividesByInfinity scope)) ∧
    (∀ v, f.evaluate scope = .ok v → ∀ operator ∈ arithmeticOperators, ∀ left right depth,
      (Expr.binary operator left right depth).Within f.root →
        ∃ m n result : Number, left.value scope = .ok (.number m) ∧
          right.value scope = .ok (.number n) ∧
          (Expr.binary operator left right depth).value scope = .ok (.number result) ∧
          Number.FiniteStep (operator = .div) m n result) ∧
    ∀ operator ∈ arithmeticOperators, ∀ left right depth,
      (Expr.binary operator left right depth).Within f.root →
        ∀ n : Number, n.isFinite = false →
          left.HandsOn scope n ∨ right.HandsOn scope n ∧ (operator = .div → ¬n.IsInfinite) →
            ∃ fault, f.evaluate scope = .error (.fault f.source fault) := by
  have hsteps : ∀ v, f.evaluate scope = .ok v → ∀ operator ∈ arithmeticOperators,
      ∀ left right depth, (Expr.binary operator left right depth).Within f.root →
        ∃ m n result : Number, left.value scope = .ok (.number m) ∧
          right.value scope = .ok (.number n) ∧
          (Expr.binary operator left right depth).value scope = .ok (.number result) ∧
          Number.FiniteStep (operator = .div) m n result :=
    fun v hv operator hoperator left right depth hwithin =>
      Expr.finiteStep_of_within hoperator hwithin (evaluate_eq_ok_iff.1 hv).1
  refine ⟨fun v hv => ?_, hsteps, ?_⟩
  · constructor
    · rintro hfinite ⟨left, right, depth, hwithin, n, hn, hinfinite⟩
      obtain ⟨_, n', _, -, hn', -, -, hright, -⟩ :=
        hfinite .div (by decide) left right depth hwithin
      cases hn.symm.trans hn'
      have hfalse : n.isFinite = false := Number.IsInfinite.isFinite_eq_false hinfinite
      exact Bool.false_ne_true (hfalse.symm.trans hright)
    · intro hdivides operator hoperator left right depth hwithin
      obtain ⟨m, n, result, hm, hn, hresult, hstep⟩ :=
        hsteps v hv operator hoperator left right depth hwithin
      refine ⟨m, n, result, hm, hn, hresult, hstep.left, ?_, hstep.result⟩
      rcases hstep.right with hright | ⟨rfl, hinfinite, -⟩
      · exact hright
      · exact absurd ⟨left, right, depth, hwithin, n, hn, hinfinite⟩ hdivides
  · intro operator hoperator left right depth hwithin n hn hhands
    refine exists_fault_of_evaluate fun v hv => ?_
    obtain ⟨m, m', result, hm, hm', -, hstep⟩ :=
      hsteps v hv operator hoperator left right depth hwithin
    rcases hhands with hleft | ⟨hright, hdivisor⟩
    · have hfinite := (hleft.isFinite_eq hm).1
      exact Bool.false_ne_true (hn.symm.trans (hfinite.symm.trans hstep.left))
    · obtain ⟨hfinite, hinfinite⟩ := hright.isFinite_eq hm'
      rcases hstep.right with hstepRight | ⟨hdivides, hstepRight, -⟩
      · exact Bool.false_ne_true (hn.symm.trans (hfinite.symm.trans hstepRight))
      · exact hdivisor hdivides (hinfinite hstepRight)

/-- The tree of `1 / 1e999`. -/
def overInfinityTree : Expr :=
  .binaryOf .div (.literal (.int 1)) (.literal (.float (.infinity false)))

/-- The formula `1 / 1e999` has the value zero, though its divisor is infinite. -/
theorem infinite_divisor_is_not_refused :
    compile ⟨64, 1024⟩ "formula" "1 / 1e999" = .ok ⟨"1 / 1e999", overInfinityTree⟩ ∧
    Formula.evaluate ⟨"1 / 1e999", overInfinityTree⟩ (.ofTable []) = .ok (.float (.zero false)) ∧
    overInfinityTree.DividesByInfinity (.ofTable []) ∧
    ¬overInfinityTree.StaysFinite (.ofTable []) := by
  have htokens : Token.ofFormula "1 / 1e999" =
      .ok [⟨.number ⟨['1'], none, none⟩, 0⟩, ⟨.symbol .divide, 2⟩,
        ⟨.number ⟨['1'], none, some ⟨'e', none, ['9', '9', '9']⟩⟩, 4⟩, ⟨.finish, 9⟩] := by
    decide +kernel
  have hquotient : Number.div? (.int 1) (.float (.infinity false)) =
      some (.float (.zero false)) := by decide +kernel
  have happly : applyBinary .div (.number (.int 1)) (.number (.float (.infinity false))) =
      .ok (.number (.float (.zero false))) :=
    divide_eq_ok_iff.2 ⟨.int 1, .float (.infinity false), .float (.zero false), rfl, rfl, rfl,
      hquotient, rfl⟩
  have hvalue : overInfinityTree.value (.ofTable []) = .ok (.float (.zero false)) :=
    Outcome.bind_eq_ok_iff.2 ⟨_, rfl, Outcome.bind_eq_ok_iff.2 ⟨_, rfl, happly⟩⟩
  refine ⟨compile_of_readAll (by decide) htokens (by with_unfolding_all rfl),
    evaluate_eq_ok_iff.2 ⟨hvalue, rfl⟩, ⟨_, _, _, .whole, _, rfl, _, rfl⟩, fun hfinite => ?_⟩
  obtain ⟨_, n, _, -, hn, -, -, hright, -⟩ := hfinite .div (by decide) _ _ _ .whole
  cases hn
  cases hright

/-- The tree of `2 * n - 1`. -/
def doubledTree : Expr :=
  .binaryOf .sub (.binaryOf .mul (.literal (.int 2)) (.name "n")) (.literal (.int 1))

/-- The formula `2 * n - 1` stays finite where `n` is an integer, and has no value where `n` is
infinite. -/
theorem arithmetic_stays_finite_doubled :
    Formula.evaluate ⟨"2 * n - 1", doubledTree⟩ (.ofTable [("n", .number (.int 4))]) =
      .ok (.int 7) ∧
    doubledTree.StaysFinite (.ofTable [("n", .number (.int 4))]) ∧
    ∃ fault, Formula.evaluate ⟨"2 * n - 1", doubledTree⟩
      (.ofTable [("n", .number (.float (.infinity true)))]) =
        .error (.fault "2 * n - 1" fault) := by
  have hseven : Formula.evaluate ⟨"2 * n - 1", doubledTree⟩ (.ofTable [("n", .number (.int 4))]) =
      .ok (.int 7) := rfl
  have hdivides : ¬doubledTree.DividesByInfinity (.ofTable [("n", .number (.int 4))]) := by
    rintro ⟨left, right, depth, hwithin, -⟩
    unfold doubledTree Expr.binaryOf at hwithin
    cases hwithin with
    | left hleft =>
      cases hleft with
      | left hliteral => cases hliteral
      | right hname => cases hname
    | right hliteral => cases hliteral
  obtain ⟨hfinite, -, -⟩ :=
    arithmetic_stays_finite ⟨"2 * n - 1", doubledTree⟩ (.ofTable [("n", .number (.int 4))])
  obtain ⟨-, -, hrefused⟩ := arithmetic_stays_finite ⟨"2 * n - 1", doubledTree⟩
    (.ofTable [("n", .number (.float (.infinity true)))])
  exact ⟨hseven, (hfinite _ hseven).2 hdivides,
    hrefused .mul (by decide) _ _ _ (.left .whole) (.float (.infinity true)) rfl
      (.inr ⟨.name rfl, nofun⟩)⟩

end Tariff.Formula
