import Tariff.Formula.Evaluation
import Tariff.Proofs.Formula.Compiled
import Tariff.Proofs.Formula.Descent

/-!
# Recorded depths

The nodes of an expression record a depth, and only the one at the root is looked at when a
chain goes on or a formula is evaluated. In a compiled formula every node records its height
(`Expr.RecordsHeight`), so the bound on depths is a bound on heights, and evaluation needs no
more levels of recursion than that (`compile_records_heights`).

The bound on nesting is another one. Its count is in the cursor, which comes to the end of the
formula with nothing open.
-/

namespace Tariff.Formula

/-! ## Levels of evaluation -/

/-- The value of an expression, if evaluating it takes no more than some levels of recursion. -/
def Expr.valueWithin (scope : Scope) : Nat → Expr → Option (Except FormulaFault Value)
  | 0, _ => none
  | _ + 1, .literal v => some (.ok v)
  | _ + 1, .name text => some (lookUp scope text)
  | levels + 1, .unary operator operand _ => do
    let x ← operand.valueWithin scope levels
    return x >>= applyUnary operator
  | levels + 1, .binary operator left right _ => do
    match ← left.valueWithin scope levels with
    | .error fault => return .error fault
    | .ok v =>
      let y ← right.valueWithin scope levels
      return y >>= applyBinary operator v
  | _ + 1, .foreign typeName => some (.error (.unsupportedNode typeName))

/-- Evaluation goes as deep as the expression is high, at most. -/
theorem Expr.valueWithin_eq {scope : Scope} {e : Expr} {levels : Nat} (h : e.height ≤ levels) :
    e.valueWithin scope levels = some (e.value scope) := by
  induction e generalizing levels with
  | literal v =>
    obtain ⟨levels, rfl⟩ := Nat.exists_eq_add_of_le' h
    rfl
  | name text =>
    obtain ⟨levels, rfl⟩ := Nat.exists_eq_add_of_le' h
    rfl
  | foreign typeName =>
    obtain ⟨levels, rfl⟩ := Nat.exists_eq_add_of_le' h
    rfl
  | unary operator operand depth ih =>
    cases levels with
    | zero => cases h
    | succ levels =>
      rw [valueWithin, ih (Nat.le_of_succ_le_succ h)]
      rfl
  | binary operator left right depth ihLeft ihRight =>
    cases levels with
    | zero => cases h
    | succ levels =>
      have hmax : max left.height right.height ≤ levels := Nat.le_of_succ_le_succ h
      rw [valueWithin, ihLeft (Nat.le_trans (Nat.le_max_left _ _) hmax),
        ihRight (Nat.le_trans (Nat.le_max_right _ _) hmax), value]
      cases left.value scope with
      | error fault => rfl
      | ok v => rfl

/-! ## Compiled formulas -/

/-- In a compiled formula every node records its height as its depth, and none is higher than
the limit; the text is as long as the limit at most; reading it with a cursor comes to its end
with nothing open; and evaluating the formula takes no more levels of recursion than the limit
on depth, in any scope. -/
theorem compile_records_heights {limits : Limits} {path source : String} {f : Formula}
    (h : compile limits path source = .ok f) (hlimit : 1 ≤ limits.depth) :
    (∀ part : Expr, part.Within f.root →
      part.depth = part.height ∧ (part.height : Int) ≤ limits.depth) ∧
    (source.length : Int) ≤ limits.length ∧
    (∃ tokens, Token.ofFormula source = .ok tokens ∧
      (parse limits.depth tokens).result = .ok (f.root, ⟨tokens.length - 1, 0⟩)) ∧
    ∀ scope, f.root.valueWithin scope limits.depth.toNat = some (f.root.value scope) := by
  obtain ⟨hlength, tokens, htokens, hread⟩ := readAll_of_compile h
  obtain ⟨last, hlexed⟩ := exists_isLexed_of_ofFormula htokens
  obtain ⟨d, -, hroot, -, hheight, -⟩ :=
    (readAll_iff_derivation (exists_finish_of_ofFormula htokens) hlimit).1 hread
  have hrecords : f.root.RecordsHeight := hroot ▸ d.recordsHeight
  refine ⟨fun part hpart => ⟨hrecords part hpart, ?_⟩, hlength, ⟨tokens, htokens, ?_⟩,
    fun scope => Expr.valueWithin_eq (by omega)⟩
  · have hle := hpart.height_le
    omega
  · rw [hlexed.length, Nat.add_sub_cancel, result_parse hlexed, hread]
    rfl

/-- The tree of `-(a + 1)`. -/
def negatedSum : Expr := .unaryOf .negate (.binaryOf .add (.name "a") (.literal (.int 1)))

/-- A limit of three on depth is just enough for `-(a + 1)`. -/
theorem compile_records_heights_negated :
    compile ⟨3, 8⟩ "price" "-(a + 1)" = .ok ⟨"-(a + 1)", negatedSum⟩ ∧ negatedSum.height = 3 ∧
    (∀ part : Expr, part.Within negatedSum →
      part.depth = part.height ∧ (part.height : Int) ≤ 3) ∧
    ∀ scope, negatedSum.valueWithin scope 3 = some (negatedSum.value scope) := by
  have htokens : Token.ofFormula "-(a + 1)" =
      .ok [⟨.symbol .minus, 0⟩, ⟨.opening, 1⟩, ⟨.name "a", 2⟩, ⟨.symbol .plus, 4⟩,
        ⟨.number ⟨['1'], none, none⟩, 6⟩, ⟨.closing, 7⟩, ⟨.finish, 8⟩] := by decide +kernel
  have h : compile ⟨3, 8⟩ "price" "-(a + 1)" = .ok ⟨"-(a + 1)", negatedSum⟩ :=
    compile_of_readAll (by decide) htokens (by with_unfolding_all rfl)
  obtain ⟨hparts, -, -, hlevels⟩ := compile_records_heights h (by decide)
  exact ⟨h, rfl, hparts, hlevels⟩

end Tariff.Formula
