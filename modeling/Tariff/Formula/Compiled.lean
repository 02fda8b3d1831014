import Tariff.Formula.Grammar

/-!
# Compiled formulas

A formula as a pricing holds it: the text it was written as, and its tree. Compiling
bounds the length of the text and the depth of the tree. The length is looked at first,
then the text is split into tokens to its end, and only then is the grammar applied, so
a character that no token begins with is reported before any misplaced token.
-/

namespace Tariff

/-- The bounds on a formula. -/
structure Limits where
  /-- How deep the tree of a formula may be. -/
  depth : Int := 64
  /-- How many characters a formula may have. -/
  length : Int := 1024
  deriving DecidableEq

/-- The bounds with some replaced. A bound of zero is no bound, and leaves the old one
in place. -/
def Limits.override (limits : Limits) (depth? length? : Option Int) : Limits where
  depth := (depth?.filter (· ≠ 0)).getD limits.depth
  length := (length?.filter (· ≠ 0)).getD limits.length

/-- A formula within its bounds. -/
structure Formula where
  /-- The text of the formula. -/
  source : String
  /-- The tree of the formula. -/
  root : Formula.Expr

namespace Formula

/-- The names in a formula in order, each once. -/
def variableNames (f : Formula) : List String := f.root.variableNames

/-- The tree of a text. -/
def treeOf (limits : Limits) (source : String) : Except (Refusal SyntaxFault) Expr :=
  if limits.length < source.length then .error (SyntaxFault.tooLong limits.length).refusal
  else do readAll limits.depth (← Refusal.lift (Token.ofFormula source))

/-- The formula that is written in the field at a path. -/
def compile (limits : Limits) (path source : String) : Except (Refusal ConfigError) Formula :=
  match treeOf limits source with
  | .ok root => .ok ⟨source, root⟩
  | .error refusal => .error (refusal.map (.formula path source))

/-- Compiling keeps the text. -/
theorem source_of_compile {limits : Limits} {path source : String} {f : Formula}
    (h : compile limits path source = .ok f) : f.source = source := by
  unfold compile at h
  split at h
  · cases h
    rfl
  · cases h

/-- The path of a formula does not bear on whether it is one. -/
theorem compile_eq_ok_iff {limits : Limits} {path source : String} {f : Formula} :
    compile limits path source = .ok f ↔
      f.source = source ∧ treeOf limits source = .ok f.root := by
  obtain ⟨text, root⟩ := f
  unfold compile
  cases treeOf limits source with
  | ok tree => simp [eq_comm]
  | error fault => simp

end Formula

end Tariff
