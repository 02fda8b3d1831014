import Tariff.Proofs.Formula.Compiled
import Tariff.Proofs.Formula.Evaluation

/-!
# The variables of a formula

The names that a compiled formula records are exactly the names in its text, and they are all
that its value depends on (`variableNames_exact`). No name is lost or made up between the text
and the tree: along a derivation, the names of the tree are those among the lexemes, in order
(`Derivation.names_tree`). And none goes unlooked at: evaluation is strict, so that a tree with
a value has a scalar for each of its names (`Expr.scalar_of_value`), also for those in an
operand of `and` or `or` that cannot change the result.
-/

namespace Tariff.Formula

/-! ## Names in the text -/

/-- The name that a lexeme is. -/
def Lexeme.name? : Lexeme → Option String
  | .name text => some text
  | _ => none

/-- The lexemes that are names are known by their sort, and their text is the name. -/
theorem Lexeme.name?_eq_some_iff {l : Lexeme} {text : String} :
    l.name? = some text ↔ l.sort = "identifier" ∧ l.text = text := by
  cases l <;> simp [name?, sort, Lexeme.text, chars]

namespace Tier

/-- An operator is no name. -/
theorem Joins.name?_eq_none {tier : Tier} {l : Lexeme} {operator : BinaryOperator}
    (h : tier.Joins l operator) : l.name? = none := by
  cases h <;> rfl

theorem Precedes.name?_eq_none {tier : Tier} {l : Lexeme} {operator : UnaryOperator}
    (h : tier.Precedes l operator) : l.name? = none := by
  cases h <;> rfl

end Tier

theorem Leaf.names_eq {l : Lexeme} {e : Expr} (h : Leaf l e) : e.names = l.name?.toList := by
  cases h <;> rfl

/-- The names among lexemes, in order. -/
def namesOf (ls : List Lexeme) : List String := ls.filterMap Lexeme.name?

@[simp] theorem namesOf_append (ls ls' : List Lexeme) :
    namesOf (ls ++ ls') = namesOf ls ++ namesOf ls' :=
  List.filterMap_append

theorem namesOf_cons (l : Lexeme) (ls : List Lexeme) :
    namesOf (l :: ls) = l.name?.toList ++ namesOf ls := by
  cases h : l.name? with
  | none => simp [namesOf, h]
  | some text => simp [namesOf, h]

theorem mem_namesOf {name : String} {ls : List Lexeme} :
    name ∈ namesOf ls ↔ ∃ l ∈ ls, l.name? = some name :=
  List.mem_filterMap

mutual

/-- The names in the tree of a derivation are those among its lexemes. -/
theorem Derivation.names_tree {tier : Tier} :
    (d : Derivation tier) → d.tree.names = namesOf d.lexemes
  | .chain _ first links => by
    rw [Derivation.tree, Derivation.lexemes, links.names_tree, first.names_tree, namesOf_append]
  | .prefixed _ _ h operand => by
    rw [Derivation.lexemes, namesOf_cons, h.name?_eq_none, ← operand.names_tree]
    rfl
  | .plain _ operand => operand.names_tree
  | .single operand => operand.names_tree
  | .compared left _ _ h right => by
    rw [Derivation.lexemes, namesOf_append, namesOf_cons, h.name?_eq_none, ← left.names_tree,
      ← right.names_tree]
    rfl
  | .leaf mark _ h => by
    rw [Derivation.tree, Derivation.lexemes, h.names_eq, namesOf_cons]
    exact (List.append_nil _).symm
  | .enclosed inner => by
    rw [Derivation.tree, Derivation.lexemes, inner.names_tree, List.cons_append, namesOf_cons,
      namesOf_append]
    exact (List.append_nil _).symm

theorem Links.names_tree {tier : Tier} (left : Expr) :
    (links : Links tier) → (links.tree left).names = left.names ++ namesOf links.lexemes
  | .done => (List.append_nil _).symm
  | .link _ operator h operand rest => by
    rw [Links.tree, Links.lexemes, rest.names_tree, List.cons_append, namesOf_cons, h.name?_eq_none,
      namesOf_append, ← operand.names_tree]
    exact List.append_assoc _ _ _

end

/-- The names in a compiled formula are those among the lexemes of its text. -/
theorem mem_variableNames_iff {limits : Limits} {path source : String} {f : Formula}
    (h : compile limits path source = .ok f) :
    ∃ tokens, Token.ofFormula source = .ok tokens ∧
      ∀ name, name ∈ f.variableNames ↔ ∃ t ∈ tokens, t.lexeme.name? = some name := by
  obtain ⟨tokens, htokens, d, hlexemes, htree⟩ := exists_derivation_of_compile h
  refine ⟨tokens, htokens, fun name => ?_⟩
  have hnames : name ∈ f.variableNames ↔ name ∈ namesOf (lexemesBeforeFinish tokens) := by
    unfold variableNames Expr.variableNames
    rw [Text.mem_sortUnique, ← htree, d.names_tree, hlexemes]
  have hall : namesOf (tokens.map Token.lexeme) = namesOf (lexemesBeforeFinish tokens) := by
    rw [map_lexeme_of_ofFormula htokens, namesOf_append]
    exact List.append_nil _
  rw [hnames, ← hall, mem_namesOf]
  simp

/-! ## Names in a scope -/

/-- An expression that has a value mentions only names for scalars. -/
theorem Expr.scalar_of_value {scope : Scope} {e : Expr} {v : Value} (h : e.value scope = .ok v) :
    ∀ name ∈ e.names, ∃ s, scope name = some (.scalar s) := by
  induction e generalizing v with
  | literal w =>
    intro name hname
    cases hname
  | name text =>
    intro name hname
    obtain rfl := List.mem_singleton.1 hname
    obtain ⟨s, hs, -⟩ := lookUp_eq_ok_iff.1 h
    exact ⟨s, hs⟩
  | unary operator operand depth ih =>
    obtain ⟨w, hw, -⟩ := Outcome.bind_eq_ok_iff.1 h
    exact ih hw
  | binary operator left right depth ihLeft ihRight =>
    obtain ⟨w, hw, hrest⟩ := Outcome.bind_eq_ok_iff.1 h
    obtain ⟨w', hw', -⟩ := Outcome.bind_eq_ok_iff.1 hrest
    intro name hname
    rcases List.mem_append.1 hname with hleft | hright
    · exact ihLeft hw name hleft
    · exact ihRight hw' name hright
  | foreign typeName =>
    intro name hname
    cases hname

/-- A formula that has a value mentions only names for scalars. -/
theorem scalar_of_evaluate {scope : Scope} {f : Formula} {v : Value}
    (h : f.evaluate scope = .ok v) :
    ∀ name ∈ f.variableNames, ∃ s, scope name = some (.scalar s) := by
  obtain ⟨hvalue, -⟩ := evaluate_eq_ok_iff.1 h
  intro name hname
  exact Expr.scalar_of_value hvalue name (Text.mem_sortUnique.1 hname)

/-- A formula depends only on its variables, in its value and in its error. -/
theorem evaluate_congr {scope scope' : Scope} {f : Formula}
    (h : ∀ name ∈ f.variableNames, scope name = scope' name) :
    f.evaluate scope = f.evaluate scope' := by
  unfold evaluate
  rw [value_congr h]

/-- The variables of a compiled formula are the identifiers of its text, each recorded once;
a scope without a scalar for one of them gives no value, and scopes that agree on them give
the same outcome. -/
theorem variableNames_exact {limits : Limits} {path source : String} {f : Formula}
    (hcompile : compile limits path source = .ok f) :
    (∃ tokens, Token.ofFormula source = .ok tokens ∧ f.variableNames.Pairwise (· < ·) ∧
      ∀ name, name ∈ f.variableNames ↔
        ∃ t ∈ tokens, t.lexeme.sort = "identifier" ∧ t.text = name) ∧
    (∀ (scope : Scope) (v : Value), f.evaluate scope = .ok v →
      ∀ name ∈ f.variableNames, ∃ s : Scalar, scope name = some (.scalar s)) ∧
    ∀ scope scope' : Scope, (∀ name ∈ f.variableNames, scope name = scope' name) →
      f.evaluate scope = f.evaluate scope' := by
  obtain ⟨tokens, htokens, hnames⟩ := mem_variableNames_iff hcompile
  refine ⟨⟨tokens, htokens, Text.pairwise_sortUnique _, fun name => ?_⟩,
    fun scope v => scalar_of_evaluate, fun scope scope' => evaluate_congr⟩
  rw [hnames]
  simp only [Lexeme.name?_eq_some_iff]
  rfl

/-- The tree of `free or seats * seats > 9`. -/
def seatsTree : Expr :=
  .binaryOf .or (.name "free") (.binaryOf .greater
    (.binaryOf .mul (.name "seats") (.name "seats")) (.literal (.int 9)))

/-- Of `free or seats * seats > 9` the name `seats` is a variable. Without a number of seats
the formula has no value, even if `free` is true; a name that it does not mention makes no
difference. -/
theorem variableNames_exact_seats :
    (∃ tokens, Token.ofFormula "free or seats * seats > 9" = .ok tokens ∧
      ∃ t ∈ tokens, t.lexeme.sort = "identifier" ∧ t.text = "seats") ∧
    (∀ v, Formula.evaluate ⟨"free or seats * seats > 9", seatsTree⟩
      (.ofTable [("free", .bool true)]) ≠ .ok v) ∧
    Formula.evaluate ⟨"free or seats * seats > 9", seatsTree⟩
        (.ofTable [("free", .bool true), ("seats", .number (.int 4))]) =
      Formula.evaluate ⟨"free or seats * seats > 9", seatsTree⟩
        (.ofTable [("plan", .text "PRO"), ("seats", .number (.int 4)), ("free", .bool true)]) := by
  have htokens : Token.ofFormula "free or seats * seats > 9" =
      .ok [⟨.name "free", 0⟩, ⟨.keyword .or, 5⟩, ⟨.name "seats", 8⟩, ⟨.symbol .times, 14⟩,
        ⟨.name "seats", 16⟩, ⟨.symbol .greater, 22⟩, ⟨.number ⟨['9'], none, none⟩, 24⟩,
        ⟨.finish, 25⟩] := by decide +kernel
  have hcompile : compile ⟨64, 1024⟩ "formula" "free or seats * seats > 9" =
      .ok ⟨"free or seats * seats > 9", seatsTree⟩ :=
    compile_of_readAll (by decide) htokens (by with_unfolding_all rfl)
  have hnames : Formula.variableNames ⟨"free or seats * seats > 9", seatsTree⟩ =
      ["free", "seats"] := by decide
  obtain ⟨⟨tokens, htokens, -, hexact⟩, hstrict, hcongr⟩ := variableNames_exact hcompile
  refine ⟨⟨tokens, htokens, (hexact "seats").1 (by simp [hnames])⟩, ?_, hcongr _ _ ?_⟩
  · intro v hv
    obtain ⟨s, hs⟩ := hstrict _ v hv "seats" (by simp [hnames])
    cases hs
  · intro name hname
    rw [hnames] at hname
    rcases List.mem_cons.1 hname with rfl | hname
    · rfl
    · obtain rfl := List.mem_singleton.1 hname
      rfl

end Tariff.Formula
