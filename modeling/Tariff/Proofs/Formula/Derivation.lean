import Tariff.Formula.Grammar

/-!
# Derivations in the grammar of formulas

What it means that lexemes derive from a tier of the grammar, said without reading them.
A derivation is a tree that follows the productions:

    disjunction := conjunction (("or" | "||") conjunction)*
    conjunction := negation (("and" | "&&") negation)*
    negation    := ("not" | "!") negation | comparison
    comparison  := sum (("<" | "<=" | ">" | ">=" | "==" | "!=") sum)?
    sum         := product (("+" | "-") product)*
    product     := sign (("*" | "/") sign)*
    sign        := "-" sign | atom
    atom        := number | "true" | "false" | name | "(" disjunction ")"

Of a derivation there are the lexemes that it derives, the expression that they mean, in
which chains group to the left and parentheses leave no trace, and how deeply its parts
are nested. Nesting and height are not the same: parentheses nest but do not make an
expression higher, and a chain makes it higher but does not nest.
-/

namespace Tariff.Formula

namespace Tier

/-- The tiers whose operators follow one another without end. -/
def chains : Tier → Bool
  | .disjunction | .conjunction | .sum | .product => true
  | _ => false

/-- The tiers whose operators stand before their one operand. -/
def prefixes : Tier → Bool
  | .negation | .sign => true
  | _ => false

/-- The spellings of the operators with two operands, each at its tier. -/
inductive Joins : Tier → Lexeme → BinaryOperator → Prop where
  | or : Joins .disjunction (.keyword .or) .or
  | either : Joins .disjunction (.symbol .either) .or
  | and : Joins .conjunction (.keyword .and) .and
  | both : Joins .conjunction (.symbol .both) .and
  | less : Joins .comparison (.symbol .less) .less
  | lessEqual : Joins .comparison (.symbol .lessEqual) .lessEqual
  | greater : Joins .comparison (.symbol .greater) .greater
  | greaterEqual : Joins .comparison (.symbol .greaterEqual) .greaterEqual
  | equal : Joins .comparison (.symbol .equal) .equal
  | notEqual : Joins .comparison (.symbol .notEqual) .notEqual
  | plus : Joins .sum (.symbol .plus) .add
  | minus : Joins .sum (.symbol .minus) .sub
  | times : Joins .product (.symbol .times) .mul
  | divide : Joins .product (.symbol .divide) .div

/-- The spellings of the operators with one operand, each at its tier. -/
inductive Precedes : Tier → Lexeme → UnaryOperator → Prop where
  | not : Precedes .negation (.keyword .not) .not
  | bang : Precedes .negation (.symbol .bang) .not
  | minus : Precedes .sign (.symbol .minus) .negate

end Tier

/-- The lexemes that are expressions by themselves. -/
inductive Leaf : Lexeme → Expr → Prop where
  | number (numeral : Numeral) : Leaf (.number numeral) (.literal (.number numeral.value))
  | true : Leaf (.keyword .true) (.literal (.bool true))
  | false : Leaf (.keyword .false) (.literal (.bool false))
  | name (text : String) : Leaf (.name text) (.name text)

mutual

/-- The derivations from a tier. -/
inductive Derivation : Tier → Type where
  /-- An operand of the next tier, and operators with further operands. -/
  | chain {tier : Tier} (h : tier.chains = true) (first : Derivation tier.tighter)
      (links : Links tier) : Derivation tier
  /-- An operator and its operand, of the same tier. -/
  | prefixed {tier : Tier} (mark : Lexeme) (operator : UnaryOperator)
      (h : tier.Precedes mark operator) (operand : Derivation tier) : Derivation tier
  /-- An operand of the next tier without an operator. -/
  | plain {tier : Tier} (h : tier.prefixes = true) (operand : Derivation tier.tighter) :
      Derivation tier
  /-- A sum that is compared with nothing. -/
  | single (operand : Derivation .sum) : Derivation .comparison
  /-- Two sums and the operator that compares them. -/
  | compared (left : Derivation .sum) (mark : Lexeme) (operator : BinaryOperator)
      (h : Tier.comparison.Joins mark operator) (right : Derivation .sum) : Derivation .comparison
  /-- A literal or a name. -/
  | leaf (mark : Lexeme) (e : Expr) (h : Leaf mark e) : Derivation .atom
  /-- A formula between parentheses. -/
  | enclosed (inner : Derivation .disjunction) : Derivation .atom

/-- The operators of a tier and the operands after them. -/
inductive Links : Tier → Type where
  | done {tier : Tier} : Links tier
  | link {tier : Tier} (mark : Lexeme) (operator : BinaryOperator) (h : tier.Joins mark operator)
      (operand : Derivation tier.tighter) (rest : Links tier) : Links tier

end

/-- The derivation of a literal or a name alone. -/
def Derivation.ofLeaf {l : Lexeme} {e : Expr} (h : Leaf l e) : (tier : Tier) → Derivation tier :=
  let sign : Derivation .sign := .plain (by decide) (.leaf l e h)
  let product : Derivation .product := .chain (by decide) sign .done
  let sum : Derivation .sum := .chain (by decide) product .done
  let negation : Derivation .negation := .plain (by decide) (.single sum)
  let conjunction : Derivation .conjunction := .chain (by decide) negation .done
  fun
  | .atom => .leaf l e h
  | .sign => sign
  | .product => product
  | .sum => sum
  | .comparison => .single sum
  | .negation => negation
  | .conjunction => conjunction
  | .disjunction => .chain (by decide) conjunction .done

mutual

/-- The lexemes that are derived. -/
def Derivation.lexemes {tier : Tier} : Derivation tier → List Lexeme
  | .chain _ first links => first.lexemes ++ links.lexemes
  | .prefixed mark _ _ operand => mark :: operand.lexemes
  | .plain _ operand => operand.lexemes
  | .single operand => operand.lexemes
  | .compared left mark _ _ right => left.lexemes ++ mark :: right.lexemes
  | .leaf mark _ _ => [mark]
  | .enclosed inner => .opening :: inner.lexemes ++ [.closing]

def Links.lexemes {tier : Tier} : Links tier → List Lexeme
  | .done => []
  | .link mark _ _ operand rest => mark :: operand.lexemes ++ rest.lexemes

end

mutual

/-- The expression that is meant. -/
def Derivation.tree {tier : Tier} : Derivation tier → Expr
  | .chain _ first links => links.tree first.tree
  | .prefixed _ operator _ operand => .unaryOf operator operand.tree
  | .plain _ operand => operand.tree
  | .single operand => operand.tree
  | .compared left _ operator _ right => .binaryOf operator left.tree right.tree
  | .leaf _ e _ => e
  | .enclosed inner => inner.tree

/-- The expression of a chain, all that stands before it being the first left operand. -/
def Links.tree {tier : Tier} (left : Expr) : Links tier → Expr
  | .done => left
  | .link _ operator _ operand rest => rest.tree (.binaryOf operator left operand.tree)

end

mutual

/-- Inside how many parentheses, signs and negations the innermost parts of a derivation
stand. -/
def Derivation.nesting {tier : Tier} : Derivation tier → Nat
  | .chain _ first links => max first.nesting links.nesting
  | .prefixed _ _ _ operand => operand.nesting + 1
  | .plain _ operand => operand.nesting
  | .single operand => operand.nesting
  | .compared left _ _ _ right => max left.nesting right.nesting
  | .leaf _ _ _ => 0
  | .enclosed inner => inner.nesting + 1

def Links.nesting {tier : Tier} : Links tier → Nat
  | .done => 0
  | .link _ _ _ operand rest => max operand.nesting rest.nesting

end

namespace Expr

/-- The number of nodes on the longest way down an expression. -/
def height : Expr → Nat
  | .unary _ operand _ => operand.height + 1
  | .binary _ left right _ => max left.height right.height + 1
  | _ => 1

/-- Whether an expression is a part of another, or is the other. -/
inductive Within (part : Expr) : Expr → Prop where
  | whole : Within part part
  | operand {operator : UnaryOperator} {operand : Expr} {depth : Nat} (h : Within part operand) :
      Within part (.unary operator operand depth)
  | left {operator : BinaryOperator} {left right : Expr} {depth : Nat} (h : Within part left) :
      Within part (.binary operator left right depth)
  | right {operator : BinaryOperator} {left right : Expr} {depth : Nat} (h : Within part right) :
      Within part (.binary operator left right depth)

/-- Whether all nodes of an expression record their heights as their depths. -/
def RecordsHeight (e : Expr) : Prop := ∀ part : Expr, part.Within e → part.depth = part.height

@[simp] theorem height_unaryOf (operator : UnaryOperator) (operand : Expr) :
    (unaryOf operator operand).height = operand.height + 1 := rfl

@[simp] theorem height_binaryOf (operator : BinaryOperator) (left right : Expr) :
    (binaryOf operator left right).height = max left.height right.height + 1 := rfl

theorem depth_binaryOf_eq_height {operator : BinaryOperator} {left right : Expr}
    (hleft : left.depth = left.height) (hright : right.depth = right.height) :
    (binaryOf operator left right).depth = (binaryOf operator left right).height := by
  rw [depth_binaryOf, height_binaryOf, hleft, hright]

variable {e left right operand part : Expr}

/-- No part of an expression is higher than the whole. -/
theorem Within.height_le (h : part.Within e) : part.height ≤ e.height := by
  induction h with
  | whole => exact Nat.le_refl _
  | operand _ ih => exact Nat.le_succ_of_le ih
  | left _ ih => exact Nat.le_succ_of_le (Nat.le_trans ih (Nat.le_max_left _ _))
  | right _ ih => exact Nat.le_succ_of_le (Nat.le_trans ih (Nat.le_max_right _ _))

theorem RecordsHeight.unaryOf (operator : UnaryOperator) (h : operand.RecordsHeight) :
    (Expr.unaryOf operator operand).RecordsHeight := by
  intro part hpart
  cases hpart with
  | whole => exact congrArg (· + 1) (h operand .whole)
  | operand hpart => exact h part hpart

theorem RecordsHeight.binaryOf (operator : BinaryOperator) (hleft : left.RecordsHeight)
    (hright : right.RecordsHeight) : (Expr.binaryOf operator left right).RecordsHeight := by
  intro part hpart
  cases hpart with
  | whole => exact depth_binaryOf_eq_height (hleft left .whole) (hright right .whole)
  | left hpart => exact hleft part hpart
  | right hpart => exact hright part hpart

end Expr

/-! ## The tables of the grammar -/

namespace Tier

variable {tier other : Tier} {l : Lexeme}

theorem binary?_eq_some_iff {operator : BinaryOperator} :
    tier.binary? l = some operator ↔ tier.Joins l operator := by
  constructor
  · intro h
    unfold binary? at h
    split at h <;> cases h <;> constructor
  · intro h
    cases h <;> rfl

theorem unary?_eq_some_iff {operator : UnaryOperator} :
    tier.unary? l = some operator ↔ tier.Precedes l operator := by
  constructor
  · intro h
    unfold unary? at h
    split at h <;> cases h <;> constructor
  · intro h
    cases h <;> rfl

/-- No lexeme joins operands at two tiers. -/
theorem Joins.binary?_eq_none {operator : BinaryOperator} (h : tier.Joins l operator)
    (hother : other ≠ tier) : other.binary? l = none := by
  cases h <;> cases other <;> first | rfl | exact absurd rfl hother

/-- No lexeme stands before operands of two tiers. A minus does both, but joins operands
at the one tier and stands before them at the other. -/
theorem Precedes.unary?_eq_none {operator : UnaryOperator} (h : tier.Precedes l operator)
    (hother : other ≠ tier) : other.unary? l = none := by
  cases h <;> cases other <;> first | rfl | exact absurd rfl hother

theorem height_tighter (h : tier.chains = true ∨ tier.prefixes = true) :
    tier.height = tier.tighter.height + 1 := by
  cases tier <;> simp [chains, prefixes] at h <;> rfl

theorem Joins.isOverlong_eq_false {operator : BinaryOperator} (h : tier.Joins l operator) :
    l.isOverlong = false := by
  cases h <;> rfl

theorem Precedes.isOverlong_eq_false {operator : UnaryOperator} (h : tier.Precedes l operator) :
    l.isOverlong = false := by
  cases h <;> rfl

theorem Joins.height_tighter_lt {operator : BinaryOperator} (h : tier.Joins l operator) :
    tier.tighter.height < tier.height := by
  cases h <;> decide

theorem sort_cases (tier : Tier) :
    tier.chains = true ∨ tier.prefixes = true ∨ tier = .comparison ∨ tier = .atom := by
  cases tier <;> simp [chains, prefixes]

end Tier

/-- Whether no lexeme is an integer with too many digits. -/
def IsReadable (ls : List Lexeme) : Prop := ∀ l ∈ ls, l.isOverlong = false

instance (ls : List Lexeme) : Decidable (IsReadable ls) :=
  inferInstanceAs (Decidable (∀ l ∈ ls, l.isOverlong = false))

theorem isReadable_append {ls others : List Lexeme} :
    IsReadable (ls ++ others) ↔ IsReadable ls ∧ IsReadable others :=
  List.forall_mem_append

theorem isReadable_cons {l : Lexeme} {ls : List Lexeme} :
    IsReadable (l :: ls) ↔ l.isOverlong = false ∧ IsReadable ls :=
  List.forall_mem_cons

theorem leaf?_eq_some_iff {l : Lexeme} {e : Expr} : leaf? l = some e ↔ Leaf l e := by
  constructor
  · intro h
    unfold leaf? at h
    split at h <;> cases h <;> constructor
  · intro h
    cases h <;> rfl

namespace Leaf

variable {l : Lexeme} {e : Expr}

theorem height_eq (h : Leaf l e) : e.height = 1 := by
  cases h <;> rfl

theorem recordsHeight (h : Leaf l e) : e.RecordsHeight := by
  intro part hpart
  cases h <;> cases hpart <;> rfl

theorem unary?_eq_none (h : Leaf l e) (tier : Tier) : tier.unary? l = none := by
  cases h <;> cases tier <;> rfl

end Leaf

/-! ## What holds of every derivation

The depths that the nodes of an expression record are their heights, no end of a formula is
ever derived, and a derivation does not begin with an operator that only a looser tier
has before its operand.
-/

mutual

theorem Derivation.recordsHeight {tier : Tier} : (d : Derivation tier) → d.tree.RecordsHeight
  | .chain _ first links => links.recordsHeight first.recordsHeight
  | .prefixed _ operator _ operand => operand.recordsHeight.unaryOf operator
  | .plain _ operand => operand.recordsHeight
  | .single operand => operand.recordsHeight
  | .compared left _ operator _ right => left.recordsHeight.binaryOf operator right.recordsHeight
  | .leaf _ _ h => h.recordsHeight
  | .enclosed inner => inner.recordsHeight

theorem Links.recordsHeight {tier : Tier} {left : Expr} : (links : Links tier) →
    left.RecordsHeight → (links.tree left).RecordsHeight
  | .done, h => h
  | .link _ operator _ operand rest, h =>
    rest.recordsHeight (h.binaryOf operator operand.recordsHeight)

end

theorem Derivation.depth_tree {tier : Tier} (d : Derivation tier) : d.tree.depth = d.tree.height :=
  d.recordsHeight _ .whole

/-- A chain is at least as high as what it goes on from. -/
theorem Links.height_le {tier : Tier} (left : Expr) :
    (links : Links tier) → left.height ≤ (links.tree left).height
  | .done => Nat.le_refl _
  | .link _ operator _ operand rest => by
    have hrest := rest.height_le (.binaryOf operator left operand.tree)
    rw [Expr.height_binaryOf] at hrest
    show left.height ≤ (rest.tree (.binaryOf operator left operand.tree)).height
    omega

mutual

theorem Derivation.finish_not_mem {tier : Tier} : (d : Derivation tier) → .finish ∉ d.lexemes
  | .chain _ first links => by
    simp [Derivation.lexemes, first.finish_not_mem, links.finish_not_mem]
  | .prefixed _ _ h operand => by
    have hoperand := operand.finish_not_mem
    cases h <;> simpa [Derivation.lexemes]
  | .plain _ operand => operand.finish_not_mem
  | .single operand => operand.finish_not_mem
  | .compared left _ _ h right => by
    have hleft := left.finish_not_mem
    have hright := right.finish_not_mem
    cases h <;> simp [Derivation.lexemes, hleft, hright]
  | .leaf _ _ h => by cases h <;> simp [Derivation.lexemes]
  | .enclosed inner => by simp [Derivation.lexemes, inner.finish_not_mem]

theorem Links.finish_not_mem {tier : Tier} : (links : Links tier) → .finish ∉ links.lexemes
  | .done => by simp [Links.lexemes]
  | .link _ _ h operand rest => by
    have hoperand := operand.finish_not_mem
    have hrest := rest.finish_not_mem
    cases h <;> simp [Links.lexemes, hoperand, hrest]

end

theorem Derivation.exists_first {tier : Tier} : (d : Derivation tier) →
    ∃ l ls, d.lexemes = l :: ls ∧
      ∀ other : Tier, tier.height < other.height → other.unary? l = none
  | .chain h first links => by
    obtain ⟨l, ls, hls, hfirst⟩ := first.exists_first
    have htier := Tier.height_tighter (.inl h)
    exact ⟨l, ls ++ links.lexemes, by simp [Derivation.lexemes, hls],
      fun other hother => hfirst other (by omega)⟩
  | .prefixed mark _ h operand =>
    ⟨mark, operand.lexemes, rfl,
      fun other hother => h.unary?_eq_none fun heq => Nat.lt_irrefl _ (heq ▸ hother)⟩
  | .plain h operand => by
    obtain ⟨l, ls, hls, hfirst⟩ := operand.exists_first
    have htier := Tier.height_tighter (.inr h)
    exact ⟨l, ls, hls, fun other hother => hfirst other (by omega)⟩
  | .single operand => by
    obtain ⟨l, ls, hls, hfirst⟩ := operand.exists_first
    exact ⟨l, ls, hls, fun other hother => hfirst other (Nat.lt_trans (by decide) hother)⟩
  | .compared left mark _ _ right => by
    obtain ⟨l, ls, hls, hfirst⟩ := left.exists_first
    exact ⟨l, ls ++ mark :: right.lexemes, by simp [Derivation.lexemes, hls],
      fun other hother => hfirst other (Nat.lt_trans (by decide) hother)⟩
  | .leaf mark _ h => ⟨mark, [], rfl, fun other _ => h.unary?_eq_none other⟩
  | .enclosed inner =>
    ⟨.opening, inner.lexemes ++ [.closing], rfl, fun other _ => by cases other <;> rfl⟩

end Tariff.Formula
