import Tariff.Proofs.Formula.Derivation

/-!
# The grammar is not ambiguous

Lexemes derive from a tier in one way, as far as they do: of two derivations neither goes on
where the other ends, unless an operator comes next that only a looser tier has
(`Derivation.unique`). So lexemes have at most one meaning (`Derivation.tree_eq_of_lexemes_eq`),
whether or not they are ever read.
-/

namespace Tariff.Formula

/-- Whether lexemes go on with no operator of a tier or a tighter one. -/
def Ends (tier : Tier) (ls : List Lexeme) : Prop :=
  ∀ other : Tier, other.height ≤ tier.height → ∀ l ∈ ls.head?, other.binary? l = none

variable {tier other : Tier} {l : Lexeme} {ls : List Lexeme} {operator : BinaryOperator}

theorem Ends.mono (h : Ends tier ls) (hle : other.height ≤ tier.height) : Ends other ls :=
  fun third hthird => h third (Nat.le_trans hthird hle)

theorem Tier.Joins.ends (h : tier.Joins l operator) (hlt : other.height < tier.height) :
    Ends other (l :: ls) := by
  intro third hthird l' hl'
  obtain rfl := Option.some.inj hl'
  refine h.binary?_eq_none ?_
  rintro rfl
  omega

theorem Tier.Joins.not_ends (h : tier.Joins l operator) : ¬Ends tier (l :: ls) := by
  intro hends
  cases (hends tier (Nat.le_refl _) l rfl).symm.trans (binary?_eq_some_iff.2 h)

/-- A closing parenthesis is no operator. -/
theorem ends_closing (tier : Tier) : Ends tier (.closing :: ls) := by
  intro other _ l hl
  obtain rfl := Option.some.inj hl
  cases other <;> rfl

theorem ends_finish (tier : Tier) : Ends tier (.finish :: ls) := by
  intro other _ l hl
  obtain rfl := Option.some.inj hl
  cases other <;> rfl

/-- After an operand come the operators of its tier, or the end of the chain. -/
theorem Links.ends (links : Links tier) (htier : tier.tighter.height < tier.height)
    (h : Ends tier ls) : Ends tier.tighter (links.lexemes ++ ls) := by
  cases links with
  | done => exact h.mono (Nat.le_of_lt htier)
  | link mark operator hmark operand links => exact hmark.ends htier

/-- What is derived at the next tier does not begin with an operator of this one. -/
theorem Derivation.append_ne_of_precedes {mark : Lexeme} {negation : UnaryOperator}
    {ls' : List Lexeme} (hmark : tier.Precedes mark negation) (hprefixes : tier.prefixes = true)
    (operand : Derivation tier.tighter) : mark :: ls ≠ operand.lexemes ++ ls' := by
  intro heq
  have hheight := Tier.height_tighter (.inr hprefixes)
  obtain ⟨l, _, hl, hnone⟩ := operand.exists_first
  rw [hl, List.cons_append] at heq
  obtain ⟨rfl, -⟩ := List.cons.inj heq
  cases (hnone tier (by omega)).symm.trans (Tier.unary?_eq_some_iff.2 hmark)

mutual

theorem Derivation.unique {tier : Tier} {ls ls' : List Lexeme} : (d d' : Derivation tier) →
    Ends tier ls → Ends tier ls' → d.lexemes ++ ls = d'.lexemes ++ ls' →
    d.tree = d'.tree ∧ ls = ls'
  | .chain h first links, d', hends, hends', heq => by
    have htier : tier.tighter.height < tier.height := by
      have := Tier.height_tighter (.inl h)
      omega
    cases d' with
    | chain _ first' links' =>
      simp only [Derivation.lexemes, List.append_assoc] at heq
      obtain ⟨htree, hlinks⟩ :=
        first.unique first' (links.ends htier hends) (links'.ends htier hends') heq
      rw [Derivation.tree, Derivation.tree, ← htree]
      exact links.unique links' first.tree hends hends' hlinks
    | prefixed _ _ hmark _ => cases hmark <;> cases h
    | plain h' _ => cases tier <;> cases h <;> cases h'
    | _ => cases h
  | .prefixed mark operator hmark operand, d', hends, hends', heq => by
    cases d' with
    | chain h _ _ => cases hmark <;> cases h
    | prefixed mark' operator' hmark' operand' =>
      obtain ⟨rfl, hoperand⟩ := List.cons.inj heq
      cases (Tier.unary?_eq_some_iff.2 hmark).symm.trans (Tier.unary?_eq_some_iff.2 hmark')
      obtain ⟨htree, hrest⟩ := operand.unique operand' hends hends' hoperand
      exact ⟨congrArg (Expr.unaryOf operator) htree, hrest⟩
    | plain h' operand' => exact absurd heq (operand'.append_ne_of_precedes hmark h')
    | _ => cases hmark
  | .plain h operand, d', hends, hends', heq => by
    cases d' with
    | chain h' _ _ => cases tier <;> cases h <;> cases h'
    | prefixed mark _ hmark _ => exact absurd heq.symm (operand.append_ne_of_precedes hmark h)
    | plain _ operand' =>
      have hheight := Tier.height_tighter (.inr h)
      exact operand.unique operand' (hends.mono (by omega)) (hends'.mono (by omega)) heq
    | _ => cases h
  | .single operand, d', hends, hends', heq => by
    have htier : Tier.sum.height < Tier.comparison.height := by decide
    have hsum := hends.mono (Nat.le_of_lt htier)
    cases d' with
    | single operand' => exact operand.unique operand' hsum (hends'.mono (Nat.le_of_lt htier)) heq
    | compared left mark operator hmark right =>
      simp only [Derivation.lexemes, List.append_assoc] at heq
      obtain ⟨-, rfl⟩ := operand.unique left hsum (hmark.ends htier) heq
      exact absurd hends hmark.not_ends
    | chain h _ _ => cases h
    | prefixed _ _ hmark _ => cases hmark
    | plain h _ => cases h
  | .compared left mark operator hmark right, d', hends, hends', heq => by
    have htier : Tier.sum.height < Tier.comparison.height := by decide
    simp only [Derivation.lexemes, List.append_assoc] at heq
    cases d' with
    | single operand =>
      obtain ⟨-, rfl⟩ := left.unique operand (hmark.ends htier) (hends'.mono (Nat.le_of_lt htier)) heq
      exact absurd hends' hmark.not_ends
    | compared left' mark' operator' hmark' right' =>
      simp only [Derivation.lexemes, List.append_assoc] at heq
      obtain ⟨hleft, hbeyond⟩ := left.unique left' (hmark.ends htier) (hmark'.ends htier) heq
      obtain ⟨rfl, hbeyond'⟩ := List.cons.inj hbeyond
      cases (Tier.binary?_eq_some_iff.2 hmark).symm.trans (Tier.binary?_eq_some_iff.2 hmark')
      obtain ⟨hright, hrest⟩ := right.unique right' (hends.mono (Nat.le_of_lt htier))
        (hends'.mono (Nat.le_of_lt htier)) hbeyond'
      exact ⟨by rw [Derivation.tree, Derivation.tree, hleft, hright], hrest⟩
    | chain h _ _ => cases h
    | prefixed _ _ hmark _ => cases hmark
    | plain h _ => cases h
  | .leaf mark e h, d', _, _, heq => by
    cases d' with
    | leaf mark' e' h' =>
      obtain ⟨rfl, hrest⟩ := List.cons.inj heq
      exact ⟨Option.some.inj ((leaf?_eq_some_iff.2 h).symm.trans (leaf?_eq_some_iff.2 h')), hrest⟩
    | enclosed _ =>
      obtain ⟨rfl, -⟩ := List.cons.inj heq
      cases h
    | chain h' _ _ => cases h'
    | prefixed _ _ hmark _ => cases hmark
    | plain h' _ => cases h'
  | .enclosed inner, d', _, _, heq => by
    cases d' with
    | leaf mark _ h =>
      obtain ⟨rfl, -⟩ := List.cons.inj heq
      cases h
    | enclosed inner' =>
      simp only [Derivation.lexemes, List.append_assoc, List.cons_append] at heq
      obtain ⟨-, hinner⟩ := List.cons.inj heq
      obtain ⟨htree, hclosing⟩ := inner.unique inner' (ends_closing _) (ends_closing _) hinner
      exact ⟨htree, (List.cons.inj hclosing).2⟩
    | chain h _ _ => cases h
    | prefixed _ _ hmark _ => cases hmark
    | plain h _ => cases h

theorem Links.unique {tier : Tier} {ls ls' : List Lexeme} : (links links' : Links tier) →
    (left : Expr) → Ends tier ls → Ends tier ls' → links.lexemes ++ ls = links'.lexemes ++ ls' →
    links.tree left = links'.tree left ∧ ls = ls'
  | .done, links', left, hends, hends', heq => by
    cases links' with
    | done => exact ⟨rfl, heq⟩
    | link mark operator hmark operand rest =>
      obtain rfl : ls = mark :: (operand.lexemes ++ rest.lexemes) ++ ls' := heq
      exact absurd hends hmark.not_ends
  | .link mark operator hmark operand rest, links', left, hends, hends', heq => by
    have htier := hmark.height_tighter_lt
    cases links' with
    | done =>
      obtain rfl : mark :: (operand.lexemes ++ rest.lexemes) ++ ls = ls' := heq
      exact absurd hends' hmark.not_ends
    | link mark' operator' hmark' operand' rest' =>
      simp only [Links.lexemes, List.append_assoc, List.cons_append] at heq
      obtain ⟨rfl, hoperand⟩ := List.cons.inj heq
      cases (Tier.binary?_eq_some_iff.2 hmark).symm.trans (Tier.binary?_eq_some_iff.2 hmark')
      obtain ⟨htree, hbeyond⟩ :=
        operand.unique operand' (rest.ends htier hends) (rest'.ends htier hends') hoperand
      have hunique := rest.unique rest' (.binaryOf operator left operand.tree) hends hends' hbeyond
      rw [Links.tree, Links.tree, ← htree]
      exact hunique

end

theorem Derivation.tree_eq_of_lexemes_eq {tier : Tier} {d d' : Derivation tier}
    (h : d.lexemes = d'.lexemes) : d.tree = d'.tree := by
  have hends : Ends tier [] := fun _ _ _ hl => nomatch hl
  exact (d.unique d' hends hends (congrArg (· ++ []) h)).1

end Tariff.Formula
