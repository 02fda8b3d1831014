import Tariff.Proofs.Formula.Derivation
import Tariff.Proofs.Outcome

/-!
# The steps of reading a formula

When reading at a tier succeeds or fails, said by what the tiers below it read. `Reads` and
`Continues` are the successes of `read` and `chain` without the proof that they leave
fewer tokens; for each way in which a tier is read there is one lemma that says exactly
when it succeeds, and one that says which of its steps failed if it does not, so that no
later proof looks at the code of `read` and `chain`.

`Stops` is what ends a chain of operators and a comparison: the tokens go on with no
operator of the tier.
-/

namespace Tariff.Formula

/-- Whether an operand at a tier is read from tokens, with what is left of them. -/
def Reads (limit : Int) (tier : Tier) (nesting : Nat) (tokens : List Token) (e : Expr)
    (rest : List Token) : Prop :=
  ∃ shorter, read limit tier nesting tokens = .ok ⟨(e, rest), shorter⟩

/-- Whether a chain of operators after a left operand is read from tokens, with what is
left of them. -/
def Continues (limit : Int) (tier : Tier) (nesting : Nat) (left : Expr) (tokens : List Token)
    (e : Expr) (rest : List Token) : Prop :=
  ∃ shorter, chain limit tier nesting left tokens = .ok ⟨(e, rest), shorter⟩

/-- Whether tokens do not begin with an operator of a tier. -/
def Stops (tier : Tier) (tokens : List Token) : Prop :=
  ∀ t ∈ tokens.head?, tier.binary? t.lexeme = none

theorem stops_nil (tier : Tier) : Stops tier [] := by
  intro t ht
  cases ht

variable {limit : Int} {tier : Tier} {nesting depth : Nat} {tokens rest : List Token}
  {e left : Expr} {t : Token} {refusal : Refusal SyntaxFault}

theorem checkDepth_eq_ok_iff {u : Unit} :
    checkDepth limit depth = .ok u ↔ (depth : Int) ≤ limit := by
  unfold checkDepth
  split <;> simp <;> omega

theorem bounded_eq_ok_iff {e' : Expr} :
    bounded limit e = .ok e' ↔ (e.depth : Int) ≤ limit ∧ e = e' := by
  unfold bounded
  rw [Outcome.bind_eq_ok_iff]
  simp [checkDepth_eq_ok_iff]

theorem Reads.length_lt (h : Reads limit tier nesting tokens e rest) :
    rest.length < tokens.length :=
  h.1

theorem not_reads_nil : ¬Reads limit tier nesting [] e rest := by
  rintro ⟨h, -⟩
  exact Nat.not_lt_zero _ h

/-! ## Atoms -/

theorem reads_leaf_iff {leaf : Expr} (hleaf : leaf? t.lexeme = some leaf) :
    Reads limit .atom nesting (t :: tokens) e rest ↔
      t.lexeme.isOverlong = false ∧ leaf = e ∧ tokens = rest := by
  unfold Reads
  rw [read, hleaf]
  dsimp only
  cases t.lexeme.isOverlong with
  | true => simp
  | false =>
    constructor
    · rintro ⟨h, heq⟩
      cases heq
      exact ⟨rfl, rfl, rfl⟩
    · rintro ⟨-, rfl, rfl⟩
      exact ⟨by simp, rfl⟩

/-- What is no literal and no name must be a formula between parentheses. -/
theorem reads_opening_iff (hleaf : leaf? t.lexeme = none) :
    Reads limit .atom nesting (t :: tokens) e rest ↔
      t.lexeme = .opening ∧ ((nesting + 1 : Nat) : Int) ≤ limit ∧ ∃ position,
        Reads limit .disjunction (nesting + 1) tokens e (⟨.closing, position⟩ :: rest) := by
  unfold Reads
  rw [read, hleaf]
  dsimp only
  split
  · next hopening =>
    simp only [Outcome.bind_eq_ok_iff, checkDepth_eq_ok_iff]
    constructor
    · rintro ⟨_, -, hlimit, ⟨⟨inner, after⟩, shorter⟩, hread, heq⟩
      split at heq
      · next position' _ heq' =>
        cases heq'
        cases heq
        exact ⟨hopening, hlimit, _, shorter, hread⟩
      · cases heq
    · rintro ⟨-, hlimit, position, shorter, hread⟩
      refine ⟨by simp at shorter ⊢; omega, ⟨⟩, hlimit, _, hread, rfl⟩
  · next hopening => simp [hopening]

/-! ## Operators before their operand -/

theorem Tier.negation_or_sign_of_unary? {l : Lexeme} {operator : UnaryOperator}
    (h : tier.unary? l = some operator) : tier = .negation ∨ tier = .sign := by
  rcases tier.unary?_eq_some_iff.1 h with _ | _ | _
  · exact .inl rfl
  · exact .inl rfl
  · exact .inr rfl

theorem reads_unary_iff {operator : UnaryOperator} (hunary : tier.unary? t.lexeme = some operator) :
    Reads limit tier nesting (t :: tokens) e rest ↔
      ((nesting + 1 : Nat) : Int) ≤ limit ∧ ∃ operand,
        Reads limit tier (nesting + 1) tokens operand rest ∧
          e = .unaryOf operator operand ∧ (e.depth : Int) ≤ limit := by
  unfold Reads
  rcases Tier.negation_or_sign_of_unary? hunary with rfl | rfl
  all_goals
    rw [read, hunary]
    simp only [Outcome.bind_eq_ok_iff, checkDepth_eq_ok_iff, bounded_eq_ok_iff]
    constructor
    · rintro ⟨_, -, hlimit, ⟨⟨operand, after⟩, shorter⟩, hread, -, ⟨hdepth, rfl⟩, heq⟩
      cases heq
      exact ⟨hlimit, operand, ⟨shorter, hread⟩, rfl, hdepth⟩
    · rintro ⟨hlimit, operand, ⟨shorter, hread⟩, rfl, hdepth⟩
      exact ⟨Nat.lt_succ_of_lt shorter, ⟨⟩, hlimit, _, hread, _, ⟨hdepth, rfl⟩, rfl⟩

theorem reads_plain_iff (htier : tier.prefixes = true) (hunary : tier.unary? t.lexeme = none) :
    Reads limit tier nesting (t :: tokens) e rest ↔
      Reads limit tier.tighter nesting (t :: tokens) e rest := by
  unfold Reads
  cases tier <;> cases htier
  all_goals
    rw [read, hunary]
    rfl

/-- Without an operator of a tier in front of them, tokens are read as an operand of the next
tier. -/
theorem reads_iff_tighter (htier : tier.prefixes = true)
    (h : ∀ t ∈ tokens.head?, tier.unary? t.lexeme = none) :
    Reads limit tier nesting tokens e rest ↔ Reads limit tier.tighter nesting tokens e rest := by
  cases tokens with
  | nil => simp [not_reads_nil]
  | cons t tokens => exact reads_plain_iff htier (h t rfl)

/-! ## Chains and comparisons -/

/-- A chain stops, or goes on with an operator of its tier. -/
theorem stops_or_exists_binary (tier : Tier) (tokens : List Token) :
    Stops tier tokens ∨ ∃ t beyond operator, tokens = t :: beyond ∧
      tier.binary? t.lexeme = some operator := by
  cases tokens with
  | nil => exact .inl (stops_nil tier)
  | cons t tokens =>
    cases hbinary : tier.binary? t.lexeme with
    | none => exact .inl fun t' ht' => Option.some.inj ht' ▸ hbinary
    | some operator => exact .inr ⟨t, tokens, operator, rfl, hbinary⟩

theorem reads_chain_iff (h : tier.chains = true) :
    Reads limit tier nesting tokens e rest ↔
      ∃ first after, Reads limit tier.tighter nesting tokens first after ∧
        Continues limit tier nesting first after e rest := by
  cases tokens with
  | nil => simp [not_reads_nil]
  | cons t tokens =>
    unfold Reads Continues
    cases tier <;> cases h
    all_goals
      rw [read]
      simp only [Tier.tighter, Outcome.bind_eq_ok_iff]
      constructor
      · rintro ⟨_, ⟨⟨first, after⟩, shorter⟩, hfirst, ⟨⟨e', rest'⟩, shorter'⟩, hchain, heq⟩
        cases heq
        exact ⟨first, after, ⟨shorter, hfirst⟩, shorter', hchain⟩
      · rintro ⟨first, after, ⟨shorter, hfirst⟩, shorter', hchain⟩
        exact ⟨Nat.lt_of_le_of_lt shorter' shorter, _, hfirst, _, hchain, rfl⟩

theorem continues_of_stops (h : Stops tier tokens) :
    Continues limit tier nesting left tokens e rest ↔ left = e ∧ tokens = rest := by
  unfold Continues
  cases tokens with
  | nil =>
    rw [chain]
    constructor
    · rintro ⟨_, heq⟩
      cases heq
      exact ⟨rfl, rfl⟩
    · rintro ⟨rfl, rfl⟩
      exact ⟨Nat.le_refl _, rfl⟩
  | cons t tokens =>
    rw [chain, h t rfl]
    constructor
    · rintro ⟨_, heq⟩
      cases heq
      exact ⟨rfl, rfl⟩
    · rintro ⟨rfl, rfl⟩
      exact ⟨Nat.le_refl _, rfl⟩

theorem continues_cons_iff {operator : BinaryOperator}
    (hbinary : tier.binary? t.lexeme = some operator) :
    Continues limit tier nesting left (t :: tokens) e rest ↔
      ∃ right after, Reads limit tier.tighter nesting tokens right after ∧
        ((Expr.binaryOf operator left right).depth : Int) ≤ limit ∧
        Continues limit tier nesting (.binaryOf operator left right) after e rest := by
  unfold Continues Reads
  rw [chain, hbinary]
  simp only [Outcome.bind_eq_ok_iff, bounded_eq_ok_iff]
  constructor
  · rintro ⟨_, ⟨⟨right, after⟩, shorter⟩, hright, -, ⟨hdepth, rfl⟩,
      ⟨⟨e', last⟩, shorter'⟩, hchain, heq⟩
    cases heq
    exact ⟨right, after, ⟨shorter, hright⟩, hdepth, shorter', hchain⟩
  · rintro ⟨right, after, ⟨shorter, hright⟩, hdepth, shorter', hchain⟩
    exact ⟨Nat.le_succ_of_le (Nat.le_trans shorter' (Nat.le_of_lt shorter)), _, hright, _,
      ⟨hdepth, rfl⟩, _, hchain, rfl⟩

/-- A comparison has at most one operator: what follows its second operand is left. -/
theorem reads_comparison_iff :
    Reads limit .comparison nesting tokens e rest ↔
      ∃ left after, Reads limit .sum nesting tokens left after ∧
        ((Stops .comparison after ∧ left = e ∧ after = rest) ∨
          ∃ t beyond operator right, after = t :: beyond ∧
            Tier.comparison.binary? t.lexeme = some operator ∧
            Reads limit .sum nesting beyond right rest ∧
            e = .binaryOf operator left right ∧ (e.depth : Int) ≤ limit) := by
  cases tokens with
  | nil => simp [not_reads_nil]
  | cons t tokens =>
    unfold Reads
    rw [read]
    simp only [Outcome.bind_eq_ok_iff]
    constructor
    · rintro ⟨_, ⟨⟨left, after⟩, shorter⟩, hleft, heq⟩
      refine ⟨left, after, ⟨shorter, hleft⟩, ?_⟩
      cases after with
      | nil =>
        cases heq
        exact .inl ⟨stops_nil _, rfl, rfl⟩
      | cons next beyond =>
        dsimp only at heq
        split at heq
        · next hnone =>
          cases heq
          exact .inl ⟨fun t ht => Option.some.inj ht ▸ hnone, rfl, rfl⟩
        · next operator hsome =>
          simp only [Outcome.bind_eq_ok_iff, bounded_eq_ok_iff] at heq
          obtain ⟨⟨⟨right, last⟩, shorter'⟩, hright, -, ⟨hdepth, rfl⟩, heq⟩ := heq
          cases heq
          exact .inr ⟨next, beyond, operator, right, rfl, hsome, ⟨shorter', hright⟩, rfl, hdepth⟩
    · rintro ⟨left, after, ⟨shorter, hleft⟩, hafter⟩
      rcases hafter with ⟨hstops, rfl, rfl⟩ |
        ⟨next, beyond, operator, right, rfl, hsome, ⟨shorter', hright⟩, rfl, hdepth⟩
      · refine ⟨shorter, _, hleft, ?_⟩
        cases after with
        | nil => rfl
        | cons next beyond =>
          dsimp only
          rw [hstops next rfl]
          rfl
      · refine ⟨by simp at shorter shorter' ⊢; omega, _, hleft, ?_⟩
        dsimp only
        rw [hsome]
        simp only [Outcome.bind_eq_ok_iff, bounded_eq_ok_iff]
        exact ⟨_, hright, _, ⟨hdepth, rfl⟩, rfl⟩

/-! ## Steps that fail -/

theorem refusal_of_checkDepth (h : checkDepth limit depth = .error refusal) :
    refusal = (SyntaxFault.tooDeep limit).refusal := by
  unfold checkDepth at h
  split at h
  · cases h
    rfl
  · cases h

theorem refusal_of_bounded (h : bounded limit e = .error refusal) :
    refusal = (SyntaxFault.tooDeep limit).refusal := by
  unfold bounded at h
  rcases Outcome.bind_eq_error_iff.1 h with h | ⟨_, -, h⟩
  · exact refusal_of_checkDepth h
  · cases h

theorem refusal_of_read_nil (h : read limit tier nesting [] = .error refusal) :
    refusal = .because .unexpectedEnd := by
  rw [read] at h
  cases h
  rfl

/-- An atom fails at an integer with too many digits. One that is no literal and no name fails
at its first token, inside the parenthesis that it opens, or for want of the closing one. -/
theorem refusal_of_read_atom (h : read limit .atom nesting (t :: tokens) = .error refusal) :
    (t.lexeme.isOverlong = true ∧ refusal = .overlong) ∨ leaf? t.lexeme = none ∧
      ((t.lexeme ≠ .opening ∧ refusal = .because (unexpected t)) ∨
        (t.lexeme = .opening ∧
          (refusal = (SyntaxFault.tooDeep limit).refusal ∨
            read limit .disjunction (nesting + 1) tokens = .error refusal ∨
            ∃ e rest, Reads limit .disjunction (nesting + 1) tokens e rest ∧
              (∀ t' ∈ rest.head?, t'.lexeme ≠ .closing) ∧
              refusal = .because (.unclosed t.position)))) := by
  rw [read] at h
  cases hleaf : leaf? t.lexeme with
  | some leaf =>
    rw [hleaf] at h
    dsimp only at h
    split at h
    · next hoverlong =>
      cases h
      exact .inl ⟨hoverlong, rfl⟩
    · cases h
  | none =>
    rw [hleaf] at h
    dsimp only at h
    refine .inr ⟨rfl, ?_⟩
    split at h
    · next hopening =>
      refine .inr ⟨hopening, ?_⟩
      rcases Outcome.bind_eq_error_iff.1 h with h | ⟨_, -, h⟩
      · exact .inl (refusal_of_checkDepth h)
      · rcases Outcome.bind_eq_error_iff.1 h with h | ⟨⟨⟨e, rest⟩, shorter⟩, hread, h⟩
        · exact .inr (.inl h)
        · refine .inr (.inr ⟨e, rest, ⟨shorter, hread⟩, ?_⟩)
          split at h
          · cases h
          · next hrest =>
            cases h
            refine ⟨?_, rfl⟩
            intro t' ht' hclosing
            obtain ⟨ts, rfl⟩ := List.head?_eq_some_iff.1 ht'
            obtain ⟨_, position⟩ := t'
            cases hclosing
            exact hrest _ _ _ _ rfl
    · next hopening =>
      cases h
      exact .inl ⟨hopening, rfl⟩

theorem refusal_of_read_unary {operator : UnaryOperator}
    (hunary : tier.unary? t.lexeme = some operator)
    (h : read limit tier nesting (t :: tokens) = .error refusal) :
    refusal = (SyntaxFault.tooDeep limit).refusal ∨
      read limit tier (nesting + 1) tokens = .error refusal := by
  rcases Tier.negation_or_sign_of_unary? hunary with rfl | rfl
  all_goals
    rw [read, hunary] at h
    rcases Outcome.bind_eq_error_iff.1 h with h | ⟨_, -, h⟩
    · exact .inl (refusal_of_checkDepth h)
    · rcases Outcome.bind_eq_error_iff.1 h with h | ⟨_, -, h⟩
      · exact .inr h
      · rcases Outcome.bind_eq_error_iff.1 h with h | ⟨_, -, h⟩
        · exact .inl (refusal_of_bounded h)
        · cases h

theorem refusal_of_read_plain (htier : tier.prefixes = true) (hunary : tier.unary? t.lexeme = none)
    (h : read limit tier nesting (t :: tokens) = .error refusal) :
    read limit tier.tighter nesting (t :: tokens) = .error refusal := by
  cases tier <;> cases htier
  all_goals
    rw [read, hunary] at h
    exact h

theorem refusal_of_read_chain (htier : tier.chains = true)
    (h : read limit tier nesting (t :: tokens) = .error refusal) :
    read limit tier.tighter nesting (t :: tokens) = .error refusal ∨
      ∃ first after, Reads limit tier.tighter nesting (t :: tokens) first after ∧
        chain limit tier nesting first after = .error refusal := by
  cases tier <;> cases htier
  all_goals
    rw [read] at h
    rcases Outcome.bind_eq_error_iff.1 h with h | ⟨⟨⟨first, after⟩, shorter⟩, hread, h⟩
    · exact .inl h
    · rcases Outcome.bind_eq_error_iff.1 h with h | ⟨_, -, h⟩
      · exact .inr ⟨first, after, ⟨shorter, hread⟩, h⟩
      · cases h

theorem refusal_of_read_comparison
    (h : read limit .comparison nesting (t :: tokens) = .error refusal) :
    refusal = (SyntaxFault.tooDeep limit).refusal ∨
      read limit .sum nesting (t :: tokens) = .error refusal ∨
      ∃ left next beyond operator, Reads limit .sum nesting (t :: tokens) left (next :: beyond) ∧
        Tier.comparison.binary? next.lexeme = some operator ∧
        read limit .sum nesting beyond = .error refusal := by
  rw [read] at h
  rcases Outcome.bind_eq_error_iff.1 h with h | ⟨⟨⟨left, after⟩, shorter⟩, hread, h⟩
  · exact .inr (.inl h)
  · cases after with
    | nil => cases h
    | cons next beyond =>
      dsimp only at h
      split at h
      · cases h
      · next operator hbinary =>
        rcases Outcome.bind_eq_error_iff.1 h with h | ⟨_, -, h⟩
        · exact .inr (.inr ⟨left, next, beyond, operator, ⟨shorter, hread⟩, hbinary, h⟩)
        · rcases Outcome.bind_eq_error_iff.1 h with h | ⟨_, -, h⟩
          · exact .inl (refusal_of_bounded h)
          · cases h

/-- A chain that fails goes on with an operator, and what comes after it fails. -/
theorem refusal_of_chain (h : chain limit tier nesting left tokens = .error refusal) :
    ∃ t beyond operator, tokens = t :: beyond ∧ tier.binary? t.lexeme = some operator ∧
      (refusal = (SyntaxFault.tooDeep limit).refusal ∨
        read limit tier.tighter nesting beyond = .error refusal ∨
        ∃ right after, Reads limit tier.tighter nesting beyond right after ∧
          chain limit tier nesting (.binaryOf operator left right) after = .error refusal) := by
  rcases stops_or_exists_binary tier tokens with hstops | ⟨t, beyond, operator, rfl, hbinary⟩
  · have hcontinues : Continues limit tier nesting left tokens left tokens :=
      (continues_of_stops hstops).2 ⟨rfl, rfl⟩
    obtain ⟨_, hchain⟩ := hcontinues
    cases h.symm.trans hchain
  · refine ⟨t, beyond, operator, rfl, hbinary, ?_⟩
    rw [chain, hbinary] at h
    rcases Outcome.bind_eq_error_iff.1 h with h | ⟨⟨⟨right, after⟩, shorter⟩, hread, h⟩
    · exact .inr (.inl h)
    · rcases Outcome.bind_eq_error_iff.1 h with h | ⟨e, hnode, h⟩
      · exact .inl (refusal_of_bounded h)
      · obtain ⟨-, rfl⟩ := bounded_eq_ok_iff.1 hnode
        rcases Outcome.bind_eq_error_iff.1 h with h | ⟨_, -, h⟩
        · exact .inr (.inr ⟨right, after, ⟨shorter, hread⟩, h⟩)
        · cases h

/-! And the other way round: a step that fails is where the whole fails. -/

theorem exists_leaf_of_isOverlong {l : Lexeme} (h : l.isOverlong = true) :
    ∃ leaf, leaf? l = some leaf := by
  cases l with
  | number numeral => exact ⟨_, rfl⟩
  | _ => cases h

theorem isOverlong_of_leaf? {l : Lexeme} (h : leaf? l = none) : l.isOverlong = false := by
  refine Bool.eq_false_iff.2 fun hoverlong => ?_
  obtain ⟨leaf, hleaf⟩ := exists_leaf_of_isOverlong hoverlong
  cases h.symm.trans hleaf

theorem read_overlong (h : t.lexeme.isOverlong = true) :
    read limit .atom nesting (t :: tokens) = .error .overlong := by
  obtain ⟨leaf, hleaf⟩ := exists_leaf_of_isOverlong h
  rw [read, hleaf]
  exact if_pos h

theorem read_atom_eq_error (hleaf : leaf? t.lexeme = none)
    (h : (t.lexeme ≠ .opening ∧ refusal = .because (unexpected t)) ∨
      (t.lexeme = .opening ∧
        (checkDepth limit (nesting + 1) = .error refusal ∨
          (checkDepth limit (nesting + 1) = .ok () ∧
            (read limit .disjunction (nesting + 1) tokens = .error refusal ∨
              ∃ e rest, Reads limit .disjunction (nesting + 1) tokens e rest ∧
                (∀ t' ∈ rest.head?, t'.lexeme ≠ .closing) ∧
                refusal = .because (.unclosed t.position)))))) :
    read limit .atom nesting (t :: tokens) = .error refusal := by
  rw [read, hleaf]
  dsimp only
  rcases h with ⟨hopening, rfl⟩ | ⟨hopening, h⟩
  · rw [if_neg hopening]
  · rw [if_pos hopening]
    rcases h with h | ⟨hdepth, h⟩
    · exact Outcome.bind_eq_error_iff.2 (.inl h)
    · refine Outcome.bind_eq_error_iff.2 (.inr ⟨_, hdepth, ?_⟩)
      rcases h with h | ⟨e, rest, ⟨shorter, hread⟩, hrest, rfl⟩
      · exact Outcome.bind_eq_error_iff.2 (.inl h)
      · refine Outcome.bind_eq_error_iff.2 (.inr ⟨_, hread, ?_⟩)
        split
        · next heq =>
          cases heq
          exact absurd rfl (hrest _ rfl)
        · rfl

theorem read_unary_eq_error {operator : UnaryOperator}
    (hunary : tier.unary? t.lexeme = some operator)
    (h : checkDepth limit (nesting + 1) = .error refusal ∨
      (checkDepth limit (nesting + 1) = .ok () ∧
        (read limit tier (nesting + 1) tokens = .error refusal ∨
          ∃ operand rest, Reads limit tier (nesting + 1) tokens operand rest ∧
            bounded limit (.unaryOf operator operand) = .error refusal))) :
    read limit tier nesting (t :: tokens) = .error refusal := by
  rcases Tier.negation_or_sign_of_unary? hunary with rfl | rfl
  all_goals
    rw [read, hunary]
    rcases h with h | ⟨hdepth, h⟩
    · exact Outcome.bind_eq_error_iff.2 (.inl h)
    · refine Outcome.bind_eq_error_iff.2 (.inr ⟨_, hdepth, ?_⟩)
      rcases h with h | ⟨operand, rest, ⟨shorter, hread⟩, h⟩
      · exact Outcome.bind_eq_error_iff.2 (.inl h)
      · exact Outcome.bind_eq_error_iff.2
          (.inr ⟨_, hread, Outcome.bind_eq_error_iff.2 (.inl h)⟩)

theorem read_plain_eq_error (htier : tier.prefixes = true) (hunary : tier.unary? t.lexeme = none)
    (h : read limit tier.tighter nesting (t :: tokens) = .error refusal) :
    read limit tier nesting (t :: tokens) = .error refusal := by
  cases tier <;> cases htier
  all_goals
    rw [read, hunary]
    exact h

theorem read_chain_eq_error (htier : tier.chains = true)
    (h : read limit tier.tighter nesting (t :: tokens) = .error refusal ∨
      ∃ first after, Reads limit tier.tighter nesting (t :: tokens) first after ∧
        chain limit tier nesting first after = .error refusal) :
    read limit tier nesting (t :: tokens) = .error refusal := by
  cases tier <;> cases htier
  all_goals
    rw [read]
    rcases h with h | ⟨first, after, ⟨shorter, hread⟩, h⟩
    · exact Outcome.bind_eq_error_iff.2 (.inl h)
    · exact Outcome.bind_eq_error_iff.2
        (.inr ⟨_, hread, Outcome.bind_eq_error_iff.2 (.inl h)⟩)

theorem read_comparison_eq_error
    (h : read limit .sum nesting (t :: tokens) = .error refusal ∨
      ∃ left next beyond operator, Reads limit .sum nesting (t :: tokens) left (next :: beyond) ∧
        Tier.comparison.binary? next.lexeme = some operator ∧
        (read limit .sum nesting beyond = .error refusal ∨
          ∃ right rest, Reads limit .sum nesting beyond right rest ∧
            bounded limit (.binaryOf operator left right) = .error refusal)) :
    read limit .comparison nesting (t :: tokens) = .error refusal := by
  rw [read]
  rcases h with h | ⟨left, next, beyond, operator, ⟨shorter, hread⟩, hbinary, h⟩
  · exact Outcome.bind_eq_error_iff.2 (.inl h)
  · refine Outcome.bind_eq_error_iff.2 (.inr ⟨_, hread, ?_⟩)
    dsimp only
    rw [hbinary]
    rcases h with h | ⟨right, rest, ⟨shorter', hright⟩, h⟩
    · exact Outcome.bind_eq_error_iff.2 (.inl h)
    · exact Outcome.bind_eq_error_iff.2
        (.inr ⟨_, hright, Outcome.bind_eq_error_iff.2 (.inl h)⟩)

theorem chain_eq_error {operator : BinaryOperator} (hbinary : tier.binary? t.lexeme = some operator)
    (h : read limit tier.tighter nesting tokens = .error refusal ∨
      ∃ right after, Reads limit tier.tighter nesting tokens right after ∧
        (bounded limit (.binaryOf operator left right) = .error refusal ∨
          (((Expr.binaryOf operator left right).depth : Int) ≤ limit ∧
            chain limit tier nesting (.binaryOf operator left right) after = .error refusal))) :
    chain limit tier nesting left (t :: tokens) = .error refusal := by
  rw [chain, hbinary]
  rcases h with h | ⟨right, after, ⟨shorter, hread⟩, h⟩
  · exact Outcome.bind_eq_error_iff.2 (.inl h)
  · refine Outcome.bind_eq_error_iff.2 (.inr ⟨_, hread, ?_⟩)
    rcases h with h | ⟨hdepth, h⟩
    · exact Outcome.bind_eq_error_iff.2 (.inl h)
    · exact Outcome.bind_eq_error_iff.2
        (.inr ⟨_, bounded_eq_ok_iff.2 ⟨hdepth, rfl⟩, Outcome.bind_eq_error_iff.2 (.inl h)⟩)

end Tariff.Formula
