import Tariff.Proofs.Formula.Steps
import Tariff.Proofs.Formula.Tokens
import Tariff.Proofs.Formula.Unambiguous

/-!
# Reading follows the grammar

A formula is read as an expression exactly if its lexemes derive from the grammar, the
expression is the one that the derivation means, and both bounds are kept: no part of the
derivation is nested more deeply than the limit, and the expression is no higher
(`readAll_follows_grammar`).

One direction builds a derivation along the reading (`exists_derivation`), the other reads
along a derivation (`reads_of_derivation`). The reading looks one lexeme ahead, and `Ends`
is what has to follow an operand for that to suffice: no operator of its tier or of a
tighter one. Inside a chain it holds because no lexeme joins operands at two tiers.
-/

namespace Tariff.Formula

/-! ## What is read is derived -/

/-- Whether a derivation accounts for an operand that was read. -/
structure Derivation.Accounts {tier : Tier} (d : Derivation tier) (limit : Int) (nesting : Nat)
    (tokens : List Token) (e : Expr) (rest : List Token) : Prop where
  lexemes : tokens.map Token.lexeme = d.lexemes ++ rest.map Token.lexeme
  tree : d.tree = e
  nesting : ((nesting + d.nesting : Nat) : Int) ≤ limit
  height : (e.height : Int) ≤ limit
  readable : IsReadable d.lexemes

/-- Whether links account for a chain that was read after a left operand. -/
structure Links.Accounts {tier : Tier} (links : Links tier) (limit : Int) (nesting : Nat)
    (left : Expr) (tokens : List Token) (e : Expr) (rest : List Token) : Prop where
  lexemes : tokens.map Token.lexeme = links.lexemes ++ rest.map Token.lexeme
  tree : links.tree left = e
  nesting : ((nesting + links.nesting : Nat) : Int) ≤ limit
  height : (e.height : Int) ≤ limit
  readable : IsReadable links.lexemes

variable {limit : Int} {tier : Tier} {nesting : Nat} {tokens after rest : List Token}
variable {t : Token} {e left : Expr}

/-! Each production accounts for the whole when its parts account for theirs. -/

theorem Derivation.Accounts.chain {first : Derivation tier.tighter} {links : Links tier}
    {firstTree : Expr} (h : tier.chains = true)
    (hfirst : first.Accounts limit nesting tokens firstTree after)
    (hlinks : links.Accounts limit nesting firstTree after e rest) :
    (Derivation.chain h first links).Accounts limit nesting tokens e rest where
  lexemes := by
    rw [hfirst.lexemes, hlinks.lexemes, ← List.append_assoc]
    rfl
  tree := by
    show links.tree first.tree = e
    rw [hfirst.tree, hlinks.tree]
  nesting := by
    have hfirst := hfirst.nesting
    have hlinks := hlinks.nesting
    show ((nesting + max first.nesting links.nesting : Nat) : Int) ≤ limit
    omega
  height := hlinks.height
  readable := isReadable_append.2 ⟨hfirst.readable, hlinks.readable⟩

theorem Derivation.Accounts.prefixed {operator : UnaryOperator} {operand : Derivation tier}
    (h : tier.Precedes t.lexeme operator)
    (hoperand : operand.Accounts limit (nesting + 1) tokens left rest)
    (hdepth : ((Expr.unaryOf operator left).depth : Int) ≤ limit) :
    (Derivation.prefixed t.lexeme operator h operand).Accounts limit nesting (t :: tokens)
      (.unaryOf operator left) rest where
  lexemes := by
    rw [List.map_cons, hoperand.lexemes]
    rfl
  tree := by
    show Expr.unaryOf operator operand.tree = _
    rw [hoperand.tree]
  nesting := by
    have hoperand := hoperand.nesting
    show ((nesting + (operand.nesting + 1) : Nat) : Int) ≤ limit
    omega
  height := by
    have hheight := operand.depth_tree
    rw [hoperand.tree] at hheight
    show ((left.height + 1 : Nat) : Int) ≤ limit
    rw [← hheight]
    exact hdepth
  readable := isReadable_cons.2 ⟨h.isOverlong_eq_false, hoperand.readable⟩

theorem Derivation.Accounts.compared {leftOperand rightOperand : Derivation .sum} {right : Expr}
    {operator : BinaryOperator} (h : Tier.comparison.Joins t.lexeme operator)
    (hleft : leftOperand.Accounts limit nesting tokens left (t :: after))
    (hright : rightOperand.Accounts limit nesting after right rest)
    (hdepth : ((Expr.binaryOf operator left right).depth : Int) ≤ limit) :
    (Derivation.compared leftOperand t.lexeme operator h rightOperand).Accounts limit nesting tokens
      (.binaryOf operator left right) rest where
  lexemes := by
    rw [hleft.lexemes, List.map_cons, hright.lexemes]
    simp [Derivation.lexemes]
  tree := by
    show Expr.binaryOf operator leftOperand.tree rightOperand.tree = _
    rw [hleft.tree, hright.tree]
  nesting := by
    have hleft := hleft.nesting
    have hright := hright.nesting
    show ((nesting + max leftOperand.nesting rightOperand.nesting : Nat) : Int) ≤ limit
    omega
  height := by
    rw [← Expr.depth_binaryOf_eq_height (hleft.tree ▸ leftOperand.depth_tree)
      (hright.tree ▸ rightOperand.depth_tree)]
    exact hdepth
  readable := isReadable_append.2
    ⟨hleft.readable, isReadable_cons.2 ⟨h.isOverlong_eq_false, hright.readable⟩⟩

theorem Derivation.Accounts.enclosed {inner : Derivation .disjunction} {position : Nat}
    (hopening : t.lexeme = .opening)
    (hinner : inner.Accounts limit (nesting + 1) tokens e (⟨.closing, position⟩ :: rest)) :
    (Derivation.enclosed inner).Accounts limit nesting (t :: tokens) e rest where
  lexemes := by
    rw [List.map_cons, hinner.lexemes, hopening]
    simp [Derivation.lexemes]
  tree := hinner.tree
  nesting := by
    have hinner := hinner.nesting
    show ((nesting + (inner.nesting + 1) : Nat) : Int) ≤ limit
    omega
  height := hinner.height
  readable := isReadable_append.2
    ⟨isReadable_cons.2 ⟨rfl, hinner.readable⟩, List.forall_mem_singleton.2 rfl⟩

theorem Links.Accounts.link {operand : Derivation tier.tighter} {links : Links tier}
    {operator : BinaryOperator} {right : Expr} (h : tier.Joins t.lexeme operator)
    (hlinks : links.Accounts limit nesting (.binaryOf operator left right) after e rest)
    (hoperand : operand.Accounts limit nesting tokens right after) :
    (Links.link t.lexeme operator h operand links).Accounts limit nesting left (t :: tokens) e
      rest where
  lexemes := by
    rw [List.map_cons, hoperand.lexemes, hlinks.lexemes]
    simp [Links.lexemes]
  tree := by
    show links.tree (.binaryOf operator left operand.tree) = e
    rw [hoperand.tree, hlinks.tree]
  nesting := by
    have hoperand := hoperand.nesting
    have hlinks := hlinks.nesting
    show ((nesting + max operand.nesting links.nesting : Nat) : Int) ≤ limit
    omega
  height := hlinks.height
  readable := isReadable_append.2
    ⟨isReadable_cons.2 ⟨h.isOverlong_eq_false, hoperand.readable⟩, hlinks.readable⟩

mutual

/-- Along the reading of an operand a derivation accounts for it. -/
theorem exists_derivation {limit : Int} {tier : Tier} {nesting : Nat} {tokens rest : List Token}
    {e : Expr} (hlimit : 1 ≤ limit) (hnesting : (nesting : Int) ≤ limit)
    (h : Reads limit tier nesting tokens e rest) :
    ∃ d : Derivation tier, d.Accounts limit nesting tokens e rest := by
  cases tokens with
  | nil => exact absurd h not_reads_nil
  | cons t tokens =>
    rcases tier.sort_cases with htier | htier | rfl | rfl
    · obtain ⟨first, after, hfirst, hlinks⟩ := (reads_chain_iff htier).1 h
      have hheight := Tier.height_tighter (.inl htier)
      have hshorter := hfirst.length_lt
      obtain ⟨d, hd⟩ := exists_derivation hlimit hnesting hfirst
      have hdepth : first.depth = first.height := hd.tree ▸ d.depth_tree
      obtain ⟨links, hl⟩ := exists_links hlimit hnesting hdepth hd.height hlinks
      exact ⟨.chain htier d links, hd.chain htier hl⟩
    · cases hunary : tier.unary? t.lexeme with
      | some operator =>
        obtain ⟨hdeeper, operand, hread, rfl, hdepth⟩ := (reads_unary_iff hunary).1 h
        obtain ⟨d, hd⟩ := exists_derivation hlimit hdeeper hread
        have hmark := Tier.unary?_eq_some_iff.1 hunary
        exact ⟨.prefixed t.lexeme operator hmark d, hd.prefixed hmark hdepth⟩
      | none =>
        have hheight := Tier.height_tighter (.inr htier)
        obtain ⟨d, hd⟩ := exists_derivation hlimit hnesting ((reads_plain_iff htier hunary).1 h)
        exact ⟨.plain htier d, hd.lexemes, hd.tree, hd.nesting, hd.height, hd.readable⟩
    · obtain ⟨left, after, hleft, hafter⟩ := reads_comparison_iff.1 h
      obtain ⟨d, hd⟩ := exists_derivation hlimit hnesting hleft
      rcases hafter with ⟨-, rfl, rfl⟩ |
        ⟨next, beyond, operator, right, rfl, hbinary, hright, rfl, hdepth⟩
      · exact ⟨.single d, hd.lexemes, hd.tree, hd.nesting, hd.height, hd.readable⟩
      · have hshorter := hleft.length_lt
        obtain ⟨d', hd'⟩ := exists_derivation hlimit hnesting hright
        have hmark := Tier.binary?_eq_some_iff.1 hbinary
        exact ⟨.compared d next.lexeme operator hmark d', hd.compared hmark hd' hdepth⟩
    · cases hleaf : leaf? t.lexeme with
      | some leaf =>
        obtain ⟨hreadable, rfl, rfl⟩ := (reads_leaf_iff hleaf).1 h
        have hmark := leaf?_eq_some_iff.1 hleaf
        have hheight := hmark.height_eq
        exact ⟨.leaf t.lexeme leaf hmark, rfl, rfl, hnesting, hheight ▸ hlimit,
          List.forall_mem_singleton.2 hreadable⟩
      | none =>
        obtain ⟨hopening, hdeeper, position, hread⟩ := (reads_opening_iff hleaf).1 h
        obtain ⟨d, hd⟩ := exists_derivation hlimit hdeeper hread
        exact ⟨.enclosed d, hd.enclosed hopening⟩
termination_by (tokens.length, tier.height)
decreasing_by
  all_goals
    subst_vars
    simp only [Prod.lex_def, List.length_cons, true_and] at *
    have hcomparison : Tier.sum.height < Tier.comparison.height := by decide
    omega

theorem exists_links {limit : Int} {tier : Tier} {nesting : Nat} {tokens rest : List Token}
    {e left : Expr} (hlimit : 1 ≤ limit) (hnesting : (nesting : Int) ≤ limit)
    (hdepth : left.depth = left.height) (hleft : (left.height : Int) ≤ limit)
    (h : Continues limit tier nesting left tokens e rest) :
    ∃ links : Links tier, links.Accounts limit nesting left tokens e rest := by
  rcases stops_or_exists_binary tier tokens with hstops | ⟨t, beyond, operator, rfl, hbinary⟩
  · obtain ⟨rfl, rfl⟩ := (continues_of_stops hstops).1 h
    exact ⟨.done, rfl, rfl, hnesting, hleft, nofun⟩
  · obtain ⟨right, after, hright, hnode, hlinks⟩ := (continues_cons_iff hbinary).1 h
    have hshorter := hright.length_lt
    obtain ⟨d, hd⟩ := exists_derivation hlimit hnesting hright
    have hright : right.depth = right.height := hd.tree ▸ d.depth_tree
    have hnodeDepth : (Expr.binaryOf operator left right).depth =
        (Expr.binaryOf operator left right).height :=
      Expr.depth_binaryOf_eq_height hdepth hright
    obtain ⟨links, hl⟩ := exists_links hlimit hnesting hnodeDepth (hnodeDepth ▸ hnode) hlinks
    have hmark := Tier.binary?_eq_some_iff.1 hbinary
    exact ⟨.link t.lexeme operator hmark d links, hl.link hmark hd⟩
termination_by (tokens.length, 0)
decreasing_by
  all_goals
    subst_vars
    simp only [Prod.lex_def, List.length_cons] at *
    omega

end

/-! ## What is derived is read -/

theorem Ends.stops {other : Tier} (h : Ends tier (rest.map Token.lexeme))
    (hle : other.height ≤ tier.height) : Stops other rest := by
  intro t ht
  refine h other hle t.lexeme ?_
  rw [List.head?_map, ht]
  rfl

mutual

/-- A derivation within both bounds is read, whatever ends its last operand, if all integers in
it can be. -/
theorem reads_of_derivation {limit : Int} {tier : Tier} {nesting : Nat} {tokens rest : List Token} :
    (d : Derivation tier) → tokens.map Token.lexeme = d.lexemes → IsReadable d.lexemes →
      Ends tier (rest.map Token.lexeme) → ((nesting + d.nesting : Nat) : Int) ≤ limit →
      (d.tree.height : Int) ≤ limit → Reads limit tier nesting (tokens ++ rest) d.tree rest
  | .chain h first links, htokens, hreadable, hends, hnesting, hheight => by
    obtain ⟨firstTokens, linkTokens, rfl, hfirst, hlinks⟩ := List.map_eq_append_iff.1 htokens
    obtain ⟨hreadFirst, hreadLinks⟩ := isReadable_append.1 hreadable
    have htier : tier.tighter.height < tier.height := by
      have := Tier.height_tighter (.inl h)
      omega
    have hendsFirst : Ends tier.tighter ((linkTokens ++ rest).map Token.lexeme) := by
      rw [List.map_append, hlinks]
      exact links.ends htier hends
    simp only [Derivation.nesting, Derivation.tree] at hnesting hheight
    have hle := links.height_le first.tree
    rw [List.append_assoc]
    exact (reads_chain_iff h).2 ⟨first.tree, linkTokens ++ rest,
      reads_of_derivation first hfirst hreadFirst hendsFirst (by omega) (by omega),
      continues_of_links links hlinks hreadLinks hends (by omega) first.depth_tree hheight⟩
  | .prefixed mark operator h operand, htokens, hreadable, hends, hnesting, hheight => by
    obtain ⟨t, ts, rfl, rfl, hoperand⟩ := List.map_eq_cons_iff.1 htokens
    simp only [Derivation.nesting] at hnesting
    have hdepth := Derivation.depth_tree (.prefixed t.lexeme operator h operand)
    refine (reads_unary_iff (Tier.unary?_eq_some_iff.2 h)).2
      ⟨by omega, operand.tree, ?_, rfl, hdepth ▸ hheight⟩
    refine reads_of_derivation operand hoperand (isReadable_cons.1 hreadable).2 hends (by omega) ?_
    simp only [Derivation.tree, Expr.unaryOf, Expr.height] at hheight
    omega
  | .plain h operand, htokens, hreadable, hends, hnesting, hheight => by
    obtain ⟨l, ls, hls, hfirst⟩ := operand.exists_first
    obtain ⟨t, ts, rfl, rfl, -⟩ := List.map_eq_cons_iff.1 (htokens.trans hls)
    have htier := Tier.height_tighter (.inr h)
    exact (reads_plain_iff h (hfirst tier (by omega))).2
      (reads_of_derivation operand htokens hreadable (hends.mono (by omega)) hnesting hheight)
  | .single operand, htokens, hreadable, hends, hnesting, hheight =>
    reads_comparison_iff.2 ⟨operand.tree, rest,
      reads_of_derivation operand htokens hreadable (hends.mono (by decide)) hnesting hheight,
      .inl ⟨hends.stops (Nat.le_refl _), rfl, rfl⟩⟩
  | .compared left mark operator h right, htokens, hreadable, hends, hnesting, hheight => by
    obtain ⟨leftTokens, tail, rfl, hleft, htail⟩ := List.map_eq_append_iff.1 htokens
    obtain ⟨t, rightTokens, rfl, rfl, hright⟩ := List.map_eq_cons_iff.1 htail
    obtain ⟨hreadLeft, hreadTail⟩ := isReadable_append.1 hreadable
    have hdepth := Derivation.depth_tree (.compared left t.lexeme operator h right)
    simp only [Derivation.nesting] at hnesting
    have hbinary := Tier.binary?_eq_some_iff.2 h
    have hreadRight := (isReadable_cons.1 hreadTail).2
    rw [List.append_assoc]
    refine reads_comparison_iff.2 ⟨left.tree, _,
      reads_of_derivation left hleft hreadLeft (h.ends (by decide)) (by omega) ?_,
      .inr ⟨t, rightTokens ++ rest, operator, right.tree, rfl, hbinary,
        reads_of_derivation right hright hreadRight (hends.mono (by decide)) (by omega) ?_, rfl,
        hdepth ▸ hheight⟩⟩
    · rw [Derivation.tree, Expr.height_binaryOf] at hheight
      omega
    · rw [Derivation.tree, Expr.height_binaryOf] at hheight
      omega
  | .leaf mark e h, htokens, hreadable, hends, hnesting, hheight => by
    obtain ⟨t, ts, rfl, rfl, hts⟩ := List.map_eq_cons_iff.1 htokens
    rw [List.map_eq_nil_iff.1 hts]
    exact (reads_leaf_iff (leaf?_eq_some_iff.2 h)).2
      ⟨hreadable t.lexeme List.mem_cons_self, rfl, rfl⟩
  | .enclosed inner, htokens, hreadable, hends, hnesting, hheight => by
    obtain ⟨t, tail, rfl, hopening, htail⟩ := List.map_eq_cons_iff.1 htokens
    obtain ⟨innerTokens, last, rfl, hinner, hlast⟩ := List.map_eq_append_iff.1 htail
    obtain ⟨closing, nothing, rfl, hclosing, hnothing⟩ := List.map_eq_cons_iff.1 hlast
    obtain rfl := List.map_eq_nil_iff.1 hnothing
    obtain ⟨_, position⟩ := closing
    cases hclosing
    have hreadInner := (isReadable_cons.1 (isReadable_append.1 hreadable).1).2
    simp only [Derivation.nesting] at hnesting
    have hleaf : leaf? t.lexeme = none := hopening ▸ rfl
    rw [List.cons_append, List.append_assoc]
    exact (reads_opening_iff hleaf).2 ⟨hopening, by omega, position,
      reads_of_derivation inner hinner hreadInner (ends_closing _) (by omega) hheight⟩

theorem continues_of_links {limit : Int} {tier : Tier} {nesting : Nat} {tokens rest : List Token}
    {left : Expr} :
    (links : Links tier) → tokens.map Token.lexeme = links.lexemes → IsReadable links.lexemes →
      Ends tier (rest.map Token.lexeme) → ((nesting + links.nesting : Nat) : Int) ≤ limit →
      left.depth = left.height → ((links.tree left).height : Int) ≤ limit →
      Continues limit tier nesting left (tokens ++ rest) (links.tree left) rest
  | .done, htokens, hreadable, hends, hnesting, hdepth, hheight => by
    rw [List.map_eq_nil_iff.1 htokens]
    exact (continues_of_stops (hends.stops (Nat.le_refl _))).2 ⟨rfl, rfl⟩
  | .link mark operator h operand links, htokens, hreadable, hends, hnesting, hdepth, hheight => by
    obtain ⟨t, tail, rfl, rfl, htail⟩ := List.map_eq_cons_iff.1 htokens
    obtain ⟨operandTokens, linkTokens, rfl, hoperand, hlinks⟩ := List.map_eq_append_iff.1 htail
    obtain ⟨hreadHead, hreadLinks⟩ := isReadable_append.1 hreadable
    have hendsOperand : Ends tier.tighter ((linkTokens ++ rest).map Token.lexeme) := by
      rw [List.map_append, hlinks]
      exact links.ends h.height_tighter_lt hends
    simp only [Links.nesting] at hnesting
    simp only [Links.tree] at hheight
    have hle := links.height_le (.binaryOf operator left operand.tree)
    have hnode : (Expr.binaryOf operator left operand.tree).depth =
        (Expr.binaryOf operator left operand.tree).height :=
      Expr.depth_binaryOf_eq_height hdepth operand.depth_tree
    rw [Expr.height_binaryOf] at hle
    rw [List.cons_append, List.append_assoc]
    exact (continues_cons_iff (Tier.binary?_eq_some_iff.2 h)).2 ⟨operand.tree, linkTokens ++ rest,
      reads_of_derivation operand hoperand (isReadable_cons.1 hreadHead).2 hendsOperand (by omega)
        (by omega),
      by rw [hnode, Expr.height_binaryOf]; omega,
      continues_of_links links hlinks hreadLinks hends (by omega) hnode hheight⟩

end

/-! ## Whole formulas -/

/-- The lexemes before the end of a formula. -/
def lexemesBeforeFinish (tokens : List Token) : List Lexeme :=
  (tokens.map Token.lexeme).takeWhile (· != .finish)

/-- The lexemes of a formula end where its end is marked. -/
theorem exists_finish_of_ofFormula {source : String} {tokens : List Token}
    (h : Token.ofFormula source = .ok tokens) : .finish ∈ tokens.map Token.lexeme := by
  unfold Token.ofFormula at h
  generalize 0 = position at h
  generalize source.toList = cs at h
  fun_induction Token.scan position cs generalizing tokens with
  | case1 position =>
    cases h
    simp
  | case2 position c cs hblank ih => exact ih h
  | case3 position c cs hblank hscan => cases h
  | case4 position c cs hblank l after hscan this ih =>
    simp only [Outcome.bind_eq_ok_iff, Outcome.pure_eq_ok_iff] at h
    obtain ⟨rest, hrest, rfl⟩ := h
    exact List.mem_cons_of_mem _ (ih hrest)

theorem takeWhile_append_finish {ls rest : List Lexeme} (h : .finish ∉ ls) :
    (ls ++ .finish :: rest).takeWhile (· != .finish) = ls := by
  rw [List.takeWhile_append_of_pos]
  · simp
  · intro l hl
    simp only [bne_iff_ne]
    rintro rfl
    exact h hl

theorem readAll_eq_ok_iff :
    readAll limit tokens = .ok e ↔
      (∀ t ∈ tokens.head?, t.lexeme ≠ .finish) ∧ ∃ rest,
        Reads limit .disjunction 0 tokens e rest ∧ ∀ t ∈ rest.head?, t.lexeme = .finish := by
  unfold readAll
  split
  · next position rest =>
    simp
  · next hfirst =>
    have hstart : ∀ t ∈ tokens.head?, t.lexeme ≠ .finish := by
      intro t ht hfinish
      obtain ⟨lexeme, position⟩ := t
      obtain ⟨ts, rfl⟩ := List.head?_eq_some_iff.1 ht
      exact hfirst position ts (hfinish ▸ rfl)
    rw [Outcome.bind_eq_ok_iff]
    constructor
    · rintro ⟨⟨⟨e', rest⟩, shorter⟩, hread, heq⟩
      refine ⟨hstart, rest, ?_⟩
      cases rest with
      | nil =>
        cases heq
        exact ⟨⟨shorter, hread⟩, nofun⟩
      | cons t rest =>
        dsimp only at heq
        split at heq
        · next hfinish =>
          cases heq
          exact ⟨⟨shorter, hread⟩, fun t' ht' => Option.some.inj ht' ▸ hfinish⟩
        · cases heq
    · rintro ⟨-, rest, ⟨shorter, hread⟩, hrest⟩
      refine ⟨_, hread, ?_⟩
      cases rest with
      | nil => rfl
      | cons t rest =>
        dsimp only
        rw [if_pos (hrest t rfl)]
        rfl

theorem readAll_eq_error_of_read (hstart : ∀ t ∈ tokens.head?, t.lexeme ≠ .finish)
    {refusal : Refusal SyntaxFault}
    (h : read limit .disjunction 0 tokens = .error refusal ∨
      ∃ e next rest, Reads limit .disjunction 0 tokens e (next :: rest) ∧
        next.lexeme ≠ .finish ∧ refusal = .because (unexpected next)) :
    readAll limit tokens = .error refusal := by
  unfold readAll
  split
  · exact absurd rfl (hstart _ rfl)
  · rcases h with h | ⟨e, next, rest, ⟨shorter, hread⟩, hnext, rfl⟩
    · exact Outcome.bind_eq_error_iff.2 (.inl h)
    · exact Outcome.bind_eq_error_iff.2 (.inr ⟨_, hread, if_neg hnext⟩)

/-- What is read of a formula is what derives from the grammar within both bounds. -/
theorem readAll_iff_derivation (hfinish : .finish ∈ tokens.map Token.lexeme) (hlimit : 1 ≤ limit) :
    readAll limit tokens = .ok e ↔ ∃ d : Derivation .disjunction,
      d.lexemes = lexemesBeforeFinish tokens ∧ d.tree = e ∧ (d.nesting : Int) ≤ limit ∧
        (e.height : Int) ≤ limit ∧ IsReadable (lexemesBeforeFinish tokens) := by
  rw [readAll_eq_ok_iff]
  constructor
  · rintro ⟨-, rest, hread, hrest⟩
    obtain ⟨d, hd⟩ := exists_derivation hlimit (by omega) hread
    have hlexemes : d.lexemes = lexemesBeforeFinish tokens := by
      unfold lexemesBeforeFinish
      rw [hd.lexemes] at hfinish ⊢
      cases rest with
      | nil =>
        rw [List.map_nil, List.append_nil] at hfinish
        exact absurd hfinish d.finish_not_mem
      | cons t rest =>
        rw [List.map_cons, hrest t rfl, takeWhile_append_finish d.finish_not_mem]
    exact ⟨d, hlexemes, hd.tree, by simpa using hd.nesting, hd.height, hlexemes ▸ hd.readable⟩
  · rintro ⟨d, hlexemes, rfl, hnesting, hheight, hreadable⟩
    obtain ⟨l, ls, hls, -⟩ := d.exists_first
    obtain ⟨before, t, rest, rfl, ht, hbefore⟩ : ∃ before t rest, tokens = before ++ t :: rest ∧
        t.lexeme = .finish ∧ .finish ∉ before.map Token.lexeme := by
      obtain ⟨beforeLexemes, restLexemes, hsplit, hbefore⟩ := List.eq_append_cons_of_mem hfinish
      obtain ⟨before, tail, rfl, rfl, htail⟩ := List.map_eq_append_iff.1 hsplit
      obtain ⟨t, rest, rfl, ht, -⟩ := List.map_eq_cons_iff.1 htail
      exact ⟨before, t, rest, rfl, ht, hbefore⟩
    have hbeforeLexemes : before.map Token.lexeme = d.lexemes := by
      rw [hlexemes, lexemesBeforeFinish, List.map_append, List.map_cons, ht,
        takeWhile_append_finish hbefore]
    refine ⟨?_, t :: rest, ?_, fun t' ht' => Option.some.inj ht' ▸ ht⟩
    · obtain ⟨first, others, rfl, rfl, -⟩ := List.map_eq_cons_iff.1 (hbeforeLexemes.trans hls)
      intro t' ht'
      obtain rfl := Option.some.inj ht'
      intro hfirst
      exact d.finish_not_mem (hls ▸ hfirst ▸ List.mem_cons_self)
    · refine reads_of_derivation d hbeforeLexemes (hlexemes ▸ hreadable) ?_ (by omega) hheight
      rw [List.map_cons, ht]
      exact ends_finish _

/-- Reading leaves the same tokens and gives the same expression every time. -/
theorem Reads.unique {rest' : List Token} {e' : Expr} (h : Reads limit tier nesting tokens e rest)
    (h' : Reads limit tier nesting tokens e' rest') : e = e' ∧ rest = rest' := by
  obtain ⟨_, hread⟩ := h
  obtain ⟨_, hread'⟩ := h'
  cases hread.symm.trans hread'
  exact ⟨rfl, rfl⟩

/-- The tokens of a formula are read as an expression exactly if they derive from the
grammar, with nesting and height within the limit, and the expression is the one that the
derivation means, and if no integer among them has too many digits. There is no second
expression, and all else is refused. -/
theorem readAll_follows_grammar {source : String} {tokens : List Token} {limit : Int}
    (htokens : Token.ofFormula source = .ok tokens) (hlimit : 1 ≤ limit) :
    (∀ e, readAll limit tokens = .ok e ↔ ∃ d : Derivation .disjunction,
      d.lexemes = lexemesBeforeFinish tokens ∧ d.tree = e ∧ (d.nesting : Int) ≤ limit ∧
        (e.height : Int) ≤ limit ∧ IsReadable (lexemesBeforeFinish tokens)) ∧
    (∀ d d' : Derivation .disjunction, d.lexemes = lexemesBeforeFinish tokens →
      d'.lexemes = lexemesBeforeFinish tokens → d.tree = d'.tree) ∧
    ((¬∃ d : Derivation .disjunction, d.lexemes = lexemesBeforeFinish tokens ∧
      (d.nesting : Int) ≤ limit ∧ (d.tree.height : Int) ≤ limit ∧
      IsReadable (lexemesBeforeFinish tokens)) →
        ∃ refusal, readAll limit tokens = .error refusal) := by
  have hread := fun e => readAll_iff_derivation (e := e) (exists_finish_of_ofFormula htokens) hlimit
  refine ⟨hread, fun d d' hd hd' => Derivation.tree_eq_of_lexemes_eq (hd.trans hd'.symm), ?_⟩
  intro hnone
  cases hresult : readAll limit tokens with
  | error refusal => exact ⟨refusal, rfl⟩
  | ok e =>
    obtain ⟨d, hlexemes, rfl, hnesting, hheight, hreadable⟩ := (hread e).1 hresult
    exact absurd ⟨d, hlexemes, hnesting, hheight, hreadable⟩ hnone

/-- The tokens of `!a - 1 - -b == 2`, a negated comparison with a chain of differences. -/
def differencesTokens : List Token :=
  [⟨.symbol .bang, 0⟩, ⟨.name "a", 1⟩, ⟨.symbol .minus, 3⟩, ⟨.number ⟨['1'], none, none⟩, 5⟩,
    ⟨.symbol .minus, 7⟩, ⟨.symbol .minus, 9⟩, ⟨.name "b", 10⟩, ⟨.symbol .equal, 12⟩,
    ⟨.number ⟨['2'], none, none⟩, 15⟩, ⟨.finish, 16⟩]

/-- A limit of five is enough for `!a - 1 - -b == 2`, and a limit of four is not: its
derivation is nested twice and means an expression of height five. -/
theorem readAll_follows_grammar_differences :
    Token.ofFormula "!a - 1 - -b == 2" = .ok differencesTokens ∧
    (∃ d : Derivation .disjunction, d.lexemes = lexemesBeforeFinish differencesTokens ∧
      d.tree = .unaryOf .not (.binaryOf .equal
        (.binaryOf .sub (.binaryOf .sub (.name "a") (.literal (.int 1)))
          (.unaryOf .negate (.name "b")))
        (.literal (.int 2))) ∧
      (d.nesting : Int) ≤ 5 ∧ d.tree.height = 5) ∧
    ¬∃ d : Derivation .disjunction, d.lexemes = lexemesBeforeFinish differencesTokens ∧
      (d.nesting : Int) ≤ 4 ∧ (d.tree.height : Int) ≤ 4 := by
  have htokens : Token.ofFormula "!a - 1 - -b == 2" = .ok differencesTokens := by decide +kernel
  have hfive : (1 : Int) ≤ 5 := by decide
  have hfour : (1 : Int) ≤ 4 := by decide
  refine ⟨htokens, ?_, ?_⟩
  · obtain ⟨d, hlexemes, htree, hnesting, -⟩ :=
      ((readAll_follows_grammar htokens hfive).1 _).1 (by with_unfolding_all rfl)
    exact ⟨d, hlexemes, htree, hnesting, htree ▸ rfl⟩
  · rintro ⟨d, hlexemes, hnesting, hheight⟩
    have hreadable : IsReadable (lexemesBeforeFinish differencesTokens) := by decide
    have hread := ((readAll_follows_grammar htokens hfour).1 d.tree).2
      ⟨d, hlexemes, rfl, hnesting, hheight, hreadable⟩
    have hfault : readAll 4 differencesTokens = .error (.because (.tooDeep 4)) := by
      with_unfolding_all rfl
    cases hfault.symm.trans hread

/-- The lexeme of an integer with too many digits. -/
def overlongNumeral : Lexeme := .number ⟨Text.overlongDigits, none, none⟩

theorem isOverlong_overlongNumeral : overlongNumeral.isOverlong = true := by
  have hnone : Text.integer? Text.overlongDigits = none :=
    if_neg (Nat.not_le.2 Text.maxDigits_lt_length_overlongDigits)
  show (true && true && (Text.integer? Text.overlongDigits).isNone) = true
  rw [hnone]
  rfl

theorem isProper_overlongNumeral : overlongNumeral.IsProper :=
  show Numeral.IsLiteral _ from
    { whole := fun _ hc => Text.eq_of_mem_overlongDigits hc ▸ rfl
      fraction := nofun
      has_digit := .inl Text.overlongDigits_ne_nil
      exponent := nofun }

theorem length_text_overlongNumeral : overlongNumeral.text.length = Text.maxDigits + 1 := by
  show (String.ofList (Text.overlongDigits ++ [] ++ [])).length = _
  rw [List.append_nil, List.append_nil, String.length_ofList, Text.overlongDigits,
    List.length_replicate]

/-- Not everything that derives within the bounds is read. -/
theorem overlong_numeral_is_not_read :
    ∃ tokens, Token.ofFormula overlongNumeral.text = .ok tokens ∧
      (∃ d : Derivation .disjunction, d.lexemes = lexemesBeforeFinish tokens ∧ d.nesting = 0 ∧
        d.tree.height = 1) ∧
      ∀ e, readAll 1 tokens ≠ .ok e := by
  have htokens := Token.ofFormula_text isProper_overlongNumeral
  refine ⟨_, htokens, ⟨.ofLeaf (.number ⟨Text.overlongDigits, none, none⟩) .disjunction,
    rfl, rfl, rfl⟩, fun e hread => ?_⟩
  obtain ⟨-, -, -, -, -, hreadable⟩ := ((readAll_follows_grammar htokens (by decide)).1 e).1 hread
  cases isOverlong_overlongNumeral.symm.trans (hreadable overlongNumeral List.mem_cons_self)

end Tariff.Formula
