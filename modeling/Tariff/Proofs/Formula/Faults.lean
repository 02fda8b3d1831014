import Tariff.Proofs.Formula.Compiled
import Tariff.Proofs.Formula.Tokens

/-!
# The first impossible token

A formula that is refused for its grammar is refused at its first impossible token
(`compile_error_points`): what stands before the token begins some formula, and no formula
goes on with it. A missing parenthesis is reported where the innermost open one stands,
but it is noticed in the same way.

The first part builds a derivation along the reading that failed, with the shortest ends
for all that is still open. The second part follows from the look-ahead of reading: a
formula that went on with the token would be read, and up to that token as before, so it
would fail there too (`HaltsAt`). Limits on depth do not come in, since a larger limit
refuses nothing that a smaller one allows.
-/

namespace Tariff.Formula

/-! ## What can come next -/

/-- Whether a formula begins with lexemes. -/
def CanBegin (ls : List Lexeme) : Prop :=
  ∃ d : Derivation .disjunction, ls <+: d.lexemes

/-- Whether a formula goes on after lexemes with one more, or ends there. -/
def CanFollow (ls : List Lexeme) (l : Lexeme) : Prop :=
  ∃ d : Derivation .disjunction, ls ++ [l] <+: d.lexemes ++ [.finish]

theorem CanBegin.canFollow {ls : List Lexeme} {l : Lexeme} (h : CanBegin (ls ++ [l])) :
    CanFollow ls l := by
  obtain ⟨d, hd⟩ := h
  exact ⟨d, hd.trans (List.prefix_append _ _)⟩

theorem CanBegin.finish_not_mem {ls : List Lexeme} (h : CanBegin ls) : .finish ∉ ls := by
  obtain ⟨d, hd⟩ := h
  exact fun hfinish => d.finish_not_mem (hd.subset hfinish)

/-! ## Open parentheses -/

/-- The positions of the parentheses that are open after a token, the innermost first. -/
def openAfter (stack : List Nat) (t : Token) : List Nat :=
  match t.lexeme with
  | .opening => t.position :: stack
  | .closing => stack.tail
  | _ => stack

/-- The positions of the parentheses that tokens leave open, the innermost first. -/
def openParentheses (tokens : List Token) : List Nat := tokens.foldl openAfter []

/-! No parenthesis joins or precedes operands, or is an operand by itself. -/

theorem Tier.Joins.openAfter_eq {tier : Tier} {t : Token} {operator : BinaryOperator}
    (h : tier.Joins t.lexeme operator) (stack : List Nat) : openAfter stack t = stack := by
  unfold openAfter
  generalize t.lexeme = l at h
  cases h <;> rfl

theorem Tier.Precedes.openAfter_eq {tier : Tier} {t : Token} {operator : UnaryOperator}
    (h : tier.Precedes t.lexeme operator) (stack : List Nat) : openAfter stack t = stack := by
  unfold openAfter
  generalize t.lexeme = l at h
  cases h <;> rfl

theorem Leaf.openAfter_eq {t : Token} {e : Expr} (h : Leaf t.lexeme e) (stack : List Nat) :
    openAfter stack t = stack := by
  unfold openAfter
  generalize t.lexeme = l at h
  cases h <;> rfl

mutual

/-- A derivation closes what it opens. -/
theorem Derivation.foldl_openAfter {tier : Tier} (stack : List Nat) {tokens : List Token} :
    (d : Derivation tier) → tokens.map Token.lexeme = d.lexemes →
      tokens.foldl openAfter stack = stack
  | .chain _ first links, h => by
    obtain ⟨operand, others, rfl, hfirst, hlinks⟩ := List.map_eq_append_iff.1 h
    rw [List.foldl_append, first.foldl_openAfter stack hfirst, links.foldl_openAfter stack hlinks]
  | .prefixed _ _ hmark operand, h => by
    obtain ⟨t, ts, rfl, rfl, hoperand⟩ := List.map_eq_cons_iff.1 h
    rw [List.foldl_cons, hmark.openAfter_eq, operand.foldl_openAfter stack hoperand]
  | .plain _ operand, h => operand.foldl_openAfter stack h
  | .single operand, h => operand.foldl_openAfter stack h
  | .compared left _ _ hmark right, h => by
    obtain ⟨leftTokens, tail, rfl, hleft, htail⟩ := List.map_eq_append_iff.1 h
    obtain ⟨t, rightTokens, rfl, rfl, hright⟩ := List.map_eq_cons_iff.1 htail
    rw [List.foldl_append, left.foldl_openAfter stack hleft, List.foldl_cons,
      hmark.openAfter_eq, right.foldl_openAfter stack hright]
  | .leaf _ _ hmark, h => by
    obtain ⟨t, ts, rfl, rfl, hts⟩ := List.map_eq_cons_iff.1 h
    rw [List.map_eq_nil_iff.1 hts, List.foldl_cons, hmark.openAfter_eq, List.foldl_nil]
  | .enclosed inner, h => by
    obtain ⟨t, tail, rfl, hopening, htail⟩ := List.map_eq_cons_iff.1 h
    obtain ⟨innerTokens, last, rfl, hinner, hlast⟩ := List.map_eq_append_iff.1 htail
    obtain ⟨closing, nothing, rfl, hclosing, hnothing⟩ := List.map_eq_cons_iff.1 hlast
    rw [List.map_eq_nil_iff.1 hnothing, List.foldl_cons, List.foldl_append,
      inner.foldl_openAfter _ hinner, List.foldl_cons, List.foldl_nil]
    simp [openAfter, hopening, hclosing]

theorem Links.foldl_openAfter {tier : Tier} (stack : List Nat) {tokens : List Token} :
    (links : Links tier) → tokens.map Token.lexeme = links.lexemes →
      tokens.foldl openAfter stack = stack
  | .done, h => by rw [List.map_eq_nil_iff.1 h, List.foldl_nil]
  | .link _ _ hmark operand links, h => by
    obtain ⟨t, tail, rfl, rfl, htail⟩ := List.map_eq_cons_iff.1 h
    obtain ⟨operandTokens, others, rfl, hoperand, hlinks⟩ := List.map_eq_append_iff.1 htail
    rw [List.foldl_cons, hmark.openAfter_eq, List.foldl_append,
      operand.foldl_openAfter stack hoperand, links.foldl_openAfter stack hlinks]

end

/-- The innermost parenthesis that is open after a derivation is the one before it. -/
theorem openParentheses_unclosed {outer inner : List Token} {position : Nat} {tier : Tier}
    (d : Derivation tier) (h : inner.map Token.lexeme = d.lexemes) :
    (openParentheses (outer ++ ⟨.opening, position⟩ :: inner)).head? = some position := by
  unfold openParentheses
  rw [List.foldl_append, List.foldl_cons, d.foldl_openAfter _ h]
  rfl

/-! ## Where reading halts -/

variable {limit : Int} {tier : Tier} {nesting : Nat} {tokens rest consumed : List Token}
  {e left : Expr} {t : Token} {fault : SyntaxFault}

/-- Whether a fault tells the truth about the tokens before and after the place where
reading halts: it names what comes next, or the innermost open parenthesis. -/
inductive Blames : SyntaxFault → List Token → List Token → Prop where
  | nothing (consumed : List Token) : Blames .unexpectedEnd consumed []
  | next (consumed : List Token) (t : Token) (rest : List Token) :
      Blames (unexpected t) consumed (t :: rest)
  | parenthesis (outer : List Token) (position : Nat) {inner : List Token} {tier : Tier}
      (d : Derivation tier) (h : inner.map Token.lexeme = d.lexemes) (rest : List Token) :
      Blames (.unclosed position) (outer ++ ⟨.opening, position⟩ :: inner) rest

theorem Blames.append (before : List Token) (h : Blames fault consumed rest) :
    Blames fault (before ++ consumed) rest := by
  cases h with
  | nothing => exact .nothing _
  | next _ t rest => exact .next _ t rest
  | parenthesis outer position d h rest =>
    rw [← List.append_assoc]
    exact .parenthesis _ position d h rest

/-- Whether the reading of an operand halts between tokens: what stands before begins an
operand and is read, and no operand goes on from there with the lexeme that comes next or one
like it. -/
structure HaltsAt (limit : Int) (tier : Tier) (nesting : Nat) (fault : SyntaxFault)
    (consumed rest : List Token) : Prop where
  possible : ∃ d : Derivation tier, consumed.map Token.lexeme <+: d.lexemes
  readable : IsReadable (consumed.map Token.lexeme)
  impossible : ∀ limit' rest' e last, limit ≤ limit' → SameNext rest rest' →
    ¬Reads limit' tier nesting (consumed ++ rest') e last
  blames : Blames fault consumed rest

/-- Whether a chain halts between tokens, in the same sense. -/
structure Links.HaltAt (limit : Int) (tier : Tier) (nesting : Nat) (left : Expr)
    (fault : SyntaxFault) (consumed rest : List Token) : Prop where
  possible : ∃ links : Links tier, consumed.map Token.lexeme <+: links.lexemes
  readable : IsReadable (consumed.map Token.lexeme)
  impossible : ∀ limit' rest' e last, limit ≤ limit' → SameNext rest rest' →
    ¬Continues limit' tier nesting left (consumed ++ rest') e last
  blames : Blames fault consumed rest

/-- An operand that was read is derived, and it is read in the same way before whatever
begins as what followed it. -/
theorem Reads.exists_operand (h : Reads limit tier nesting tokens e rest) :
    ∃ (operand : List Token) (d : Derivation tier), tokens = operand ++ rest ∧
      operand.map Token.lexeme = d.lexemes ∧ IsReadable d.lexemes ∧
      ∀ limit' rest' e' last, limit ≤ limit' → SameNext rest rest' →
        Reads limit' tier nesting (operand ++ rest') e' last → e' = e ∧ last = rest' := by
  obtain ⟨operand, rfl, hlook⟩ := h.lookahead
  have hlarger : Reads (max limit (max 1 nesting)) tier nesting (operand ++ rest) e rest :=
    h.mono (by omega)
  obtain ⟨d, hd⟩ := exists_derivation (by omega) (by omega) hlarger
  have hlexemes := hd.lexemes
  rw [List.map_append] at hlexemes
  exact ⟨operand, d, rfl, List.append_cancel_right hlexemes, hd.readable,
    fun limit' rest' e' last hle hnext hread => hread.unique (hlook limit' rest' hle hnext)⟩

namespace HaltsAt

/-- Nothing is impossible but what comes first. -/
theorem first (himpossible : ∀ limit' rest' e last, limit ≤ limit' → SameNext rest rest' →
      ¬Reads limit' tier nesting rest' e last)
    (hblames : Blames fault [] rest) : HaltsAt limit tier nesting fault [] rest where
  possible := ⟨.ofLeaf .true tier, List.nil_prefix⟩
  readable := nofun
  impossible := himpossible
  blames := hblames

theorem chain_first (htier : tier.chains = true)
    (h : HaltsAt limit tier.tighter nesting fault consumed rest) :
    HaltsAt limit tier nesting fault consumed rest where
  possible := by
    obtain ⟨d, hd⟩ := h.possible
    exact ⟨.chain htier d .done, hd.trans (List.prefix_append _ _)⟩
  readable := h.readable
  impossible := by
    intro limit' rest' e last hle hnext hread
    obtain ⟨first, after, hfirst, -⟩ := (reads_chain_iff htier).1 hread
    exact h.impossible limit' rest' first after hle hnext hfirst
  blames := h.blames

theorem chain_links {first : Expr} (htier : tier.chains = true)
    (hfirst : Reads limit tier.tighter nesting tokens first (consumed ++ rest))
    (h : Links.HaltAt limit tier nesting first fault consumed rest) :
    ∃ operand, tokens = (operand ++ consumed) ++ rest ∧
      HaltsAt limit tier nesting fault (operand ++ consumed) rest := by
  obtain ⟨operand, d, rfl, hd, hreadable, hsame⟩ := hfirst.exists_operand
  refine ⟨operand, (List.append_assoc _ _ _).symm, ?_, ?_, ?_, h.blames.append operand⟩
  · obtain ⟨links, hlinks⟩ := h.possible
    refine ⟨.chain htier d links, ?_⟩
    rw [List.map_append, hd]
    exact (List.prefix_append_right_inj _).2 hlinks
  · rw [List.map_append, hd]
    exact isReadable_append.2 ⟨hreadable, h.readable⟩
  · intro limit' rest' e last hle hnext hread
    rw [List.append_assoc] at hread
    obtain ⟨first', after, hfirst', hlinks⟩ := (reads_chain_iff htier).1 hread
    obtain ⟨rfl, rfl⟩ := hsame limit' _ first' after hle (hnext.append consumed) hfirst'
    exact h.impossible limit' rest' e last hle hnext hlinks

theorem prefixed {operator : UnaryOperator} (hunary : tier.unary? t.lexeme = some operator)
    (h : HaltsAt limit tier (nesting + 1) fault consumed rest) :
    HaltsAt limit tier nesting fault (t :: consumed) rest where
  possible := by
    obtain ⟨d, hd⟩ := h.possible
    exact ⟨.prefixed t.lexeme operator (Tier.unary?_eq_some_iff.1 hunary) d,
      (List.prefix_cons_inj _).2 hd⟩
  readable :=
    isReadable_cons.2 ⟨(Tier.unary?_eq_some_iff.1 hunary).isOverlong_eq_false, h.readable⟩
  impossible := by
    intro limit' rest' e last hle hnext hread
    obtain ⟨-, operand, hoperand, -⟩ := (reads_unary_iff hunary).1 hread
    exact h.impossible limit' rest' operand last hle hnext hoperand
  blames := h.blames.append [t]

theorem plain (htier : tier.prefixes = true)
    (hhead : ∀ t' ∈ (consumed ++ rest).head?, tier.unary? t'.lexeme = none)
    (h : HaltsAt limit tier.tighter nesting fault consumed rest) :
    HaltsAt limit tier nesting fault consumed rest where
  possible := by
    obtain ⟨d, hd⟩ := h.possible
    exact ⟨.plain htier d, hd⟩
  readable := h.readable
  impossible := by
    intro limit' rest' e last hle hnext hread
    have hhead' := (hnext.append consumed).unary?_eq_none hhead
    exact h.impossible limit' rest' e last hle hnext ((reads_iff_tighter htier hhead').1 hread)
  blames := h.blames

theorem single (h : HaltsAt limit .sum nesting fault consumed rest) :
    HaltsAt limit .comparison nesting fault consumed rest where
  possible := by
    obtain ⟨d, hd⟩ := h.possible
    exact ⟨.single d, hd⟩
  readable := h.readable
  impossible := by
    intro limit' rest' e last hle hnext hread
    obtain ⟨left, after, hleft, -⟩ := reads_comparison_iff.1 hread
    exact h.impossible limit' rest' left after hle hnext hleft
  blames := h.blames

theorem compared {operator : BinaryOperator}
    (hleft : Reads limit .sum nesting tokens left (t :: (consumed ++ rest)))
    (hbinary : Tier.comparison.binary? t.lexeme = some operator)
    (h : HaltsAt limit .sum nesting fault consumed rest) :
    ∃ operand, tokens = (operand ++ t :: consumed) ++ rest ∧
      HaltsAt limit .comparison nesting fault (operand ++ t :: consumed) rest := by
  obtain ⟨operand, d, rfl, hd, hreadable, hsame⟩ := hleft.exists_operand
  have hmark := Tier.binary?_eq_some_iff.1 hbinary
  refine ⟨operand, by rw [List.append_assoc, List.cons_append], ?_, ?_, ?_, ?_⟩
  · obtain ⟨d', hd'⟩ := h.possible
    refine ⟨.compared d t.lexeme operator hmark d', ?_⟩
    rw [List.map_append, hd]
    exact (List.prefix_append_right_inj _).2 ((List.prefix_cons_inj _).2 hd')
  · rw [List.map_append, hd]
    exact isReadable_append.2
      ⟨hreadable, isReadable_cons.2 ⟨hmark.isOverlong_eq_false, h.readable⟩⟩
  · intro limit' rest' e last hle hnext hread
    rw [List.append_assoc] at hread
    obtain ⟨left', after, hleft', hafter⟩ := reads_comparison_iff.1 hread
    have hsameNext : SameNext (t :: (consumed ++ rest)) (t :: (consumed ++ rest')) :=
      .cons (.same _) _ _
    obtain ⟨rfl, rfl⟩ := hsame limit' _ left' after hle hsameNext hleft'
    rcases hafter with ⟨hstops, -⟩ | ⟨next, beyond, operator', right, heq, -, hright, -⟩
    · cases hbinary.symm.trans (hstops t rfl)
    · cases heq
      exact h.impossible limit' rest' right last hle hnext hright
  · rw [← List.singleton_append, ← List.append_assoc]
    exact h.blames.append _

theorem enclosed (hleaf : leaf? t.lexeme = none) (hopening : t.lexeme = .opening)
    (h : HaltsAt limit .disjunction (nesting + 1) fault consumed rest) :
    HaltsAt limit .atom nesting fault (t :: consumed) rest where
  possible := by
    obtain ⟨d, hd⟩ := h.possible
    refine ⟨.enclosed d, ?_⟩
    rw [List.map_cons, hopening]
    exact (List.prefix_cons_inj _).2 (hd.trans (List.prefix_append _ _))
  readable := isReadable_cons.2 ⟨hopening ▸ rfl, h.readable⟩
  impossible := by
    intro limit' rest' e last hle hnext hread
    obtain ⟨-, -, position, hinner⟩ := (reads_opening_iff hleaf).1 hread
    exact h.impossible limit' rest' e _ hle hnext hinner
  blames := h.blames.append [t]

/-- What stands between parentheses ends with the closing one. -/
theorem unclosed (hleaf : leaf? t.lexeme = none) (hopening : t.lexeme = .opening)
    (hinner : Reads limit .disjunction (nesting + 1) tokens e rest)
    (hrest : ∀ t' ∈ rest.head?, t'.lexeme ≠ .closing) :
    ∃ inner, tokens = inner ++ rest ∧
      HaltsAt limit .atom nesting (.unclosed t.position) (t :: inner) rest := by
  obtain ⟨inner, d, rfl, hd, hreadable, hsame⟩ := hinner.exists_operand
  refine ⟨inner, rfl, ?_, ?_, ?_, ?_⟩
  · refine ⟨.enclosed d, ?_⟩
    rw [List.map_cons, hopening, hd]
    exact (List.prefix_cons_inj _).2 (List.prefix_append _ _)
  · rw [List.map_cons, hopening, hd]
    exact isReadable_cons.2 ⟨rfl, hreadable⟩
  · intro limit' rest' e' last hle hnext hread
    obtain ⟨-, -, position, hinner'⟩ := (reads_opening_iff hleaf).1 hread
    obtain ⟨-, rfl⟩ := hsame limit' rest' e' _ hle hnext hinner'
    refine hnext.forall_head (fun l => l ≠ .closing) (fun l l' hlike hl => ?_) hrest _ rfl rfl
    cases hlike with
    | same => exact hl
    | number => exact nofun
  · obtain ⟨_, position⟩ := t
    cases hopening
    exact .parenthesis [] position d hd rest

end HaltsAt

namespace Links.HaltAt

theorem operand {operator : BinaryOperator} (hbinary : tier.binary? t.lexeme = some operator)
    (h : HaltsAt limit tier.tighter nesting fault consumed rest) :
    Links.HaltAt limit tier nesting left fault (t :: consumed) rest where
  possible := by
    obtain ⟨d, hd⟩ := h.possible
    refine ⟨.link t.lexeme operator (Tier.binary?_eq_some_iff.1 hbinary) d .done, ?_⟩
    exact (List.prefix_cons_inj _).2 (hd.trans (List.prefix_append _ _))
  readable :=
    isReadable_cons.2 ⟨(Tier.binary?_eq_some_iff.1 hbinary).isOverlong_eq_false, h.readable⟩
  impossible := by
    intro limit' rest' e last hle hnext hchain
    obtain ⟨right, after, hright, -⟩ := (continues_cons_iff hbinary).1 hchain
    exact h.impossible limit' rest' right after hle hnext hright
  blames := h.blames.append [t]

theorem links {operator : BinaryOperator} {right : Expr}
    (hbinary : tier.binary? t.lexeme = some operator)
    (hright : Reads limit tier.tighter nesting tokens right (consumed ++ rest))
    (h : Links.HaltAt limit tier nesting (.binaryOf operator left right) fault consumed rest) :
    ∃ operand, t :: tokens = (t :: (operand ++ consumed)) ++ rest ∧
      Links.HaltAt limit tier nesting left fault (t :: (operand ++ consumed)) rest := by
  obtain ⟨operand, d, rfl, hd, hreadable, hsame⟩ := hright.exists_operand
  have hmark := Tier.binary?_eq_some_iff.1 hbinary
  refine ⟨operand, by rw [List.cons_append, List.append_assoc], ?_, ?_, ?_,
    h.blames.append (t :: operand)⟩
  · obtain ⟨links, hlinks⟩ := h.possible
    refine ⟨.link t.lexeme operator hmark d links, ?_⟩
    rw [List.map_cons, List.map_append, hd]
    exact (List.prefix_cons_inj _).2 ((List.prefix_append_right_inj _).2 hlinks)
  · rw [List.map_cons, List.map_append, hd]
    exact isReadable_cons.2
      ⟨hmark.isOverlong_eq_false, isReadable_append.2 ⟨hreadable, h.readable⟩⟩
  · intro limit' rest' e last hle hnext hchain
    rw [List.cons_append, List.append_assoc] at hchain
    obtain ⟨right', after, hright', -, hlinks⟩ := (continues_cons_iff hbinary).1 hchain
    obtain ⟨rfl, rfl⟩ := hsame limit' _ right' after hle (hnext.append consumed) hright'
    exact h.impossible limit' rest' e last hle hnext hlinks

end Links.HaltAt

/-- Whether reading tokens fails for being too deep, or at a place between them. -/
def Halts (limit : Int) (fault : SyntaxFault) (At : List Token → List Token → Prop)
    (tokens : List Token) : Prop :=
  fault = .tooDeep limit ∨ ∃ consumed rest, tokens = consumed ++ rest ∧ At consumed rest

/-- What halts in a part halts as a whole, before the same rest. -/
theorem Halts.imp {At At' : List Token → List Token → Prop} {tokens' : List Token}
    (h : Halts limit fault At tokens)
    (hAt : ∀ consumed rest, tokens = consumed ++ rest → At consumed rest →
      ∃ consumed', tokens' = consumed' ++ rest ∧ At' consumed' rest) :
    Halts limit fault At' tokens' := by
  rcases h with hdeep | ⟨consumed, rest, heq, hat⟩
  · exact .inl hdeep
  · obtain ⟨consumed', heq', hat'⟩ := hAt consumed rest heq hat
    exact .inr ⟨consumed', rest, heq', hat'⟩

theorem halts_of_tooDeep {At : List Token → List Token → Prop}
    (h : .because fault = (SyntaxFault.tooDeep limit).refusal) : Halts limit fault At tokens :=
  .inl (Refusal.showing_eq_because_iff.1 h.symm).2.symm

/-! The place is found along the reading that failed. -/

mutual

theorem exists_halt {limit : Int} {tier : Tier} {nesting : Nat} {tokens : List Token}
    {fault : SyntaxFault} (h : read limit tier nesting tokens = .error (.because fault)) :
    Halts limit fault (HaltsAt limit tier nesting fault) tokens := by
  cases tokens with
  | nil =>
    cases refusal_of_read_nil h
    refine .inr ⟨[], [], rfl, .first (fun limit' rest' e last _ hnext hread => ?_) (.nothing [])⟩
    rw [hnext.eq_nil] at hread
    exact not_reads_nil hread
  | cons t tokens =>
    rcases tier.sort_cases with htier | htier | rfl | rfl
    · have hheight := Tier.height_tighter (.inl htier)
      rcases refusal_of_read_chain htier h with h | ⟨first, after, hfirst, h⟩
      · exact (exists_halt h).imp fun consumed rest heq hhalt =>
          ⟨consumed, heq, hhalt.chain_first htier⟩
      · have hshorter := hfirst.length_lt
        refine (Links.exists_halt h).imp fun consumed rest heq hhalt => ?_
        obtain ⟨operand, heq, hhalt⟩ := HaltsAt.chain_links htier (heq ▸ hfirst) hhalt
        exact ⟨_, heq, hhalt⟩
    · cases hunary : tier.unary? t.lexeme with
      | some operator =>
        rcases refusal_of_read_unary hunary h with hdeep | h
        · exact halts_of_tooDeep hdeep
        · exact (exists_halt h).imp fun consumed rest heq hhalt =>
            ⟨t :: consumed, congrArg (t :: ·) heq, hhalt.prefixed hunary⟩
      | none =>
        have hheight := Tier.height_tighter (.inr htier)
        refine (exists_halt (refusal_of_read_plain htier hunary h)).imp
          fun consumed rest heq hhalt => ⟨consumed, heq, hhalt.plain htier ?_⟩
        rw [← heq]
        exact fun t' ht' => Option.some.inj ht' ▸ hunary
    · rcases refusal_of_read_comparison h with
        hdeep | h | ⟨left, next, beyond, operator, hleft, hbinary, h⟩
      · exact halts_of_tooDeep hdeep
      · exact (exists_halt h).imp fun consumed rest heq hhalt => ⟨consumed, heq, hhalt.single⟩
      · have hshorter := hleft.length_lt
        refine (exists_halt h).imp fun consumed rest heq hhalt => ?_
        obtain ⟨operand, heq, hhalt⟩ := HaltsAt.compared (heq ▸ hleft) hbinary hhalt
        exact ⟨_, heq, hhalt⟩
    · obtain ⟨-, h⟩ | ⟨hleaf, ⟨hopening, h⟩ | ⟨hopening, hdeep | h | ⟨e, rest, hinner, hrest, h⟩⟩⟩ :=
        refusal_of_read_atom h
      · cases h
      · cases h
        refine .inr ⟨[], t :: tokens, rfl,
          .first (fun limit' rest' e last _ hnext hread => ?_) (.next [] t tokens)⟩
        obtain ⟨t', rest', rfl, hlike⟩ := hnext.exists_cons
        have ht' := hlike.eq_of_leaf? hleaf
        exact hopening (ht'.trans ((reads_opening_iff (ht' ▸ hleaf)).1 hread).1)
      · exact halts_of_tooDeep hdeep
      · exact (exists_halt h).imp fun consumed rest heq hhalt =>
          ⟨t :: consumed, congrArg (t :: ·) heq, hhalt.enclosed hleaf hopening⟩
      · cases h
        obtain ⟨inner, rfl, hhalt⟩ := HaltsAt.unclosed hleaf hopening hinner hrest
        exact .inr ⟨t :: inner, rest, rfl, hhalt⟩
termination_by (tokens.length, tier.height)
decreasing_by
  all_goals
    subst_vars
    simp only [Prod.lex_def, List.length_cons, true_and] at *
    have hcomparison : Tier.sum.height < Tier.comparison.height := by decide
    omega

theorem Links.exists_halt {limit : Int} {tier : Tier} {nesting : Nat} {tokens : List Token}
    {left : Expr} {fault : SyntaxFault}
    (h : chain limit tier nesting left tokens = .error (.because fault)) :
    Halts limit fault (Links.HaltAt limit tier nesting left fault) tokens := by
  obtain ⟨t, beyond, operator, rfl, hbinary, hdeep | h | ⟨right, after, hright, h⟩⟩ :=
    refusal_of_chain h
  · exact halts_of_tooDeep hdeep
  · exact (exists_halt h).imp fun consumed rest heq hhalt =>
      ⟨t :: consumed, congrArg (t :: ·) heq, .operand hbinary hhalt⟩
  · have hshorter := hright.length_lt
    refine (Links.exists_halt h).imp fun consumed rest heq hhalt => ?_
    obtain ⟨operand, heq, hhalt⟩ := Links.HaltAt.links hbinary (heq ▸ hright) hhalt
    exact ⟨_, heq, hhalt⟩
termination_by (tokens.length, 0)
decreasing_by
  all_goals
    subst_vars
    simp only [Prod.lex_def, List.length_cons] at *
    omega

end

/-! ## Whole formulas -/

/-- A lexeme cannot follow if no reading goes on with it, or with one like it, to the end of a
formula. -/
theorem not_canFollow (limit : Int) (rest : List Token)
    (hreadable : IsReadable (consumed.map Token.lexeme))
    (h : ∀ limit' rest' e last, limit ≤ limit' → SameNext (t :: rest) rest' →
      Reads limit' .disjunction 0 (consumed ++ rest') e last →
      ¬∀ t' ∈ last.head?, t'.lexeme = .finish) :
    ¬CanFollow (consumed.map Token.lexeme) t.lexeme := by
  rintro ⟨d, more, hmore⟩
  -- The derivation may go on with integers that are not read, so zeros are put in their places.
  obtain ⟨d, hd⟩ := d.exists_shortened
  have hdReadable : IsReadable d.lexemes := hd ▸ isReadable_map_shortened _
  let others : List Token := (more.map Lexeme.shortened).map fun l => ⟨l, 0⟩
  have hothers : others.map Token.lexeme = more.map Lexeme.shortened := by
    simp [others, Function.comp_def]
  have hlexemes : (consumed ++ ⟨t.lexeme.shortened, 0⟩ :: others).map Token.lexeme =
      d.lexemes ++ [.finish] := by
    have hshortened := congrArg (List.map Lexeme.shortened) hmore
    simp only [List.map_append, List.map_cons, List.map_nil, hreadable.map_shortened, ← hd,
      List.append_assoc, List.singleton_append] at hshortened
    rw [List.map_append, List.map_cons, hothers, hshortened]
    rfl
  obtain ⟨operand, last, hsplit, hoperand, hlast⟩ := List.map_eq_append_iff.1 hlexemes
  obtain ⟨finish, nothing, rfl, hfinish, hnothing⟩ := List.map_eq_cons_iff.1 hlast
  obtain rfl := List.map_eq_nil_iff.1 hnothing
  have hends : Ends .disjunction ([finish].map Token.lexeme) := by
    rw [List.map_singleton, hfinish]
    exact ends_finish _
  have hread : Reads (max limit (max d.nesting d.tree.height)) .disjunction 0
      (operand ++ [finish]) d.tree [finish] :=
    reads_of_derivation d hoperand hdReadable hends (by omega) (by omega)
  rw [← hsplit] at hread
  exact h _ _ d.tree [finish] (Int.le_max_left _ _) (.cons t.lexeme.alike_shortened _ _) hread
    fun t' ht' => Option.some.inj ht' ▸ hfinish

/-- Whether a fault points at the first impossible token among tokens. Faults that are not
about a token point at none. -/
def PointsAt (tokens : List Token) : SyntaxFault → Prop
  | .unexpectedToken text position => ∃ before t after, tokens = before ++ t :: after ∧
      t.text = text ∧ t.position = position ∧ (∀ s ∈ before, s.position < position) ∧
      CanBegin (before.map Token.lexeme) ∧ ¬CanBegin ((before ++ [t]).map Token.lexeme)
  | .unexpectedEnd => CanBegin (lexemesBeforeFinish tokens) ∧
      ¬∃ d : Derivation .disjunction, d.lexemes = lexemesBeforeFinish tokens
  | .unclosed position => ∃ before t after, tokens = before ++ t :: after ∧
      (openParentheses before).head? = some position ∧ CanBegin (before.map Token.lexeme) ∧
      ¬CanFollow (before.map Token.lexeme) t.lexeme
  | _ => True

theorem readAll_eq_error (h : readAll limit tokens = .error (.because fault)) :
    fault = .empty ∨ fault = .tooDeep limit ∨ ∃ consumed rest, tokens = consumed ++ rest ∧
      CanBegin (consumed.map Token.lexeme) ∧ Blames fault consumed rest ∧
      ∀ t ∈ rest.head?, ¬CanFollow (consumed.map Token.lexeme) t.lexeme := by
  unfold readAll at h
  split at h
  · cases h
    exact .inl rfl
  · rcases Outcome.bind_eq_error_iff.1 h with h | ⟨⟨⟨e, rest⟩, shorter⟩, hread, h⟩
    · rcases exists_halt h with hdeep | ⟨consumed, rest, heq, hhalt⟩
      · exact .inr (.inl hdeep)
      · refine .inr (.inr ⟨consumed, rest, heq, hhalt.possible, hhalt.blames, ?_⟩)
        intro t ht
        obtain ⟨ts, rfl⟩ := List.head?_eq_some_iff.1 ht
        exact not_canFollow limit ts hhalt.readable fun limit' rest' e last hle hnext hread =>
          absurd hread (hhalt.impossible limit' rest' e last hle hnext)
    · cases rest with
      | nil => cases h
      | cons t rest =>
        dsimp only at h
        split at h
        · cases h
        · next hfinish =>
          cases h
          have hreads : Reads limit .disjunction 0 _ e (t :: rest) := ⟨shorter, hread⟩
          obtain ⟨operand, d, rfl, hd, hreadable, hsame⟩ := hreads.exists_operand
          refine .inr (.inr ⟨operand, t :: rest, rfl, ⟨d, hd ▸ List.prefix_rfl⟩,
            .next operand t rest, ?_⟩)
          intro t' ht'
          obtain rfl := Option.some.inj ht'
          refine not_canFollow limit rest (hd ▸ hreadable)
            fun limit' rest' e' last hle hnext hread' hlast => ?_
          obtain ⟨-, rfl⟩ := hsame limit' rest' e' last hle hnext hread'
          obtain ⟨t'', others, rfl, hlike⟩ := hnext.exists_cons
          rw [hlast t'' rfl] at hlike
          generalize t.lexeme = l at hlike hfinish
          cases hlike
          exact hfinish rfl

/-- A formula that is refused at one of its tokens is refused at the first one that is
impossible. -/
theorem compile_error_points {limits : Limits} {path source : String} {tokens : List Token}
    {e : ConfigError} (htokens : Token.ofFormula source = .ok tokens)
    (h : compile limits path source = .error (.because e)) :
    ∃ fault, e = .formula path source fault ∧ PointsAt tokens fault := by
  obtain ⟨fault, htree, rfl⟩ : ∃ fault, treeOf limits source = .error (.because fault) ∧
      e = .formula path source fault := by
    unfold compile at h
    split at h
    · cases h
    · next refusal htree =>
      cases refusal with
      | because fault =>
        cases h
        exact ⟨fault, htree, rfl⟩
      | overlong => cases h
  refine ⟨fault, rfl, ?_⟩
  unfold treeOf at htree
  split at htree
  · obtain ⟨-, rfl⟩ := Refusal.showing_eq_because_iff.1 (Except.error.inj htree)
    trivial
  rw [htokens] at htree
  rcases readAll_eq_error htree with rfl | rfl | ⟨consumed, rest, rfl, hbegin, hblames, hfollow⟩
  · trivial
  · trivial
  have hfinish := exists_finish_of_ofFormula htokens
  cases hblames with
  | nothing =>
    rw [List.append_nil] at hfinish
    exact absurd hfinish hbegin.finish_not_mem
  | next _ t rest =>
    have hnot := hfollow t rfl
    unfold unexpected
    split
    · next ht =>
      have hbefore : lexemesBeforeFinish (consumed ++ t :: rest) = consumed.map Token.lexeme := by
        rw [lexemesBeforeFinish, List.map_append, List.map_cons, ht,
          takeWhile_append_finish hbegin.finish_not_mem]
      show CanBegin _ ∧ ¬_
      rw [hbefore]
      refine ⟨hbegin, ?_⟩
      rintro ⟨d, hd⟩
      exact hnot ⟨d, by simpa only [hd, ht] using List.prefix_rfl⟩
    · have hbefore := (List.pairwise_append.1 (Token.increasing_of_ofFormula htokens)).2.2
      refine ⟨consumed, t, rest, rfl, rfl, rfl, fun s hs => hbefore s hs t List.mem_cons_self,
        hbegin, fun hcan => hnot (CanBegin.canFollow ?_)⟩
      rwa [List.map_append] at hcan
  | parenthesis outer position d hd rest =>
    cases rest with
    | nil =>
      rw [List.append_nil] at hfinish
      exact absurd hfinish hbegin.finish_not_mem
    | cons t rest =>
      exact ⟨_, t, rest, rfl, openParentheses_unclosed d hd, hbegin, hfollow t rfl⟩

/-- The tokens of `(a < 1 < 2)`, in which the second comparison cannot follow the first. -/
def chainedTokens : List Token :=
  [⟨.opening, 0⟩, ⟨.name "a", 1⟩, ⟨.symbol .less, 3⟩, ⟨.number ⟨['1'], none, none⟩, 5⟩,
    ⟨.symbol .less, 7⟩, ⟨.number ⟨['2'], none, none⟩, 9⟩, ⟨.closing, 10⟩, ⟨.finish, 11⟩]

theorem compile_error_points_chained :
    Token.ofFormula "(a < 1 < 2)" = .ok chainedTokens ∧
    compile ⟨32, 500⟩ "price" "(a < 1 < 2)" =
      .error (.because (.formula "price" "(a < 1 < 2)" (.unclosed 0))) ∧
    PointsAt chainedTokens (.unclosed 0) := by
  have htokens : Token.ofFormula "(a < 1 < 2)" = .ok chainedTokens := by decide +kernel
  have hread : readAll 32 chainedTokens = .error (.because (.unclosed 0)) := by
    with_unfolding_all rfl
  have htree : treeOf ⟨32, 500⟩ "(a < 1 < 2)" = .error (.because (.unclosed 0)) := by
    rw [treeOf, if_neg (by decide), htokens]
    exact hread
  have h : compile ⟨32, 500⟩ "price" "(a < 1 < 2)" =
      .error (.because (.formula "price" "(a < 1 < 2)" (.unclosed 0))) := by
    rw [compile, htree]
    rfl
  obtain ⟨fault, heq, hpoints⟩ := compile_error_points htokens h
  cases heq
  exact ⟨htokens, h, hpoints⟩

end Tariff.Formula
