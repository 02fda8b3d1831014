import Tariff.Proofs.Formula.Steps

/-!
# One lexeme of look-ahead

Reading an operand depends on the tokens that it consumes and on the lexeme after them, and
on nothing beyond (`Reads.lookahead`). What follows may be exchanged, as long as it begins
with the same lexeme or with a number as before, and the limit may be raised, since a larger
limit refuses nothing that a smaller one allows.
-/

namespace Tariff.Formula

/-! ## Numbers instead of others

The grammar does not tell numbers apart, so that an integer with too many digits can be exchanged
for one that is read.
-/

namespace Lexeme

/-- Whether no production tells two lexemes apart: they are the same, or both are numbers. -/
inductive Alike : Lexeme → Lexeme → Prop where
  | same (l : Lexeme) : Alike l l
  | number (numeral other : Numeral) : Alike (.number numeral) (.number other)

namespace Alike

variable {l l' : Lexeme}

theorem binary?_eq (h : l.Alike l') (tier : Tier) : tier.binary? l = tier.binary? l' := by
  cases h with
  | same => rfl
  | number => cases tier <;> rfl

theorem unary?_eq (h : l.Alike l') (tier : Tier) : tier.unary? l = tier.unary? l' := by
  cases h with
  | same => rfl
  | number => cases tier <;> rfl

theorem eq_of_leaf? (h : l.Alike l') (hleaf : leaf? l = none) : l = l' := by
  cases h with
  | same => rfl
  | number => cases hleaf

end Alike

/-- Zero for an integer with too many digits. -/
def shortened (l : Lexeme) : Lexeme :=
  if l.isOverlong then .number ⟨['0'], none, none⟩ else l

theorem shortened_of_readable {l : Lexeme} (h : l.isOverlong = false) : l.shortened = l := by
  rw [shortened, h]
  rfl

theorem shortened_of_overlong {l : Lexeme} (h : l.isOverlong = true) :
    l.shortened = .number ⟨['0'], none, none⟩ := by
  rw [shortened, h]
  rfl

theorem isOverlong_shortened (l : Lexeme) : l.shortened.isOverlong = false := by
  cases h : l.isOverlong with
  | true =>
    rw [shortened_of_overlong h]
    rfl
  | false => rw [shortened_of_readable h, h]

theorem alike_shortened (l : Lexeme) : l.Alike l.shortened := by
  cases h : l.isOverlong with
  | true =>
    rw [shortened_of_overlong h]
    cases l with
    | number numeral => exact .number numeral _
    | _ => cases h
  | false =>
    rw [shortened_of_readable h]
    exact .same l

end Lexeme

theorem IsReadable.map_shortened {ls : List Lexeme} (h : IsReadable ls) :
    ls.map Lexeme.shortened = ls :=
  (List.map_congr_left fun l hl => Lexeme.shortened_of_readable (h l hl)).trans (List.map_id ls)

theorem isReadable_map_shortened (ls : List Lexeme) : IsReadable (ls.map Lexeme.shortened) := by
  intro l hl
  obtain ⟨l, -, rfl⟩ := List.mem_map.1 hl
  exact l.isOverlong_shortened

theorem Leaf.exists_shortened {l : Lexeme} {e : Expr} (h : Leaf l e) :
    ∃ e, Leaf l.shortened e := by
  cases hoverlong : l.isOverlong with
  | true =>
    rw [Lexeme.shortened_of_overlong hoverlong]
    exact ⟨_, .number _⟩
  | false =>
    rw [Lexeme.shortened_of_readable hoverlong]
    exact ⟨e, h⟩

mutual

/-- The shortened lexemes of a derivation are derived too. -/
theorem Derivation.exists_shortened {tier : Tier} : (d : Derivation tier) →
    ∃ d' : Derivation tier, d'.lexemes = d.lexemes.map Lexeme.shortened
  | .chain h first links => by
    obtain ⟨first', hfirst⟩ := first.exists_shortened
    obtain ⟨links', hlinks⟩ := links.exists_shortened
    exact ⟨.chain h first' links', by simp [Derivation.lexemes, hfirst, hlinks]⟩
  | .prefixed mark operator h operand => by
    obtain ⟨operand', hoperand⟩ := operand.exists_shortened
    have hmark := Lexeme.shortened_of_readable h.isOverlong_eq_false
    exact ⟨.prefixed mark operator h operand', by simp [Derivation.lexemes, hoperand, hmark]⟩
  | .plain h operand => by
    obtain ⟨operand', hoperand⟩ := operand.exists_shortened
    exact ⟨.plain h operand', hoperand⟩
  | .single operand => by
    obtain ⟨operand', hoperand⟩ := operand.exists_shortened
    exact ⟨.single operand', hoperand⟩
  | .compared left mark operator h right => by
    obtain ⟨left', hleft⟩ := left.exists_shortened
    obtain ⟨right', hright⟩ := right.exists_shortened
    have hmark := Lexeme.shortened_of_readable h.isOverlong_eq_false
    exact ⟨.compared left' mark operator h right',
      by simp [Derivation.lexemes, hleft, hright, hmark]⟩
  | .leaf mark e h => by
    obtain ⟨e', h'⟩ := h.exists_shortened
    exact ⟨.leaf mark.shortened e' h', rfl⟩
  | .enclosed inner => by
    obtain ⟨inner', hinner⟩ := inner.exists_shortened
    have hopening : Lexeme.opening.shortened = .opening := rfl
    have hclosing : Lexeme.closing.shortened = .closing := rfl
    exact ⟨.enclosed inner', by simp [Derivation.lexemes, hinner, hopening, hclosing]⟩

theorem Links.exists_shortened {tier : Tier} : (links : Links tier) →
    ∃ links' : Links tier, links'.lexemes = links.lexemes.map Lexeme.shortened
  | .done => ⟨.done, rfl⟩
  | .link mark operator h operand rest => by
    obtain ⟨operand', hoperand⟩ := operand.exists_shortened
    obtain ⟨rest', hrest⟩ := rest.exists_shortened
    have hmark := Lexeme.shortened_of_readable h.isOverlong_eq_false
    exact ⟨.link mark operator h operand' rest', by simp [Links.lexemes, hoperand, hrest, hmark]⟩

end

/-! ## What comes next -/

/-- Whether tokens begin with lexemes that are alike, or neither have any. -/
def SameNext (tokens tokens' : List Token) : Prop :=
  Option.Rel (fun t t' => t.lexeme.Alike t'.lexeme) tokens.head? tokens'.head?

namespace SameNext

variable {tokens tokens' : List Token} {t t' : Token}

theorem cons (h : t.lexeme.Alike t'.lexeme) (tokens tokens' : List Token) :
    SameNext (t :: tokens) (t' :: tokens') :=
  .some h

theorem refl (tokens : List Token) : SameNext tokens tokens := by
  cases tokens with
  | nil => exact .none
  | cons t tokens => exact cons (.same t.lexeme) tokens tokens

theorem append (consumed : List Token) (h : SameNext tokens tokens') :
    SameNext (consumed ++ tokens) (consumed ++ tokens') := by
  cases consumed with
  | nil => exact h
  | cons t consumed => exact cons (.same t.lexeme) _ _

theorem eq_nil (h : SameNext [] tokens') : tokens' = [] := by
  cases tokens' with
  | nil => rfl
  | cons t rest => cases h

theorem exists_cons (h : SameNext (t :: tokens) tokens') :
    ∃ t' rest, tokens' = t' :: rest ∧ t.lexeme.Alike t'.lexeme := by
  cases tokens' with
  | nil => cases h
  | cons t' rest =>
    cases h with
    | some h => exact ⟨t', rest, rfl, h⟩

/-- What holds of the lexeme that tokens begin with, and of all that are like it, is the same for
both. -/
theorem forall_head (P : Lexeme → Prop) (h : SameNext tokens tokens')
    (hP : ∀ l l' : Lexeme, l.Alike l' → P l → P l') (hhead : ∀ t ∈ tokens.head?, P t.lexeme) :
    ∀ t ∈ tokens'.head?, P t.lexeme := by
  intro t' ht'
  cases tokens with
  | nil =>
    rw [h.eq_nil] at ht'
    cases ht'
  | cons t tokens =>
    obtain ⟨_, rest, rfl, hlexeme⟩ := h.exists_cons
    obtain rfl := Option.some.inj ht'
    exact hP _ _ hlexeme (hhead t rfl)

theorem stops {tier : Tier} (h : SameNext tokens tokens') (hstops : Stops tier tokens) :
    Stops tier tokens' :=
  h.forall_head (fun l => tier.binary? l = none)
    (fun _ _ hl hnone => hl.binary?_eq tier ▸ hnone) hstops

theorem unary?_eq_none {tier : Tier} (h : SameNext tokens tokens')
    (hnone : ∀ t ∈ tokens.head?, tier.unary? t.lexeme = none) :
    ∀ t ∈ tokens'.head?, tier.unary? t.lexeme = none :=
  h.forall_head (fun l => tier.unary? l = none)
    (fun _ _ hl hnone => hl.unary?_eq tier ▸ hnone) hnone

end SameNext

mutual

/-- An operand is read the same before whatever begins as what came after it. -/
theorem Reads.lookahead {limit : Int} {tier : Tier} {nesting : Nat} {tokens rest : List Token}
    {e : Expr} (h : Reads limit tier nesting tokens e rest) :
    ∃ consumed, tokens = consumed ++ rest ∧ ∀ limit' rest', limit ≤ limit' →
      SameNext rest rest' → Reads limit' tier nesting (consumed ++ rest') e rest' := by
  cases tokens with
  | nil => exact absurd h not_reads_nil
  | cons t tokens =>
    rcases tier.sort_cases with htier | htier | rfl | rfl
    · obtain ⟨first, after, hfirst, hlinks⟩ := (reads_chain_iff htier).1 h
      have hheight := Tier.height_tighter (.inl htier)
      have hshorter := hfirst.length_lt
      obtain ⟨operand, hoperand, hread⟩ := hfirst.lookahead
      obtain ⟨links, rfl, hchain⟩ := hlinks.lookahead
      refine ⟨operand ++ links, by rw [hoperand, List.append_assoc], fun limit' rest' hle hnext => ?_⟩
      rw [List.append_assoc]
      exact (reads_chain_iff htier).2 ⟨first, links ++ rest',
        hread limit' _ hle (hnext.append links), hchain limit' rest' hle hnext⟩
    · cases hunary : tier.unary? t.lexeme with
      | some operator =>
        obtain ⟨hdeeper, operand, hread, rfl, hdepth⟩ := (reads_unary_iff hunary).1 h
        obtain ⟨consumed, rfl, hlook⟩ := hread.lookahead
        exact ⟨t :: consumed, rfl, fun limit' rest' hle hnext => (reads_unary_iff hunary).2
          ⟨by omega, operand, hlook limit' rest' hle hnext, rfl, by omega⟩⟩
      | none =>
        have hheight := Tier.height_tighter (.inr htier)
        have hhead : ∀ t' ∈ (t :: tokens).head?, tier.unary? t'.lexeme = none :=
          fun t' ht' => Option.some.inj ht' ▸ hunary
        obtain ⟨consumed, hconsumed, hlook⟩ := ((reads_iff_tighter htier hhead).1 h).lookahead
        refine ⟨consumed, hconsumed, fun limit' rest' hle hnext => ?_⟩
        rw [hconsumed] at hhead
        have hhead' := (hnext.append consumed).unary?_eq_none hhead
        exact (reads_iff_tighter htier hhead').2 (hlook limit' rest' hle hnext)
    · obtain ⟨left, after, hleft, hafter⟩ := reads_comparison_iff.1 h
      have hshorter := hleft.length_lt
      obtain ⟨operand, hoperand, hread⟩ := hleft.lookahead
      rcases hafter with ⟨hstops, rfl, rfl⟩ |
        ⟨next, beyond, operator, right, rfl, hbinary, hright, rfl, hdepth⟩
      · exact ⟨operand, hoperand, fun limit' rest' hle hnext => reads_comparison_iff.2
          ⟨left, rest', hread limit' rest' hle hnext, .inl ⟨hnext.stops hstops, rfl, rfl⟩⟩⟩
      · obtain ⟨consumed, rfl, hlook⟩ := hright.lookahead
        refine ⟨operand ++ next :: consumed, by rw [hoperand, List.append_assoc]; rfl,
          fun limit' rest' hle hnext => ?_⟩
        rw [List.append_assoc]
        exact reads_comparison_iff.2 ⟨left, next :: (consumed ++ rest'),
          hread limit' _ hle (.cons (.same _) _ _),
          .inr ⟨next, _, operator, right, rfl, hbinary, hlook limit' rest' hle hnext, rfl,
            by omega⟩⟩
    · cases hleaf : leaf? t.lexeme with
      | some leaf =>
        obtain ⟨hreadable, rfl, rfl⟩ := (reads_leaf_iff hleaf).1 h
        exact ⟨[t], rfl, fun limit' rest' _ _ => (reads_leaf_iff hleaf).2 ⟨hreadable, rfl, rfl⟩⟩
      | none =>
        obtain ⟨hopening, hdeeper, position, hread⟩ := (reads_opening_iff hleaf).1 h
        obtain ⟨consumed, rfl, hlook⟩ := hread.lookahead
        refine ⟨t :: (consumed ++ [⟨.closing, position⟩]), by simp, fun limit' rest' hle _ => ?_⟩
        rw [List.cons_append, List.append_assoc]
        exact (reads_opening_iff hleaf).2
          ⟨hopening, by omega, position, hlook limit' _ hle (.cons (.same _) _ _)⟩
termination_by (tokens.length, tier.height)
decreasing_by
  all_goals
    subst_vars
    simp only [Prod.lex_def, List.length_cons, true_and] at *
    have hcomparison : Tier.sum.height < Tier.comparison.height := by decide
    omega

/-- A chain goes on the same before whatever begins as what came after it. -/
theorem Continues.lookahead {limit : Int} {tier : Tier} {nesting : Nat}
    {tokens rest : List Token} {e left : Expr} (h : Continues limit tier nesting left tokens e rest) :
    ∃ consumed, tokens = consumed ++ rest ∧ ∀ limit' rest', limit ≤ limit' →
      SameNext rest rest' → Continues limit' tier nesting left (consumed ++ rest') e rest' := by
  rcases stops_or_exists_binary tier tokens with hstops | ⟨t, beyond, operator, rfl, hbinary⟩
  · obtain ⟨rfl, rfl⟩ := (continues_of_stops hstops).1 h
    exact ⟨[], rfl, fun limit' rest' _ hnext =>
      (continues_of_stops (hnext.stops hstops)).2 ⟨rfl, rfl⟩⟩
  · obtain ⟨right, after, hright, hdepth, hlinks⟩ := (continues_cons_iff hbinary).1 h
    have hshorter := hright.length_lt
    obtain ⟨operand, hoperand, hread⟩ := hright.lookahead
    obtain ⟨links, rfl, hchain⟩ := hlinks.lookahead
    refine ⟨t :: (operand ++ links), by rw [hoperand, List.cons_append, List.append_assoc],
      fun limit' rest' hle hnext => ?_⟩
    rw [List.cons_append, List.append_assoc]
    exact (continues_cons_iff hbinary).2 ⟨right, links ++ rest',
      hread limit' _ hle (hnext.append links), by omega, hchain limit' rest' hle hnext⟩
termination_by (tokens.length, 0)
decreasing_by
  all_goals
    subst_vars
    simp only [Prod.lex_def, List.length_cons] at *
    omega

end

/-- What is read within a limit is read within a larger one. -/
theorem Reads.mono {limit limit' : Int} {tier : Tier} {nesting : Nat} {tokens rest : List Token}
    {e : Expr} (hle : limit ≤ limit') (h : Reads limit tier nesting tokens e rest) :
    Reads limit' tier nesting tokens e rest := by
  obtain ⟨consumed, rfl, hlook⟩ := h.lookahead
  exact hlook limit' rest hle (.refl rest)

end Tariff.Formula
