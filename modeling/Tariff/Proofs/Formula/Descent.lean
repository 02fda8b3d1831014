import Tariff.Proofs.Formula.Accesses
import Tariff.Proofs.Formula.Compiled
import Tariff.Proofs.Formula.Tokens

/-!
# A descent keeps to the tokens

Reading a formula with a cursor never looks for a token that is not there, although nothing in
the descent asks whether there is one: an operand is taken without a look at it, and so is what
should be a closing parenthesis, even at the end of the formula. What saves the descent is that
the end is no operand, no operator and no parenthesis. It may be taken, but only to refuse the
formula (`compile_keeps_to_tokens`).

Each production keeps to the tokens when its parts do (`Descends`, `Follows`), and it agrees
with what `read` and `chain` make of the tokens that are left. As to the number of accesses, an
operand spares one for each looser tier, which is spent where that tier looks at the token
before or after the operand.
-/

namespace Tariff.Formula

variable {α : Type} {last start : Nat}

/-! ## The tokens of a formula -/

/-- Whether tokens end at a last one with the end of a formula, which stands nowhere else, and
the texts of all numerals among them are read as their values, unless they have too many
digits. -/
structure IsLexed (tokens : List Token) (last : Nat) : Prop where
  length : tokens.length = last + 1
  finish_iff : ∀ position t, tokens[position]? = some t → (t.lexeme = .finish ↔ position = last)
  readable : ∀ t ∈ tokens, ∀ numeral, t.lexeme = .number numeral →
    Number.read? t.text = if numeral.isOverlong then none else some numeral.value

theorem exists_isLexed_of_ofFormula {source : String} {tokens : List Token}
    (h : Token.ofFormula source = .ok tokens) : ∃ last, IsLexed tokens last := by
  obtain ⟨lexed, rfl, hlexed⟩ := Token.exists_covers_of_ofFormula h
  have hproper : ∀ t ∈ lexed, t.lexeme.IsProper := fun t ht => (hlexed.longest t ht).proper
  refine ⟨lexed.length, by simp, fun position t ht => ?_, fun t ht numeral hnumeral => ?_⟩
  · rcases Nat.lt_trichotomy position lexed.length with hlt | rfl | hlt
    · rw [List.getElem?_append_left hlt] at ht
      have hne := hproper t (List.mem_of_getElem? ht)
      refine ⟨fun hfinish => ?_, fun heq => absurd hlt (by omega)⟩
      rw [hfinish] at hne
      exact absurd hne id
    · rw [List.getElem?_concat_length] at ht
      cases ht
      simp
    · have hlt' := (List.getElem?_eq_some_iff.1 ht).1
      rw [List.length_append, List.length_singleton] at hlt'
      omega
  · rcases List.mem_append.1 ht with ht | ht
    · have hne := hproper t ht
      rw [hnumeral] at hne
      rw [Token.text, hnumeral]
      exact Numeral.IsLiteral.read?_chars hne
    · rw [List.mem_singleton.1 ht] at hnumeral
      cases hnumeral

variable {limit : Int} {tokens : List Token} {tier : Tier} {nesting : Nat} {left : Expr} {t : Token}

theorem IsLexed.exists_token (h : IsLexed tokens last) (hle : start ≤ last) :
    ∃ t, tokens[start]? = some t := by
  have hlt : start < tokens.length := by
    rw [h.length]
    omega
  exact ⟨_, List.getElem?_eq_getElem hlt⟩

theorem drop_eq_cons (ht : tokens[start]? = some t) :
    tokens.drop start = t :: tokens.drop (start + 1) := by
  obtain ⟨hlt, rfl⟩ := List.getElem?_eq_some_iff.1 ht
  exact List.drop_eq_getElem_cons hlt

/-- Every token but the end of the formula has a token after it. -/
theorem IsLexed.lt_of_ne_finish (h : IsLexed tokens last) (ht : tokens[start]? = some t)
    (hle : start ≤ last) (hne : t.lexeme ≠ .finish) : start < last :=
  Nat.lt_of_le_of_ne hle fun heq => hne ((h.finish_iff start t ht).2 heq)

/-- The end of a formula is no operator and no operand. -/
theorem IsLexed.lt_of_eq_some (h : IsLexed tokens last) {found? : Lexeme → Option α} {a : α}
    (hfinish : found? .finish = none) (ht : tokens[start]? = some t) (hle : start ≤ last)
    (ha : found? t.lexeme = some a) : start < last := by
  refine h.lt_of_ne_finish ht hle fun heq => ?_
  rw [heq, hfinish] at ha
  cases ha

/-! ## Single steps -/

section Steps

variable {nesting : Int}

theorem look_eq (ht : tokens[start]? = some t) :
    look tokens ⟨start, nesting⟩ = ⟨[.look start], .ok t⟩ := by
  unfold look
  rw [ht]

theorem take_eq (nesting : Int) (ht : tokens[start]? = some t) :
    ∃ fewer, take tokens ⟨start, nesting⟩ =
      ⟨[.take start], .ok ⟨(t, ⟨start + 1, nesting⟩), fewer⟩⟩ := by
  obtain ⟨hlt, rfl⟩ := List.getElem?_eq_some_iff.1 ht
  refine ⟨Nat.sub_lt_sub_left hlt (Nat.lt_succ_self _), ?_⟩
  unfold take
  rw [dif_pos hlt]
  rfl

theorem accept_eq_none {operator? : Lexeme → Option α} (ht : tokens[start]? = some t)
    (hnone : operator? t.lexeme = none) :
    accept tokens operator? ⟨start, nesting⟩ = ⟨[.look start], .ok none⟩ := by
  rw [accept, look_eq ht, Descent.ok_bind, hnone]
  rfl

theorem accept_eq_some {operator? : Lexeme → Option α} {operator : α}
    (nesting : Int) (ht : tokens[start]? = some t)
    (hsome : operator? t.lexeme = some operator) :
    ∃ fewer, accept tokens operator? ⟨start, nesting⟩ =
      ⟨[.look start, .take start], .ok (some ⟨(operator, ⟨start + 1, nesting⟩), fewer⟩)⟩ := by
  obtain ⟨fewer, htake⟩ := take_eq nesting ht
  refine ⟨fewer, ?_⟩
  rw [accept, look_eq ht, Descent.ok_bind, hsome]
  dsimp only
  rw [htake]
  rfl

/-- Where numerals are read as their values, a token is by itself what its lexeme is, but an
integer with too many digits is a failure. -/
theorem operandOf?_eq (h : ∀ numeral, t.lexeme = .number numeral →
    Number.read? t.text = if numeral.isOverlong then none else some numeral.value) :
    operandOf? t =
      if t.lexeme.isOverlong then ⟨[], .error .unconverted⟩ else pure (leaf? t.lexeme) := by
  unfold operandOf?
  split
  · next numeral hnumeral =>
    have hoverlong : t.lexeme.isOverlong = numeral.isOverlong := by
      rw [hnumeral]
      rfl
    rw [h numeral hnumeral, hoverlong, hnumeral]
    cases numeral.isOverlong <;> rfl
  · next hnumeral =>
    have hoverlong : t.lexeme.isOverlong = false := by
      unfold Lexeme.isOverlong
      split
      · next numeral heq => exact (hnumeral numeral heq).elim
      · rfl
    rw [hoverlong]
    rfl

end Steps

theorem leave_mk (position nesting : Nat) :
    Cursor.leave ⟨position, ((nesting + 1 : Nat) : Int)⟩ = ⟨position, nesting⟩ := by
  rw [Cursor.leave, Nat.cast_succ, Int.add_sub_cancel]

/-! ## The descent -/

/-- Whether reading an operand with a cursor keeps to the tokens and agrees with `read`. -/
def Descends (limit : Int) (tokens : List Token) (last : Nat) (tier : Tier) (nesting start : Nat) :
    Prop :=
  Keeps last (7 - tier.height) start (descend limit tokens tier ⟨start, nesting⟩)
    (fun r stop => r.val.2 = ⟨stop, nesting⟩ ∧
      Reads limit tier nesting (tokens.drop start) r.val.1 (tokens.drop stop))
    (fun refusal => read limit tier nesting (tokens.drop start) = .error refusal)

/-- Whether going on after an operand with a cursor keeps to the tokens and agrees with
`chain`. -/
def Follows (limit : Int) (tokens : List Token) (last : Nat) (tier : Tier) (nesting : Nat)
    (left : Expr) (start : Nat) : Prop :=
  Keeps last (-1) start (follow limit tokens tier left ⟨start, nesting⟩)
    (fun r stop => r.val.2 = ⟨stop, nesting⟩ ∧
      Continues limit tier nesting left (tokens.drop start) r.val.1 (tokens.drop stop))
    (fun refusal => chain limit tier nesting left (tokens.drop start) = .error refusal)

namespace Descends

/-! Each production keeps to the tokens when its parts do. -/

theorem chain (ht : tokens[start]? = some t) (htier : tier.chains = true)
    (hfirst : Descends limit tokens last tier.tighter nesting start)
    (hlinks : ∀ first stop, start ≤ stop → stop ≤ last →
      Follows limit tokens last tier nesting first stop) :
    Descends limit tokens last tier nesting start := by
  have hheight := Tier.height_tighter (.inl htier)
  unfold Descends at hfirst ⊢
  rw [drop_eq_cons ht] at hfirst ⊢
  rw [descend, dif_pos htier]
  refine hfirst.bind (-1) ?_ ?_ ?_
  · rintro ⟨⟨first, _⟩, fewer⟩ middle hstart hmiddle ⟨rfl, hreads⟩
    refine (hlinks first middle hstart hmiddle).bind 0 ?_ ?_ ?_
    · rintro ⟨⟨e, _⟩, fewer'⟩ stop - hstop ⟨rfl, hcontinues⟩
      exact .pure hstop ⟨rfl, (reads_chain_iff htier).2 ⟨first, _, hreads, hcontinues⟩⟩
    · exact fun refusal hrefusal => read_chain_eq_error htier (.inr ⟨first, _, hreads, hrefusal⟩)
    · omega
  · exact fun refusal hrefusal => read_chain_eq_error htier (.inl hrefusal)
  · omega

theorem plain (ht : tokens[start]? = some t) (htier : tier.prefixes = true)
    (hunary : tier.unary? t.lexeme = none)
    (hoperand : Descends limit tokens last tier.tighter nesting start) :
    Descends limit tokens last tier nesting start := by
  have hheight := Tier.height_tighter (.inr htier)
  have hchains : ¬tier.chains = true := by cases tier <;> simp [Tier.prefixes] at htier <;> decide
  unfold Descends at hoperand ⊢
  rw [drop_eq_cons ht] at hoperand ⊢
  rw [descend, dif_neg hchains, dif_pos htier, accept_eq_none ht hunary]
  refine .after_look ((hoperand.mono (by omega)).imp ?_ ?_)
  · rintro r stop ⟨hcursor, hreads⟩
    exact ⟨hcursor, (reads_plain_iff htier hunary).2 hreads⟩
  · exact fun refusal => read_plain_eq_error htier hunary

theorem prefixed {operator : UnaryOperator} (ht : tokens[start]? = some t) (hlt : start < last)
    (hunary : tier.unary? t.lexeme = some operator)
    (hoperand : Descends limit tokens last tier (nesting + 1) (start + 1)) :
    Descends limit tokens last tier nesting start := by
  have htier : tier.prefixes = true ∧ ¬tier.chains = true ∧ 1 ≤ tier.height ∧ tier.height ≤ 7 := by
    rcases Tier.negation_or_sign_of_unary? hunary with rfl | rfl <;> decide
  obtain ⟨hstands, hchains, hlow, hhigh⟩ := htier
  obtain ⟨fewer, haccept⟩ := accept_eq_some nesting ht hunary
  unfold Descends at hoperand ⊢
  rw [drop_eq_cons ht, descend, dif_neg hchains, dif_pos hstands, haccept]
  refine .after_accept ((Keeps.ofExcept hlt).bind 0 ?_ ?_ (by omega))
  · rintro ⟨⟩ _ - - ⟨rfl, hdepth⟩
    refine hoperand.bind 0 ?_ ?_ (by omega)
    · rintro ⟨⟨operand, _⟩, fewer'⟩ stop - hstop ⟨rfl, hreads⟩
      refine (Keeps.ofExcept hstop).bind 0 ?_ ?_ (by omega)
      · rintro e _ - hstop ⟨rfl, hbounded⟩
        obtain ⟨hnode, rfl⟩ := bounded_eq_ok_iff.1 hbounded
        exact .pure hstop ⟨leave_mk _ _, (reads_unary_iff hunary).2
          ⟨checkDepth_eq_ok_iff.1 hdepth, operand, hreads, rfl, hnode⟩⟩
      · exact fun refusal hrefusal => read_unary_eq_error hunary
          (.inr ⟨hdepth, .inr ⟨operand, _, hreads, hrefusal⟩⟩)
    · exact fun refusal hrefusal => read_unary_eq_error hunary (.inr ⟨hdepth, .inl hrefusal⟩)
  · exact fun refusal hrefusal => read_unary_eq_error hunary (.inl hrefusal)

theorem comparison (h : IsLexed tokens last) (ht : tokens[start]? = some t)
    (hleft : Descends limit tokens last .sum nesting start)
    (hright : ∀ middle, start ≤ middle → middle < last →
      Descends limit tokens last .sum nesting (middle + 1)) :
    Descends limit tokens last .comparison nesting start := by
  unfold Descends at hleft ⊢
  rw [drop_eq_cons ht] at hleft ⊢
  rw [descend, dif_neg (by decide), dif_neg (by decide), dif_pos rfl]
  refine hleft.bind (-1) ?_ ?_ ?_
  · rintro ⟨⟨left, _⟩, fewer⟩ middle hstart hmiddle ⟨rfl, hreads⟩
    obtain ⟨next, hnext⟩ := h.exists_token hmiddle
    rw [drop_eq_cons hnext] at hreads
    cases hbinary : Tier.comparison.binary? next.lexeme with
    | none =>
      dsimp only
      rw [accept_eq_none hnext hbinary]
      refine .after_look (.pure hmiddle ⟨rfl, reads_comparison_iff.2 ⟨left, _, hreads, .inl
        ⟨fun t ht => Option.some.inj ht ▸ hbinary, rfl, (drop_eq_cons hnext).symm⟩⟩⟩)
    | some operator =>
      have hlt : middle < last := h.lt_of_eq_some rfl hnext hmiddle hbinary
      obtain ⟨fewer', haccept⟩ := accept_eq_some nesting hnext hbinary
      dsimp only
      rw [haccept]
      refine .after_accept ((hright middle hstart hlt).bind 0 ?_ ?_ (by simp))
      · rintro ⟨⟨right, _⟩, fewer''⟩ stop - hstop ⟨rfl, hreads'⟩
        refine (Keeps.ofExcept hstop).bind 0 ?_ ?_ (by simp)
        · rintro e _ - hstop ⟨rfl, hbounded⟩
          obtain ⟨hnode, rfl⟩ := bounded_eq_ok_iff.1 hbounded
          exact .pure hstop ⟨rfl, reads_comparison_iff.2 ⟨left, _, hreads, .inr
            ⟨next, _, operator, right, rfl, hbinary, hreads', rfl, hnode⟩⟩⟩
        · exact fun refusal hrefusal => read_comparison_eq_error
            (.inr ⟨left, next, _, operator, hreads, hbinary, .inr ⟨right, _, hreads', hrefusal⟩⟩)
      · exact fun refusal hrefusal => read_comparison_eq_error
          (.inr ⟨left, next, _, operator, hreads, hbinary, .inl hrefusal⟩)
  · exact fun refusal hrefusal => read_comparison_eq_error (.inl hrefusal)
  · simp

theorem atom (h : IsLexed tokens last) (ht : tokens[start]? = some t) (hle : start ≤ last)
    (hinner : start < last → Descends limit tokens last .disjunction (nesting + 1) (start + 1)) :
    Descends limit tokens last .atom nesting start := by
  obtain ⟨fewer, htake⟩ := take_eq nesting ht
  have hoperand := operandOf?_eq (h.readable t (List.mem_of_getElem? ht))
  unfold Descends
  rw [drop_eq_cons ht, descend, dif_neg (by decide), dif_neg (by decide), dif_neg (by decide), htake]
  cases hleaf : leaf? t.lexeme with
  | some leaf =>
    have hlt : start < last := h.lt_of_eq_some rfl ht hle hleaf
    refine .after_take ?_
    dsimp only
    cases hoverlong : t.lexeme.isOverlong with
    | true =>
      rw [hoperand, hoverlong]
      refine Keeps.mono ?_ (by decide : (7 : Int) - Tier.atom.height - 7 ≤ 0)
      show Keeps last _ (start + 1) ⟨[], .error (.ofRefusal .overlong)⟩ _ _
      exact Keeps.refused hlt (read_overlong hoverlong)
    | false =>
      rw [hoperand, hoverlong, if_neg (by decide), Descent.pure_bind, hleaf]
      exact .pure hlt ⟨rfl, (reads_leaf_iff hleaf).2 ⟨hoverlong, rfl, rfl⟩⟩
  | none =>
    have hoperand : operandOf? t = pure none := by
      rw [hoperand, isOverlong_of_leaf? hleaf, hleaf]
      rfl
    by_cases hopening : t.lexeme = .opening
    · have hlt : start < last := h.lt_of_ne_finish ht hle (by simp [hopening])
      refine .after_take ?_
      dsimp only
      rw [hoperand, Descent.pure_bind]
      dsimp only
      rw [if_pos hopening]
      refine (Keeps.ofExcept hlt).bind 0 ?_ ?_ (by simp)
      · rintro ⟨⟩ _ - - ⟨rfl, hdepth⟩
        refine (hinner hlt).bind 0 ?_ ?_ (by simp)
        · rintro ⟨⟨e, _⟩, fewer'⟩ middle - hmiddle ⟨rfl, hreads⟩
          -- There is a token to take, since the operand ended at one; if it is the last one,
          -- it is no closing parenthesis.
          obtain ⟨closing, hclosing⟩ := h.exists_token hmiddle
          obtain ⟨fewer'', htake'⟩ := take_eq ((nesting + 1 : Nat) : Int) hclosing
          rw [drop_eq_cons hclosing] at hreads
          dsimp only
          rw [htake']
          by_cases hlexeme : closing.lexeme = .closing
          · have hlt' := h.lt_of_ne_finish hclosing hmiddle (by simp [hlexeme])
            obtain ⟨_, position⟩ := closing
            cases hlexeme
            refine .after_take (Keeps.mono ?_ (by decide : (0 : Int) - 7 ≤ 0))
            dsimp only
            rw [if_pos rfl]
            exact .pure hlt' ⟨leave_mk _ _, (reads_opening_iff hleaf).2
              ⟨hopening, checkDepth_eq_ok_iff.1 hdepth, position, hreads⟩⟩
          · refine (Keeps.refuse hmiddle (if_neg hlexeme) (read_atom_eq_error hleaf (.inr
              ⟨hopening, .inr ⟨hdepth, .inr ⟨e, _, hreads, ?_, rfl⟩⟩⟩))).mono (by simp)
            exact fun t' ht' => Option.some.inj ht' ▸ hlexeme
        · exact fun refusal hrefusal => read_atom_eq_error hleaf
            (.inr ⟨hopening, .inr ⟨hdepth, .inl hrefusal⟩⟩)
      · exact fun refusal hrefusal => read_atom_eq_error hleaf (.inr ⟨hopening, .inl hrefusal⟩)
    · refine Keeps.refuse hle ?_ (read_atom_eq_error hleaf (.inl ⟨hopening, rfl⟩))
      dsimp only
      rw [hoperand, Descent.pure_bind]
      exact if_neg hopening

end Descends

theorem Follows.links (h : IsLexed tokens last) (hle : start ≤ last)
    (hoperand : start < last → Descends limit tokens last tier.tighter nesting (start + 1))
    (hlinks : ∀ first stop, start < stop → stop ≤ last →
      Follows limit tokens last tier nesting first stop) :
    Follows limit tokens last tier nesting left start := by
  obtain ⟨t, ht⟩ := h.exists_token hle
  unfold Follows
  rw [drop_eq_cons ht, follow]
  cases hbinary : tier.binary? t.lexeme with
  | none =>
    rw [accept_eq_none ht hbinary]
    exact .after_look (.pure hle ⟨rfl, (continues_of_stops
      fun t' ht' => Option.some.inj ht' ▸ hbinary).2 ⟨rfl, (drop_eq_cons ht).symm⟩⟩)
  | some operator =>
    have hlt : start < last := h.lt_of_eq_some (by cases tier <;> rfl) ht hle hbinary
    -- The operator that is taken allows for the looks before and after the operand.
    have hheight : tier.tighter.height ≤ 7 := by cases tier <;> decide
    obtain ⟨fewer, haccept⟩ := accept_eq_some nesting ht hbinary
    rw [haccept]
    refine .after_accept ((hoperand hlt).bind (-1) ?_ ?_ (by omega))
    · rintro ⟨⟨right, _⟩, fewer'⟩ middle hstart hmiddle ⟨rfl, hreads⟩
      refine (Keeps.ofExcept hmiddle).bind (-1) ?_ ?_ (by omega)
      · rintro e _ - - ⟨rfl, hbounded⟩
        obtain ⟨hnode, rfl⟩ := bounded_eq_ok_iff.1 hbounded
        refine (hlinks _ middle hstart hmiddle).bind 0 ?_ ?_ (by omega)
        · rintro ⟨⟨e, _⟩, fewer''⟩ stop - hstop ⟨rfl, hcontinues⟩
          exact .pure hstop ⟨rfl, (continues_cons_iff hbinary).2
            ⟨right, _, hreads, hnode, hcontinues⟩⟩
        · exact fun refusal hrefusal => chain_eq_error hbinary
            (.inr ⟨right, _, hreads, .inr ⟨hnode, hrefusal⟩⟩)
      · exact fun refusal hrefusal => chain_eq_error hbinary (.inr ⟨right, _, hreads, .inl hrefusal⟩)
    · exact fun refusal hrefusal => chain_eq_error hbinary (.inl hrefusal)

mutual

/-- Reading an operand with a cursor keeps to the tokens of a formula. -/
theorem descends {tokens : List Token} {last : Nat} (h : IsLexed tokens last) (limit : Int)
    (tier : Tier) (nesting : Nat) {start : Nat} (hle : start ≤ last) :
    Descends limit tokens last tier nesting start := by
  obtain ⟨t, ht⟩ := h.exists_token hle
  rcases tier.sort_cases with htier | htier | rfl | rfl
  · have hheight := Tier.height_tighter (.inl htier)
    exact .chain ht htier (descends h limit tier.tighter nesting hle)
      fun first stop _ hstop => follows h limit tier nesting first hstop
  · cases hunary : tier.unary? t.lexeme with
    | none =>
      have hheight := Tier.height_tighter (.inr htier)
      exact .plain ht htier hunary (descends h limit tier.tighter nesting hle)
    | some operator =>
      have hlt : start < last := h.lt_of_eq_some (by cases tier <;> rfl) ht hle hunary
      exact .prefixed ht hlt hunary (descends h limit tier (nesting + 1) hlt)
  · exact .comparison h ht (descends h limit .sum nesting hle)
      fun middle _ hmiddle => descends h limit .sum nesting hmiddle
  · exact .atom h ht hle fun hlt => descends h limit .disjunction (nesting + 1) hlt
termination_by (last + 1 - start, tier.height)
decreasing_by
  all_goals
    subst_vars
    simp only [Prod.lex_def, true_and] at *
    have hcomparison : Tier.sum.height < Tier.comparison.height := by decide
    omega

/-- Going on after an operand with a cursor keeps to the tokens of a formula. -/
theorem follows {tokens : List Token} {last : Nat} (h : IsLexed tokens last) (limit : Int)
    (tier : Tier) (nesting : Nat) (left : Expr) {start : Nat} (hle : start ≤ last) :
    Follows limit tokens last tier nesting left start :=
  .links h hle (fun hlt => descends h limit tier.tighter nesting hlt)
    fun first stop _ hstop => follows h limit tier nesting first hstop
termination_by (last + 1 - start, 0)
decreasing_by
  all_goals
    simp only [Prod.lex_def] at *
    omega

end

/-! ## Whole formulas -/

theorem parse_keeps (h : IsLexed tokens last) (limit : Int) :
    Keeps last (-2) 0 (parse limit tokens)
      (fun r stop => stop = last ∧ r.2 = ⟨last, 0⟩ ∧ readAll limit tokens = .ok r.1)
      (fun refusal => readAll limit tokens = .error refusal) := by
  obtain ⟨t, ht⟩ := h.exists_token (Nat.zero_le last)
  have hhead : tokens.head? = some t := List.head?_eq_getElem? ▸ ht
  have hdescends := descends h limit .disjunction 0 (Nat.zero_le last)
  unfold Descends at hdescends
  rw [List.drop_zero] at hdescends
  unfold parse
  dsimp only
  rw [look_eq ht]
  refine .after_look ?_
  by_cases hfinish : t.lexeme = .finish
  · rw [if_pos hfinish]
    refine ((Keeps.ofExcept (Nat.zero_le last)).imp nofun ?_).mono (by decide)
    rintro _ ⟨⟩
    obtain ⟨_, position⟩ := t
    obtain ⟨rest, rfl⟩ := List.head?_eq_some_iff.1 hhead
    cases hfinish
    rfl
  · have hstart : ∀ t' ∈ tokens.head?, t'.lexeme ≠ .finish := by
      rw [hhead]
      exact fun t' ht' => Option.some.inj ht' ▸ hfinish
    rw [if_neg hfinish]
    refine hdescends.bind (-1) ?_ ?_ (by decide)
    · rintro ⟨⟨e, _⟩, fewer⟩ stop - hstop ⟨rfl, hreads⟩
      obtain ⟨next, hnext⟩ := h.exists_token hstop
      rw [drop_eq_cons hnext] at hreads
      dsimp only
      rw [look_eq hnext]
      refine .after_look ?_
      by_cases hend : next.lexeme = .finish
      · obtain rfl := (h.finish_iff stop next hnext).1 hend
        rw [if_pos hend]
        exact .pure hstop ⟨rfl, rfl, readAll_eq_ok_iff.2
          ⟨hstart, _, hreads, fun t' ht' => Option.some.inj ht' ▸ hend⟩⟩
      · rw [if_neg hend]
        refine (Keeps.ofExcept hstop).imp nofun ?_
        rintro _ ⟨⟩
        exact readAll_eq_error_of_read hstart (.inr ⟨e, next, _, hreads, hend, rfl⟩)
    · exact fun refusal hrefusal => readAll_eq_error_of_read hstart (.inl hrefusal)

/-- Reading with a cursor comes out as `readAll` does, at the end of the formula and with nothing
open. -/
theorem result_parse (h : IsLexed tokens last) :
    (parse limit tokens).result =
      ((readAll limit tokens).mapError .ofRefusal).map fun e => (e, ⟨last, 0⟩) := by
  have hkeeps := parse_keeps h limit
  unfold Keeps at hkeeps
  split at hkeeps
  · next r hresult =>
    obtain ⟨_, -, -, -, -, hcursor, hread⟩ := hkeeps
    rw [hresult, hread, ← hcursor]
    rfl
  · next failure hresult =>
    obtain ⟨refusal, rfl, -, -, hread⟩ := hkeeps
    rw [hresult, hread]
    rfl

/-- Whether a descent looks only for tokens that are there, takes them in order, each once, and
takes the end of the formula as the last thing before it refuses the formula for a fault. -/
structure IsOrderly (tokens : List Token) (run : Descent α) : Prop where
  within : ∀ a ∈ run.accesses, a.position < tokens.length
  in_order : ∃ n, run.taken = List.range n
  finish_last : ∀ position t, tokens[position]? = some t → t.lexeme = .finish →
    position ∈ run.taken →
      run.accesses.getLast? = some (.take position) ∧ ∃ fault, run.result = .error (.refused fault)
  few : run.accesses.length ≤ 8 * tokens.length + 2

theorem Keeps.isOrderly {x : Descent α} {P : α → Nat → Prop} {R : Refusal SyntaxFault → Prop}
    (h : IsLexed tokens last) (hx : Keeps last (-2) 0 x P R) : IsOrderly tokens x := by
  obtain ⟨accesses, result⟩ := x
  obtain ⟨refusal, hstays, hcost, hend⟩ : ∃ refusal, Stays last 0 accesses refusal ∧
      accesses.length ≤ 8 * tokens.length + 2 ∧
      (last ∈ accesses.filterMap Access.taken? → result = .error (.ofRefusal refusal)) := by
    have hlength := h.length
    match result with
    | .ok a =>
      obtain ⟨stop, hwalk, hle, hcost, -⟩ := hx
      have hcost : (accesses.length : Int) + -2 ≤ 8 * ((stop : Int) - 0) := hcost
      exact ⟨.overlong, ⟨accesses, stop, hwalk, hle, .inl rfl⟩, by omega,
        fun hmem => absurd hmem (hwalk.not_mem_taken hle)⟩
    | .error failure =>
      obtain ⟨refusal, rfl, hstays, hcost, -⟩ := hx
      have hcost : (accesses.length : Int) + -2 ≤ 8 * ((last : Int) + 1 - 0) := hcost
      exact ⟨refusal, hstays, by omega, fun _ => rfl⟩
  refine ⟨fun a ha => ?_, ?_, fun position t ht hfinish hmem => ?_, hcost⟩
  · have hle := hstays.position_le a ha
    have hlength := h.length
    omega
  · obtain ⟨n, hn⟩ := hstays.exists_taken_eq
    exact ⟨n, hn.trans List.range_eq_range'.symm⟩
  · obtain rfl := (h.finish_iff position t ht).1 hfinish
    obtain ⟨hlast, fault, rfl⟩ := hstays.getLast?_eq hmem
    exact ⟨hlast, fault, hend hmem⟩

/-- The tree of a text, read with a cursor. -/
def cursorTree (limits : Limits) (source : String) : Except Failure Expr :=
  if limits.length < source.length then
    .error (.ofRefusal (SyntaxFault.tooLong limits.length).refusal)
  else do
    let tokens ← (Token.ofFormula source).mapError .refused
    let (e, _) ← (parse limits.depth tokens).result
    return e

/-- A cursor finds the same tree, and is refused the same way. -/
theorem cursorTree_eq (limits : Limits) (source : String) :
    cursorTree limits source = (treeOf limits source).mapError .ofRefusal := by
  unfold cursorTree treeOf
  split
  · rfl
  · cases htokens : Token.ofFormula source with
    | error fault => rfl
    | ok tokens =>
      obtain ⟨last, h⟩ := exists_isLexed_of_ofFormula htokens
      show (do let (e, _) ← (parse limits.depth tokens).result; return e) =
        (readAll limits.depth tokens).mapError .ofRefusal
      rw [result_parse h]
      cases readAll limits.depth tokens with
      | ok e => rfl
      | error refusal => rfl

/-- Reading the tokens of any text with a cursor, no token is looked for that is not there, none
is taken twice, the end of the formula is taken only right before a fault is found, and there are
at most eight accesses for each token. The texts of all numerals are read as numbers, but for
integers with too many digits. So compiling a text comes to an end: it succeeds, or refuses the
text for a fault of syntax, or fails to convert an integer, which is one of the text or a limit
that the message of a fault should show. -/
theorem compile_keeps_to_tokens (limits : Limits) (source : String) :
    (match Token.ofFormula source with
      | .ok tokens => IsOrderly tokens (parse limits.depth tokens) ∧
          ∀ t ∈ tokens, ∀ numeral, t.lexeme = .number numeral →
            Number.read? t.text = if numeral.isOverlong then none else some numeral.value
      | .error fault => ∃ c position, fault = .unexpectedCharacter c position) ∧
    ∀ path,
      (∃ e, cursorTree limits source = .ok e ∧ compile limits path source = .ok ⟨source, e⟩) ∨
      (∃ fault, cursorTree limits source = .error (.refused fault) ∧
        compile limits path source = .error (.because (.formula path source fault))) ∨
      (cursorTree limits source = .error .unconverted ∧
        compile limits path source = .error .overlong ∧ MeetsOverlong limits source) := by
  constructor
  · cases h : Token.ofFormula source with
    | ok tokens =>
      obtain ⟨last, hlexed⟩ := exists_isLexed_of_ofFormula h
      exact ⟨(parse_keeps hlexed limits.depth).isOrderly hlexed, hlexed.readable⟩
    | error fault =>
      have hcovers := Token.covers_of_scan rfl (Nat.zero_le _) (Token.Covers.empty source.toList)
      rw [List.drop_zero, show Token.scan 0 source.toList = .error fault from h] at hcovers
      obtain ⟨c, position, _, hfault, -⟩ := hcovers
      exact ⟨c, position, hfault⟩
  · intro path
    rw [cursorTree_eq, compile]
    cases htree : treeOf limits source with
    | ok e => exact .inl ⟨e, rfl, rfl⟩
    | error refusal =>
      cases refusal with
      | because fault => exact .inr (.inl ⟨fault, rfl, rfl⟩)
      | overlong => exact .inr (.inr ⟨rfl, rfl, meetsOverlong_of_treeOf htree⟩)

/-- For want of a closing parenthesis the end of `(a` is taken, as the third token. -/
example : (parse 32 [⟨.opening, 0⟩, ⟨.name "a", 1⟩, ⟨.finish, 2⟩]).taken = [0, 1, 2] := by cbv

/-- An integer with too many digits is a token like any other, but it is not converted, and the
formula is refused for no fault. -/
theorem overlong_numeral_is_not_converted :
    Token.ofFormula overlongNumeral.text =
      .ok [⟨overlongNumeral, 0⟩, ⟨.finish, overlongNumeral.chars.length⟩] ∧
    Number.read? overlongNumeral.text = none ∧
    compile ⟨64, 5000⟩ "price" overlongNumeral.text = .error .overlong := by
  have htokens := Token.ofFormula_text isProper_overlongNumeral
  obtain ⟨last, hlexed⟩ := exists_isLexed_of_ofFormula htokens
  have hread := hlexed.readable ⟨overlongNumeral, 0⟩ List.mem_cons_self _ rfl
  refine ⟨htokens, hread.trans (if_pos isOverlong_overlongNumeral), compile_overlongNumeral _ ?_⟩
  rw [length_text_overlongNumeral]
  decide

end Tariff.Formula
