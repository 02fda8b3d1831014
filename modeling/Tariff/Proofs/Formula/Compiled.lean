import Tariff.Formula.Compiled
import Tariff.Proofs.Formula.Grammar
import Tariff.Proofs.Formula.Lookahead

/-!
# What compiled formulas derive from

A formula that was compiled has a derivation: its lexemes are those of the text, and the
tree of the formula is the expression that the derivation means (`exists_derivation_of_compile`).
There is one such expression for the lexemes of a text, so that what is shown along a
derivation holds of the compiled tree.

That derivations account for readings is known for limits of at least one. Below that only
literals and names are compiled, but there is no need to say so: a larger limit refuses
nothing that a smaller one allows (`Reads.mono`).
-/

namespace Tariff

/-- Whether both limits can be shown. -/
structure Limits.AreWritable (limits : Limits) : Prop where
  depth : Text.isWritable limits.depth = true
  length : Text.isWritable limits.length = true

namespace Formula

/-! ## Larger limits -/

theorem readAll_mono {limit limit' : Int} {tokens : List Token} {e : Expr} (hle : limit ≤ limit')
    (h : readAll limit tokens = .ok e) : readAll limit' tokens = .ok e := by
  obtain ⟨hstart, rest, hread, hrest⟩ := readAll_eq_ok_iff.1 h
  exact readAll_eq_ok_iff.2 ⟨hstart, rest, hread.mono hle, hrest⟩

/-! ## Integers with too many digits

Reading meets an integer with too many digits among the tokens, or the limit is one and is to be
shown.
-/

theorem Reads.exists_of_rest {limit : Int} {tier : Tier} {nesting : Nat} {tokens rest : List Token}
    {e : Expr} {p : Token → Prop} (h : Reads limit tier nesting tokens e rest)
    (hrest : ∃ t ∈ rest, p t) : ∃ t ∈ tokens, p t := by
  obtain ⟨consumed, rfl, -⟩ := h.lookahead
  obtain ⟨t, ht, hp⟩ := hrest
  exact ⟨t, List.mem_append_right consumed ht, hp⟩

theorem exists_of_tail {t : Token} {tokens : List Token} {p : Token → Prop}
    (h : ∃ t' ∈ tokens, p t') : ∃ t' ∈ t :: tokens, p t' := by
  obtain ⟨t', ht', hp⟩ := h
  exact ⟨t', List.mem_cons_of_mem t ht', hp⟩

mutual

theorem overlong_of_read {limit : Int} {tier : Tier} {nesting : Nat} {tokens : List Token}
    (h : read limit tier nesting tokens = .error .overlong) :
    Text.isWritable limit = false ∨ ∃ t ∈ tokens, t.lexeme.isOverlong = true := by
  cases tokens with
  | nil => cases refusal_of_read_nil h
  | cons t tokens =>
    rcases tier.sort_cases with htier | htier | rfl | rfl
    · have hheight := Tier.height_tighter (.inl htier)
      rcases refusal_of_read_chain htier h with h | ⟨first, after, hfirst, h⟩
      · exact overlong_of_read h
      · have hshorter := hfirst.length_lt
        exact (overlong_of_chain h).imp_right hfirst.exists_of_rest
    · cases hunary : tier.unary? t.lexeme with
      | some operator =>
        rcases refusal_of_read_unary hunary h with hdeep | h
        · exact .inl (Refusal.showing_eq_overlong_iff.1 hdeep.symm)
        · exact (overlong_of_read h).imp_right exists_of_tail
      | none =>
        have hheight := Tier.height_tighter (.inr htier)
        exact overlong_of_read (refusal_of_read_plain htier hunary h)
    · rcases refusal_of_read_comparison h with
        hdeep | h | ⟨left, next, beyond, operator, hleft, hbinary, h⟩
      · exact .inl (Refusal.showing_eq_overlong_iff.1 hdeep.symm)
      · exact overlong_of_read h
      · have hshorter := hleft.length_lt
        exact (overlong_of_read h).imp_right fun hbeyond =>
          hleft.exists_of_rest (exists_of_tail hbeyond)
    · obtain ⟨hoverlong, -⟩ | ⟨hleaf, ⟨-, h⟩ | ⟨hopening, hdeep | h | ⟨e, rest, -, -, h⟩⟩⟩ :=
        refusal_of_read_atom h
      · exact .inr ⟨t, List.mem_cons_self, hoverlong⟩
      · cases h
      · exact .inl (Refusal.showing_eq_overlong_iff.1 hdeep.symm)
      · exact (overlong_of_read h).imp_right exists_of_tail
      · cases h
termination_by (tokens.length, tier.height)
decreasing_by
  all_goals
    subst_vars
    simp only [Prod.lex_def, List.length_cons, true_and] at *
    have hcomparison : Tier.sum.height < Tier.comparison.height := by decide
    omega

theorem overlong_of_chain {limit : Int} {tier : Tier} {nesting : Nat} {tokens : List Token}
    {left : Expr} (h : chain limit tier nesting left tokens = .error .overlong) :
    Text.isWritable limit = false ∨ ∃ t ∈ tokens, t.lexeme.isOverlong = true := by
  obtain ⟨t, beyond, operator, rfl, hbinary, hdeep | h | ⟨right, after, hright, h⟩⟩ :=
    refusal_of_chain h
  · exact .inl (Refusal.showing_eq_overlong_iff.1 hdeep.symm)
  · exact (overlong_of_read h).imp_right exists_of_tail
  · have hshorter := hright.length_lt
    exact (overlong_of_chain h).imp_right fun hafter =>
      exists_of_tail (hright.exists_of_rest hafter)
termination_by (tokens.length, 0)
decreasing_by
  all_goals
    subst_vars
    simp only [Prod.lex_def, List.length_cons] at *
    omega

end

theorem overlong_of_readAll {limit : Int} {tokens : List Token}
    (h : readAll limit tokens = .error .overlong) :
    Text.isWritable limit = false ∨ ∃ t ∈ tokens, t.lexeme.isOverlong = true := by
  unfold readAll at h
  split at h
  · cases h
  · rcases Outcome.bind_eq_error_iff.1 h with h | ⟨⟨⟨e, rest⟩, shorter⟩, hread, h⟩
    · exact overlong_of_read h
    · cases rest with
      | nil => cases h
      | cons t rest =>
        dsimp only at h
        split at h <;> cases h

/-- An integer with too many digits that stands where an operand begins ends the reading. -/
theorem read_overlong_first {limit : Int} {nesting : Nat} {t : Token} {tokens : List Token}
    (h : t.lexeme.isOverlong = true) :
    read limit .disjunction nesting (t :: tokens) = .error .overlong := by
  obtain ⟨leaf, hleaf⟩ := exists_leaf_of_isOverlong h
  have hunary := (leaf?_eq_some_iff.1 hleaf).unary?_eq_none
  have hsign : read limit .sign nesting (t :: tokens) = .error .overlong :=
    read_plain_eq_error rfl (hunary .sign) (read_overlong h)
  have hsum : read limit .sum nesting (t :: tokens) = .error .overlong :=
    read_chain_eq_error rfl (.inl (read_chain_eq_error rfl (.inl hsign)))
  have hnegation : read limit .negation nesting (t :: tokens) = .error .overlong :=
    read_plain_eq_error rfl (hunary .negation) (read_comparison_eq_error (.inl hsum))
  exact read_chain_eq_error rfl (.inl (read_chain_eq_error rfl (.inl hnegation)))

theorem readAll_overlong_first {limit : Int} {t : Token} {tokens : List Token}
    (h : t.lexeme.isOverlong = true) : readAll limit (t :: tokens) = .error .overlong := by
  refine readAll_eq_error_of_read (fun t' ht' hfinish => ?_) (.inl (read_overlong_first h))
  obtain rfl := Option.some.inj ht'
  rw [hfinish] at h
  cases h

theorem compile_overlongNumeral {limits : Limits} (path : String)
    (hlength : (overlongNumeral.text.length : Int) ≤ limits.length) :
    compile limits path overlongNumeral.text = .error .overlong := by
  have htokens := Token.ofFormula_text isProper_overlongNumeral
  have htree : treeOf limits overlongNumeral.text = .error .overlong := by
    rw [treeOf, if_neg (Int.not_lt.2 hlength), htokens]
    exact readAll_overlong_first (t := ⟨overlongNumeral, 0⟩) isOverlong_overlongNumeral
  rw [compile, htree]
  rfl

/-- Whether there is an integer with too many digits in a text or among its limits. -/
inductive MeetsOverlong (limits : Limits) (source : String) : Prop where
  | depth (h : Text.isWritable limits.depth = false)
  | length (h : Text.isWritable limits.length = false)
  | numeral {tokens : List Token} {t : Token} (htokens : Token.ofFormula source = .ok tokens)
      (ht : t ∈ tokens) (h : t.lexeme.isOverlong = true)

theorem meetsOverlong_of_treeOf {limits : Limits} {source : String}
    (h : treeOf limits source = .error .overlong) : MeetsOverlong limits source := by
  unfold treeOf at h
  split at h
  · exact .length (Refusal.showing_eq_overlong_iff.1 (Except.error.inj h))
  · rcases Outcome.bind_eq_error_iff.1 h with h | ⟨tokens, htokens, h⟩
    · obtain ⟨fault, -, hfault⟩ := Outcome.lift_eq_error_iff.1 h
      cases hfault
    · rcases overlong_of_readAll h with h | ⟨t, ht, h⟩
      · exact .depth h
      · exact .numeral (Outcome.lift_eq_ok_iff.1 htokens) ht h

/-- An integer with too many digits is written with too many characters. -/
theorem length_of_isOverlong {l : Lexeme} (h : l.isOverlong = true) :
    Text.maxDigits < l.chars.length := by
  cases l with
  | number numeral =>
    obtain ⟨whole, fraction, exponent⟩ := numeral
    unfold Lexeme.isOverlong Numeral.isOverlong at h
    simp only [Bool.and_eq_true, Option.isNone_iff_eq_none] at h
    obtain ⟨⟨rfl, rfl⟩, hwhole⟩ := h
    have hchars : (Lexeme.number ⟨whole, none, none⟩).chars = whole := by
      simp [Lexeme.chars, Numeral.chars]
    rw [hchars]
    by_contra hshort
    cases hwhole.symm.trans (if_pos (Nat.not_lt.1 hshort))
  | _ => cases h

/-- So there is none in a text that is short enough. -/
theorem MeetsOverlong.length_lt {limits : Limits} {source : String}
    (h : MeetsOverlong limits source) (hlimits : limits.AreWritable) :
    Text.maxDigits < source.length := by
  cases h with
  | depth h =>
    rw [hlimits.1] at h
    cases h
  | length h =>
    rw [hlimits.2] at h
    cases h
  | @numeral tokens t htokens ht h =>
    obtain ⟨lexed, rfl, hlexed⟩ := Token.exists_covers_of_ofFormula htokens
    rcases List.mem_append.1 ht with ht | ht
    · have hlong := length_of_isOverlong h
      have hwithin := hlexed.within t ht
      omega
    · rw [List.mem_singleton.1 ht] at h
      cases h

/-! ## The tokens of a text -/

theorem lexemesBeforeFinish_cons {t : Token} (tokens : List Token) (h : t.lexeme ≠ .finish) :
    lexemesBeforeFinish (t :: tokens) = t.lexeme :: lexemesBeforeFinish tokens := by
  unfold lexemesBeforeFinish
  rw [List.map_cons, List.takeWhile_cons_of_pos (by simpa using h)]

/-- The end of a text is marked once, after all its lexemes. -/
theorem map_lexeme_of_ofFormula {source : String} {tokens : List Token}
    (h : Token.ofFormula source = .ok tokens) :
    tokens.map Token.lexeme = lexemesBeforeFinish tokens ++ [.finish] := by
  unfold Token.ofFormula at h
  generalize 0 = position at h
  generalize source.toList = cs at h
  fun_induction Token.scan position cs generalizing tokens with
  | case1 position =>
    cases h
    rfl
  | case2 position c cs hblank ih => exact ih h
  | case3 position c cs hblank hscan => cases h
  | case4 position c cs hblank l after hscan this ih =>
    simp only [Outcome.bind_eq_ok_iff, Outcome.pure_eq_ok_iff] at h
    obtain ⟨rest, hrest, rfl⟩ := h
    -- The mark of the end has no characters, and every lexeme that is scanned has some.
    have hl : l ≠ .finish := by
      rintro rfl
      exact Lexeme.chars_ne_nil_of_scan? hscan rfl
    rw [List.map_cons, ih hrest, lexemesBeforeFinish_cons rest hl]
    rfl

/-- All tokens but the end have been scanned. -/
theorem exists_scan_of_ofFormula {source : String} {tokens : List Token} {t : Token}
    (h : Token.ofFormula source = .ok tokens) (ht : t ∈ tokens) (hfinish : t.lexeme ≠ .finish) :
    ∃ cs rest, Lexeme.scan? cs = some (t.lexeme, rest) := by
  unfold Token.ofFormula at h
  generalize 0 = position at h
  generalize source.toList = cs at h
  fun_induction Token.scan position cs generalizing tokens with
  | case1 position =>
    cases h
    obtain rfl := List.mem_singleton.1 ht
    exact absurd rfl hfinish
  | case2 position c cs hblank ih => exact ih ht h
  | case3 position c cs hblank hscan => cases h
  | case4 position c cs hblank l after hscan this ih =>
    simp only [Outcome.bind_eq_ok_iff, Outcome.pure_eq_ok_iff] at h
    obtain ⟨rest, hrest, rfl⟩ := h
    rcases List.mem_cons.1 ht with rfl | ht
    · exact ⟨c :: cs, after, hscan⟩
    · exact ih ht hrest

/-! ## Compiled formulas -/

/-! A text is compiled in three steps: its length is looked at, and it is split and read. -/

theorem compile_of_readAll {limits : Limits} {path source : String} {tokens : List Token}
    {root : Expr} (hlength : (source.length : Int) ≤ limits.length)
    (htokens : Token.ofFormula source = .ok tokens)
    (hread : readAll limits.depth tokens = .ok root) :
    compile limits path source = .ok ⟨source, root⟩ := by
  refine compile_eq_ok_iff.2 ⟨rfl, ?_⟩
  unfold treeOf
  rw [if_neg (Int.not_lt.2 hlength), htokens]
  exact hread

theorem readAll_of_compile {limits : Limits} {path source : String} {f : Formula}
    (h : compile limits path source = .ok f) :
    (source.length : Int) ≤ limits.length ∧ ∃ tokens, Token.ofFormula source = .ok tokens ∧
      readAll limits.depth tokens = .ok f.root := by
  have htree := (compile_eq_ok_iff.1 h).2
  unfold treeOf at htree
  split at htree
  · cases htree
  · next hlength =>
    obtain ⟨tokens, htokens, hread⟩ := Outcome.bind_eq_ok_iff.1 htree
    exact ⟨Int.not_lt.1 hlength, tokens, Outcome.lift_eq_ok_iff.1 htokens, hread⟩

/-- A compiled formula is what a derivation of its lexemes means. -/
theorem exists_derivation_of_compile {limits : Limits} {path source : String} {f : Formula}
    (h : compile limits path source = .ok f) :
    ∃ tokens, Token.ofFormula source = .ok tokens ∧ ∃ d : Derivation .disjunction,
      d.lexemes = lexemesBeforeFinish tokens ∧ d.tree = f.root := by
  obtain ⟨-, tokens, htokens, hread⟩ := readAll_of_compile h
  have hlarger := readAll_mono (Int.le_max_left limits.depth 1) hread
  obtain ⟨d, hlexemes, hd, -, -⟩ := (readAll_iff_derivation
    (exists_finish_of_ofFormula htokens) (Int.le_max_right limits.depth 1)).1 hlarger
  exact ⟨tokens, htokens, d, hlexemes, hd⟩

/-- A text is compiled to one formula, whatever the limits that allow it. -/
theorem compile_unique {limits limits' : Limits} {path path' source : String} {f f' : Formula}
    (h : compile limits path source = .ok f) (h' : compile limits' path' source = .ok f') :
    f = f' := by
  obtain ⟨tokens, htokens, d, hlexemes, htree⟩ := exists_derivation_of_compile h
  obtain ⟨tokens', htokens', d', hlexemes', htree'⟩ := exists_derivation_of_compile h'
  cases htokens.symm.trans htokens'
  have hroot : f.root = f'.root := by
    rw [← htree, ← htree', Derivation.tree_eq_of_lexemes_eq (hlexemes.trans hlexemes'.symm)]
  obtain ⟨text, root⟩ := f
  obtain ⟨text', root'⟩ := f'
  cases source_of_compile h
  cases source_of_compile h'
  exact congrArg (Formula.mk _) hroot

end Formula

end Tariff
