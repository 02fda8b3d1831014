import Mathlib.Data.List.Basic
import Tariff.Proofs.Formula.Lexemes
import Tariff.Proofs.Outcome

/-!
# Tokens account for a formula

A formula is split into tokens without loss (`Token.Covers`): the text of each token stands
in the formula at the position of the token, where no longer lexeme begins, the tokens do
not overlap, and what lies between them is blank. Splitting goes from left to right. It ends
at the end of the text or at the first position where neither blank space nor a lexeme
begins, and no other account of the text comes past that position
(`Token.ofFormula_covers`).

Each step of splitting, over a blank character or over a lexeme, continues an account of
what lies before it (`Covers.past_blank`, `Covers.past_lexeme`). Accounts agree on where
tokens begin, since tokens are longest and do not begin with blank space
(`Covers.exists_same`).
-/

namespace Tariff.Formula

open Text (isBlank)

namespace Token

/-- Whether the character at a position is one of a token. -/
def Spans (t : Token) (i : Nat) : Prop :=
  t.position ≤ i ∧ i < t.position + t.lexeme.chars.length

/-- Whether tokens account for a text up to a position. -/
structure Covers (text : List Char) (stop : Nat) (tokens : List Token) : Prop where
  longest : ∀ t ∈ tokens, t.lexeme.IsLongest (text.drop t.position)
  within : ∀ t ∈ tokens, t.position + t.lexeme.chars.length ≤ stop
  apart : tokens.Pairwise fun s t => s.position + s.lexeme.chars.length ≤ t.position
  blank : ∀ i c, i < stop → text[i]? = some c → (∀ t ∈ tokens, ¬t.Spans i) → isBlank c = true

/-- Whether neither blank space nor a lexeme begins at a position of a text. -/
structure Stuck (text : List Char) (position : Nat) : Prop where
  visible : ∃ c, text[position]? = some c ∧ isBlank c = false
  no_lexeme : ∀ l : Lexeme, l.IsProper → ¬l.chars <+: text.drop position

/-- Whether a text is made of the texts of tokens, with blank space between each two. -/
inductive Spaced : List Token → List Char → Prop where
  | nil : Spaced [] []
  | last (t : Token) : Spaced [t] t.lexeme.chars
  | cons (t : Token) {gap cs : List Char} {tokens : List Token} (hne : gap ≠ [])
      (hblank : ∀ c ∈ gap, isBlank c = true) (hmore : tokens ≠ []) (h : Spaced tokens cs) :
      Spaced (t :: tokens) (t.lexeme.chars ++ gap ++ cs)

/-! ## The steps of splitting -/

variable {position : Nat} {c : Char} {cs rest text : List Char} {l : Lexeme}

theorem scan_of_blank (h : isBlank c = true) : scan position (c :: cs) = scan (position + 1) cs := by
  rw [scan, if_pos h]

theorem scan_of_lexeme (hc : isBlank c = false) (h : Lexeme.scan? (c :: cs) = some (l, rest)) :
    scan position (c :: cs) =
      (scan (position + l.chars.length) rest).map (⟨l, position⟩ :: ·) := by
  rw [scan, if_neg (by simp [hc])]
  split
  · next hnone =>
    rw [h] at hnone
    cases hnone
  · next hsome =>
    rw [h] at hsome
    cases hsome
    rfl

theorem scan_of_stuck (hc : isBlank c = false) (h : Lexeme.scan? (c :: cs) = none) :
    scan position (c :: cs) = .error (.unexpectedCharacter c position) := by
  rw [scan, if_neg (by simp [hc])]
  split
  · rfl
  · next hsome =>
    rw [h] at hsome
    cases hsome

/-! ## Accounts -/

/-- A longest lexeme begins with a character that is not blank. -/
theorem exists_visible_of_isLongest {position : Nat} (h : l.IsLongest (text.drop position)) :
    ∃ c, text[position]? = some c ∧ isBlank c = false := by
  obtain ⟨c, cs, hchars, hc⟩ := h.proper.exists_cons
  obtain ⟨rest, hsplit⟩ := h.begins
  rw [hchars, List.cons_append] at hsplit
  refine ⟨c, ?_, hc⟩
  rw [← List.head?_drop, ← hsplit]
  rfl

namespace Covers

variable {stop : Nat} {tokens : List Token}

theorem empty (text : List Char) : Covers text 0 [] where
  longest := List.forall_mem_nil _
  within := List.forall_mem_nil _
  apart := .nil
  blank := fun i _ hi => absurd hi (Nat.not_lt_zero i)

/-- Past a blank character the account is the same. -/
theorem past_blank (h : Covers text stop tokens) (hc : text[stop]? = some c)
    (hblank : isBlank c = true) : Covers text (stop + 1) tokens where
  longest := h.longest
  within := fun t ht => Nat.le_succ_of_le (h.within t ht)
  apart := h.apart
  blank := by
    intro i d hi hd hspans
    rcases Nat.lt_succ_iff_lt_or_eq.1 hi with hi | rfl
    · exact h.blank i d hi hd hspans
    · cases hc.symm.trans hd
      exact hblank

/-- Past the longest lexeme that begins where an account stops, the account has one token
more. -/
theorem past_lexeme (h : Covers text stop tokens) (hl : l.IsLongest (text.drop stop)) :
    Covers text (stop + l.chars.length) (tokens ++ [⟨l, stop⟩]) where
  longest := List.forall_mem_append.2 ⟨h.longest, List.forall_mem_singleton.2 hl⟩
  within := List.forall_mem_append.2
    ⟨fun t ht => Nat.le_trans (h.within t ht) (Nat.le_add_right _ _),
      List.forall_mem_singleton.2 (Nat.le_refl _)⟩
  apart := List.pairwise_append.2 ⟨h.apart, List.pairwise_singleton _ _,
    fun s hs t ht => List.mem_singleton.1 ht ▸ h.within s hs⟩
  blank := by
    intro i d hi hd hspans
    obtain ⟨hbefore, hlast⟩ := List.forall_mem_append.1 hspans
    by_cases hstop : i < stop
    · exact h.blank i d hstop hd hbefore
    · exact absurd ⟨Nat.le_of_not_lt hstop, hi⟩ (hlast _ (List.mem_singleton_self _))

/-- Of two tokens of an account, the one that begins first ends before the other begins. -/
theorem end_le_of_lt (h : Covers text stop tokens) {s t : Token} (hs : s ∈ tokens)
    (ht : t ∈ tokens) (hlt : s.position < t.position) :
    s.position + s.lexeme.chars.length ≤ t.position := by
  obtain ⟨i, hi, rfl⟩ := List.getElem_of_mem hs
  obtain ⟨j, hj, rfl⟩ := List.getElem_of_mem ht
  have hapart := List.pairwise_iff_getElem.1 h.apart
  rcases Nat.lt_trichotomy i j with hij | rfl | hij
  · exact hapart i j hi hj hij
  · omega
  · have := hapart j i hj hi hij
    omega

/-- Accounts of a text agree on the tokens that begin before both of them stop. -/
theorem exists_same {other : Nat} {others : List Token} (h : Covers text stop tokens)
    (h' : Covers text other others) {s : Token} (hs : s ∈ tokens) (hlt : s.position < other) :
    ∃ t ∈ others, t.position = s.position ∧ t.lexeme.chars.length = s.lexeme.chars.length := by
  -- By induction on where the token begins; a token of the other account that lies across
  -- that place begins before it.
  induction hposition : s.position using Nat.strong_induction_on
    generalizing stop tokens other others s with
  | _ position ih =>
    subst hposition
    have hlongest := h.longest s hs
    obtain ⟨c, hc, hvisible⟩ := exists_visible_of_isLongest hlongest
    obtain ⟨t, ht, hspans⟩ : ∃ t ∈ others, t.Spans s.position := by
      by_contra hnone
      have hblank := h'.blank s.position c hlt hc fun t ht hspans => hnone ⟨t, ht, hspans⟩
      rw [hvisible] at hblank
      cases hblank
    obtain ⟨hle, hend⟩ := hspans
    have hlongest' := h'.longest t ht
    rcases Nat.lt_or_eq_of_le hle with hbefore | heq
    · have hstop := h.within s hs
      obtain ⟨u, hu, hposition, hlength⟩ := ih t.position hbefore h' h ht (by omega) rfl
      have hu' := h.end_le_of_lt hu hs (by omega)
      omega
    · rw [heq] at hlongest'
      exact ⟨t, ht, heq, Nat.le_antisymm (hlongest.longest _ hlongest'.proper hlongest'.begins)
        (hlongest'.longest _ hlongest.proper hlongest.begins)⟩

/-- No account comes past a position where splitting has come to an end. -/
theorem not_stuck_before {earlier : Nat} {others : List Token} (h : Covers text stop tokens)
    (h' : Covers text earlier others) (hlt : earlier < stop) : ¬Stuck text earlier := by
  rintro ⟨⟨c, hc, hvisible⟩, hnone⟩
  obtain ⟨s, hs, hle, hend⟩ : ∃ s ∈ tokens, s.Spans earlier := by
    by_contra hspans
    have hblank := h.blank earlier c hlt hc fun s hs hspan => hspans ⟨s, hs, hspan⟩
    rw [hvisible] at hblank
    cases hblank
  have hlongest := h.longest s hs
  rcases Nat.lt_or_eq_of_le hle with hbefore | heq
  · obtain ⟨t, ht, hposition, hlength⟩ := h.exists_same h' hs hbefore
    have hwithin := h'.within t ht
    omega
  · rw [heq] at hlongest
    exact hnone _ hlongest.proper hlongest.begins

/-- The tokens of an account are in order. -/
theorem increasing (h : Covers text stop tokens) :
    tokens.Pairwise fun s t => s.position < t.position := by
  refine h.apart.imp_of_mem fun {s t} hs ht hle => ?_
  obtain ⟨c, cs, hchars, -⟩ := (h.longest s hs).proper.exists_cons
  rw [hchars, List.length_cons] at hle
  omega

end Covers

/-- Splitting the rest of a text continues an account of what lies before it, up to the end
of the text or to where it is stuck. -/
theorem covers_of_scan {tokens : List Token} (hcs : text.drop position = cs)
    (hposition : position ≤ text.length) (h : Covers text position tokens) :
    match scan position cs with
    | .ok found => ∃ more, found = more ++ [⟨.finish, text.length⟩] ∧
        Covers text text.length (tokens ++ more)
    | .error fault => ∃ c stop more, fault = .unexpectedCharacter c stop ∧
        text[stop]? = some c ∧ Covers text stop (tokens ++ more) ∧ Stuck text stop := by
  induction hlength : cs.length using Nat.strong_induction_on
    generalizing position cs tokens with
  | _ length ih =>
    subst hlength
    cases cs with
    | nil =>
      have hend : position = text.length :=
        Nat.le_antisymm hposition (List.drop_eq_nil_iff.1 hcs)
      rw [scan, hend]
      exact ⟨[], rfl, by rwa [List.append_nil, ← hend]⟩
    | cons c cs =>
      have hc : text[position]? = some c := by
        rw [← List.head?_drop, hcs]
        rfl
      have hdrop : ∀ n, text.drop (position + n) = (c :: cs).drop n := fun n => by
        rw [← hcs, List.drop_drop]
      have hlt : position < text.length := (List.getElem?_eq_some_iff.1 hc).1
      cases hblank : isBlank c with
      | true =>
        rw [scan_of_blank hblank]
        exact ih _ (Nat.lt_succ_self _) (hdrop 1) hlt (h.past_blank hc hblank) rfl
      | false =>
        cases hscan : Lexeme.scan? (c :: cs) with
        | none =>
          rw [scan_of_stuck hblank hscan]
          refine ⟨c, position, [], rfl, hc, by rwa [List.append_nil], ⟨c, hc, hblank⟩, ?_⟩
          rw [hcs]
          exact fun l => Lexeme.not_begins_of_scan? hscan
        | some found =>
          obtain ⟨l, rest⟩ := found
          have hsplit := Lexeme.chars_append_of_scan? hscan
          have hrest : text.drop (position + l.chars.length) = rest := by
            rw [hdrop, ← hsplit, List.drop_left]
          have hend : position + l.chars.length ≤ text.length := by
            have hlengths := congrArg List.length hsplit
            have hdropped := congrArg List.length hcs
            rw [List.length_append] at hlengths
            rw [List.length_drop] at hdropped
            omega
          have hlongest : l.IsLongest (text.drop position) := by
            rw [hcs]
            exact Lexeme.isLongest_of_scan? hscan
          have hmore := ih _ (Lexeme.length_lt_of_scan? hscan) hrest hend (h.past_lexeme hlongest) rfl
          rw [scan_of_lexeme hblank hscan]
          cases hresult : scan (position + l.chars.length) rest with
          | ok tail =>
            rw [hresult] at hmore
            obtain ⟨more, rfl, hcovers⟩ := hmore
            exact ⟨⟨l, position⟩ :: more, rfl, by rwa [List.append_cons]⟩
          | error fault =>
            rw [hresult] at hmore
            obtain ⟨d, stop, more, rfl, hd, hcovers, hstuck⟩ := hmore
            exact ⟨d, stop, ⟨l, position⟩ :: more, rfl, hd, by rwa [List.append_cons], hstuck⟩

/-! ## Tokens with space between them -/

theorem scan_of_blanks {gap : List Char} (h : ∀ c ∈ gap, isBlank c = true) :
    scan position (gap ++ cs) = scan (position + gap.length) cs := by
  induction gap generalizing position with
  | nil => rfl
  | cons c gap ih =>
    obtain ⟨hc, hgap⟩ := List.forall_mem_cons.1 h
    rw [List.cons_append, scan_of_blank hc, ih hgap, List.length_cons, Nat.add_assoc,
      Nat.add_comm 1]

/-- A lexeme before blank space or the end of the text is split off as it was written. -/
theorem scan_append (h : l.IsProper) (hrest : ∀ c ∈ rest.head?, isBlank c = true) :
    scan position (l.chars ++ rest) =
      (scan (position + l.chars.length) rest).map (⟨l, position⟩ :: ·) := by
  have hscan := h.scan?_append hrest
  obtain ⟨c, cs, hchars, hc⟩ := h.exists_cons
  rw [hchars, List.cons_append] at hscan ⊢
  rw [scan_of_lexeme hc hscan, hchars]

/-- A lexeme alone is split off, whatever its length. -/
theorem ofFormula_text (h : l.IsProper) :
    ofFormula l.text = .ok [⟨l, 0⟩, ⟨.finish, l.chars.length⟩] := by
  have hend : ∀ c ∈ ([] : List Char).head?, isBlank c = true := fun _ hc => nomatch hc
  have hscan : scan 0 (l.chars ++ []) = _ := scan_append h hend
  rw [List.append_nil, scan.eq_1, Nat.zero_add] at hscan
  rw [ofFormula, Lexeme.text, String.toList_ofList, hscan]
  rfl

/-- Texts of tokens with blank space between each two are split into the same lexemes. -/
theorem scan_of_spaced {tokens : List Token} (h : Spaced tokens cs)
    (hproper : ∀ t ∈ tokens, t.lexeme.IsProper) (position : Nat) :
    ∃ again, scan position cs = .ok again ∧
      again.map Token.lexeme = tokens.map Token.lexeme ++ [.finish] := by
  induction h generalizing position with
  | nil => exact ⟨_, scan.eq_1 position, rfl⟩
  | last t =>
    have hend : ∀ c ∈ ([] : List Char).head?, isBlank c = true := by
      intro c hc
      cases hc
    have hsplit : scan position (t.lexeme.chars ++ []) = _ :=
      scan_append (hproper t (List.mem_singleton_self t)) hend
    rw [List.append_nil, scan.eq_1] at hsplit
    exact ⟨_, hsplit, rfl⟩
  | @cons t gap cs tokens hne hblank hmore hspaced ih =>
    obtain ⟨ht, htokens⟩ := List.forall_mem_cons.1 hproper
    have hhead : ∀ c ∈ (gap ++ cs).head?, isBlank c = true := by
      intro c hc
      rw [List.head?_append_of_ne_nil gap hne] at hc
      exact hblank c (List.mem_of_mem_head? hc)
    obtain ⟨again, hagain, hlexemes⟩ := ih htokens (position + t.lexeme.chars.length + gap.length)
    refine ⟨⟨t.lexeme, position⟩ :: again, ?_, by rw [List.map_cons, hlexemes]; rfl⟩
    rw [List.append_assoc, scan_append ht hhead, scan_of_blanks hblank, hagain]
    rfl

/-! ## Keywords -/

/-- A lexeme is a keyword exactly if it is spelled like one. -/
theorem sort_eq_keyword_iff (hl : l.IsProper) :
    l.sort = "keyword" ↔ l.text ∈ ["and", "or", "not", "true", "false"] := by
  have hwords : ["and", "or", "not", "true", "false"] =
      Keyword.all.map fun word => (Lexeme.keyword word).text := by decide
  rw [hwords, List.mem_map]
  constructor
  · intro hsort
    cases l with
    | keyword word => exact ⟨word, word.mem_all, rfl⟩
    | _ => simp [Lexeme.sort] at hsort
  · rintro ⟨word, -, hword⟩
    have hkeyword : (Lexeme.keyword word).IsProper := trivial
    rw [hl.eq_of_chars hkeyword (String.ofList_injective hword.symm)]
    rfl

/-! ## Formulas -/

/-- The tokens of a formula account for its text, and the last one marks its end. -/
theorem exists_covers_of_ofFormula {source : String} {tokens : List Token}
    (h : ofFormula source = .ok tokens) :
    ∃ lexed, tokens = lexed ++ [⟨.finish, source.length⟩] ∧
      Covers source.toList source.length lexed := by
  have hcovers := covers_of_scan rfl (Nat.zero_le _) (Covers.empty source.toList)
  rw [List.drop_zero, show scan 0 source.toList = .ok tokens from h] at hcovers
  obtain ⟨lexed, rfl, hlexed⟩ := hcovers
  exact ⟨lexed, by rw [String.length_toList], by rwa [String.length_toList] at hlexed⟩

/-- The tokens of a formula are in order, its end after all others. -/
theorem increasing_of_ofFormula {source : String} {tokens : List Token}
    (h : ofFormula source = .ok tokens) : tokens.Pairwise fun s t => s.position < t.position := by
  obtain ⟨lexed, rfl, hlexed⟩ := exists_covers_of_ofFormula h
  refine List.pairwise_append.2 ⟨hlexed.increasing, List.pairwise_singleton _ _, ?_⟩
  intro s hs t ht
  rw [List.mem_singleton.1 ht]
  have hwithin := hlexed.within s hs
  obtain ⟨c, cs, hchars, -⟩ := (hlexed.longest s hs).proper.exists_cons
  rw [hchars, List.length_cons] at hwithin
  show s.position < source.length
  omega

/-- The tokens of a formula account for its text, in order, up to the end of the formula,
which the last token marks; and their texts with any blank space between each two are split
into the same tokens again. A formula without tokens is refused at the first position, from
the left, where neither blank space nor a lexeme begins. -/
theorem ofFormula_covers (source : String) :
    match ofFormula source with
    | .ok tokens => ∃ lexed, tokens = lexed ++ [⟨.finish, source.length⟩] ∧
        Covers source.toList source.length lexed ∧
        (tokens.Pairwise fun s t => s.position < t.position) ∧
        (∀ t ∈ lexed, t.lexeme.sort = "keyword" ↔
          t.text ∈ ["and", "or", "not", "true", "false"]) ∧
        ∀ cs, Spaced lexed cs → ∃ again, ofFormula (String.ofList cs) = .ok again ∧
          (again.map fun t => (t.lexeme.sort, t.text)) =
            tokens.map fun t => (t.lexeme.sort, t.text)
    | .error fault => ∃ c position before, fault = .unexpectedCharacter c position ∧
        source.toList[position]? = some c ∧ Covers source.toList position before ∧
        Stuck source.toList position ∧
        ∀ earlier < position, ∀ others, Covers source.toList earlier others →
          ¬Stuck source.toList earlier := by
  cases h : ofFormula source with
  | error fault =>
    have hcovers := covers_of_scan rfl (Nat.zero_le _) (Covers.empty source.toList)
    rw [List.drop_zero, show scan 0 source.toList = .error fault from h] at hcovers
    obtain ⟨c, position, before, hfault, hc, hbefore, hstuck⟩ := hcovers
    exact ⟨c, position, before, hfault, hc, hbefore, hstuck,
      fun earlier hlt others hothers => hbefore.not_stuck_before hothers hlt⟩
  | ok tokens =>
    obtain ⟨lexed, rfl, hlexed⟩ := exists_covers_of_ofFormula h
    refine ⟨lexed, rfl, hlexed, increasing_of_ofFormula h,
      fun t ht => sort_eq_keyword_iff (hlexed.longest t ht).proper, fun cs hcs => ?_⟩
    obtain ⟨again, hagain, hsame⟩ :=
      scan_of_spaced hcs (fun t ht => (hlexed.longest t ht).proper) 0
    have htexts : ∀ ts : List Token, (ts.map fun t => (t.lexeme.sort, t.text)) =
        (ts.map Token.lexeme).map fun l => (l.sort, l.text) := fun ts => by
      rw [List.map_map]
      rfl
    refine ⟨again, by rw [ofFormula, String.toList_ofList, hagain], ?_⟩
    rw [htexts, htexts, hsame, List.map_append (f := lexeme)]
    rfl

example : (ofFormula "1.e3e<=.5").map (·.map Token.text) = .ok ["1.e3", "e", "<=", ".5", ""] := by cbv

example : ofFormula "a < 1 & b" = .error (.unexpectedCharacter '&' 6) := by cbv

end Token

end Tariff.Formula
