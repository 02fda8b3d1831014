import Tariff.Proofs.Formula.Derivation
import Tariff.Proofs.Number.Literal

/-!
# Reading a formula with a cursor

`read` is given the tokens that are left, so it has no position that could go wrong. Here the
same descent goes over all tokens with a cursor. Every token is looked up by its position, and
a position that has no token is a failure of its own (`Failure.beyond`), as is an integer that
has too many digits to be converted from its text or into the text of a message
(`Failure.unconverted`). The cursor also counts the parentheses,
signs and negations that are open. The count goes up and down by one, and it is an integer, so
that nothing but the descent itself brings it back to where it was.

A descent keeps its accesses to the tokens, those before a failure included. That an access
which moves the cursor leaves fewer tokens is in the type of its result, `Onward`, and is why
a descent ends. That there always is a token is not: it depends on the tokens.
-/

namespace Tariff

/-- The number that the text of a literal is read as: a floating-point number if there is a
point or the letter of an exponent in it, an integer otherwise. An integer with too many digits
is not read. -/
def Number.read? (text : String) : Option Number :=
  if text.toList.any ['.', 'e', 'E'].contains then (Binary64.read? text).map .float
  else if text.toList ≠ [] ∧ text.toList.all Text.isDigit then
    (Text.integer? text.toList).map fun n => .int n
  else none

namespace Numeral.IsLiteral

variable {n : Numeral}

/-- A literal begins with a digit or a point, and so with no letter and no sign. -/
theorem chars_ne_cons (h : n.IsLiteral) {c : Char} (hc : Text.isDigit c = false ∧ c ≠ '.')
    (cs : List Char) : n.chars ≠ c :: cs := by
  intro heq
  have hscan := @scan?_append n [] h fun _ hnil => nomatch hnil
  rw [List.append_nil, heq, Numeral.scan?_eq_none hc] at hscan
  cases hscan

theorem float_read? (h : n.IsLiteral) :
    Binary64.read? (String.ofList n.chars) = some (.ofDecimal false n.decimal) := by
  have hscan := @scan?_append n [] h fun _ hnil => nomatch hnil
  rw [List.append_nil] at hscan
  unfold Binary64.read?
  split
  · next heq => exact absurd (String.ofList_injective heq) (h.chars_ne_cons (by decide) _)
  · next heq => exact absurd (String.ofList_injective heq) (h.chars_ne_cons (by decide) _)
  · next heq => exact absurd (String.ofList_injective heq) (h.chars_ne_cons (by decide) _)
  · rw [String.toList_ofList]
    split
    next negative cs hsign =>
      split at hsign
      · next rest heq => exact absurd heq (h.chars_ne_cons (by decide) rest)
      · cases hsign
        rw [hscan]

/-- The text of a literal is read as the value of the literal, if that is no integer with too
many digits: a point and the letter of an exponent are no digits, so there are none of them in
the text of an integer. -/
theorem read?_chars (h : n.IsLiteral) :
    Number.read? (String.ofList n.chars) = if n.isOverlong then none else some n.value := by
  have hfloat := h.float_read?
  obtain ⟨whole, fraction, exponent⟩ := n
  unfold Number.read?
  rw [String.toList_ofList]
  cases fraction with
  | some digits =>
    rw [if_pos (by simp [Numeral.chars]), hfloat]
    rfl
  | none =>
    cases exponent with
    | some e =>
      have hmarker := (h.exponent e rfl).marker
      rw [if_pos (by rcases hmarker with hm | hm <;> simp [Numeral.chars, Exponent.chars, hm]), hfloat]
      rfl
    | none =>
      have hchars : Numeral.chars ⟨whole, none, none⟩ = whole := by simp [Numeral.chars]
      have hmarks : ∀ c ∈ whole, ¬['.', 'e', 'E'].contains c = true := by
        intro c hc hmark
        have hdigit := h.whole c hc
        rcases (by simpa using hmark : c = '.' ∨ c = 'e' ∨ c = 'E') with rfl | rfl | rfl <;>
        exact absurd hdigit (by decide)
      have hoverlong : Numeral.isOverlong ⟨whole, none, none⟩ = (Text.integer? whole).isNone := rfl
      rw [hchars, if_neg (by simpa using hmarks), if_pos, hoverlong]
      · unfold Text.integer?
        split <;> rfl
      · exact ⟨by simpa using h.has_digit, List.all_eq_true.2 h.whole⟩

end Numeral.IsLiteral

namespace Formula

/-- What is done with the token at a position. -/
inductive Access where
  /-- It is looked at. -/
  | look (position : Nat)
  /-- It is taken, and the cursor moves past it. -/
  | take (position : Nat)
  deriving DecidableEq

namespace Access

/-- The position of the token. -/
def position : Access → Nat
  | .look position => position
  | .take position => position

/-- The position of the token, if it is taken. -/
def taken? : Access → Option Nat
  | .look _ => none
  | .take position => some position

end Access

/-- Why a descent has no result. -/
inductive Failure where
  /-- The formula is refused. -/
  | refused (fault : SyntaxFault)
  /-- There is no token at a position. -/
  | beyond (position : Nat)
  /-- An integer has too many digits to be converted from its text, or into the text of a
  message. -/
  | unconverted

/-- The failure of a step that is refused. -/
def Failure.ofRefusal : Refusal SyntaxFault → Failure
  | .because fault => .refused fault
  | .overlong => .unconverted

/-- A result or a failure, with the accesses to tokens that led to it, the earliest first. -/
structure Descent (α : Type) where
  accesses : List Access
  result : Except Failure α

namespace Descent

variable {α β : Type}

/-- Goes on from a result, if there is one. -/
def bind (x : Descent α) (next : α → Descent β) : Descent β :=
  match x.result with
  | .ok a => ⟨x.accesses ++ (next a).accesses, (next a).result⟩
  | .error failure => ⟨x.accesses, .error failure⟩

instance : Monad Descent where
  pure a := ⟨[], .ok a⟩
  bind := bind

/-- A result without an access, or a refusal. -/
def ofExcept (x : Except (Refusal SyntaxFault) α) : Descent α := ⟨[], x.mapError .ofRefusal⟩

theorem ok_bind (accesses : List Access) (a : α) (next : α → Descent β) :
    ((⟨accesses, .ok a⟩ : Descent α) >>= next) =
      ⟨accesses ++ (next a).accesses, (next a).result⟩ := rfl

theorem pure_bind (a : α) (next : α → Descent β) : (pure a >>= next) = next a := rfl

/-- The positions of the tokens that are taken. -/
def taken (x : Descent α) : List Nat := x.accesses.filterMap Access.taken?

end Descent

/-- A position among tokens, with the number of parentheses, signs and negations that are
open there. -/
structure Cursor where
  position : Nat
  nesting : Int

namespace Cursor

/-- How many tokens are left at a cursor. -/
def left (tokens : List Token) (cursor : Cursor) : Nat := tokens.length - cursor.position

/-- The cursor at the next token. -/
def next (cursor : Cursor) : Cursor := { cursor with position := cursor.position + 1 }

/-- Opens a parenthesis, a sign or a negation. -/
def enter (cursor : Cursor) : Cursor := { cursor with nesting := cursor.nesting + 1 }

/-- Closes what was opened last. -/
def leave (cursor : Cursor) : Cursor := { cursor with nesting := cursor.nesting - 1 }

/-- Refuses to be nested more deeply than the limit. -/
def check (limit : Int) (cursor : Cursor) : Except (Refusal SyntaxFault) Unit :=
  if limit < cursor.nesting then .error (SyntaxFault.tooDeep limit).refusal else .ok ()

theorem left_next_lt {tokens : List Token} {cursor : Cursor} (h : cursor.position < tokens.length) :
    cursor.next.left tokens < cursor.left tokens :=
  Nat.sub_lt_sub_left h (Nat.lt_succ_self _)

@[simp] theorem left_enter (tokens : List Token) (cursor : Cursor) :
    cursor.enter.left tokens = cursor.left tokens := rfl

end Cursor

/-- What is found at a cursor, with a cursor at which fewer tokens are left. -/
abbrev Onward (tokens : List Token) (cursor : Cursor) (α : Type) :=
  { r : α × Cursor // r.2.left tokens < cursor.left tokens }

section Steps

variable (limit : Int) (tokens : List Token)

/-- Looks at the token at a cursor. -/
def look (cursor : Cursor) : Descent Token where
  accesses := [.look cursor.position]
  result :=
    match tokens[cursor.position]? with
    | some t => .ok t
    | none => .error (.beyond cursor.position)

/-- Takes the token at a cursor. -/
def take (cursor : Cursor) : Descent (Onward tokens cursor Token) where
  accesses := [.take cursor.position]
  result :=
    if h : cursor.position < tokens.length then
      .ok ⟨(tokens[cursor.position], cursor.next), Cursor.left_next_lt h⟩
    else .error (.beyond cursor.position)

/-- Takes the token at a cursor if its lexeme is an operator of some sort. -/
def accept {α : Type} (operator? : Lexeme → Option α) (cursor : Cursor) :
    Descent (Option (Onward tokens cursor α)) := do
  let t ← look tokens cursor
  match operator? t.lexeme with
  | none => return none
  | some operator =>
    let ⟨(_, next), fewer⟩ ← take tokens cursor
    return some ⟨(operator, next), fewer⟩

/-- The literal or name that a token is by itself, a numeral being read from its text. -/
def operandOf? (t : Token) : Descent (Option Expr) :=
  match t.lexeme with
  | .number _ =>
    match Number.read? t.text with
    | some n => pure (some (.literal (.number n)))
    | none => ⟨[], .error .unconverted⟩
  | l => pure (leaf? l)

end Steps

mutual

/-- Reads an operand at a tier, from a cursor on. -/
def descend (limit : Int) (tokens : List Token) (tier : Tier) (cursor : Cursor) :
    Descent (Onward tokens cursor Expr) :=
  if htier : tier.chains = true then do
    have := Tier.height_tighter (.inl htier)
    let ⟨(first, after), fewer⟩ ← descend limit tokens tier.tighter cursor
    let ⟨(e, last), fewer'⟩ ← follow limit tokens tier first after
    return ⟨(e, last), Nat.lt_of_le_of_lt fewer' fewer⟩
  else if htier : tier.prefixes = true then do
    have := Tier.height_tighter (.inr htier)
    match ← accept tokens tier.unary? cursor with
    | none => descend limit tokens tier.tighter cursor
    | some ⟨(operator, next), fewer⟩ =>
      .ofExcept (next.enter.check limit)
      let ⟨(operand, last), fewer'⟩ ← descend limit tokens tier next.enter
      let e ← .ofExcept (bounded limit (.unaryOf operator operand))
      return ⟨(e, last.leave), Nat.lt_trans fewer' fewer⟩
  else if _ : tier = .comparison then do
    let ⟨(left, after), fewer⟩ ← descend limit tokens .sum cursor
    match ← accept tokens Tier.comparison.binary? after with
    | none => return ⟨(left, after), fewer⟩
    | some ⟨(operator, next), fewer'⟩ =>
      let ⟨(right, last), fewer''⟩ ← descend limit tokens .sum next
      let e ← .ofExcept (bounded limit (.binaryOf operator left right))
      return ⟨(e, last), Nat.lt_trans fewer'' (Nat.lt_trans fewer' fewer)⟩
  else do
    -- The token is taken before it is known what it is.
    let ⟨(t, next), fewer⟩ ← take tokens cursor
    match ← operandOf? t with
    | some e => return ⟨(e, next), fewer⟩
    | none =>
      if t.lexeme = .opening then
        .ofExcept (next.enter.check limit)
        let ⟨(e, after), fewer'⟩ ← descend limit tokens .disjunction next.enter
        -- So is what should be the closing parenthesis.
        let ⟨(closing, last), fewer''⟩ ← take tokens after
        if closing.lexeme = .closing then
          return ⟨(e, last.leave), Nat.lt_trans fewer'' (Nat.lt_trans fewer' fewer)⟩
        else .ofExcept (.error (.because (.unclosed t.position)))
      else .ofExcept (.error (.because (unexpected t)))
termination_by (cursor.left tokens, tier.height)
decreasing_by
  all_goals
    subst_vars
    simp only [Prod.lex_def, Cursor.left_enter, true_and] at *
    have hcomparison : Tier.sum.height < Tier.comparison.height := by decide
    omega

/-- Goes on after an operand with the operators of a tier, as far as they stand there. -/
def follow (limit : Int) (tokens : List Token) (tier : Tier) (left : Expr) (cursor : Cursor) :
    Descent { r : Expr × Cursor // r.2.left tokens ≤ cursor.left tokens } := do
  match ← accept tokens tier.binary? cursor with
  | none => return ⟨(left, cursor), Nat.le_refl _⟩
  | some ⟨(operator, next), fewer⟩ =>
    let ⟨(right, after), fewer'⟩ ← descend limit tokens tier.tighter next
    let e ← .ofExcept (bounded limit (.binaryOf operator left right))
    let ⟨(e, last), fewer''⟩ ← follow limit tokens tier e after
    return ⟨(e, last), Nat.le_of_lt (Nat.lt_of_le_of_lt fewer'' (Nat.lt_trans fewer' fewer))⟩
termination_by (cursor.left tokens, 0)
decreasing_by
  all_goals
    simp only [Prod.lex_def] at *
    omega

end

/-- The tree of all tokens of a formula, with the cursor where reading ends. -/
def parse (limit : Int) (tokens : List Token) : Descent (Expr × Cursor) := do
  let start : Cursor := ⟨0, 0⟩
  let first ← look tokens start
  if first.lexeme = .finish then .ofExcept (.error (.because .empty))
  else
    let ⟨(e, cursor), _⟩ ← descend limit tokens .disjunction start
    let next ← look tokens cursor
    if next.lexeme = .finish then return (e, cursor) else .ofExcept (.error (.because (unexpected next)))

end Formula

end Tariff
