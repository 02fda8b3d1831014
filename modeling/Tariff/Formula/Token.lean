import Tariff.Error.Config
import Tariff.Number.Numeral
import Tariff.Text.Blank

/-!
# Tokens of a formula

A formula is split into lexemes: numerals, names, the five keywords, operator symbols
and parentheses. Blank space separates lexemes and is otherwise dropped. A token is a
lexeme with the position of its first character, counted from zero; the last token
marks the end of the formula.

`Lexeme.scan?` takes the longest lexeme from the front of a text. That the lexeme's
own characters are exactly those taken, `chars_append_of_scan?`, is what makes the
tokens a faithful account of the formula, and also why `Token.scan` ends.
-/

namespace Tariff.Formula

/-- The words that no name can be. -/
inductive Keyword where
  | and
  | or
  | not
  | true
  | false
  deriving DecidableEq

/-- The symbols of operators. -/
inductive Symbol where
  | lessEqual
  | greaterEqual
  | equal
  | notEqual
  | both
  | either
  | less
  | greater
  | plus
  | minus
  | times
  | divide
  | bang
  deriving DecidableEq

namespace Keyword

/-- The characters of a keyword. -/
def chars : Keyword → List Char
  | .and => ['a', 'n', 'd']
  | .or => ['o', 'r']
  | .not => ['n', 'o', 't']
  | .true => ['t', 'r', 'u', 'e']
  | .false => ['f', 'a', 'l', 's', 'e']

/-- The keywords. -/
def all : List Keyword := [.and, .or, .not, .true, .false]

/-- The keyword that a word is. -/
def ofChars? (cs : List Char) : Option Keyword := all.find? fun word => word.chars == cs

theorem chars_of_ofChars? {cs : List Char} {word : Keyword} (h : ofChars? cs = some word) :
    word.chars = cs := by
  have := List.find?_some h
  simpa using this

end Keyword

namespace Symbol

/-- The characters of a symbol. -/
def chars : Symbol → List Char
  | .lessEqual => ['<', '=']
  | .greaterEqual => ['>', '=']
  | .equal => ['=', '=']
  | .notEqual => ['!', '=']
  | .both => ['&', '&']
  | .either => ['|', '|']
  | .less => ['<']
  | .greater => ['>']
  | .plus => ['+']
  | .minus => ['-']
  | .times => ['*']
  | .divide => ['/']
  | .bang => ['!']

/-- The symbols, those of two characters before those of one. -/
def all : List Symbol :=
  [.lessEqual, .greaterEqual, .equal, .notEqual, .both, .either,
   .less, .greater, .plus, .minus, .times, .divide, .bang]

/-- The longest symbol at the front of a text, and the text after it. -/
def scan? (cs : List Char) : Option (Symbol × List Char) :=
  (all.find? fun mark => mark.chars.isPrefixOf cs).map fun mark =>
    (mark, cs.drop mark.chars.length)

theorem chars_append_of_scan? {cs rest : List Char} {mark : Symbol}
    (h : scan? cs = some (mark, rest)) : mark.chars ++ rest = cs := by
  simp only [scan?, Option.map_eq_some_iff, Prod.mk.injEq] at h
  obtain ⟨found, hfind, rfl, rfl⟩ := h
  have hfound := List.find?_some hfind
  obtain ⟨tail, rfl⟩ := List.isPrefixOf_iff_prefix.1 hfound
  simp

theorem chars_ne_nil (mark : Symbol) : mark.chars ≠ [] := by
  cases mark <;> simp [chars]

end Symbol

/-- The smallest parts of a formula. -/
inductive Lexeme where
  | number (numeral : Numeral)
  | name (text : String)
  | keyword (word : Keyword)
  | symbol (mark : Symbol)
  | opening
  | closing
  /-- What stands after the last lexeme. -/
  | finish
  deriving DecidableEq

/-- Whether a character can begin a name: an ASCII letter or an underscore. -/
def isNameStart (c : Char) : Bool :=
  decide ('a' ≤ c ∧ c ≤ 'z') || decide ('A' ≤ c ∧ c ≤ 'Z') || c == '_'

/-- Whether a character can go on a name: what can begin one, or an ASCII digit. -/
def isNamePart (c : Char) : Bool := isNameStart c || Text.isAsciiDigit c

namespace Lexeme

/-- The characters of a lexeme. -/
def chars : Lexeme → List Char
  | .number numeral => numeral.chars
  | .name text => text.toList
  | .keyword word => word.chars
  | .symbol mark => mark.chars
  | .opening => ['(']
  | .closing => [')']
  | .finish => []

/-- The text of a lexeme. -/
def text (l : Lexeme) : String := String.ofList l.chars

/-- What sort of lexeme it is. -/
def sort : Lexeme → String
  | .number _ => "number"
  | .name _ => "identifier"
  | .keyword _ => "keyword"
  | .symbol _ => "operator"
  | .opening => "("
  | .closing => ")"
  | .finish => "end"

/-- The lexeme of a word: a keyword if it is one, else a name. -/
def ofWord (cs : List Char) : Lexeme :=
  match Keyword.ofChars? cs with
  | some word => .keyword word
  | none => .name (String.ofList cs)

/-- The longest lexeme at the front of a text, and the text after it. -/
def scan? : List Char → Option (Lexeme × List Char)
  | [] => none
  | c :: rest =>
    if c = '(' then some (.opening, rest)
    else if c = ')' then some (.closing, rest)
    else if isNameStart c then
      some (ofWord (c :: rest.takeWhile isNamePart), rest.dropWhile isNamePart)
    else
      match Numeral.scan? (c :: rest) with
      | some (numeral, rest) => some (.number numeral, rest)
      | none => (Symbol.scan? (c :: rest)).map fun (mark, rest) => (.symbol mark, rest)

theorem chars_ofWord (cs : List Char) : (ofWord cs).chars = cs := by
  unfold ofWord
  split
  · next h => exact Keyword.chars_of_ofChars? h
  · simp [chars]

/-- What is scanned and what is left make up the text. -/
theorem chars_append_of_scan? {cs rest : List Char} {l : Lexeme}
    (h : scan? cs = some (l, rest)) : l.chars ++ rest = cs := by
  cases cs with
  | nil => simp [scan?] at h
  | cons c tail =>
    simp only [scan?] at h
    split at h
    · next hc =>
      cases h
      simp [chars, hc]
    · split at h
      · next hc =>
        cases h
        simp [chars, hc]
      · split at h
        · cases h
          simp [chars_ofWord, List.takeWhile_append_dropWhile]
        · split at h
          · next hscan =>
            cases h
            exact Numeral.chars_append_of_scan? hscan
          · simp only [Option.map_eq_some_iff, Prod.mk.injEq, Prod.exists] at h
            obtain ⟨mark, tail, hscan, rfl, rfl⟩ := h
            exact Symbol.chars_append_of_scan? hscan

/-- A scanned lexeme has at least one character. -/
theorem chars_ne_nil_of_scan? {cs rest : List Char} {l : Lexeme}
    (h : scan? cs = some (l, rest)) : l.chars ≠ [] := by
  cases cs with
  | nil => simp [scan?] at h
  | cons c tail =>
    simp only [scan?] at h
    split at h
    · cases h
      simp [chars]
    · split at h
      · cases h
        simp [chars]
      · split at h
        · cases h
          simp [chars_ofWord]
        · split at h
          · next hscan =>
            cases h
            exact Numeral.chars_ne_nil_of_scan? hscan
          · simp only [Option.map_eq_some_iff, Prod.mk.injEq, Prod.exists] at h
            obtain ⟨mark, tail, hscan, rfl, rfl⟩ := h
            exact mark.chars_ne_nil

theorem length_lt_of_scan? {cs rest : List Char} {l : Lexeme}
    (h : scan? cs = some (l, rest)) : rest.length < cs.length := by
  have hpos := List.length_pos_iff.2 (chars_ne_nil_of_scan? h)
  rw [← chars_append_of_scan? h, List.length_append]
  omega

end Lexeme

/-- A lexeme with the position where it begins. -/
structure Token where
  lexeme : Lexeme
  position : Nat
  deriving DecidableEq

namespace Token

/-- The text of a token. -/
def text (t : Token) : String := t.lexeme.text

/-- The tokens of a text that begins at a position. -/
def scan (position : Nat) (cs : List Char) : Except SyntaxFault (List Token) :=
  match cs with
  | [] => .ok [⟨.finish, position⟩]
  | c :: rest =>
    if Text.isBlank c then scan (position + 1) rest
    else
      match h : Lexeme.scan? (c :: rest) with
      | none => .error (.unexpectedCharacter c position)
      | some (l, rest) => do
        have := Lexeme.length_lt_of_scan? h
        return ⟨l, position⟩ :: (← scan (position + l.chars.length) rest)
termination_by cs.length
decreasing_by
  · exact Nat.lt_succ_self _
  · assumption

/-- The tokens of a formula. -/
def ofFormula (source : String) : Except SyntaxFault (List Token) := scan 0 source.toList

end Token

end Tariff.Formula
