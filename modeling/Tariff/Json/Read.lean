import Tariff.Document.Fields
import Tariff.Number.Numeral

/-!
# Reading JSON

`read` takes a JSON text to its value. Objects become mappings with text keys; of a
repeated key the last value counts, in the place of the first. A number without a
point and an exponent is an integer, any other the nearest floating-point number;
`NaN`, `Infinity` and `-Infinity` are numbers too.

Texts follow the standard strictly: no control characters inside them, blank space is
space, tab, line feed and carriage return only, and nothing may follow the value. Two
codes that together stand for one character are one character.

Two sorts of texts are refused although they are JSON: those with an integer of too many
digits, and those with a code that belongs to a pair but stands alone, for which there is
no character. The fault is that of the first such place.

The readers of values take a bound on the depth of their calls. One more than the length
of the text is always enough: an array or an object takes two calls and has two brackets,
and every further item takes one call and has a comma.
-/

namespace Tariff.Json

/-- Why a text has no value. -/
inductive ReadFault where
  /-- The text is not JSON. -/
  | malformed
  /-- An integer has too many digits. -/
  | overlong
  /-- A code of a pair stands alone. -/
  | unpaired
  deriving DecidableEq

/-- What has to be there for a text to be JSON. -/
def required {α : Type} (a? : Option α) : Except ReadFault α := a?.elim (.error .malformed) .ok

@[simp] theorem required_some {α : Type} (a : α) : required (some a) = .ok a := rfl

/-- Whether a character may stand between tokens. -/
def isSpace (c : Char) : Bool := c == ' ' || c == '\t' || c == '\n' || c == '\r'

/-- The text from the next token on. -/
def skipSpace (cs : List Char) : List Char := cs.dropWhile isSpace

/-- The value of a hexadecimal digit. -/
def hexDigitValue? (c : Char) : Option Nat :=
  if '0' ≤ c ∧ c ≤ '9' then some (c.toNat - '0'.toNat)
  else if 'a' ≤ c ∧ c ≤ 'f' then some (c.toNat - 'a'.toNat + 10)
  else if 'A' ≤ c ∧ c ≤ 'F' then some (c.toNat - 'A'.toNat + 10)
  else none

/-- The number that hexadecimal digits denote. -/
def hexValue? (cs : List Char) : Option Nat :=
  cs.foldlM (fun value c => (hexDigitValue? c).map (16 * value + ·)) 0

/-- The character of an escape by letter. -/
def letterEscape? : Char → Option Char
  | '"' => some '"'
  | '\\' => some '\\'
  | '/' => some '/'
  | 'b' => some '\x08'
  | 'f' => some '\x0c'
  | 'n' => some '\n'
  | 'r' => some '\r'
  | 't' => some '\t'
  | _ => none

/-- The character of a code that is not the first of a pair. -/
def unitChar (code : Nat) : Except ReadFault Char :=
  if 0xd800 ≤ code ∧ code < 0xe000 then .error .unpaired else .ok (Char.ofNat code)

/-- The character of two codes, if they are a pair. -/
def pairChar? (high low : Nat) : Option Char :=
  if 0xd800 ≤ high ∧ high < 0xdc00 ∧ 0xdc00 ≤ low ∧ low < 0xe000 then
    some (Char.ofNat (0x10000 + (high - 0xd800) * 0x400 + (low - 0xdc00)))
  else none

/-- The characters of a text up to its closing quote, and what follows. -/
def readString : List Char → Except ReadFault (List Char × List Char)
  | [] => .error .malformed
  | '"' :: rest => .ok ([], rest)
  | '\\' :: 'u' :: a :: b :: c :: d :: '\\' :: 'u' :: e :: f :: g :: h :: rest => do
    let first ← required (hexValue? [a, b, c, d])
    match (hexValue? [e, f, g, h]).bind (pairChar? first) with
    | some char =>
      let (text, rest) ← readString rest
      return (char :: text, rest)
    | none =>
      let char ← unitChar first
      let (text, rest) ← readString ('\\' :: 'u' :: e :: f :: g :: h :: rest)
      return (char :: text, rest)
  | '\\' :: 'u' :: a :: b :: c :: d :: rest => do
    let code ← required (hexValue? [a, b, c, d])
    let char ← unitChar code
    let (text, rest) ← readString rest
    return (char :: text, rest)
  | '\\' :: letter :: rest => do
    let char ← required (letterEscape? letter)
    let (text, rest) ← readString rest
    return (char :: text, rest)
  | c :: rest => do
    if c.toNat < 0x20 ∨ c = '\\' then .error .malformed
    let (text, rest) ← readString rest
    return (c :: text, rest)
termination_by cs => cs.length

/-- The digits after a point, if a point and at least one digit stand there. -/
def fraction? : List Char → Option (List Char) × List Char
  | '.' :: rest =>
    match rest.takeWhile Text.isAsciiDigit with
    | [] => (none, '.' :: rest)
    | digits => (some digits, rest.dropWhile Text.isAsciiDigit)
  | cs => (none, cs)

/-- The whole digits of a number: a single zero, or digits of which the first is not
zero. -/
def whole? : List Char → Option (List Char × List Char)
  | '0' :: rest => some (['0'], rest)
  | cs =>
    match cs.takeWhile Text.isAsciiDigit with
    | [] => none
    | digits => some (digits, cs.dropWhile Text.isAsciiDigit)

/-- The number at the front of a text. -/
def readNumber (cs : List Char) : Except ReadFault (Number × List Char) := do
  let (negative, cs) := match cs with
    | '-' :: rest => (true, rest)
    | cs => (false, cs)
  let (whole, cs) ← required (whole? cs)
  let (fraction, cs) := fraction? cs
  let (numeral, rest) := Numeral.withExponent Text.isAsciiDigit ⟨whole, fraction, none⟩ cs
  if numeral.isOverlong then .error .overlong
  return (numeral.signedValue negative, rest)

/-- The words that stand for values. -/
def words : List (List Char × Value) :=
  [("null".toList, .null), ("true".toList, .bool true), ("false".toList, .bool false),
   ("NaN".toList, .float .nan), ("Infinity".toList, .float (.infinity false)),
   ("-Infinity".toList, .float (.infinity true))]

/-- The word at the front of a text. -/
def word? (cs : List Char) : Option (Value × List Char) :=
  (words.find? fun word => word.1.isPrefixOf cs).map fun word => (word.2, cs.drop word.1.length)

mutual

/-- The value at the front of a text. -/
def readValue : Nat → List Char → Except ReadFault (Value × List Char)
  | 0, _ => .error .malformed
  | _ + 1, '"' :: rest =>
    (readString rest).map fun (text, rest) => (.text (String.ofList text), rest)
  | bound + 1, '[' :: rest =>
    match skipSpace rest with
    | ']' :: rest => .ok (.list [], rest)
    | rest => (readItems bound rest).map fun (items, rest) => (.list items, rest)
  | bound + 1, '\x7b' :: rest =>
    match skipSpace rest with
    | '\x7d' :: rest => .ok (.mapping [], rest)
    | rest =>
      (readMembers bound rest).map fun (members, rest) =>
        (.mapping (Fields.ofEntries members), rest)
  | _ + 1, cs =>
    match word? cs with
    | some read => .ok read
    | none => (readNumber cs).map fun (n, rest) => (.number n, rest)

/-- The items of an array that is not empty, up to the closing bracket. -/
def readItems : Nat → List Char → Except ReadFault (List Value × List Char)
  | 0, _ => .error .malformed
  | bound + 1, cs => do
    let (item, rest) ← readValue bound cs
    match skipSpace rest with
    | ']' :: rest => return ([item], rest)
    | ',' :: rest =>
      let (items, rest) ← readItems bound (skipSpace rest)
      return (item :: items, rest)
    | _ => .error .malformed

/-- The members of an object that is not empty, up to the closing brace. -/
def readMembers : Nat → List Char → Except ReadFault (List (Value × Value) × List Char)
  | 0, _ => .error .malformed
  | bound + 1, '"' :: cs => do
    let (key, rest) ← readString cs
    match skipSpace rest with
    | ':' :: rest =>
      let (v, rest) ← readValue bound (skipSpace rest)
      let member : Value × Value := (.text (String.ofList key), v)
      match skipSpace rest with
      | '\x7d' :: rest => return ([member], rest)
      | ',' :: rest =>
        let (members, rest) ← readMembers bound (skipSpace rest)
        return (member :: members, rest)
      | _ => .error .malformed
    | _ => .error .malformed
  | _ + 1, _ => .error .malformed

end

/-- The value of a text. -/
def read (text : String) : Except ReadFault Value := do
  let cs := text.toList
  let (v, rest) ← readValue (cs.length + 1) (skipSpace cs)
  if (skipSpace rest).isEmpty then return v else .error .malformed

end Tariff.Json
