import Tariff.Text.Printable

/-!
# Quoted text

The spelling of a text inside a list or a mapping when a message shows one. It
stands between single quotes, or between double quotes if it holds a single quote
and no double one. A backslash and the enclosing quote are escaped, and so is
every character that is not printable: line feed, carriage return and tab by a
letter, the rest by two, four or eight hexadecimal digits, whichever is the
shortest that holds its code.
-/

namespace Tariff.Text

/-- A number in lower-case hexadecimal digits, filled with zeros to a width. -/
def hex (width n : Nat) : String :=
  let digits := Nat.toDigits 16 n
  String.ofList (List.replicate (width - digits.length) '0' ++ digits)

/-- The quote that encloses a text. -/
def enclosingQuote (text : List Char) : Char :=
  if text.contains '\'' && !text.contains '"' then '"' else '\''

/-- One character of a text enclosed by `quote`. -/
def quotedChar (quote c : Char) : String :=
  if c = quote ∨ c = '\\' then String.ofList ['\\', c]
  else if c = '\n' then "\\n"
  else if c = '\r' then "\\r"
  else if c = '\t' then "\\t"
  else if isPrintable c then String.singleton c
  else if c.toNat < 0x100 then "\\x" ++ hex 2 c.toNat
  else if c.toNat < 0x10000 then "\\u" ++ hex 4 c.toNat
  else "\\U" ++ hex 8 c.toNat

/-- A text in quotes. -/
def quoted (text : String) : String :=
  let quote := enclosingQuote text.toList
  String.singleton quote ++ String.join (text.toList.map (quotedChar quote)) ++
    String.singleton quote

end Tariff.Text
