import Tariff.Document.Same
import Tariff.Text.Quoted

/-!
# Writing JSON

The compact text of a value: no blank space, the keys of every object sorted, and
ASCII characters only, so that equal values have equal texts and the bytes of a text
are its characters. Lists and tuples are both arrays. A key that is a boolean, a
number or null is written as the text of its value.

A value may have no such text: numbers must be finite and integers must not have too many
digits, keys must be of one sort to be sorted, and dates, bytes and other objects are not
JSON at all. The fault is that of
the first such place in the order of the text.
-/

namespace Tariff.Json

/-- Why a value has no text. -/
inductive WriteFault where
  /-- A number is infinite or "not a number". -/
  | notFinite
  /-- An integer has too many digits. -/
  | overlong
  /-- A value or key has a type that JSON has not. -/
  | unsupported (kind : String)
  /-- The keys of an object are of several sorts. -/
  | unsortable
  deriving DecidableEq

/-- The escape of a 16-bit code. -/
def unitEscape (code : Nat) : List Char := '\\' :: 'u' :: (Text.hex 4 code).toList

/-- The spelling of one character of a text. A character beyond the first 65536 is
written as two codes. -/
def charText (c : Char) : List Char :=
  if c = '"' ∨ c = '\\' then ['\\', c]
  else if ' ' ≤ c ∧ c ≤ '~' then [c]
  else if c = '\n' then ['\\', 'n']
  else if c = '\r' then ['\\', 'r']
  else if c = '\t' then ['\\', 't']
  else if c = '\x0c' then ['\\', 'f']
  else if c = '\x08' then ['\\', 'b']
  else if c.toNat < 0x10000 then unitEscape c.toNat
  else
    unitEscape (0xd800 + (c.toNat - 0x10000) / 0x400) ++
      unitEscape (0xdc00 + (c.toNat - 0x10000) % 0x400)

/-- A text between quotes. -/
def stringText (s : String) : List Char :=
  '"' :: s.toList.flatMap charText ++ ['"']

/-- A number. -/
def numberText (n : Number) : Except WriteFault (List Char) :=
  if n.isFinite then if n.isWritable then .ok n.text.toList else .error .overlong
  else .error .notFinite

/-- A boolean. -/
def boolText (b : Bool) : List Char := if b then "true".toList else "false".toList

/-- A scalar. -/
def scalarText : Scalar → Except WriteFault (List Char)
  | .bool b => .ok (boolText b)
  | .number n => numberText n
  | .text s => .ok (stringText s)

/-- The key of an object. What is not a text is put between quotes as it is. -/
def keyText : Value → Except WriteFault (List Char)
  | .text s => .ok (stringText s)
  | .scalar s => (scalarText s).map fun text => '"' :: text ++ ['"']
  | .null => .ok (stringText "null")
  | key => .error (.unsupported key.operandKind)

/-- Texts separated by commas, in brackets. -/
def enclosed (opening closing : Char) (texts : List (List Char)) : List Char :=
  opening :: [','].intercalate texts ++ [closing]

/-- Whether keys can be sorted: at most one, or all comparable with the first. -/
def sortable : List Value → Bool
  | [] => true
  | [_] => true
  | first :: rest => rest.all fun key => (first.less? key).isSome

/-- The members of an object, their values already written, in the order of their
keys. -/
def objectText (members : List (Value × Except WriteFault (List Char))) :
    Except WriteFault (List Char) :=
  if sortable (members.map Prod.fst) then do
    let sorted := members.mergeSort fun a b => b.1.less? a.1 != some true
    let texts ← sorted.mapM fun member => do
      let key ← keyText member.1
      return key ++ ':' :: (← member.2)
    return enclosed '\x7b' '\x7d' texts
  else .error .unsortable

mutual

/-- The text of a value. -/
def valueText : Value → Except WriteFault (List Char)
  | .null => .ok "null".toList
  | .scalar s => scalarText s
  | .list items => (itemTexts items).map (enclosed '[' ']')
  | .tuple items => (itemTexts items).map (enclosed '[' ']')
  | .mapping entries => objectText (memberTexts entries)
  | v => .error (.unsupported v.operandKind)

/-- The texts of the items of a sequence. -/
def itemTexts : List Value → Except WriteFault (List (List Char))
  | [] => .ok []
  | v :: rest => do return (← valueText v) :: (← itemTexts rest)

/-- The keys of a mapping with the texts of their values. -/
def memberTexts : List (Value × Value) → List (Value × Except WriteFault (List Char))
  | [] => []
  | (key, v) :: rest => (key, valueText v) :: memberTexts rest

end

/-- The text of a value. -/
def write (v : Value) : Except WriteFault String := (valueText v).map String.ofList

end Tariff.Json
