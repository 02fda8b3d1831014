import Tariff.Document.Value
import Tariff.Text.Quoted

/-!
# How values are shown in messages

A text is shown as it is, a date and a moment as their parts, and everything else
by its `literal`: the form it has inside a list or a mapping, where texts are quoted
and dates spelled as constructor calls so that each form tells what it stands for. Only a
value all of whose integers can be written is shown (`Value.isWritable`).
-/

namespace Tariff

/-- The literal of a time of day within a moment: hour and minute, then the second
and the microsecond as far as they are not zero. -/
def TimeOfDay.literalParts (t : TimeOfDay) : List Nat :=
  [t.hour, t.minute] ++
    (if t.microsecond ≠ 0 then [t.second, t.microsecond]
      else if t.second ≠ 0 then [t.second] else [])

/-- Numbers separated by commas. -/
def commaSeparated (parts : List String) : String := ", ".intercalate parts

/-- The literal of an offset: UTC by name, another as days, seconds and microseconds
that are not zero, of which only the days can be negative. -/
def Offset.literal (o : Offset) : String :=
  if o.microseconds = 0 then "datetime.timezone.utc"
  else
    let days := o.microseconds / dayLength
    let within := (o.microseconds % dayLength).toNat
    let parts :=
      (if days ≠ 0 then ["days=" ++ toString days] else []) ++
      (if within / 1000000 ≠ 0 then ["seconds=" ++ toString (within / 1000000)] else []) ++
      (if within % 1000000 ≠ 0 then ["microseconds=" ++ toString (within % 1000000)] else [])
    "datetime.timezone(datetime.timedelta(" ++ commaSeparated parts ++ "))"

/-- The literal of a date. -/
def Date.literal (d : Date) : String :=
  "datetime.date(" ++ commaSeparated ([d.year, d.month, d.day].map toString) ++ ")"

/-- The literal of a moment. -/
def Moment.literal (m : Moment) : String :=
  let parts := ([m.date.year, m.date.month, m.date.day] ++ m.time.literalParts).map toString
  let zone := m.offset.elim [] fun o => ["tzinfo=" ++ o.literal]
  "datetime.datetime(" ++ commaSeparated (parts ++ zone) ++ ")"

/-- The literal of a string of bytes: printable ASCII as itself, the rest by two
hexadecimal digits. -/
def bytesLiteral (content : List UInt8) : String :=
  let chars := content.map fun b => Char.ofNat b.toNat
  let quote := Text.enclosingQuote chars
  let shown := chars.map fun c =>
    if c.toNat < 0x7f then Text.quotedChar quote c else "\\x" ++ Text.hex 2 c.toNat
  "b" ++ String.singleton quote ++ String.join shown ++ String.singleton quote

/-- The literal of a scalar. -/
def Scalar.literal : Scalar → String
  | .bool b => if b then "True" else "False"
  | .number n => n.text
  | .text s => Text.quoted s

namespace Value

mutual

/-- The form of a value inside a container. -/
def literal : Value → String
  | .null => "None"
  | .scalar s => s.literal
  | .date d => d.literal
  | .moment m => m.literal
  | .list items => "[" ++ commaSeparated (itemLiterals items) ++ "]"
  | .tuple items =>
    let shown := itemLiterals items
    "(" ++ commaSeparated shown ++ (if shown.length = 1 then ",)" else ")")
  | .mapping entries => "\x7b" ++ commaSeparated (entryLiterals entries) ++ "\x7d"
  | .bytes content => bytesLiteral content
  | .set members =>
    if members.isEmpty then "set()"
    else "\x7b" ++ commaSeparated (itemLiterals members) ++ "\x7d"
  | .foreign typeName => typeName ++ "()"

/-- The literals of the items of a sequence. -/
def itemLiterals : List Value → List String
  | [] => []
  | x :: xs => literal x :: itemLiterals xs

/-- The literals of the entries of a mapping. -/
def entryLiterals : List (Value × Value) → List String
  | [] => []
  | (k, v) :: es => (literal k ++ ": " ++ literal v) :: entryLiterals es

end

mutual

/-- Whether all integers in a value have few enough digits to be written. -/
def isWritable : Value → Bool
  | .scalar (.number n) => n.isWritable
  | .list items => areWritable items
  | .tuple items => areWritable items
  | .set members => areWritable members
  | .mapping entries => entriesAreWritable entries
  | _ => true

/-- Whether all integers in some values can be written. -/
def areWritable : List Value → Bool
  | [] => true
  | x :: xs => isWritable x && areWritable xs

/-- Whether all integers in the entries of a mapping can be written. -/
def entriesAreWritable : List (Value × Value) → Bool
  | [] => true
  | (k, v) :: es => isWritable k && isWritable v && entriesAreWritable es

end

/-- How a value is shown on its own, if it can be (`isWritable`). -/
def display : Value → String
  | .text s => s
  | .date d => d.text
  | .moment m => String.ofList (m.chars ' ')
  | v => v.literal

end Value

end Tariff
