import Tariff.Calendar.Moment
import Tariff.Number.Basic

/-!
# Document values

A pricing document, the variables of a request and the values of a snapshot arrive
as loosely typed data. `Value` is the type of that data; `Scalar` is the part of it
that a pricing may hold once it has been read: booleans, numbers and texts.

Mappings keep the order in which their entries were written, and at this level a
key may be any value: that keys must be texts is something the reader of a document
checks and reports. Values that no document may hold, but that a caller can still
pass, are kept by the name of their type, or in the case of bytes and sets by what is in
them.

Two vocabularies name what a value is. `Kind` is the vocabulary of documents, where
an integer and a floating-point number differ and a date counts as text.
`operandKind` is that of formulas, where all numbers are alike and a date is a date.
-/

namespace Tariff

/-- A value that a pricing may hold. -/
inductive Scalar where
  | bool (b : Bool)
  | number (n : Number)
  | text (s : String)
  deriving DecidableEq

/-- Any value that can be passed in. -/
inductive Value where
  /-- The absent value. -/
  | null
  /-- A boolean, a number or a text. -/
  | scalar (s : Scalar)
  /-- A date that the loader of the document has already recognised. -/
  | date (d : Date)
  /-- A date and time that the loader of the document has already recognised. -/
  | moment (m : Moment)
  /-- A sequence. -/
  | list (items : List Value)
  /-- A fixed sequence, told apart from a list only where values are shown. -/
  | tuple (items : List Value)
  /-- A mapping, in the order of its entries. -/
  | mapping (entries : List (Value × Value))
  /-- A string of bytes. -/
  | bytes (content : List UInt8)
  /-- A set, its members in the order in which they are gone through. -/
  | set (members : List Value)
  /-- Any other object, which is no collection, by the name of its type. -/
  | foreign (typeName : String)

/-- The kinds of value that a document distinguishes. -/
inductive Kind where
  | null
  | boolean
  | integer
  | float
  | text
  | sequence
  | mapping
  deriving DecidableEq

namespace Kind

/-- The name of a kind in messages. -/
def name : Kind → String
  | .null => "null"
  | .boolean => "boolean"
  | .integer => "integer"
  | .float => "float"
  | .text => "text"
  | .sequence => "sequence"
  | .mapping => "mapping"

end Kind

namespace Scalar

/-- The kind of a scalar. -/
def kind : Scalar → Kind
  | .bool _ => .boolean
  | .number (.int _) => .integer
  | .number (.float _) => .float
  | .text _ => .text

/-- The name of a scalar's kind among the operands of formulas. -/
def operandKind : Scalar → String
  | .bool _ => "boolean"
  | .number _ => "numeric"
  | .text _ => "text"

/-- Whether a scalar counts as true: a boolean as itself, a number if it is not
zero, a text if it is not empty. -/
def isTruthy : Scalar → Bool
  | .bool b => b
  | .number n => !n.isZero
  | .text s => s != ""

end Scalar

namespace Value

instance : Inhabited Value := ⟨.null⟩

/-- A boolean as a value. -/
@[match_pattern] abbrev bool (b : Bool) : Value := .scalar (.bool b)

/-- A number as a value. -/
@[match_pattern] abbrev number (n : Number) : Value := .scalar (.number n)

/-- An integer as a value. -/
@[match_pattern] abbrev int (n : Int) : Value := .scalar (.number (.int n))

/-- A floating-point number as a value. -/
@[match_pattern] abbrev float (x : Binary64) : Value := .scalar (.number (.float x))

/-- A text as a value. -/
@[match_pattern] abbrev text (s : String) : Value := .scalar (.text s)

/-- The kind of a value in a document; none for what no document may hold. -/
def kind? : Value → Option Kind
  | .null => some .null
  | .scalar s => some s.kind
  | .date _ => some .text
  | .moment _ => some .text
  | .list _ => some .sequence
  | .tuple _ => some .sequence
  | .mapping _ => some .mapping
  | .bytes _ => none
  | .set _ => none
  | .foreign _ => none

/-- The name of a value's kind among the operands of formulas. What is no scalar is
called by the name of its type. -/
def operandKind : Value → String
  | .null => "null"
  | .scalar s => s.operandKind
  | .date _ => "date"
  | .moment _ => "datetime"
  | .list _ => "list"
  | .tuple _ => "tuple"
  | .mapping _ => "dict"
  | .bytes _ => "bytes"
  | .set _ => "set"
  | .foreign typeName => typeName

/-- The name of a value's kind in a document, or of its type if it has none. -/
def kindName (v : Value) : String :=
  match v.kind? with
  | some kind => kind.name
  | none => v.operandKind

/-- Whether a value is the absent one. -/
def isNull : Value → Bool
  | .null => true
  | _ => false

/-- Whether a value counts as true. Dates do; a container does if it is not empty. -/
def isTruthy : Value → Bool
  | .null => false
  | .scalar s => s.isTruthy
  | .list items => !items.isEmpty
  | .tuple items => !items.isEmpty
  | .mapping entries => !entries.isEmpty
  | .bytes content => !content.isEmpty
  | .set members => !members.isEmpty
  | _ => true

end Value

end Tariff
