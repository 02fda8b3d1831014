import Tariff.Document.Fields
import Tariff.Text.Blank
import Tariff.Text.Digit

/-!
# Syntax versions

The syntax of a pricing document has a version, a major and a minor number. It is
written as two runs of decimal digits around one point, by the author as a text
(`"1.1"`) or, without the quotes, as a floating-point number; so `runs?` takes
both apart. Versions are ordered by their numbers, not by their texts: 1.9 is older than
1.10.

Some fields exist only in some versions. `Fields.misplaced` lists the fields of a
document that its version does not have.
-/

namespace Tariff

/-- A version of the document syntax. -/
structure Version where
  major : Nat
  minor : Nat
  deriving DecidableEq

namespace Version

/-- Whether both numbers of a version have few enough digits to be written. -/
def isWritable (v : Version) : Bool := Text.isWritable v.major && Text.isWritable v.minor

/-- The text of a version, if it can be written. -/
def text (v : Version) : String :=
  String.ofList (Nat.toDigits 10 v.major ++ '.' :: Nat.toDigits 10 v.minor)

/-- Whether one version is strictly older than another. -/
def older (v w : Version) : Bool :=
  decide (v.major < w.major) || (v.major == w.major && decide (v.minor < w.minor))

/-- The two runs of digits that characters consist of, around a point. The digits may be of
any script. -/
def charRuns? (cs : List Char) : Option (List Char × List Char) :=
  let major := cs.takeWhile Text.isDigit
  match cs.dropWhile Text.isDigit with
  | '.' :: minor =>
    if major ≠ [] ∧ minor ≠ [] ∧ minor.all Text.isDigit then some (major, minor) else none
  | _ => none

/-- The two runs of digits of a tag: of a text, blank space around it aside, or of the text
of a floating-point number. -/
def runs? : Value → Option (List Char × List Char)
  | .float x => charRuns? x.text.toList
  | .text s => charRuns? (Text.trim s.toList)
  | _ => none

/-- The version that a tag denotes, unless one of its runs has too many digits. -/
def read? (raw : Value) : Option Version := do
  let (major, minor) ← runs? raw
  return ⟨← Text.integer? major, ← Text.integer? minor⟩

/-- Version 1.0, which an untagged document has. -/
def v1_0 : Version := ⟨1, 0⟩

/-- Version 1.1. -/
def v1_1 : Version := ⟨1, 1⟩

/-- Version 2.0, the current one. -/
def v2_0 : Version := ⟨2, 0⟩

/-- The versions that can be read, in order. -/
def supported : List Version := [v1_0, v1_1, v2_0]

/-- The version that every document is brought to. -/
def current : Version := v2_0

/-- The fields that exist only from one version on, or only up to one, each with
its first and, if there is one, its last version. -/
def fieldWindows : List (String × Version × Option Version) :=
  [("day", v1_0, some v1_0), ("month", v1_0, some v1_0), ("year", v1_0, some v1_0),
   ("createdAt", v1_1, none)]

/-- Whether a version lies outside a window. -/
def outside (v : Version) (window : Version × Option Version) : Bool :=
  v.older window.1 || window.2.any fun last => last.older v

end Version

namespace Fields

/-- The fields of a document that its version does not have, in a fixed order. A
field counts even if it is null. -/
def misplaced (fields : Fields) (v : Version) : List String :=
  (Version.fieldWindows.filter fun window =>
    fields.has window.1 && v.outside window.2).map Prod.fst

end Fields

end Tariff
