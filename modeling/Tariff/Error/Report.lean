import Tariff.Table
import Tariff.Document.Display

/-!
# Error reports

Every error is a cause, a constructor of a type of its own. What a caller sees of a
cause is its report: a code that names the class of the error, a message for people,
and the details that the message was made from, for programs.
-/

namespace Tariff

/-- What a caller sees of an error. -/
structure Report where
  /-- The class of the error. -/
  code : String
  /-- The message. -/
  message : String
  /-- What the message tells, by name. -/
  details : Table Value

/-- Texts as a value. -/
def Value.texts (items : List String) : Value := .list (items.map Value.text)

end Tariff
