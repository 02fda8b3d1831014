import Tariff.Error.Refusal
import Tariff.Error.Report
import Tariff.Version.Basic

/-!
# Errors of a pricing document

The causes for which a document is refused. They fall into eight classes: a container
of the wrong kind, a missing field, a value of the wrong type, a literal outside its
enumeration, a reference to nothing, a version that cannot be used, a formula outside
the grammar, and a value that breaks a rule. A cause says where in the document it
arose, by the path of the field, and holds all that its message shows.

A message that would show an integer with too many digits cannot be written. So the refusal
for a cause (`ConfigError.refusal`) depends on whether the cause `isWritable`.
-/

namespace Tariff

/-- Why a version cannot be used. -/
inductive VersionFault where
  /-- The tag is no version. -/
  | malformed (field : String) (raw : Value)
  /-- The version is not one that can be read. -/
  | unsupported (v : Version)
  /-- An old version declared under the field of the new ones. -/
  | legacyUnderSyntaxVersion (v : Version)
  /-- A new version declared under the field of the old ones. -/
  | currentUnderVersion (v : Version)
  /-- Fields that the version does not have. -/
  | mixedFields (fields : List String) (v : Version)

/-- Why a formula is outside the grammar. Positions count characters from zero. -/
inductive SyntaxFault where
  | tooLong (limit : Int)
  | unexpectedCharacter (c : Char) (position : Nat)
  | empty
  | unexpectedToken (text : String) (position : Nat)
  | unexpectedEnd
  | unclosed (position : Nat)
  | tooDeep (limit : Int)
  deriving DecidableEq

/-- Why a value of the right type is refused. -/
inductive ValueFault where
  /-- A part of a legacy date is not positive. -/
  | notPositive (value : Int)
  /-- The parts of a legacy date are not a date. -/
  | noSuchDate (year month day : Int)
  /-- The moment has no date in UTC. -/
  | beyondRange (m : Moment)
  /-- The pricing ends before it starts. -/
  | startsAfterEnds (starts ends : Instant)
  /-- An add-on depends on itself or excludes itself. -/
  | selfReference (addOn : String)
  /-- A number is infinite or "not a number". -/
  | notFinite (x : Binary64)

/-- Why a document is refused. -/
inductive ConfigError where
  /-- The document is nested too deeply. -/
  | tooDeep (path : String)
  /-- The document holds what no document may hold. -/
  | unsupportedType (path typeName : String)
  /-- A mapping was expected. -/
  | notMapping (path actual : String)
  /-- A required field is absent or null. -/
  | missing (path : String)
  /-- There is neither a plan nor an add-on. -/
  | nothingOffered
  /-- A value has the wrong type, or a text the wrong form. -/
  | typeMismatch (path actual expected : String)
  /-- A literal is not among those allowed. -/
  | unknownLiteral (path value : String) (allowed : List String)
  /-- A name is not defined where it should be. -/
  | unresolved (path reference catalog : String)
  /-- The version cannot be used. -/
  | version (fault : VersionFault)
  /-- A formula is outside the grammar. -/
  | formula (path text : String) (fault : SyntaxFault)
  /-- A value breaks a rule. -/
  | invalid (path : String) (fault : ValueFault)

/-- The deepest level at which a document may hold a value, its root being level 0. -/
def maxDocumentDepth : Nat := 32

namespace VersionFault

/-- Whether all integers in the message of a version fault can be written. -/
def isWritable : VersionFault → Bool
  | .malformed _ raw => raw.isWritable
  | .unsupported v => v.isWritable
  | .legacyUnderSyntaxVersion v => v.isWritable
  | .currentUnderVersion v => v.isWritable
  | .mixedFields _ v => v.isWritable

/-- The message of a version fault, if it can be written. -/
def message : VersionFault → String
  | .malformed field raw =>
    let shown := raw.display
    s!"\"{field}\" value '{shown}' is not a valid major.minor version"
  | .unsupported v =>
    let shown := v.text
    let supported := commaSeparated (Version.supported.map Version.text)
    s!"Version {shown} is not supported (supported: {supported})"
  | .legacyUnderSyntaxVersion v =>
    let shown := v.text
    s!"\"syntaxVersion\" cannot declare version {shown}; version 1.x documents declare it with \"version\""
  | .currentUnderVersion v =>
    let shown := v.text
    s!"Version {shown} must be declared with \"syntaxVersion\""
  | .mixedFields fields v =>
    let shown := v.text
    let names := commaSeparated fields
    s!"Mixed-version fields: {names} cannot be used in a version {shown} document"

/-- The details of a version fault. -/
def details : VersionFault → Table Value
  | .malformed field raw => [("field", .text field), ("value", .text raw.display)]
  | .unsupported v => [("version", .text v.text)]
  | .legacyUnderSyntaxVersion v => [("field", .text "syntaxVersion"), ("version", .text v.text)]
  | .currentUnderVersion v => [("field", .text "version"), ("version", .text v.text)]
  | .mixedFields fields v => [("fields", .texts fields), ("version", .text v.text)]

end VersionFault

namespace SyntaxFault

/-- Whether the limit in the message of a syntax fault can be written, if there is one. -/
def isWritable : SyntaxFault → Bool
  | .tooLong limit => Text.isWritable limit
  | .tooDeep limit => Text.isWritable limit
  | _ => true

/-- The refusal for a syntax fault. -/
def refusal (fault : SyntaxFault) : Refusal SyntaxFault := .showing fault.isWritable fault

/-- The message of a syntax fault, if it can be written. -/
def message : SyntaxFault → String
  | .tooLong limit => s!"longer than {limit} characters"
  | .unexpectedCharacter c position => s!"unexpected character '{c}' at position {position}"
  | .empty => "formula is empty"
  | .unexpectedToken text position => s!"unexpected '{text}' at position {position}"
  | .unexpectedEnd => "unexpected end of formula"
  | .unclosed position => s!"missing ')' for '(' at position {position}"
  | .tooDeep limit => s!"nesting deeper than {limit} levels"

end SyntaxFault

namespace ValueFault

/-- Whether all integers in the message of a value fault can be written. -/
def isWritable : ValueFault → Bool
  | .notPositive value => Text.isWritable value
  | .noSuchDate year month day =>
    Text.isWritable year && Text.isWritable month && Text.isWritable day
  | _ => true

/-- The message of a value fault at a path, if it can be written. -/
def message (path : String) : ValueFault → String
  | .notPositive value => s!"\"{path}\" value {value} must be a positive integer"
  | .noSuchDate year month day =>
    s!"\"day\", \"month\" and \"year\" ({year}-{month}-{day}) do not form a valid calendar date"
  | .beyondRange m =>
    let shown := m.isoText
    s!"\"{path}\" value {shown} is outside the representable range"
  | .startsAfterEnds starts ends =>
    let first := starts.isoText
    let last := ends.isoText
    s!"\"starts\" ({first}) must not be after \"ends\" ({last})"
  | .selfReference addOn => s!"\"{path}\" cannot reference the add-on '{addOn}' itself"
  | .notFinite x =>
    let shown := x.text
    s!"\"{path}\" value {shown} must be a finite number"

end ValueFault

namespace ConfigError

/-- The message for a container of the wrong kind. -/
def structureMessage (path expected actual : String) : String :=
  s!"\"{path}\" must be a {expected}, got {actual}"

/-- The report of a container of the wrong kind. -/
def structureReport (path expected actual : String) : Report :=
  ⟨"CONFIG_STRUCTURE_ERROR", structureMessage path expected actual,
    [("path", .text path), ("expected", .text expected), ("actual", .text actual)]⟩

/-- Whether all integers in the report of a cause can be written. Those in a path have been. -/
def isWritable : ConfigError → Bool
  | .version fault => fault.isWritable
  | .formula _ _ fault => fault.isWritable
  | .invalid _ fault => fault.isWritable
  | _ => true

/-- The refusal for a cause. -/
def refusal (e : ConfigError) : Refusal ConfigError := .showing e.isWritable e

theorem refusal_of_isWritable {e : ConfigError} (h : e.isWritable = true) :
    e.refusal = .because e := by
  rw [refusal, h, Refusal.showing_true]

/-- The report of a refused document, if it can be written. -/
def report : ConfigError → Report
  | .tooDeep path =>
    structureReport path s!"document nested at most {maxDocumentDepth} levels" "a deeper tree"
  | .unsupportedType path typeName =>
    structureReport path "null, boolean, number, text, sequence or mapping" typeName
  | .notMapping path actual => structureReport path "mapping" actual
  | .missing path =>
    ⟨"MISSING_REQUIRED_FIELD", s!"\"{path}\" is required and was not defined",
      [("path", .text path)]⟩
  | .nothingOffered =>
    ⟨"MISSING_REQUIRED_FIELD",
      "At least one of \"plans\" or \"addOns\" must be defined and non-empty",
      [("path", .text "plans")]⟩
  | .typeMismatch path actual expected =>
    ⟨"TYPE_MISMATCH", s!"\"{path}\" type is {actual} and must be {expected}",
      [("path", .text path), ("expected", .text expected), ("actual", .text actual)]⟩
  | .unknownLiteral path value allowed =>
    let shown := commaSeparated allowed
    ⟨"UNKNOWN_ENUM_VALUE", s!"\"{path}\" value '{value}' is not one of: {shown}",
      [("path", .text path), ("value", .text value), ("allowed", .texts allowed)]⟩
  | .unresolved path reference catalog =>
    ⟨"UNRESOLVED_REFERENCE",
      s!"\"{path}\" references '{reference}' which is not defined in {catalog}",
      [("path", .text path), ("reference", .text reference), ("catalog", .text catalog)]⟩
  | .version fault => ⟨"VERSION_ERROR", fault.message, fault.details⟩
  | .formula path text fault =>
    let reason := fault.message
    ⟨"EXPRESSION_SYNTAX_ERROR", s!"\"{path}\" formula '{text}' is invalid: {reason}",
      [("path", .text path), ("formula", .text text), ("reason", .text reason)]⟩
  | .invalid path fault =>
    ⟨"INVALID_VALUE", fault.message path, [("path", .text path)]⟩

end ConfigError

end Tariff
