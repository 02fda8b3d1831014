import Tariff.Document.Node

/-!
# Typed values

Every feature and usage limit declares the type of its values, and every value that a
pricing gives to it must be of that type: nothing is converted, a boolean is not a
number, and a number must be finite. Variables have no declared type, but are scalars
and finite too.

Here are the types with their literals, and the readers of literals, values and
variables.
-/

namespace Tariff

/-- The types of values. -/
inductive ValueType where
  | boolean
  | numeric
  | text
  deriving DecidableEq

namespace ValueType

/-- The literal of a type. -/
def name : ValueType → String
  | .boolean => "BOOLEAN"
  | .numeric => "NUMERIC"
  | .text => "TEXT"

/-- What messages call the values of a type. -/
def shape : ValueType → String
  | .boolean => "boolean"
  | .numeric => "number"
  | .text => "text"

/-- The types by their literals. -/
def all : Table ValueType := [boolean, numeric, text].map fun t => (t.name, t)

/-- Whether a scalar is a value of a type. -/
def accepts : ValueType → Scalar → Bool
  | .boolean, .bool _ => true
  | .numeric, .number _ => true
  | .text, .text _ => true
  | _, _ => false

end ValueType

/-- Whether a scalar is anything but an infinite number or "not a number". -/
def Scalar.isFinite : Scalar → Bool
  | .number n => n.isFinite
  | _ => true

namespace Node

/-- The thing that the literal in a field stands for. -/
def choice {α : Type} (node : Node) (key : String) (options : Table α) : Except ConfigError α := do
  let child ← node.require key
  let literal ← child.asText
  match options.get? literal with
  | some a => return a
  | none => .error (.unknownLiteral child.path literal options.names)

/-- A scalar at a path that has to be finite. -/
def finite (path : String) (s : Scalar) : Except ConfigError Scalar :=
  match s with
  | .number (.float x) =>
    if x.isFinite then .ok s else .error (.invalid path (.notFinite x))
  | s => .ok s

/-- A value of a type. -/
def typed (valueType : ValueType) : Node → Except ConfigError Scalar
  | .scalar path s =>
    if valueType.accepts s then finite path s
    else .error (.typeMismatch path s.kind.name valueType.shape)
  | node => .error (.typeMismatch node.path node.kind.name valueType.shape)

/-- The value of a variable. -/
def variableValue : Node → Except ConfigError Scalar
  | .scalar path s => finite path s
  | node => .error (.typeMismatch node.path node.kind.name "boolean, number or text")

/-- The values of the variables of a mapping. -/
def bindings (node : Node) : Except ConfigError (Table Scalar) := do
  (← node.asMapping).traverse fun _ child => child.variableValue

/-- The variables that an entry declares; without a declaration there are none. -/
def declaredBindings (entry : Node) : Except ConfigError (Table Scalar) :=
  (entry.optional "variables" bindings).map (·.getD [])

/-- The texts of an optional list. -/
def optionalTexts (node : Node) (key : String) : Except ConfigError (List String) :=
  (node.optional key textList).map (·.getD [])

/-- What was found finite is finite, and is what was given. -/
theorem finite_eq_ok_iff {path : String} {s t : Scalar} :
    finite path s = .ok t ↔ s = t ∧ s.isFinite = true := by
  unfold finite
  split
  · next x =>
    by_cases h : x.isFinite = true <;> simp [h, Scalar.isFinite, Number.isFinite]
  · next hne =>
    have hfinite : s.isFinite = true := by
      cases s with
      | bool b => rfl
      | text s => rfl
      | number n =>
        cases n with
        | int n => rfl
        | float x => exact absurd rfl (hne x)
    simp [hfinite]

/-- A value that was read is of its type and finite. -/
theorem accepts_of_typed {valueType : ValueType} {node : Node} {s : Scalar}
    (h : node.typed valueType = .ok s) : valueType.accepts s = true ∧ s.isFinite = true := by
  unfold typed at h
  split at h
  · split at h
    · next haccepts =>
      obtain ⟨rfl, hfinite⟩ := finite_eq_ok_iff.1 h
      exact ⟨haccepts, hfinite⟩
    · cases h
  · cases h

end Node

end Tariff
