import Tariff.Pricing.Typed

/-!
# References and overrides

Entries of a pricing refer to one another by identifier: usage limits to features,
add-ons to plans and to other add-ons, and plans and add-ons to the features and usage
limits whose values they override. An identifier that is not in the catalog it refers to
is an error at the place of the reference.
-/

namespace Tariff

namespace Node

/-- Refuses the first reference that is not to a known name. -/
def checkReferences (path : String) (known : String → Bool) (catalog : String) :
    List String → Except ConfigError Unit
  | [] => .ok ()
  | reference :: rest =>
    if known reference then checkReferences path known catalog rest
    else .error (.unresolved path reference catalog)

/-- The references in an optional list. -/
def references (entry : Node) (key : String) (known : String → Bool) (catalog : String) :
    Except ConfigError (List String) := do
  match ← entry.get? key with
  | none => return []
  | some node =>
    let found ← node.textList
    checkReferences node.path known catalog found
    return found

/-- The value that an entry of an override gives to an identifier, if it gives one. That
an identifier is unknown is an error even if no value is given. -/
def override? (typeOf : String → Option ValueType) (catalog id : String) (node : Node) :
    Except ConfigError (Option Scalar) :=
  match typeOf id with
  | none => .error (.unresolved node.path id catalog)
  | some valueType =>
    if node.isNull then .ok none else node.optional "value" (typed valueType)

/-- The values that the entries of an override give. -/
def overrideEntries (typeOf : String → Option ValueType) (catalog : String) :
    Table Node → Except ConfigError (Table Scalar)
  | [] => .ok []
  | (id, node) :: rest => do
    match ← override? typeOf catalog id node with
    | some s => return (id, s) :: (← overrideEntries typeOf catalog rest)
    | none => overrideEntries typeOf catalog rest

/-- The values that an entry overrides in a catalog, which is found under the catalog's
own name. -/
def overrides (entry : Node) (typeOf : String → Option ValueType) (catalog : String) :
    Except ConfigError (Table Scalar) := do
  match ← entry.get? catalog with
  | none => return []
  | some node => overrideEntries typeOf catalog (← node.asMapping)

/-- References pass exactly if all are to known names. -/
theorem checkReferences_eq_ok_iff {path : String} {known : String → Bool} {catalog : String}
    {found : List String} :
    checkReferences path known catalog found = .ok () ↔ ∀ name ∈ found, known name = true := by
  induction found with
  | nil => simp [checkReferences]
  | cons name rest ih =>
    by_cases h : known name = true <;> simp [checkReferences, h, ih]

end Node

end Tariff
