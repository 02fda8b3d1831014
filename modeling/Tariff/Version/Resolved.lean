import Tariff.Log.Logged
import Tariff.Version.Ladder

/-!
# Resolved documents

Resolving a document takes it up the version ladder to the current version. Every
completed step is reported, and so is the arrival of a document that was declared with
an old version.
-/

namespace Tariff

/-- A document in the current syntax, with the version it was declared with and the
one it has now. -/
structure Resolved where
  fields : Fields
  declared : Version
  version : Version

namespace Resolved

/-- Takes a step of the ladder if it starts at the version reached so far. -/
def climb (reached : Fields × Version) (migration : Migration) :
    Logged (Refusal ConfigError) (Fields × Version) := do
  if reached.2 = migration.source then
    let migrated ← Logged.ofExcept (migration.step reached.1)
    Logged.emit (.documentMigrated migration.source migration.target)
    return (migrated, migration.target)
  else return reached

/-- Brings the fields of a document to the current version. -/
def ofFields (fields : Fields) : Logged (Refusal ConfigError) Resolved := do
  let declared ← Logged.ofExcept fields.declared
  let (migrated, version) ← Migration.ladder.foldlM climb (fields, declared)
  Logged.ofExcept (migrated.checkWindows version)
  if declared ≠ Version.current then
    Logged.emit (.legacyResolved declared version)
  return ⟨migrated, declared, version⟩

/-- The fields of a document, which has to be a mapping. -/
def documentFields : Value → Except ConfigError Fields
  | .mapping entries => .ok entries
  | v => .error (.notMapping "document" v.kindName)

/-- Brings a document to the current version. -/
def ofValue (document : Value) : Logged (Refusal ConfigError) Resolved := do
  ofFields (← Logged.ofExcept (Refusal.lift (documentFields document)))

end Resolved

end Tariff
