import Tariff.Error.Config
import Tariff.Log.Event

/-!
# Errors of reading a pricing

A document is refused because of what is in it, or because the formula of a price is of
no use. Both are reported. Only of an integer with too many digits there is no report.
-/

namespace Tariff

/-- Why no pricing can be made of a document. -/
inductive ParseError where
  /-- The document is refused. -/
  | config (error : ConfigError)
  /-- The formula of a price is of no use. -/
  | formula (error : FormulaError)
  /-- An integer has too many digits to be read or shown. -/
  | overlong

namespace ParseError

/-- The report of an error, if there is one. -/
def report? : ParseError → Option Report
  | .config error => some error.report
  | .formula error => some error.report
  | .overlong => none

/-- What is reported of an error beside the error itself. -/
def events : ParseError → List Event
  | .config _ => []
  | .formula error => error.events
  | .overlong => []

/-- The error that a refusal of a document is. -/
def refused : Refusal ConfigError → ParseError
  | .because error => .config error
  | .overlong => .overlong

/-- The outcome of looking at a document as an outcome of making a pricing of it. -/
def ofConfig {α : Type} (outcome : Except ConfigError α) : Except ParseError α :=
  outcome.mapError config

/-- The same for what can meet an integer with too many digits. -/
def ofRefusal {α : Type} (outcome : Except (Refusal ConfigError) α) : Except ParseError α :=
  outcome.mapError refused

@[simp] theorem ofConfig_ok {α : Type} (a : α) : ofConfig (.ok a) = .ok a := rfl

@[simp] theorem ofConfig_error {α : Type} (e : ConfigError) :
    (ofConfig (.error e) : Except ParseError α) = .error (.config e) := rfl

@[simp] theorem ofRefusal_ok {α : Type} (a : α) : ofRefusal (.ok a) = .ok a := rfl

@[simp] theorem ofRefusal_because {α : Type} (e : ConfigError) :
    (ofRefusal (.error (.because e)) : Except ParseError α) = .error (.config e) := rfl

@[simp] theorem ofRefusal_overlong {α : Type} :
    (ofRefusal (.error .overlong) : Except ParseError α) = .error .overlong := rfl

end ParseError

end Tariff
