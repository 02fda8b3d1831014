import Tariff.Log.Correlation

/-!
# Log lines

A line is made from the record of an event: the service, the component and the correlation in
force are added to it.

The service and the component are the two parts of the logger's name, before and after
its first dot. A logger without a dot has no component, and then the service is that of
the record, or else the one that the log was configured for.
-/

namespace Tariff.Log

/-- The service of records that come from no component. -/
def defaultService : String := "pricing"

/-- The two parts of a logger's name, if it has a dot. -/
def nameParts? (logger : String) : Option (String × String) :=
  match logger.toList.dropWhile (· != '.') with
  | _ :: component =>
    some (String.ofList (logger.toList.takeWhile (· != '.')), String.ofList component)
  | [] => none

/-- A record with the service and the component that its logger names. -/
def withComponent (record : Table Value) : Table Value :=
  match record.get? "logger" with
  | some (.text logger) =>
    match nameParts? logger with
    | some (service, component) =>
      (record.set "service" (.text service)).set "component" (.text component)
    | none => record
  | _ => record

/-- A record with all that does not come from the event. -/
def complete (service : String) (correlation : Correlation) (record : Table Value) :
    Table Value :=
  correlation.attach ((withComponent record).setDefault "service" (.text service))

end Tariff.Log
