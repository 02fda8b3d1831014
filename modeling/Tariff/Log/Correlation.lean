import Tariff.Table
import Tariff.Document.Value

/-!
# Correlation of log records

Whoever answers requests can have all records of one request carry the identifier of the
request and the name of the service whose pricing is used. Both are in force inside a
block; blocks nest, and leaving a block restores what was in force when it was entered,
whatever was set or cleared inside.

`Context` holds what is in force now and, for every block that has been entered and not
left, what was in force before it.
-/

namespace Tariff

/-- What correlates the records of one request. -/
structure Correlation where
  requestId : Option String
  saasName : Option String
  deriving DecidableEq

namespace Correlation

/-- Nothing in force. -/
def empty : Correlation := ⟨none, none⟩

/-- A record with the correlation in force. An empty text is as good as none. The
identifier of the request takes the place of one that the record has, the name of the
service does not. -/
def attach (c : Correlation) (record : Table Value) : Table Value :=
  let identified := match c.requestId.filter (· ≠ "") with
    | some id => record.set "request_id" (.text id)
    | none => record
  match c.saasName.filter (· ≠ "") with
  | some name => identified.setDefault "saas_name" (.text name)
  | none => identified

end Correlation

/-- The correlation in force, and that outside of each block, the innermost first. -/
structure Context where
  current : Correlation
  outer : List Correlation
  deriving DecidableEq

namespace Context

/-- No block entered, and nothing in force. -/
def empty : Context := ⟨.empty, []⟩

/-- Changes the identifier of the request. -/
def setRequestId (id : String) (c : Context) : Context :=
  { c with current := { c.current with requestId := some id } }

/-- Enters a block. -/
def enter (saasName : Option String) (id : String) (c : Context) : Context :=
  ⟨⟨some id, saasName⟩, c.current :: c.outer⟩

/-- Leaves the innermost block, if there is one. -/
def exit (c : Context) : Context :=
  match c.outer with
  | before :: rest => ⟨before, rest⟩
  | [] => c

/-- Takes everything out of force. The blocks that have been entered remain. -/
def clear (c : Context) : Context := { c with current := .empty }

/-- What can be done to a context. -/
inductive Action where
  /-- Changing the identifier of the request, to a fresh one if none is given. -/
  | setRequestId (id : Option String)
  /-- Entering a block, with a fresh identifier if none is given or it is empty. -/
  | enter (saasName id : Option String)
  | exit
  | clear
  deriving DecidableEq

/-- The context after an action, which may need a fresh identifier. -/
def act (fresh : String) (c : Context) : Action → Context
  | .setRequestId id => c.setRequestId (id.getD fresh)
  | .enter saasName id => c.enter saasName ((id.filter (· ≠ "")).getD fresh)
  | .exit => c.exit
  | .clear => c.clear

end Context

end Tariff
