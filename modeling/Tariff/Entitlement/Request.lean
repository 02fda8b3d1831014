import Tariff.Document.Fields
import Tariff.Entitlement.Evaluation
import Tariff.Log.Logged

/-!
# Requests as they arrive

A request arrives as loosely typed data: a plan, some add-ons, and variables, each of
which may be any value. The plan is a text, or null for none. The add-ons are null for
none, a text for one, or a collection of names. The variables are a mapping or a
collection of pairs, of which a later one counts before an earlier one of the same name;
anything empty stands for none.

Other values are refused in two ways. A name that is no text names nothing, and is
reported like any unknown name, if it could be looked up at all. A value that cannot be
looked up or gone through is malformed, and so is a collection of any other length in
place of a pair. The parts of a request are looked at one after the other, each only after
the evaluation has made use of the one before.
-/

namespace Tariff

/-- Why a part of a request cannot be used. -/
inductive RequestFault where
  /-- A name that cannot be looked up, since it is a container that can change. -/
  | notHashable
  /-- Add-ons, variables or a pair that are no collection. -/
  | notIterable
  /-- Names that have no order among them. -/
  | notComparable
  /-- A collection that has to be a pair, but has not two items. -/
  | notPair
  /-- An unknown name that holds an integer with too many digits to be shown. -/
  | overlong
  deriving DecidableEq

/-- Why a request has no answer. -/
inductive RequestError where
  /-- A part of the request cannot be used. -/
  | malformed (fault : RequestFault)
  /-- The evaluation fails. -/
  | refused (error : EvaluationError)

/-- The events that go with a failed request. -/
def RequestError.events : RequestError → List Event
  | .refused (.formula error) => error.events
  | _ => []

/-- A request as it arrives. -/
structure Request where
  plan : Value := .null
  addOns : Value := .null
  bindings : Value := .null

namespace Request

/-- The error for a name that is not defined, which its report shows. -/
def unknownName (cause : Value → EvaluationError) (name : Value) : RequestError :=
  if name.isWritable then .refused (cause name) else .malformed .overlong

/-- The plan of a request. -/
def planOf : Value → Except RequestError (Option String)
  | .null => .ok none
  | .text name => .ok (some name)
  | v => .error (if v.isHashable then unknownName .unknownPlan v else .malformed .notHashable)

/-- The items of a collection. Those of a text are its characters, those of a mapping its
keys. -/
def itemsOf? : Value → Option (List Value)
  | .text s => some (s.toList.map fun c => .text c.toString)
  | .list items => some items
  | .tuple items => some items
  | .mapping entries => some (entries.map Prod.fst)
  | .bytes content => some (content.map fun b => .int b.toNat)
  | .set members => some members
  | _ => none

/-- The texts of values that are all texts. -/
def textsOf? : List Value → Option (List String)
  | [] => some []
  | .text name :: rest => (textsOf? rest).map (name :: ·)
  | _ => none

/-- Values without those that are the same as an earlier one. -/
def distinct (items : List Value) : List Value :=
  items.foldl (fun kept v => if kept.any v.same then kept else kept ++ [v]) []

/-- Whether every value is of one sort with every later one. -/
def areComparable : List Value → Bool
  | [] => true
  | v :: rest => rest.all (fun w => (v.less? w).isSome) && areComparable rest

/-- The first of some values in order. -/
def least (first : Value) (rest : List Value) : Value :=
  rest.foldl (fun v w => if w.less? v == some true then w else v) first

/-- The error of names not all of which are texts: the first in order is unknown, since
only a text can be the name of an add-on. -/
def unknownAmong (items : List Value) : RequestError :=
  match distinct items with
  | first :: rest =>
    if areComparable (first :: rest) then unknownName .unknownAddOn (least first rest)
    else .malformed .notComparable
  | [] => .malformed .notComparable

/-- The add-ons of a request. -/
def addOnsOf : Value → Except RequestError (List String)
  | .null => .ok []
  | .text name => .ok [name]
  | v =>
    match itemsOf? v with
    | none => .error (.malformed .notIterable)
    | some items =>
      if Value.areHashable items then
        match textsOf? items with
        | some names => .ok names
        | none => .error (unknownAmong items)
      else .error (.malformed .notHashable)

/-- The name and the value that a pair stands for. -/
def pairOf (v : Value) : Except RequestFault (Value × Value) :=
  match itemsOf? v with
  | none => .error .notIterable
  | some [name, value] => if name.isHashable then .ok (name, value) else .error .notHashable
  | some _ => .error .notPair

/-- The names and values of the variables of a request. The first pair that cannot be used
decides the fault. -/
def entriesOf : Value → Except RequestFault Fields
  | .mapping entries => .ok entries
  | v =>
    if v.isTruthy then
      match itemsOf? v with
      | none => .error .notIterable
      | some items => (items.mapM pairOf).map Fields.ofEntries
    else .ok []

/-- The variables of a request. -/
def bindingsOf (v : Value) : Except RequestError Formula.Scope :=
  match entriesOf v with
  | .ok entries => .ok fun name => Fields.get? entries name
  | .error fault => .error (.malformed fault)

/-- The answer of a pricing to a request. -/
def answer (request : Request) (pricing : Pricing) : Except RequestError Snapshot := do
  let plan ← planOf request.plan
  let overrides ← (pricing.planOverrides plan).mapError .refused
  let requested ← addOnsOf request.addOns
  let active ← (pricing.activeAddOns plan requested).mapError .refused
  let bindings ← bindingsOf request.bindings
  (pricing.grant plan overrides active bindings).mapError fun e => .refused (.formula e)

/-- The answer of a pricing to a request, with what is reported. -/
def answerLogged (request : Request) (pricing : Pricing) : Logged RequestError Snapshot := do
  let snapshot ← (Logged.ofExcept (request.answer pricing)).onError RequestError.events
  Logged.emit (.entitlementsEvaluated pricing.saasName (snapshot.plan.elim .null .text)
    snapshot.addOns)
  return snapshot

end Request

end Tariff
