import Tariff.Error.Evaluation
import Tariff.Pricing.Basic

/-!
# Active add-ons

Which add-ons of a pricing are active for a request. A request names a set of add-ons;
its order and repetitions do not matter. Every name must be that of an add-on. Then every
add-on of the set must be available for the plan, have the add-ons it depends on in the
set, and have none that it excludes there.

The active add-ons are in the order of the document, which is the order of their
precedence. The conflict reported is the first in that order.
-/

namespace Tariff

/-- What keeps an add-on from being active beside a plan and the add-ons requested. -/
def AddOn.conflict? (addOn : AddOn) (plan : Option String) (requested : List String) :
    Option AddOnConflict :=
  match plan.filter fun name => !addOn.isAvailableFor name with
  | some name => some (.unavailable name)
  | none =>
    match addOn.dependsOn.find? fun name => !requested.contains name with
    | some name => some (.requires name)
    | none => (addOn.excludes.find? requested.contains).map .excludes

namespace Pricing

/-- The first name in order that no add-on has. -/
def unknownAddOn? (pricing : Pricing) (requested : List String) : Option String :=
  (Text.sortUnique requested).find? fun name => !pricing.addOns.has name

/-- The add-ons of a set, in the order of the document. -/
def requestedAddOns (pricing : Pricing) (requested : List String) : List AddOn :=
  (pricing.addOns.filter fun entry => requested.contains entry.1).map Prod.snd

/-- The first conflict of some add-ons, with the add-on that has it. -/
def conflictAmong? (plan : Option String) (requested : List String) (addOns : List AddOn) :
    Option (String × AddOnConflict) :=
  addOns.findSome? fun addOn =>
    (addOn.conflict? plan requested).map fun conflict => (addOn.name, conflict)

/-- The add-ons that are active for a request. -/
def activeAddOns (pricing : Pricing) (plan : Option String) (requested : List String) :
    Except EvaluationError (List AddOn) :=
  match pricing.unknownAddOn? requested with
  | some name => .error (.unknownAddOn (.text name))
  | none =>
    let active := pricing.requestedAddOns requested
    match conflictAmong? plan requested active with
    | some (name, conflict) => .error (.incompatible name conflict)
    | none => .ok active

end Pricing

end Tariff
