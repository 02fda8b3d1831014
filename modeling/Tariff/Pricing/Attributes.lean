import Tariff.Document.Temporal
import Tariff.Pricing.Typed

/-!
# Attributes of a pricing

What a document says of the pricing as a whole: whose it is, in which currency, since
when, and during which time it is in force. Its variables are those that every formula
of the pricing sees.
-/

namespace Tariff

/-- What holds for a pricing as a whole. -/
structure Attributes where
  saasName : String
  currency : String
  createdAt : Date
  hasAnnualPayment : Bool
  /-- When the pricing comes into force. -/
  starts : Option Instant
  /-- When the pricing goes out of force. -/
  ends : Option Instant
  url : Option String
  /-- The version of the pricing itself, not that of the syntax of its document. -/
  label : Option String
  /-- The values of the variables that every formula sees. -/
  bindings : Table Scalar

namespace Attributes

/-- The instant in an optional field. -/
def instantOf (root : Node) (key : String) : Except ConfigError (Option Instant) :=
  root.optional key fun node => do Temporal.canonicalInstant key (← node.asText)

/-- Refuses a pricing that goes out of force before it comes into force. -/
def checkOrder : Option Instant → Option Instant → Except ConfigError Unit
  | some starts, some ends =>
    if ends.before starts then .error (.invalid "starts" (.startsAfterEnds starts ends)) else .ok ()
  | _, _ => .ok ()

/-- A label, which may be written as a number. -/
def labelOf : Node → Except (Refusal ConfigError) String
  | .scalar _ (.number n) => if n.isWritable then .ok n.text else .error .overlong
  | node => Refusal.lift node.asText

/-- The date of the creation. -/
def createdAtOf (root : Node) : Except ConfigError Date := do
  Temporal.canonicalDate "createdAt" (← (← root.require "createdAt").asText)

/-- The attributes in the root of a document. -/
def ofNode (root : Node) : Except (Refusal ConfigError) Attributes := do
  let saasName ← Refusal.lift (do (← root.require "saasName").asText)
  let currency ← Refusal.lift (do (← root.require "currency").asText)
  let createdAt ← Refusal.lift (createdAtOf root)
  let hasAnnualPayment? ← Refusal.lift (root.optional "hasAnnualPayment" Node.asBool)
  let starts ← Refusal.lift (instantOf root "starts")
  let ends ← Refusal.lift (instantOf root "ends")
  Refusal.lift (checkOrder starts ends)
  let url ← Refusal.lift (root.optional "url" Node.asText)
  let label ← root.optionalLifted "version" labelOf
  let bindings ← Refusal.lift root.declaredBindings
  return {
    saasName, currency, createdAt, hasAnnualPayment := hasAnnualPayment?.getD false, starts, ends,
    url, label, bindings }

end Attributes

end Tariff
