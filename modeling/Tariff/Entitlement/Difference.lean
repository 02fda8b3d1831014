import Tariff.Entitlement.Payload

/-!
# Differences of entitlements

Whether two holders are entitled to the same, whatever form their entitlements come in:
a snapshot, its bytes, or a payload. Each form is brought to the set of its entries, and
the two sets are compared; the order of entries and null values do not matter.

An entry has the kind of its value beside the value, so that a boolean is never the same
as a number. Numbers are the same when their exact values are, and "not a number" is the
same as itself.
-/

namespace Tariff

/-- One value that is granted. -/
structure Entry where
  sort : Capability
  id : Value
  /-- The kind of the value. -/
  kind : String
  /-- The value, or a mark in place of "not a number". -/
  value : Value

/-- Entitlements in any form. -/
inductive Entitlement where
  | snapshot (s : Snapshot)
  | bytes (content : List UInt8)
  /-- A payload that is still loosely typed. -/
  | loose (v : Value)

/-- Why entitlements have no entries. -/
inductive EntryFault where
  /-- The bytes are not those of a payload. -/
  | payload (fault : PayloadFault)
  /-- The payload or a section is no mapping. -/
  | notMapping
  /-- A value cannot be a member of a set. -/
  | notHashable
  deriving DecidableEq

namespace Entry

/-- A value, or the mark in place of "not a number". -/
def normalized : Value → Value
  | .float .nan => .text "NaN"
  | v => v

/-- The entry of a value. -/
def of (sort : Capability) (id v : Value) : Entry := ⟨sort, id, v.operandKind, normalized v⟩

/-- Whether two entries are the same. -/
def same (a b : Entry) : Bool :=
  a.sort == b.sort && a.id.same b.id && a.kind == b.kind && a.value.same b.value

/-- Whether two lists have the same entries. -/
def sameEntries (as bs : List Entry) : Bool :=
  as.all (fun a => bs.any a.same) && bs.all (fun b => as.any b.same)

/-- The entries of a section. -/
def ofSection (sort : Capability) : Fields → Except EntryFault (List Entry)
  | [] => .ok []
  | (id, v) :: rest =>
    if v.isNull then ofSection sort rest
    else if v.isHashable then do return of sort id v :: (← ofSection sort rest)
    else .error .notHashable

/-- The entries of a payload. -/
def ofPayload (p : Payload) : Except EntryFault (List Entry) := do
  let features ← ofSection .feature p.features
  let usageLimits ← ofSection .usageLimit p.usageLimits
  return features ++ usageLimits

/-- The section of a payload that is still loosely typed. -/
def looseSection (fields : Fields) (sort : Capability) : Except EntryFault Fields :=
  match fields.get? sort.key with
  | none => .ok []
  | some (.mapping entries) => .ok entries
  | some _ => .error .notMapping

/-- The entries of a payload that is still loosely typed. The second section is looked at
only after the first. -/
def ofLoose : Value → Except EntryFault (List Entry)
  | .mapping fields => do
    let features ← ofSection .feature (← looseSection fields .feature)
    let usageLimits ← ofSection .usageLimit (← looseSection fields .usageLimit)
    return features ++ usageLimits
  | _ => .error .notMapping

end Entry

namespace Entitlement

/-- The entitlements that a value is, bytes being those of a payload. -/
def ofValue : Value → Entitlement
  | .bytes content => .bytes content
  | v => .loose v

/-- The entries of entitlements. -/
def entries : Entitlement → Except EntryFault (List Entry)
  | .snapshot s => Entry.ofPayload (Payload.ofSnapshot s)
  | .bytes content => do
    Entry.ofPayload (← (Payload.ofBytes content).mapError EntryFault.payload)
  | .loose v => Entry.ofLoose v

/-- Whether a holder is entitled to something different from itself. It is not, even if it
has a value, such as a sequence with "not a number" in it, that is not the same as itself. -/
def differsFromItself (a : Entitlement) : Except EntryFault Bool := do
  let _ ← a.entries
  return false

/-- Whether two holders are entitled to something different. The first is looked at
before the second. -/
def differ (a b : Entitlement) : Except EntryFault Bool := do
  let as ← a.entries
  let bs ← b.entries
  return !Entry.sameEntries as bs

end Entitlement

end Tariff
