import Tariff.Entitlement.Snapshot
import Tariff.Json.Read
import Tariff.Json.Write

/-!
# Payloads of snapshots

What a snapshot is exchanged as. A payload has two sections, the features and the usage
limits, each a mapping from identifiers to values; plan and add-ons are not in it, nor
are null values. Its text is compact JSON in ASCII with sorted keys, and the bytes of
that text are what is sent.

Reading bytes takes the two sections out of a JSON object. A section that is absent is
empty; whatever else is in the object is ignored.
-/

namespace Tariff

/-- The key of the section of a sort of capability. -/
def Capability.key : Capability → String
  | .feature => "features"
  | .usageLimit => "usageLimits"

/-- The values of a snapshot by section. -/
structure Payload where
  features : Fields
  usageLimits : Fields

/-- Why bytes are not those of a payload. -/
inductive PayloadFault where
  /-- The bytes are not UTF-8. -/
  | notText
  /-- The text has no value. -/
  | unread (fault : Json.ReadFault)
  /-- The JSON is not an object. -/
  | notObject
  /-- A section is not an object. -/
  | sectionNotObject (sort : Capability)
  deriving DecidableEq

/-- The message of a fault of JSON that is no payload; a fault of what could not be read
has none. -/
def PayloadFault.message? : PayloadFault → Option String
  | .notText => none
  | .unread _ => none
  | .notObject => some "Serialized snapshot must be a JSON object"
  | .sectionNotObject sort =>
    let key := sort.key
    some s!"Serialized snapshot \"{key}\" must be a JSON object"

namespace Payload

/-- The values that are not null. -/
def sectionOf (values : Fields) : Fields := values.filter fun entry => !entry.2.isNull

/-- The payload of a snapshot. -/
def ofSnapshot (s : Snapshot) : Payload := ⟨sectionOf s.features, sectionOf s.usageLimits⟩

/-- The section of a sort of capability. -/
def entries (p : Payload) : Capability → Fields
  | .feature => p.features
  | .usageLimit => p.usageLimits

/-- The mapping that a payload is. -/
def toValue (p : Payload) : Value :=
  .mapping ([Capability.feature, .usageLimit].map fun sort =>
    (.text sort.key, .mapping (p.entries sort)))

/-- The section of an object. -/
def readSection (fields : Fields) (sort : Capability) : Except PayloadFault Fields :=
  match fields.get? sort.key with
  | none => .ok []
  | some (.mapping entries) => .ok entries
  | some _ => .error (.sectionNotObject sort)

/-- The payload of an object. -/
def ofValue : Value → Except PayloadFault Payload
  | .mapping fields => do
    let features ← readSection fields .feature
    let usageLimits ← readSection fields .usageLimit
    return ⟨features, usageLimits⟩
  | _ => .error .notObject

/-- The payload of a text. -/
def ofText (text : String) : Except PayloadFault Payload := do
  ofValue (← (Json.read text).mapError PayloadFault.unread)

/-- The payload that bytes stand for. -/
def ofBytes (content : List UInt8) : Except PayloadFault Payload :=
  match String.fromUTF8? ⟨content.toArray⟩ with
  | some text => ofText text
  | none => .error .notText

end Payload

namespace Snapshot

/-- The text of a snapshot. -/
def serialize (s : Snapshot) : Except Json.WriteFault String :=
  Json.write (Payload.ofSnapshot s).toValue

/-- The bytes of a snapshot. -/
def serializedBytes (s : Snapshot) : Except Json.WriteFault (List UInt8) :=
  s.serialize.map fun text => text.toUTF8.toList

end Snapshot

end Tariff
