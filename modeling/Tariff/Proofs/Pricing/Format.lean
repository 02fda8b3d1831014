import Tariff.Proofs.Calendar.Ordinal
import Tariff.Proofs.Entitlement.Precedence

/-!
# The format of documents

What a document in the current syntax has to be, said of the document alone: which
fields an entry must have and may have, what may stand in them, and which names they may
refer to. `Value.IsCanonical` is the whole format; the other predicates are its parts,
from single values up to the entries of the four sections.

As everywhere in a document a field that is null is absent, so that `Requires` asks for a
field that is not null and `Allows` says nothing of one that is. Dates stand for their
texts. The format refers to no tree of nodes, but for `tree`, which is what there is to
say of values that no format mentions: that they are data with texts for keys, and not
nested too deeply.
-/

namespace Tariff

/-- The scalars of a type, of which numbers have to be finite. -/
inductive ValueType.Holds : ValueType → Scalar → Prop where
  | boolean (b : Bool) : Holds .boolean (.bool b)
  | numeric (n : Number) (h : n.isFinite = true) : Holds .numeric (.number n)
  | text (t : String) : Holds .text (.text t)

namespace Value

/-! ## Fields and entries -/

/-- Whether a value is a mapping. -/
def IsMapping (v : Value) : Prop := ∃ entries, v = .mapping entries

/-- Whether a field is there, with a value as it should be. -/
def Requires (entry : Value) (key : String) (P : Value → Prop) : Prop :=
  ∃ v, entry.field? key = some v ∧ P v

/-- Whether a field, if it is there, has a value as it should be. -/
def Allows (entry : Value) (key : String) (P : Value → Prop) : Prop :=
  ∀ v, entry.field? key = some v → P v

/-- Whether a value is a mapping whose entries are as they should be. -/
def MapsTo (v : Value) (P : String → Value → Prop) : Prop :=
  ∃ entries, v = .mapping entries ∧ ∀ name w, (Value.text name, w) ∈ entries → P name w

/-- Whether a document has an entry of a name in a section. -/
def Declares (document : Value) (key name : String) : Prop :=
  (document.entriesIn key).has name = true

/-! ## Values -/

/-- The text that a value stands for. -/
def text? (v : Value) : Option String :=
  match v.scalar? with
  | some (.text t) => some t
  | _ => none

/-- The items of a sequence. -/
def items? : Value → Option (List Value)
  | .list items => some items
  | .tuple items => some items
  | _ => none

/-- The texts of a sequence of texts. -/
def texts? (v : Value) : Option (List String) := v.items?.bind fun items => items.mapM text?

/-- The moment that a text denotes. -/
def moment? (v : Value) : Option Moment := v.text?.bind Iso.moment?

def IsText (v : Value) : Prop := ∃ t, v.text? = some t

def IsBool (v : Value) : Prop := ∃ b, v.scalar? = some (.bool b)

/-- Whether a value is one of some texts. -/
def IsOneOf (literals : List String) (v : Value) : Prop := ∃ t ∈ literals, v.text? = some t

/-- Whether a value is a sequence of texts that are names of something. -/
def IsNames (known : String → Prop) (v : Value) : Prop :=
  ∃ names, v.texts? = some names ∧ ∀ name ∈ names, known name

/-- Whether a value denotes a date. -/
def IsDate (v : Value) : Prop := ∃ t d, v.text? = some t ∧ Iso.date? t = some d

/-- Whether a value denotes a point in time whose date in UTC is in range. -/
def IsInstant (v : Value) : Prop :=
  ∃ m, v.moment? = some m ∧ m.isNaive = false ∧ m.InRange

/-- Whether a value can label a pricing: a text, or any number that has a text. -/
def IsLabel (v : Value) : Prop :=
  v.IsText ∨ ∃ n, v.scalar? = some (.number n) ∧ n.isWritable = true

/-- Whether a value is of a type. -/
def IsTyped (valueType : ValueType) (v : Value) : Prop :=
  ∃ s, v.scalar? = some s ∧ valueType.Holds s

/-- Whether a value declares variables: a mapping to scalars, finite if they are numbers. -/
def IsVariables (v : Value) : Prop := v.MapsTo fun _ w => ∃ valueType, w.IsTyped valueType

/-- Whether a value is a formula within its bounds. -/
def IsFormula (limits : Limits) (v : Value) : Prop :=
  ∃ source tree, v.text? = some source ∧ Formula.treeOf limits source = .ok tree

/-- Whether a value is a price in a scope: a finite number, or a formula whose value is a
number. -/
def IsPrice (limits : Limits) (scope : Formula.Scope) (v : Value) : Prop :=
  v.IsTyped .numeric ∨
    ∃ source tree n, v.text? = some source ∧ Formula.treeOf limits source = .ok tree ∧
      Formula.value ⟨source, tree⟩ scope = .ok (.number n)

/-! ## The catalog -/

/-- The type of values that an entry of the catalog declares. -/
def valueType? (entry : Value) : Option ValueType :=
  match (entry.field? "valueType").bind text? with
  | some "BOOLEAN" => some .boolean
  | some "NUMERIC" => some .numeric
  | some "TEXT" => some .text
  | _ => none

/-- Whether an entry describes a feature. -/
structure IsFeature (limits : Limits) (entry : Value) : Prop where
  mapping : entry.IsMapping
  type : entry.Requires "type" (IsOneOf
    ["CAPABILITY", "AUTOMATION", "GUARANTEE", "SUPPORT", "PAYMENT", "INFORMATION"])
  defaultValue : ∃ valueType, entry.valueType? = some valueType ∧
    entry.Allows "defaultValue" (IsTyped valueType)
  formula : entry.Allows "formula" (IsFormula limits)
  hasValue : entry.field? "formula" = none → entry.field? "defaultValue" ≠ none
  name : entry.Allows "name" IsText
  description : entry.Allows "description" IsText
  bindings : entry.Allows "variables" IsVariables
  tags : entry.Allows "tags" (IsNames fun _ => True)

/-- Whether an entry describes a usage limit. -/
structure IsUsageLimit (document entry : Value) : Prop where
  mapping : entry.IsMapping
  type : entry.Requires "type" (IsOneOf
    ["RENEWABLE", "NON_RENEWABLE", "RESPONSE_DRIVEN", "TIME_DRIVEN"])
  defaultValue : ∃ valueType, entry.valueType? = some valueType ∧ valueType ≠ .text ∧
    entry.Requires "defaultValue" (IsTyped valueType)
  linkedFeatures : entry.Allows "linkedFeatures" (IsNames (document.Declares "features"))
  name : entry.Allows "name" IsText
  unit : entry.Requires "unit" IsText
  description : entry.Allows "description" IsText

/-! ## Plans and add-ons -/

/-- Whether an entry for an identifier of a section of the catalog overrides its value, or
at least could: it may be null or give no value. -/
def IsOverride (document : Value) (key id : String) (v : Value) : Prop :=
  ∃ valueType, ((document.entriesIn key).get? id).bind valueType? = some valueType ∧
    (v = .null ∨ v.IsMapping ∧ v.Allows "value" (IsTyped valueType))

/-- What plans and add-ons have in common. -/
structure IsOffer (limits : Limits) (document entry : Value) : Prop where
  mapping : entry.IsMapping
  description : entry.Allows "description" IsText
  bindings : entry.Allows "variables" IsVariables
  price : entry.Allows "price"
    (IsPrice limits (entry.declaredScope.within document.declaredScope))
  unit : entry.Allows "unit" IsText
  features : entry.Allows "features" (MapsTo · (document.IsOverride "features"))
  usageLimits : entry.Allows "usageLimits" (MapsTo · (document.IsOverride "usageLimits"))

/-- Whether an entry describes a plan. -/
structure IsPlan (limits : Limits) (document entry : Value) : Prop
    extends IsOffer limits document entry where
  isPrivate : entry.Allows "private" IsBool

/-- Whether an entry describes an add-on of a name. -/
structure IsAddOn (limits : Limits) (document : Value) (name : String) (entry : Value) : Prop
    extends IsOffer limits document entry where
  availableFor : entry.Allows "availableFor" (IsNames (document.Declares "plans"))
  dependsOn : entry.Allows "dependsOn"
    (IsNames fun other => document.Declares "addOns" other ∧ other ≠ name)
  excludes : entry.Allows "excludes"
    (IsNames fun other => document.Declares "addOns" other ∧ other ≠ name)

/-! ## Documents -/

/-- Whether a document says of the pricing as a whole what it must, and nothing wrong. -/
structure HasAttributes (document : Value) : Prop where
  saasName : document.Requires "saasName" IsText
  currency : document.Requires "currency" IsText
  createdAt : document.Requires "createdAt" IsDate
  hasAnnualPayment : document.Allows "hasAnnualPayment" IsBool
  starts : document.Allows "starts" IsInstant
  ends : document.Allows "ends" IsInstant
  ordered : ∀ starts ends, (document.field? "starts").bind moment? = some starts →
    (document.field? "ends").bind moment? = some ends →
      starts.utcMicroseconds ≤ ends.utcMicroseconds
  url : document.Allows "url" IsText
  label : document.Allows "version" IsLabel
  bindings : document.Allows "variables" IsVariables

/-- Whether a document has the current syntax. -/
structure IsCanonical (limits : Limits) (document : Value) : Prop
    extends HasAttributes document where
  tree : ∃ root, Node.ofValue document = .ok root
  mapping : document.IsMapping
  features : document.Requires "features" (MapsTo · fun _ => IsFeature limits)
  usageLimits : document.Allows "usageLimits" (MapsTo · fun _ => IsUsageLimit document)
  plans : document.Allows "plans" (MapsTo · fun _ => IsPlan limits document)
  addOns : document.Allows "addOns" (MapsTo · (IsAddOn limits document))
  offered : document.entriesIn "plans" ≠ [] ∨ document.entriesIn "addOns" ≠ []

end Value

end Tariff
