import Tariff.Proofs.Document.Short
import Tariff.Proofs.Formula.Compiled
import Tariff.Proofs.Pricing.Accepted
import Tariff.Proofs.Pricing.Phases

/-!
# Errors of reading name their places

A document that has a tree is refused while it is read because of a node of the tree, unless the
formula of a price is of no use or nothing is offered (`Pricing.failsOnly_ofNode`). So the
error names a place of the document: the part that is at fault, or a field that is missing in a
part that is there (`Pricing.ofCanonical_error_names_place`).

A document that has a tree can also be refused without a cause, but only if something in it is
not short, or a limit cannot be shown. The lemmas say both of each reader (`Refusal.Meets`), and
go up from the entries of the catalog to the phases.
-/

namespace Tariff

open Outcome (FailsOnly failsOnly_ok failsOnly_error failsOnly_traverse)

variable {α : Type} {limits : Limits} {root entry : Node}

/-! ## Sorts of refusals -/

/-- Whether a refusal is for a cause of some sort, or without one on some condition. -/
def Refusal.Meets {ε : Type} (P : ε → Prop) (Q : Prop) : Refusal ε → Prop
  | .because e => P e
  | .overlong => Q

/-- The same for the error that a refusal is, or an error for a formula. -/
def ParseError.Meets (P : ConfigError → Prop) (Q : Prop) : ParseError → Prop
  | .config e => P e
  | .formula _ => True
  | .overlong => Q

namespace Outcome.FailsOnly

variable {P : ConfigError → Prop} {Q : Prop}

theorem lift {ε : Type} {P : ε → Prop} {x : Except ε α} (h : FailsOnly P x) :
    FailsOnly (Refusal.Meets P Q) (Refusal.lift x) := by
  intro refusal hrefusal
  obtain ⟨e, he, rfl⟩ := lift_eq_error_iff.1 hrefusal
  exact h e he

theorem ofConfig {x : Except ConfigError α} (h : FailsOnly P x) :
    FailsOnly (ParseError.Meets P Q) (ParseError.ofConfig x) := by
  intro e he
  obtain ⟨e', he', rfl⟩ := mapError_eq_error_iff.1 he
  exact h e' he'

theorem ofRefusal {x : Except (Refusal ConfigError) α} (h : FailsOnly (Refusal.Meets P Q) x) :
    FailsOnly (ParseError.Meets P Q) (ParseError.ofRefusal x) := by
  intro e he
  obtain ⟨refusal, hrefusal, rfl⟩ := mapError_eq_error_iff.1 he
  have hmeets := h refusal hrefusal
  cases refusal <;> exact hmeets

end Outcome.FailsOnly

theorem failsOnly_mapError_formula {P : ConfigError → Prop} {Q : Prop} {x : Except FormulaError α} :
    FailsOnly (ParseError.Meets P Q) (x.mapError .formula) := by
  intro e he
  obtain ⟨e', -, rfl⟩ := Outcome.mapError_eq_error_iff.1 he
  trivial

/-- Whether there may be an integer with too many digits in a tree or among the limits. -/
def Node.IsLong (limits : Limits) (root : Node) : Prop := ¬(limits.AreWritable ∧ root.IsShort)

/-- Whether the refusal of a document comes from its tree: from a node that is the cause, or from
an integer with too many digits. -/
abbrev Node.Grounds (limits : Limits) (root : Node) : Refusal ConfigError → Prop :=
  Refusal.Meets root.Explains (root.IsLong limits)

/-! ## Entries of the catalog -/

theorem Node.exists_of_asText {node : Node} {text : String} (h : node.asText = .ok text) :
    ∃ path, node = .scalar path (.text text) := by
  unfold Node.asText at h
  split at h
  · next path _ =>
    cases h
    exact ⟨path, rfl⟩
  · cases h

theorem Node.IsInside.failsOnly_compile {path source : String}
    (h : (Node.scalar path (.text source)).IsInside root) :
    FailsOnly (root.Grounds limits) (Formula.compile limits path source) := by
  intro refusal hrefusal
  unfold Formula.compile at hrefusal
  split at hrefusal
  · cases hrefusal
  · next refused htree =>
    cases hrefusal
    cases refused with
    | because fault =>
      have hcause : (Node.scalar path (.text source)).Causes
          (.formula (Node.scalar path (.text source)).displayPath source fault) := .formula source fault
      rw [h.displayPath_eq] at hcause
      exact ⟨_, h.toIsIn, hcause⟩
    | overlong =>
      rintro ⟨hlimits, hshort⟩
      have hlength := (Formula.meetsOverlong_of_treeOf htree).length_lt hlimits
      exact absurd (hshort path _ h.toIsIn) (Nat.not_le.2 hlength)

namespace Feature

variable (h : entry.IsInside root)
include h

theorem failsOnly_nameOf {id : String} : FailsOnly root.Explains (nameOf id entry) := by
  refine (h.failsOnly_field fun _ hinner => hinner.failsOnly_asText).bind fun name? _ => ?_
  cases name? with
  | none => exact failsOnly_ok id
  | some name => exact failsOnly_ok _

theorem failsOnly_formulaOf : FailsOnly (root.Grounds limits) (formulaOf limits entry) := by
  refine (h.failsOnly_get? _).lift.bind fun node? hnode => ?_
  cases node? with
  | none => exact failsOnly_ok none
  | some node =>
    have hinside := (h.get? (Outcome.lift_eq_ok_iff.1 hnode)).1
    refine FailsOnly.bind ?_ fun formula _ => failsOnly_ok (some formula)
    refine hinside.failsOnly_asText.lift.bind fun source hsource => ?_
    obtain ⟨path, rfl⟩ := Node.exists_of_asText (Outcome.lift_eq_ok_iff.1 hsource)
    exact hinside.failsOnly_compile

theorem failsOnly_defaultOf {valueType : ValueType} {hasFormula : Bool} :
    FailsOnly root.Explains (defaultOf valueType hasFormula entry) := by
  refine (h.failsOnly_field fun _ hinner => hinner.failsOnly_typed).bind fun value? hvalue => ?_
  cases value? with
  | some s => exact failsOnly_ok (some s)
  | none =>
    dsimp only
    split
    · exact failsOnly_ok none
    · obtain ⟨child?, hchild, hnone⟩ := Outcome.bind_eq_ok_iff.1 hvalue
      cases child? with
      | none => exact h.fails (.missing hchild)
      | some child =>
        obtain ⟨s, -, hs⟩ := Outcome.bind_eq_ok_iff.1 hnone
        cases hs

theorem failsOnly_ofNode {id : String} :
    FailsOnly (root.Grounds limits) (ofNode limits id entry) :=
  h.failsOnly_choice.lift.bind fun _ _ =>
  h.failsOnly_choice.lift.bind fun _ _ =>
  (failsOnly_formulaOf h).bind fun _ _ =>
  (failsOnly_defaultOf h).lift.bind fun _ _ =>
  (failsOnly_nameOf h).lift.bind fun _ _ =>
  (h.failsOnly_field fun _ hinner => hinner.failsOnly_asText).lift.bind fun _ _ =>
  h.failsOnly_declaredBindings.lift.bind fun _ _ =>
  (h.failsOnly_optionalTexts (by decide)).lift.bind fun _ _ => failsOnly_ok _

end Feature

namespace UsageLimit

variable (h : entry.IsInside root)
include h

theorem failsOnly_valueTypeOf : FailsOnly root.Explains (valueTypeOf entry) := by
  refine h.failsOnly_choice.bind fun valueType hread => ?_
  split
  · exact failsOnly_ok valueType
  · obtain ⟨child, hchild, -⟩ := Outcome.bind_eq_ok_iff.1 hread
    obtain ⟨hinside, hpath⟩ := h.get? (Node.get?_of_require hchild)
    rw [← hpath, ← hinside.displayPath_eq]
    exact hinside.fails (.unknownLiteral _ _)

theorem failsOnly_ofNode {features : Table Feature} {id : String} :
    FailsOnly root.Explains (ofNode features id entry) :=
  h.failsOnly_choice.bind fun _ _ =>
  (failsOnly_valueTypeOf h).bind fun _ _ =>
  h.failsOnly_references.bind fun _ _ =>
  (Feature.failsOnly_nameOf h).bind fun _ _ =>
  (h.failsOnly_require _).bind fun _ hdefault =>
  (h.get? (Node.get?_of_require hdefault)).1.failsOnly_typed.bind fun _ _ =>
  (h.failsOnly_require _).bind fun _ hunit =>
  (h.get? (Node.get?_of_require hunit)).1.failsOnly_asText.bind fun _ _ =>
  (h.failsOnly_field fun _ hinner => hinner.failsOnly_asText).bind fun _ _ =>
  failsOnly_ok _

end UsageLimit

/-! ## Plans and add-ons -/

/-- Whether an error comes from a tree, as far as it is not for a formula. -/
abbrev Node.GroundsError (limits : Limits) (root : Node) : ParseError → Prop :=
  ParseError.Meets root.Explains (root.IsLong limits)

namespace Price

theorem failsOnly_ofNode {outer own : Table Scalar} {node : Node} (h : node.IsInside root) :
    FailsOnly (root.GroundsError limits) (ofNode limits outer own node) := by
  unfold ofNode
  split
  · exact (h.failsOnly_finite _).ofConfig.bind fun _ _ => failsOnly_ok _
  · exact h.failsOnly_compile.ofRefusal.bind fun _ _ =>
      failsOnly_mapError_formula.bind fun _ _ => failsOnly_ok _
  · rw [← h.displayPath_eq]
    exact failsOnly_error ⟨node, h.toIsIn, .typeMismatch _ _⟩

theorem failsOnly_ofEntry {outer : Table Scalar} (h : entry.IsInside root) :
    FailsOnly (root.GroundsError limits) (ofEntry limits outer entry) := by
  refine (h.failsOnly_get? _).ofConfig.bind fun node? hnode => ?_
  refine h.failsOnly_declaredBindings.ofConfig.bind fun own _ => ?_
  cases node? with
  | none => exact failsOnly_ok none
  | some node =>
    obtain ⟨hinside, -⟩ := h.get? (Outcome.ofConfig_eq_ok_iff.1 hnode)
    exact (failsOnly_ofNode hinside).bind fun price _ => failsOnly_ok (some price)

end Price

section Entries

variable {catalog : Catalog} {outer : Table Scalar} {name : String} (h : entry.IsInside root)
include h

theorem Overrides.failsOnly_ofEntry : FailsOnly root.Explains (Overrides.ofEntry catalog entry) :=
  h.failsOnly_overrides.bind fun _ _ => h.failsOnly_overrides.bind fun _ _ => failsOnly_ok _

theorem Plan.failsOnly_ofNode :
    FailsOnly (root.GroundsError limits) (Plan.ofNode limits catalog outer name entry) :=
  (h.failsOnly_field fun _ hinner => hinner.failsOnly_asText).ofConfig.bind fun _ _ =>
  (Price.failsOnly_ofEntry h).bind fun _ _ =>
  (h.failsOnly_field fun _ hinner => hinner.failsOnly_asText).ofConfig.bind fun _ _ =>
  (h.failsOnly_field fun _ hinner => hinner.failsOnly_asBool).ofConfig.bind fun _ _ =>
  (Overrides.failsOnly_ofEntry h).ofConfig.bind fun _ _ => failsOnly_ok _

/-- An add-on that refers to itself does so in a list that is there. -/
theorem AddOn.failsOnly_otherAddOns {known : String → Bool} {key : String} :
    FailsOnly root.Explains (AddOn.otherAddOns known name key entry) := by
  refine h.failsOnly_references.bind fun found hfound => ?_
  split
  · next hself =>
    obtain ⟨child?, hchild, hread⟩ := Outcome.bind_eq_ok_iff.1 hfound
    cases child? with
    | none =>
      cases hread
      cases hself
    | some child =>
      obtain ⟨hinside, hpath⟩ := h.get? hchild
      rw [← hpath, ← hinside.displayPath_eq]
      exact hinside.fails (.invalid _)
  · exact failsOnly_ok found

theorem AddOn.failsOnly_ofNode {isPlan isAddOn : String → Bool} :
    FailsOnly (root.GroundsError limits)
      (AddOn.ofNode limits catalog outer isPlan isAddOn name entry) :=
  (h.failsOnly_field fun _ hinner => hinner.failsOnly_asText).ofConfig.bind fun _ _ =>
  (Price.failsOnly_ofEntry h).bind fun _ _ =>
  (h.failsOnly_field fun _ hinner => hinner.failsOnly_asText).ofConfig.bind fun _ _ =>
  h.failsOnly_references.ofConfig.bind fun _ _ =>
  (AddOn.failsOnly_otherAddOns h).ofConfig.bind fun _ _ =>
  (AddOn.failsOnly_otherAddOns h).ofConfig.bind fun _ _ =>
  (Overrides.failsOnly_ofEntry h).ofConfig.bind fun _ _ => failsOnly_ok _

end Entries

/-! ## Attributes -/

namespace Attributes

variable {node : Node} {key : String}

/-- A field of the root has its name for a path. -/
theorem isIn_of_get? (h : root.IsIn root) (hpath : root.path = "") (hkey : key ≠ "")
    (hget : root.get? key = .ok (some node)) : node.IsIn root ∧ node.displayPath = key := by
  obtain ⟨hinside, hnode⟩ := h.get? hkey hget
  rw [hpath] at hnode
  exact ⟨hinside.toIsIn, hinside.displayPath_eq.trans hnode⟩

theorem failsOnly_canonicalDate (h : node.IsIn root) (text : String) :
    FailsOnly root.Explains (Temporal.canonicalDate node.displayPath text) := by
  unfold Temporal.canonicalDate
  split
  · exact failsOnly_ok _
  · exact h.fails (.typeMismatch _ _)

theorem failsOnly_canonicalInstant (h : node.IsIn root) (text : String) :
    FailsOnly root.Explains (Temporal.canonicalInstant node.displayPath text) := by
  unfold Temporal.canonicalInstant
  split
  · exact h.fails (.typeMismatch _ _)
  · split
    · exact h.fails (.typeMismatch _ _)
    · unfold Temporal.instantOf
      split
      · exact failsOnly_ok _
      · exact h.fails (.invalid _)

theorem failsOnly_instantOf (h : root.IsIn root) (hpath : root.path = "") (hkey : key ≠ "") :
    FailsOnly root.Explains (instantOf root key) := by
  refine h.failsOnly_optional fun node hget => ?_
  obtain ⟨hnode, rfl⟩ := isIn_of_get? h hpath hkey hget
  exact hnode.failsOnly_asText.bind fun text _ => failsOnly_canonicalInstant hnode text

/-- The order of two instants is looked at only if both are there. -/
theorem failsOnly_checkOrder {starts ends : Option Instant} (h : root.IsIn root)
    (hpath : root.path = "") (hstarts : instantOf root "starts" = .ok starts) :
    FailsOnly root.Explains (checkOrder starts ends) := by
  unfold checkOrder
  split
  · obtain ⟨child?, hchild, hread⟩ := Outcome.bind_eq_ok_iff.1 hstarts
    cases child? with
    | none => cases hread
    | some child =>
      obtain ⟨hinner, hdisplay⟩ := isIn_of_get? h hpath (by decide) hchild
      split
      · rw [← hdisplay]
        exact hinner.fails (.invalid _)
      · exact failsOnly_ok ()
  · exact failsOnly_ok ()

theorem failsOnly_labelOf (h : node.IsIn root) :
    FailsOnly (root.Grounds limits) (labelOf node) := by
  unfold labelOf
  split
  · next path n =>
    split
    · exact failsOnly_ok _
    · next hunwritable =>
      refine failsOnly_error fun hshort => hunwritable ?_
      exact Number.isWritable_of_length (hshort.2 path _ h)
  · exact h.failsOnly_asText.lift

theorem failsOnly_label (h : root.IsIn root) (hpath : root.path = "") :
    FailsOnly (root.Grounds limits) (root.optionalLifted "version" labelOf) := by
  refine (h.failsOnly_get? _).lift.bind fun node? hnode => ?_
  cases node? with
  | none => exact failsOnly_ok none
  | some node =>
    have hlabel := (isIn_of_get? h hpath (by decide) (Outcome.lift_eq_ok_iff.1 hnode)).1
    exact (failsOnly_labelOf hlabel).bind fun label _ => failsOnly_ok (some label)

theorem failsOnly_createdAtOf (h : root.IsIn root) (hpath : root.path = "") :
    FailsOnly root.Explains (createdAtOf root) := by
  refine (h.failsOnly_require _).bind fun createdAt hcreatedAt => ?_
  obtain ⟨hdate, hdisplay⟩ :=
    isIn_of_get? h hpath (by decide) (Node.get?_of_require hcreatedAt)
  exact hdate.failsOnly_asText.bind fun text _ => hdisplay ▸ failsOnly_canonicalDate hdate text

theorem failsOnly_ofNode (h : root.IsIn root) (hpath : root.path = "") :
    FailsOnly (root.Grounds limits) (ofNode root) := by
  have hfield : ∀ {key node}, key ≠ "" → root.get? key = .ok (some node) → node.IsIn root :=
    fun hkey hget => (isIn_of_get? h hpath hkey hget).1
  have htext : ∀ {key}, key ≠ "" →
      FailsOnly root.Explains (do (← root.require key).asText) := fun hkey =>
    (h.failsOnly_require _).bind fun _ hget =>
      (hfield hkey (Node.get?_of_require hget)).failsOnly_asText
  refine (htext (by decide)).lift.bind fun _ _ => ?_
  refine (htext (by decide)).lift.bind fun _ _ => ?_
  refine (failsOnly_createdAtOf h hpath).lift.bind fun _ _ => ?_
  refine (h.failsOnly_optional fun _ hget => (hfield (by decide) hget).failsOnly_asBool).lift.bind
    fun _ _ => ?_
  refine (failsOnly_instantOf h hpath (by decide)).lift.bind fun starts hstarts => ?_
  refine (failsOnly_instantOf h hpath (by decide)).lift.bind fun ends _ => ?_
  have hordered : FailsOnly root.Explains (checkOrder starts ends) :=
    failsOnly_checkOrder h hpath (Outcome.lift_eq_ok_iff.1 hstarts)
  refine hordered.lift.bind fun _ _ => ?_
  refine (h.failsOnly_optional fun _ hget => (hfield (by decide) hget).failsOnly_asText).lift.bind
    fun _ _ => ?_
  refine (failsOnly_label h hpath).bind fun _ _ => ?_
  exact h.failsOnly_declaredBindings.lift.bind fun _ _ => failsOnly_ok _

end Attributes

/-! ## Sections -/

namespace Pricing

variable {part : Section} {read : Table Node → Except ParseError (Table α)}

theorem failsOnly_sectionOf {node : Node} (h : node.IsInside root)
    (hread : ∀ entries : Table Node, (∀ entry ∈ entries, entry.2.IsInside root) →
      FailsOnly (root.GroundsError limits) (read entries)) :
    FailsOnly (root.GroundsError limits) (sectionOf part read node).result := by
  rw [result_sectionOf]
  refine h.failsOnly_asMapping.ofConfig.bind fun entries hentries => ?_
  refine hread entries fun entry hentry => ?_
  exact (h.field (Outcome.ofConfig_eq_ok_iff.1 hentries) hentry (.inl h.path_ne)).1

theorem failsOnly_optionalSection (h : root.IsIn root)
    (hread : ∀ entries : Table Node, (∀ entry ∈ entries, entry.2.IsInside root) →
      FailsOnly (root.GroundsError limits) (read entries)) :
    FailsOnly (root.GroundsError limits) (optionalSection part read root).result := by
  unfold optionalSection
  rw [Logged.result_bind, result_phase]
  refine (h.failsOnly_get? _).ofConfig.bind fun node? hnode => ?_
  cases node? with
  | none => exact failsOnly_ok []
  | some node =>
    have hkey : part.key ≠ "" := by cases part <;> decide
    exact failsOnly_sectionOf (h.get? hkey (Outcome.ofConfig_eq_ok_iff.1 hnode)).1 hread

/-- A section of which nothing was made is absent or empty. -/
theorem fieldsIn_eq_nil
    (hentries : ∀ fields, ∃ f : String → Node → Except ParseError α, read fields = fields.traverse f)
    (hread : (optionalSection part read root).result = .ok []) : root.fieldsIn part.key = .ok [] := by
  have hnone : read [] = .ok [] := (hentries []).elim fun f hf => hf
  obtain ⟨fields, hfields, hmade⟩ := optionalSection_eq_ok hread hnone
  obtain ⟨f, hf⟩ := hentries fields
  rw [hf] at hmade
  have hnil : fields = [] := List.map_eq_nil_iff.1 (Table.names_of_traverse hmade).symm
  rw [hfields, hnil]

/-! ## Phases -/

theorem failsOnly_featuresOf (h : root.IsIn root) :
    FailsOnly (root.GroundsError limits) (featuresOf limits root) := by
  refine (h.failsOnly_require _).ofConfig.bind fun node hnode => ?_
  have hget := Node.get?_of_require (Outcome.ofConfig_eq_ok_iff.1 hnode)
  refine failsOnly_sectionOf (h.get? (by decide) hget).1 fun entries hentries => ?_
  exact (failsOnly_traverse fun entry hentry =>
    Feature.failsOnly_ofNode (hentries entry hentry)).ofRefusal

theorem failsOnly_usageLimitsOf {features : Table Feature} (h : root.IsIn root) :
    FailsOnly (root.GroundsError limits) (usageLimitsOf features root) :=
  failsOnly_optionalSection h fun _ hentries => (failsOnly_traverse fun entry hentry =>
    UsageLimit.failsOnly_ofNode (hentries entry hentry)).ofConfig

section Offers

variable {catalog : Catalog} {bindings : Table Scalar} {plans : Table Plan}

theorem failsOnly_plansOf (h : root.IsIn root) :
    FailsOnly (root.GroundsError limits) (plansOf limits catalog bindings root) :=
  failsOnly_optionalSection h fun _ hentries => failsOnly_traverse fun entry hentry =>
    Plan.failsOnly_ofNode (hentries entry hentry)

theorem failsOnly_addOnsOf (h : root.IsIn root) :
    FailsOnly (root.GroundsError limits) (addOnsOf limits catalog bindings plans root) :=
  failsOnly_optionalSection h fun _ hentries => failsOnly_traverse fun entry hentry =>
    AddOn.failsOnly_ofNode (hentries entry hentry)

end Offers

/-- Whether an error has its cause in a node of a tree, or is that nothing is offered and the
tree has no plans and no add-ons. -/
def Accounts (root : Node) (e : ConfigError) : Prop :=
  root.Explains e ∨
    e = .nothingOffered ∧ root.fieldsIn "plans" = .ok [] ∧ root.fieldsIn "addOns" = .ok []

theorem failsOnly_ofNode {version : Version} (h : root.IsIn root) (hpath : root.path = "") :
    FailsOnly (ParseError.Meets (Accounts root) (root.IsLong limits))
      (ofNode limits version root).result := by
  have hexplained : ∀ {β : Type} {x : Except ParseError β},
      FailsOnly (root.GroundsError limits) x →
        FailsOnly (ParseError.Meets (Accounts root) (root.IsLong limits)) x := by
    intro β x hx e he
    have hcause := hx e he
    cases e with
    | config e => exact .inl hcause
    | formula e => trivial
    | overlong => exact hcause
  rw [result_ofNode]
  refine (hexplained (Attributes.failsOnly_ofNode h hpath).ofRefusal).bind fun _ _ => ?_
  refine (hexplained (failsOnly_featuresOf h)).bind fun _ _ => ?_
  refine (hexplained (failsOnly_usageLimitsOf h)).bind fun _ _ => ?_
  refine (hexplained (failsOnly_plansOf h)).bind fun plans hplans => ?_
  refine (hexplained (failsOnly_addOnsOf h)).bind fun addOns haddOns => ?_
  refine FailsOnly.bind ?_ fun _ _ => failsOnly_ok _
  unfold checkOffers
  split
  · next hempty =>
    simp only [Bool.and_eq_true, List.isEmpty_iff] at hempty
    obtain ⟨rfl, rfl⟩ := hempty
    refine failsOnly_error (.inr ⟨rfl, ?_, ?_⟩)
    · exact fieldsIn_eq_nil (fun _ => ⟨_, rfl⟩) hplans
    · exact fieldsIn_eq_nil (fun _ => ⟨_, rfl⟩) haddOns
  · exact failsOnly_ok ()

/-! ## Documents -/

variable {version : Version} {d : Value}

theorem failsOnly_ofCanonical (hroot : Node.ofValue d = .ok root) :
    FailsOnly (ParseError.Meets (Accounts root) (root.IsLong limits))
      (ofCanonical limits d version).result := by
  have h := Node.isIn_of_ofValue hroot
  have hmapping : FailsOnly (Accounts root) root.asMapping :=
    fun e he => .inl (h.failsOnly_asMapping e he)
  simp only [ofCanonical, Logged.result_bind, result_phase, hroot]
  refine hmapping.ofConfig.bind fun _ _ => ?_
  exact failsOnly_ofNode h (Node.path_of_ofValueAt hroot)

/-- A short document is read, or refused with a report. -/
theorem ofCanonical_ne_overlong (hlimits : limits.AreWritable) (hd : d.IsShort) :
    (ofCanonical limits d version).result ≠ .error .overlong := by
  intro hoverlong
  cases hroot : Node.ofValue d with
  | error refusal =>
    unfold ofCanonical at hoverlong
    rw [Logged.result_bind, result_phase, hroot] at hoverlong
    cases refusal with
    | because e => cases hoverlong
    | overlong => exact Node.ofValue_ne_overlong hd hroot
  | ok root =>
    exact failsOnly_ofCanonical hroot .overlong hoverlong
      ⟨hlimits, Node.isShort_of_ofValue hd hroot⟩

/-- A section without fields is absent from the document, or null, or an empty mapping. -/
theorem field?_of_fieldsIn_eq_nil {key : String} (hroot : Node.ofValue d = .ok root)
    (h : root.fieldsIn key = .ok []) : d.field? key = none ∨ d.field? key = some (.mapping []) := by
  obtain ⟨child?, hchild, hread⟩ := Outcome.bind_eq_ok_iff.1 h
  have hrel := (Node.shows_of_ofValue hroot).get? hchild
  generalize d.field? key = w? at hrel ⊢
  cases hrel with
  | none => exact .inl rfl
  | some hshows =>
    obtain ⟨entries, rfl, hentries⟩ := hshows.asMapping hread
    cases hentries
    exact .inr rfl

/-- The error for which a document that has a tree is refused names a place by its path. If no
field is missing, a part of the document is at that place, and an error about a container tells
the kind of the part, which is no mapping. If a field is missing, it is a field of a mapping in
the document, in which it is absent or null, or else the document has no plans and no add-ons. -/
theorem ofCanonical_error_names_place {e : ConfigError} (hroot : Node.ofValue d = .ok root)
    (h : (ofCanonical limits d version).result = .error (.config e)) :
    ∃ path, e.report.details.get? "path" = some (.text path) ∧
      (e.report.code ≠ "MISSING_REQUIRED_FIELD" →
        ∃ place node part, root.at? place = some node ∧ d.part? place = some part ∧
          path = Node.shownPath part.path ∧
          (e.report.code = "CONFIG_STRUCTURE_ERROR" →
            part.value.IsOfKind node.kind ∧ node.kind ≠ .mapping ∧
              e.report.details.get? "actual" = some (.text node.kind.name))) ∧
      (e.report.code = "MISSING_REQUIRED_FIELD" →
        (∃ place part key, d.part? place = some part ∧ part.value.IsMapping ∧
          part.value.field? key = none ∧ path = Node.fieldPath part.path key) ∨
        path = "plans" ∧
          ∀ key ∈ ["plans", "addOns"], d.field? key = none ∨ d.field? key = some (.mapping [])) := by
  rcases failsOnly_ofCanonical hroot _ h with ⟨node, hnode, hcauses⟩ | ⟨rfl, hplans, haddOns⟩
  · obtain ⟨place, hplace⟩ := hnode.place
    have hpart := Node.at?_of_ofValue hroot place
    rw [hplace] at hpart
    generalize hfound : d.part? place = part? at hpart
    cases hpart with
    | @some _ part htree =>
      have hdisplay : node.displayPath = Node.shownPath part.path :=
        congrArg Node.shownPath htree.path_eq
      cases hcauses with
      | notMapping hkind =>
        refine ⟨node.displayPath, rfl, fun _ => ?_, fun hcode => ?_⟩
        · exact ⟨place, node, part, hplace, hfound, hdisplay,
            fun _ => ⟨htree.isOfKind_iff.2 rfl, hkind, rfl⟩⟩
        · simp [ConfigError.report, ConfigError.structureReport] at hcode
      | @missing key hmissing =>
        have hfield := htree.shows.get? hmissing
        refine ⟨_, rfl, fun hcode => absurd rfl hcode, fun _ => .inl ⟨place, part, key, hfound, ?_⟩⟩
        rw [htree.path_eq]
        refine ⟨htree.shows.isMapping_of_get? hmissing, ?_, rfl⟩
        generalize part.value.field? key = w? at hfield ⊢
        cases hfield
        rfl
      | typeMismatch | unknownLiteral | unresolved | formula | invalid =>
        refine ⟨node.displayPath, rfl,
          fun _ => ⟨place, node, part, hplace, hfound, hdisplay, fun hcode => ?_⟩, fun hcode => ?_⟩ <;>
          simp [ConfigError.report] at hcode
  · refine ⟨"plans", rfl, fun hcode => absurd rfl hcode, fun _ => .inr ⟨rfl, ?_⟩⟩
    intro key hkey
    rcases List.mem_pair.1 hkey with rfl | rfl
    · exact field?_of_fieldsIn_eq_nil hroot hplans
    · exact field?_of_fieldsIn_eq_nil hroot haddOns

/-- A document whose only feature is no mapping. -/
def flatDocument : Value :=
  .mapping [(.text "saasName", .text "Demo"), (.text "currency", .text "EUR"),
    (.text "createdAt", .text "2024-08-31"), (.text "features", .mapping [(.text "sso", .bool true)])]

/-- The tree of that document. -/
def flatRoot : Node :=
  .mapping "" [("saasName", .scalar "saasName" (.text "Demo")),
    ("currency", .scalar "currency" (.text "EUR")),
    ("createdAt", .scalar "createdAt" (.text "2024-08-31")),
    ("features", .mapping "features" [("sso", .scalar "features.sso" (.bool true))])]

/-- The feature that is no mapping is named, with its kind. -/
theorem ofCanonical_error_names_place_flat :
    Node.ofValue flatDocument = .ok flatRoot ∧
    (ofCanonical ⟨64, 1000⟩ flatDocument).result =
      .error (.config (.notMapping "features.sso" "boolean")) ∧
    ∃ place node part, flatRoot.at? place = some node ∧ flatDocument.part? place = some part ∧
      "features.sso" = Node.shownPath part.path ∧ part.value.IsOfKind node.kind ∧
      node.kind ≠ .mapping := by
  have hroot : Node.ofValue flatDocument = .ok flatRoot := rfl
  have hattributes : (attributesOf flatRoot).toOption.isSome = true := by decide +kernel
  obtain ⟨attributes, hattributes⟩ := Option.isSome_iff_exists.1 hattributes
  rw [Outcome.toOption_eq_some_iff] at hattributes
  have h : (ofCanonical ⟨64, 1000⟩ flatDocument).result =
      .error (.config (.notMapping "features.sso" "boolean")) := by
    rw [result_ofCanonical hroot ⟨_, rfl⟩, ofNode_eq_error_iff]
    exact ⟨_, .features hattributes rfl⟩
  refine ⟨hroot, h, ?_⟩
  obtain ⟨path, hpath, hplace, -⟩ := ofCanonical_error_names_place hroot h
  cases hpath
  obtain ⟨place, node, part, hnode, hpart, heq, hstructure⟩ := hplace (by decide)
  obtain ⟨hkind, hne, -⟩ := hstructure rfl
  exact ⟨place, node, part, hnode, hpart, heq, hkind, hne⟩

end Pricing

end Tariff
