import Mathlib.Logic.Relation
import Tariff.Entitlement.Activation
import Tariff.Proofs.Pricing.Closed

/-!
# Consistent sets of add-ons

A set of add-ons can be active beside a plan exactly if it is consistent
(`Pricing.IsConsistent`): the pricing has every add-on of the set, each is available for the
plan, each has in the set the add-ons that it depends on, and none excludes another of the set.
It does not matter which of two add-ons declares that it excludes the other.

Only the neighbours of each add-on are looked at. That everything reachable over dependencies
is in a consistent set follows step by step (`IsConsistent.of_reachable`).

Of a set that is not consistent the first reason is reported: the least name that is not that
of an add-on, else the first add-on in the order of the document that breaks a rule. An add-on
breaks the rule on exclusions if it is the one that excludes.
-/

namespace Tariff

/-! ## One add-on -/

/-- Whether a conflict is a rule that an add-on breaks. -/
def AddOnConflict.Holds (addOn : AddOn) (plan : Option String) (requested : List String) :
    AddOnConflict → Prop
  | .unavailable name => plan = some name ∧ addOn.availableFor ≠ [] ∧ name ∉ addOn.availableFor
  | .requires other => other ∈ addOn.dependsOn ∧ other ∉ requested
  | .excludes other => other ∈ addOn.excludes ∧ other ∈ requested

namespace AddOn

/-- Whether an add-on can be active beside a plan and the add-ons requested. -/
structure Suits (addOn : AddOn) (plan : Option String) (requested : List String) : Prop where
  available : ∀ name, plan = some name → addOn.availableFor = [] ∨ name ∈ addOn.availableFor
  dependsOn : ∀ other ∈ addOn.dependsOn, other ∈ requested
  excludes : ∀ other ∈ addOn.excludes, other ∉ requested

variable {addOn : AddOn} {plan : Option String} {requested : List String}

theorem isAvailableFor_iff {name : String} :
    addOn.isAvailableFor name = true ↔ addOn.availableFor = [] ∨ name ∈ addOn.availableFor := by
  unfold isAvailableFor
  rw [Bool.or_eq_true, List.isEmpty_iff, List.contains_iff_mem]

/-- A conflict is found exactly if the add-on does not suit, and it is a rule that the add-on
breaks. -/
theorem conflict?_cases (addOn : AddOn) (plan : Option String) (requested : List String) :
    (addOn.conflict? plan requested = none ∧ addOn.Suits plan requested) ∨
      ∃ conflict, addOn.conflict? plan requested = some conflict ∧
        conflict.Holds addOn plan requested := by
  unfold conflict?
  split
  · next name hplan =>
    obtain ⟨hsome, havailable⟩ := Option.filter_eq_some_iff.1 hplan
    rw [Bool.not_eq_true', ← Bool.not_eq_true, isAvailableFor_iff, not_or] at havailable
    exact .inr ⟨.unavailable name, rfl, hsome, havailable⟩
  · next hplan =>
    split
    · next other hother =>
      have hmem := List.mem_of_find?_eq_some hother
      have hnot := List.find?_some hother
      exact .inr ⟨.requires other, rfl, hmem, by simpa using hnot⟩
    · next hdepends =>
      cases hexcludes : addOn.excludes.find? requested.contains with
      | some other =>
        have hmem := List.mem_of_find?_eq_some hexcludes
        have hrequested := List.find?_some hexcludes
        exact .inr ⟨.excludes other, rfl, hmem, List.contains_iff_mem.1 hrequested⟩
      | none =>
        refine .inl ⟨rfl, ?_, ?_, ?_⟩
        · intro name hname
          subst hname
          refine isAvailableFor_iff.1 ?_
          simpa using hplan
        · intro other hother
          simpa using List.find?_eq_none.1 hdepends other hother
        · intro other hother
          simpa using List.find?_eq_none.1 hexcludes other hother

end AddOn

/-- An add-on that breaks a rule does not suit. -/
theorem AddOnConflict.Holds.not_suits {conflict : AddOnConflict} {addOn : AddOn}
    {plan : Option String} {requested : List String} (h : conflict.Holds addOn plan requested) :
    ¬ addOn.Suits plan requested := by
  intro hsuits
  cases conflict with
  | unavailable name =>
    obtain ⟨hplan, hsome, hnot⟩ := h
    exact (hsuits.available name hplan).elim hsome hnot
  | requires other => exact h.2 (hsuits.dependsOn other h.1)
  | excludes other => exact hsuits.excludes other h.1 h.2

namespace Pricing

variable {limits : Limits} {document : Value} {pricing : Pricing} {plan : Option String}
  {requested : List String}

/-! ## Consistent sets -/

/-- Whether the add-on of a name depends on another. -/
def Depends (pricing : Pricing) (name other : String) : Prop :=
  ∃ addOn, (name, addOn) ∈ pricing.addOns ∧ other ∈ addOn.dependsOn

/-- Whether the add-on of a name excludes another. -/
def Excludes (pricing : Pricing) (name other : String) : Prop :=
  ∃ addOn, (name, addOn) ∈ pricing.addOns ∧ other ∈ addOn.excludes

/-- Whether a set of add-ons can be active beside a plan. -/
structure IsConsistent (pricing : Pricing) (plan : Option String) (requested : List String) :
    Prop where
  known : ∀ name ∈ requested, pricing.addOns.has name = true
  available : ∀ entry ∈ pricing.addOns, entry.1 ∈ requested →
    ∀ name, plan = some name → entry.2.availableFor = [] ∨ name ∈ entry.2.availableFor
  dependsOn : ∀ name ∈ requested, ∀ other, pricing.Depends name other → other ∈ requested
  compatible : ∀ name ∈ requested, ∀ other ∈ requested, name ≠ other →
    ¬ pricing.Excludes name other ∧ ¬ pricing.Excludes other name

/-- A consistent set has with an add-on all that can be reached from it over dependencies. -/
theorem IsConsistent.of_reachable (h : pricing.IsConsistent plan requested) {name other : String}
    (hname : name ∈ requested) (hreachable : Relation.ReflTransGen pricing.Depends name other) :
    other ∈ requested := by
  induction hreachable with
  | refl => exact hname
  | tail _ hdepends ih => exact h.dependsOn _ ih _ hdepends

/-- In a closed pricing, where no add-on excludes itself, a set is consistent if each of its
add-ons suits. -/
theorem IsClosed.isConsistent_iff (hclosed : pricing.IsClosed) :
    pricing.IsConsistent plan requested ↔
      (∀ name ∈ requested, pricing.addOns.has name = true) ∧
        ∀ entry ∈ pricing.addOns, entry.1 ∈ requested → entry.2.Suits plan requested := by
  constructor
  · intro h
    refine ⟨h.known, fun entry hentry hname => ?_⟩
    refine ⟨h.available entry hentry hname, ?_, ?_⟩
    · intro other hother
      exact h.dependsOn entry.1 hname other ⟨entry.2, hentry, hother⟩
    · intro other hother hrequested
      have hne := (hclosed.excludes entry hentry other hother).2
      exact (h.compatible entry.1 hname other hrequested hne.symm).1 ⟨entry.2, hentry, hother⟩
  · intro ⟨hknown, hsuits⟩
    have hexcludes : ∀ name ∈ requested, ∀ other ∈ requested, ¬ pricing.Excludes name other := by
      intro name hname other hother ⟨addOn, hmem, hexcluded⟩
      exact (hsuits _ hmem hname).excludes other hexcluded hother
    refine ⟨hknown, fun entry hentry hname => (hsuits entry hentry hname).available, ?_, ?_⟩
    · intro name hname other ⟨addOn, hmem, hother⟩
      exact (hsuits _ hmem hname).dependsOn other hother
    · intro name hname other hother _
      exact ⟨hexcludes name hname other hother, hexcludes other hother name hname⟩

/-! ## The first reason -/

/-- Whether a name is the least of those that are requested and that no add-on has. -/
structure IsFirstUnknown (pricing : Pricing) (requested : List String) (name : String) :
    Prop where
  mem : name ∈ requested
  unknown : pricing.addOns.has name = false
  least : ∀ other ∈ requested, pricing.addOns.has other = false → name ≤ other

theorem unknownAddOn?_cases (pricing : Pricing) (requested : List String) :
    (pricing.unknownAddOn? requested = none ∧
        ∀ name ∈ requested, pricing.addOns.has name = true) ∨
      ∃ name, pricing.unknownAddOn? requested = some name ∧
        pricing.IsFirstUnknown requested name := by
  cases hfind : pricing.unknownAddOn? requested with
  | none =>
    refine .inl ⟨rfl, fun name hname => ?_⟩
    simpa using List.find?_eq_none.1 hfind name (Text.mem_sortUnique.2 hname)
  | some name =>
    obtain ⟨hunknown, before, after, hsorted, hknown⟩ := List.find?_eq_some_iff_append.1 hfind
    have hmem : name ∈ Text.sortUnique requested := List.mem_of_find?_eq_some hfind
    refine .inr ⟨name, rfl, Text.mem_sortUnique.1 hmem, by simpa using hunknown, ?_⟩
    intro other hother hnot
    rw [← Text.mem_sortUnique, hsorted, List.mem_append, List.mem_cons] at hother
    have hordered := Text.pairwise_sortUnique requested
    rw [hsorted, List.pairwise_append, List.pairwise_cons] at hordered
    rcases hother with hbefore | rfl | hafter
    · simpa [hnot] using hknown other hbefore
    · exact String.le_refl other
    · exact String.not_lt.1 fun hlt =>
        String.lt_irrefl name (String.lt_trans (hordered.2.1.1 other hafter) hlt)

/-- Whether the add-on of a name is the first of those requested that breaks a rule, and the
conflict is such a rule. -/
def IsFirstConflict (pricing : Pricing) (plan : Option String) (requested : List String)
    (name : String) (conflict : AddOnConflict) : Prop :=
  ∃ before addOn after, pricing.addOns = before ++ (name, addOn) :: after ∧ name ∈ requested ∧
    conflict.Holds addOn plan requested ∧
      ∀ entry ∈ before, entry.1 ∈ requested → entry.2.Suits plan requested

/-- The conflict of an entry, with the name of its add-on, if the entry is requested. -/
def conflictAt? (plan : Option String) (requested : List String) (entry : String × AddOn) :
    Option (String × AddOnConflict) :=
  if requested.contains entry.1 then
    (entry.2.conflict? plan requested).map fun conflict => (entry.2.name, conflict)
  else none

theorem conflictAmong?_requestedAddOns (pricing : Pricing) (plan : Option String)
    (requested : List String) :
    conflictAmong? plan requested (pricing.requestedAddOns requested) =
      pricing.addOns.findSome? (conflictAt? plan requested) := by
  unfold conflictAmong? requestedAddOns
  rw [List.findSome?_map, Table.findSome?_filter]
  rfl

theorem suits_of_conflictAt? {entry : String × AddOn}
    (h : conflictAt? plan requested entry = none) (hname : entry.1 ∈ requested) :
    entry.2.Suits plan requested := by
  unfold conflictAt? at h
  rw [if_pos (List.contains_iff_mem.2 hname), Option.map_eq_none_iff] at h
  rcases entry.2.conflict?_cases plan requested with ⟨-, hsuits⟩ | ⟨conflict, hsome, -⟩
  · exact hsuits
  · rw [h] at hsome
    cases hsome

theorem holds_of_conflictAt? {entry : String × AddOn} {name : String} {conflict : AddOnConflict}
    (h : conflictAt? plan requested entry = some (name, conflict)) :
    entry.1 ∈ requested ∧ entry.2.name = name ∧ conflict.Holds entry.2 plan requested := by
  unfold conflictAt? at h
  split at h
  · next hcontains =>
    rcases entry.2.conflict?_cases plan requested with ⟨hnone, -⟩ | ⟨found, hsome, hholds⟩
    · rw [hnone] at h
      cases h
    · rw [hsome] at h
      cases h
      exact ⟨List.contains_iff_mem.1 hcontains, rfl, hholds⟩
  · cases h

/-- Either all add-ons of a set suit, or the first conflict is found. -/
theorem IsClosed.conflictAmong?_cases (hclosed : pricing.IsClosed) (plan : Option String)
    (requested : List String) :
    (conflictAmong? plan requested (pricing.requestedAddOns requested) = none ∧
        ∀ entry ∈ pricing.addOns, entry.1 ∈ requested → entry.2.Suits plan requested) ∨
      ∃ name conflict,
        conflictAmong? plan requested (pricing.requestedAddOns requested) =
            some (name, conflict) ∧
          pricing.IsFirstConflict plan requested name conflict := by
  rw [conflictAmong?_requestedAddOns]
  cases hfound : pricing.addOns.findSome? (conflictAt? plan requested) with
  | none =>
    refine .inl ⟨rfl, fun entry hentry hname => ?_⟩
    exact suits_of_conflictAt? (List.findSome?_eq_none_iff.1 hfound entry hentry) hname
  | some found =>
    obtain ⟨name, conflict⟩ := found
    obtain ⟨before, entry, after, haddOns, hentry, hbefore⟩ := List.findSome?_eq_some_iff.1 hfound
    obtain ⟨hmem, hname, hholds⟩ := holds_of_conflictAt? hentry
    have hkey : entry.2.name = entry.1 := hclosed.addOnNames entry (haddOns ▸ by simp)
    obtain rfl : entry.1 = name := hkey.symm.trans hname
    refine .inr ⟨entry.1, conflict, rfl, before, entry.2, after, haddOns, hmem, hholds, ?_⟩
    intro other hother hrequested
    exact suits_of_conflictAt? (hbefore other hother) hrequested

/-! ## Activation -/

/-- A set of add-ons is active, or the first reason why it cannot be is reported. -/
theorem IsClosed.activeAddOns_cases (hclosed : pricing.IsClosed) (plan : Option String)
    (requested : List String) :
    (pricing.activeAddOns plan requested = .ok (pricing.requestedAddOns requested) ∧
        pricing.IsConsistent plan requested) ∨
      (∃ name, pricing.activeAddOns plan requested = .error (.unknownAddOn (.text name)) ∧
        pricing.IsFirstUnknown requested name) ∨
      ∃ name conflict,
        pricing.activeAddOns plan requested = .error (.incompatible name conflict) ∧
          (∀ other ∈ requested, pricing.addOns.has other = true) ∧
          pricing.IsFirstConflict plan requested name conflict := by
  unfold activeAddOns
  rcases pricing.unknownAddOn?_cases requested with ⟨hnone, hknown⟩ | ⟨name, hsome, hfirst⟩
  · rw [hnone]
    dsimp only
    rcases hclosed.conflictAmong?_cases plan requested with
      ⟨hnone, hsuits⟩ | ⟨name, conflict, hsome, hfirst⟩
    · rw [hnone]
      exact .inl ⟨rfl, hclosed.isConsistent_iff.2 ⟨hknown, hsuits⟩⟩
    · rw [hsome]
      exact .inr (.inr ⟨name, conflict, rfl, hknown, hfirst⟩)
  · rw [hsome]
    exact .inr (.inl ⟨name, rfl, hfirst⟩)

/-- A set with an unknown add-on is not consistent. -/
theorem IsFirstUnknown.not_isConsistent {name : String}
    (h : pricing.IsFirstUnknown requested name) : ¬ pricing.IsConsistent plan requested := by
  intro hconsistent
  have hknown := hconsistent.known name h.mem
  rw [h.unknown] at hknown
  cases hknown

/-- A set with an add-on that breaks a rule is not consistent. -/
theorem IsFirstConflict.not_isConsistent (hclosed : pricing.IsClosed) {name : String}
    {conflict : AddOnConflict} (h : pricing.IsFirstConflict plan requested name conflict) :
    ¬ pricing.IsConsistent plan requested := by
  intro hconsistent
  obtain ⟨before, addOn, after, haddOns, hname, hholds, -⟩ := h
  have hmem : (name, addOn) ∈ pricing.addOns := haddOns ▸ by simp
  exact hholds.not_suits ((hclosed.isConsistent_iff.1 hconsistent).2 _ hmem hname)

/-- In every pricing that was read, just the consistent sets of add-ons can be active; they
have all that can be reached from their add-ons over dependencies. Of another set the least
unknown name is reported, or without one the first add-on of the document that breaks a
rule. -/
theorem activeAddOns_decides_consistency (h : (ofValue limits document).result = .ok pricing)
    (plan : Option String) (requested : List String) :
    ((∃ active, pricing.activeAddOns plan requested = .ok active) ↔
        pricing.IsConsistent plan requested) ∧
      ((∃ active, pricing.activeAddOns plan requested = .ok active) →
        ∀ name ∈ requested, ∀ other, Relation.ReflTransGen pricing.Depends name other →
          other ∈ requested) ∧
      ∀ e, pricing.activeAddOns plan requested = .error e →
        (∃ name, e = .unknownAddOn (.text name) ∧ pricing.IsFirstUnknown requested name) ∨
          ∃ name conflict, e = .incompatible name conflict ∧
            (∀ other ∈ requested, pricing.addOns.has other = true) ∧
            pricing.IsFirstConflict plan requested name conflict := by
  have hclosed := (isClosed_of_ofValue h).1
  have haccepts : (∃ active, pricing.activeAddOns plan requested = .ok active) ↔
      pricing.IsConsistent plan requested := by
    rcases hclosed.activeAddOns_cases plan requested with
      ⟨hok, hconsistent⟩ | ⟨name, herror, hfirst⟩ | ⟨name, conflict, herror, -, hfirst⟩
    · exact ⟨fun _ => hconsistent, fun _ => ⟨_, hok⟩⟩
    · rw [herror]
      exact ⟨nofun, fun hconsistent => absurd hconsistent hfirst.not_isConsistent⟩
    · rw [herror]
      exact ⟨nofun, fun hconsistent => absurd hconsistent (hfirst.not_isConsistent hclosed)⟩
  refine ⟨haccepts, fun hactive name hname other hreachable => ?_, fun e he => ?_⟩
  · exact (haccepts.1 hactive).of_reachable hname hreachable
  · rcases hclosed.activeAddOns_cases plan requested with
      ⟨hok, -⟩ | ⟨name, herror, hfirst⟩ | ⟨name, conflict, herror, hknown, hfirst⟩
    · rw [hok] at he
      cases he
    · rw [herror] at he
      cases he
      exact .inl ⟨name, rfl, hfirst⟩
    · rw [herror] at he
      cases he
      exact .inr ⟨name, conflict, rfl, hknown, hfirst⟩

/-- A document with add-ons of which one depends on another, and a third excludes that one. -/
def rivalDocument : Value :=
  .mapping [
    (.text "syntaxVersion", .text "2.0"), (.text "saasName", .text "Demo"),
    (.text "createdAt", .text "2024-08-31"), (.text "currency", .text "EUR"),
    (.text "features", .mapping [
      (.text "sso", .mapping [(.text "type", .text "CAPABILITY"),
        (.text "valueType", .text "BOOLEAN"), (.text "defaultValue", .bool true)])]),
    (.text "plans", .mapping [(.text "pro", .mapping [])]),
    (.text "addOns", .mapping [
      (.text "suite", .mapping [(.text "dependsOn", .list [.text "base"]),
        (.text "availableFor", .list [.text "pro"])]),
      (.text "rival", .mapping [(.text "excludes", .list [.text "base"])]),
      (.text "base", .mapping [])])]

/-- Two of these add-ons can be active together, with the one that the other depends on; the
two of which only one excludes the other cannot. -/
theorem activeAddOns_decides_consistency_rivals :
    ∃ pricing, (ofValue ⟨64, 1000⟩ rivalDocument).result = .ok pricing ∧
      pricing.IsConsistent (some "pro") ["base", "suite"] ∧
      ¬ pricing.IsConsistent (some "pro") ["base", "rival"] := by
  have hrun : ((ofValue ⟨64, 1000⟩ rivalDocument).result.toOption.map fun pricing =>
      ((pricing.activeAddOns (some "pro") ["base", "suite"]).toOption.isSome,
        (pricing.activeAddOns (some "pro") ["base", "rival"]).toOption.isSome)) =
      some (true, false) := by decide +kernel
  obtain ⟨pricing, hpricing, hactive⟩ := Option.map_eq_some_iff.1 hrun
  rw [Outcome.toOption_eq_some_iff] at hpricing
  obtain ⟨hsuite, hrival⟩ := Prod.mk.inj hactive
  refine ⟨pricing, hpricing, ?_, fun hconsistent => ?_⟩
  · obtain ⟨active, hok⟩ := Option.isSome_iff_exists.1 hsuite
    rw [Outcome.toOption_eq_some_iff] at hok
    exact (activeAddOns_decides_consistency hpricing _ _).1.1 ⟨active, hok⟩
  · obtain ⟨active, hok⟩ := (activeAddOns_decides_consistency hpricing _ _).1.2 hconsistent
    rw [hok] at hrival
    cases hrival

end Pricing

end Tariff
