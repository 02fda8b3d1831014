import Mathlib.Data.List.Sort
import Tariff.Entitlement.Request
import Tariff.Proofs.Entitlement.Activation

/-!
# Requested add-ons are a set

A request names add-ons by one text or by a sequence of texts (`Request.IsNames`). Neither the
order of the names nor how often each occurs plays a part: the answer is the same for any two
ways to name the same add-ons, be it a snapshot or an error (`Request.answer_depends_on_set`).
A snapshot lists the names of the active add-ons in order. None is there twice, since the
add-ons of a pricing have different names.

Every place where the names are used asks only which of them there are. `Text.sortUnique`
forgets the rest, and all others look names up.
-/

namespace Tariff

/-- What is in order and free of repetitions depends only on which texts there are. -/
theorem Text.sortUnique_congr {texts texts' : List String}
    (h : ∀ s, s ∈ texts ↔ s ∈ texts') : sortUnique texts = sortUnique texts' := by
  apply (pairwise_sortUnique texts).eq_of_mem_iff (pairwise_sortUnique texts')
  intro s
  rw [mem_sortUnique, mem_sortUnique, h]

namespace Pricing

variable {requested requested' : List String}

theorem contains_congr (h : ∀ name, name ∈ requested ↔ name ∈ requested') :
    requested.contains = requested'.contains := by
  funext name
  rw [Bool.eq_iff_iff, List.contains_iff_mem, List.contains_iff_mem, h]

/-- Which add-ons are active, and why not, depends only on which are requested. -/
theorem activeAddOns_congr (pricing : Pricing) (plan : Option String)
    (h : ∀ name, name ∈ requested ↔ name ∈ requested') :
    pricing.activeAddOns plan requested = pricing.activeAddOns plan requested' := by
  have hunknown : pricing.unknownAddOn? requested = pricing.unknownAddOn? requested' := by
    unfold unknownAddOn?
    rw [Text.sortUnique_congr h]
  have hrequested : pricing.requestedAddOns requested = pricing.requestedAddOns requested' := by
    unfold requestedAddOns
    rw [contains_congr h]
  have hconflict : conflictAmong? plan requested = conflictAmong? plan requested' := by
    unfold conflictAmong? AddOn.conflict?
    rw [contains_congr h]
  unfold activeAddOns
  rw [hunknown, hrequested, hconflict]

/-- The names of the active add-ons are those requested, if every add-on is held under its
own name. -/
theorem mem_names_requestedAddOns {pricing : Pricing}
    (hnames : ∀ entry ∈ pricing.addOns, entry.2.name = entry.1)
    (hknown : ∀ name ∈ requested, pricing.addOns.has name = true) (name : String) :
    name ∈ (pricing.requestedAddOns requested).map AddOn.name ↔ name ∈ requested := by
  unfold requestedAddOns
  rw [List.map_map, List.mem_map]
  constructor
  · intro hmem
    obtain ⟨entry, hentry, rfl⟩ := hmem
    obtain ⟨haddOn, hcontains⟩ := List.mem_filter.1 hentry
    show entry.2.name ∈ requested
    rw [hnames entry haddOn]
    exact List.contains_iff_mem.1 hcontains
  · intro hmem
    obtain ⟨addOn, haddOn⟩ := Option.isSome_iff_exists.1 (hknown name hmem)
    have hentry := Table.mem_of_get? haddOn
    refine ⟨(name, addOn), List.mem_filter.2 ⟨hentry, List.contains_iff_mem.2 hmem⟩, ?_⟩
    exact hnames _ hentry

/-- The active add-ons are some of those of the pricing, and so have different names if all
have. -/
theorem nodup_names_requestedAddOns {pricing : Pricing}
    (h : (pricing.addOns.map fun entry => entry.2.name).Nodup) (requested : List String) :
    ((pricing.requestedAddOns requested).map AddOn.name).Nodup := by
  unfold requestedAddOns
  rw [List.map_map]
  exact h.sublist (List.Sublist.map _ List.filter_sublist)

/-- Add-ons are only active if the pricing has all that are requested. -/
theorem known_of_activeAddOns {pricing : Pricing} {plan : Option String} {active : List AddOn}
    (h : pricing.activeAddOns plan requested = .ok active) :
    ∀ name ∈ requested, pricing.addOns.has name = true := by
  unfold activeAddOns at h
  rcases pricing.unknownAddOn?_cases requested with ⟨-, hknown⟩ | ⟨name, hsome, -⟩
  · exact hknown
  · rw [hsome] at h
    cases h

end Pricing

namespace Request

/-- Whether a value names add-ons: none, one, or those of a sequence in any order, each any
number of times. -/
inductive IsNames : Value → List String → Prop where
  | none : IsNames .null []
  | one (name : String) : IsNames (.text name) [name]
  | list (names : List String) : IsNames (.list (names.map Value.text)) names
  | tuple (names : List String) : IsNames (.tuple (names.map Value.text)) names

theorem areHashable_texts (names : List String) :
    Value.areHashable (names.map Value.text) = true := by
  induction names with
  | nil => rfl
  | cons name names ih => exact ih

theorem textsOf?_texts (names : List String) :
    textsOf? (names.map Value.text) = some names := by
  induction names with
  | nil => rfl
  | cons name names ih =>
    show (textsOf? (names.map Value.text)).map (name :: ·) = _
    rw [ih]
    rfl

/-- The add-ons of a request are those that its value names. -/
theorem IsNames.addOnsOf_eq_ok {v : Value} {names : List String} (h : IsNames v names) :
    addOnsOf v = .ok names := by
  cases h with
  | none => rfl
  | one name => rfl
  | list | tuple =>
    unfold addOnsOf itemsOf?
    dsimp only
    rw [areHashable_texts, textsOf?_texts]
    rfl

variable {request : Request} {pricing : Pricing} {s : Snapshot}

/-- A snapshot lists the add-ons that are active, in order. -/
theorem addOns_of_answer (h : request.answer pricing = .ok s) :
    ∃ plan requested active, addOnsOf request.addOns = .ok requested ∧
      pricing.activeAddOns plan requested = .ok active ∧
      s.addOns = Text.sorted (active.map AddOn.name) := by
  simp only [answer, Pricing.grant, Outcome.bind_eq_ok_iff, Outcome.mapError_eq_ok_iff,
    Outcome.pure_eq_ok_iff] at h
  obtain ⟨plan, -, overrides, -, requested, hrequested, active, hactive, bindings, -, features, -,
    rfl⟩ := h
  exact ⟨plan, requested, active, hrequested, hactive, rfl⟩

/-- Only the set of the requested add-ons matters. Two requests that differ in how they name
the same add-ons have the same answer, and with it the same bytes; the answer lists these
add-ons in the order of their code points, each once if all add-ons of the pricing have
different names. -/
theorem answer_depends_on_set (request : Request) (pricing : Pricing) {v v' : Value}
    {names names' : List String} (hv : IsNames v names) (hv' : IsNames v' names')
    (hset : ∀ name, name ∈ names ↔ name ∈ names') :
    { request with addOns := v }.answer pricing = { request with addOns := v' }.answer pricing ∧
      ({ request with addOns := v }.answer pricing).map Snapshot.serializedBytes =
        ({ request with addOns := v' }.answer pricing).map Snapshot.serializedBytes ∧
      ∀ s, { request with addOns := v }.answer pricing = .ok s →
        s.addOns.Pairwise (· ≤ ·) ∧
          ((pricing.addOns.map fun entry => entry.2.name).Nodup → s.addOns.Pairwise (· < ·)) ∧
          ((∀ entry ∈ pricing.addOns, entry.2.name = entry.1) →
            ∀ name, name ∈ s.addOns ↔ name ∈ names) := by
  have hanswer : { request with addOns := v }.answer pricing =
      { request with addOns := v' }.answer pricing := by
    unfold answer
    rw [hv.addOnsOf_eq_ok, hv'.addOnsOf_eq_ok]
    apply Outcome.bind_congr
    intro plan hplan
    apply Outcome.bind_congr
    intro overrides hoverrides
    show ((pricing.activeAddOns plan names).mapError RequestError.refused >>= _) =
      ((pricing.activeAddOns plan names').mapError RequestError.refused >>= _)
    rw [pricing.activeAddOns_congr plan hset]
  refine ⟨hanswer, congrArg _ hanswer, fun s hs => ?_⟩
  obtain ⟨plan, requested, active, hrequested, hactive, haddOns⟩ := addOns_of_answer hs
  obtain rfl := Except.ok.inj (hv.addOnsOf_eq_ok.symm.trans hrequested)
  rw [haddOns]
  refine ⟨Text.pairwise_sorted _, fun hdistinct => ?_, fun hnames name => ?_⟩
  · refine Text.pairwise_lt_sorted ?_
    rw [Pricing.activeAddOns_eq_ok hactive]
    exact Pricing.nodup_names_requestedAddOns hdistinct _
  · rw [Text.mem_sorted, Pricing.activeAddOns_eq_ok hactive]
    exact Pricing.mem_names_requestedAddOns hnames (Pricing.known_of_activeAddOns hactive) name

/-- Two add-ons of which one depends on the other are active in any order, and however often
they are named. -/
theorem answer_depends_on_set_suite :
    ∃ pricing s, (Pricing.ofValue ⟨64, 1000⟩ Pricing.rivalDocument).result = .ok pricing ∧
      Request.answer ⟨.text "pro", .list [.text "suite", .text "base", .text "suite"], .null⟩
        pricing = .ok s ∧
      Request.answer ⟨.text "pro", .tuple [.text "base", .text "suite"], .null⟩ pricing = .ok s ∧
      s.addOns = ["base", "suite"] := by
  have hrun : ((Pricing.ofValue ⟨64, 1000⟩ Pricing.rivalDocument).result.toOption.bind
      fun pricing => (Request.answer
        ⟨.text "pro", .list [.text "suite", .text "base", .text "suite"], .null⟩
        pricing).toOption.map fun s =>
          (s, decide (pricing.addOns.map fun entry => entry.2.name).Nodup)).map Prod.snd =
      some true := by decide +kernel
  obtain ⟨⟨s, distinct⟩, hs, rfl⟩ := Option.map_eq_some_iff.1 hrun
  obtain ⟨pricing, hpricing, hboth⟩ := Option.bind_eq_some_iff.1 hs
  obtain ⟨s', hanswer, heq⟩ := Option.map_eq_some_iff.1 hboth
  obtain ⟨rfl, hdistinct⟩ := Prod.mk.inj heq
  rw [Outcome.toOption_eq_some_iff] at hpricing hanswer
  have hset : ∀ name, name ∈ ["suite", "base", "suite"] ↔ name ∈ ["base", "suite"] := by
    intro name
    simp only [List.mem_cons, List.not_mem_nil, or_false]
    tauto
  obtain ⟨hsame, -, haddOns⟩ := answer_depends_on_set ⟨.text "pro", .null, .null⟩ pricing
    (.list ["suite", "base", "suite"]) (.tuple ["base", "suite"]) hset
  obtain ⟨-, hordered, hmem⟩ := haddOns s' hanswer
  have hnames := (Pricing.isClosed_of_ofValue hpricing).1.addOnNames
  refine ⟨pricing, s', hpricing, hanswer, hsame.symm.trans hanswer, ?_⟩
  have hsorted : ["base", "suite"].Pairwise (· < ·) := by decide
  refine (hordered (of_decide_eq_true hdistinct)).eq_of_mem_iff hsorted fun name => ?_
  rw [hmem hnames, hset]

end Request

end Tariff
