import Tariff.Entitlement.Request
import Tariff.Proofs.Pricing.Offers
import Tariff.Proofs.Pricing.Phases

/-!
# Entries are independent of each other

What the entry of a plan or an add-on says bears on that plan or add-on and on nothing else
(`entries_are_independent`). Two documents that differ only in the body of one entry give
pricings that differ only in what was made of it. The variables that the entry declares bear
on its price only, and requests that have nothing to do with the entry have the same answer.

`Surroundings` is a document with a hole in place of the body. The hole is followed from the
document to its tree, from there to the fields of the section, and on to the table that is
made of them: at each step there are two tables that differ at most under one name
(`Table.SameBut`). Other entries could notice only the names, which are the same.
-/

namespace Tariff

/-! ## Tables that differ under one name -/

namespace Table

variable {α β ε : Type} {name other : String} {S : α → α → Prop} {t u : Table α}

/-- Whether two tables have the same names at the same places, and the same things there,
save that things under one name may be related only. -/
def SameBut (name : String) (S : α → α → Prop) (t u : Table α) : Prop :=
  List.Forall₂ (fun a b => a.1 = b.1 ∧ (a.2 = b.2 ∨ (a.1 = name ∧ S a.2 b.2))) t u

namespace SameBut

theorem refl (name : String) (S : α → α → Prop) (t : Table α) : t.SameBut name S t :=
  List.forall₂_same.2 fun _ _ => ⟨rfl, .inl rfl⟩

theorem imp {T : α → α → Prop} (h : t.SameBut name S u) (hST : ∀ a b, S a b → T a b) :
    t.SameBut name T u :=
  List.Forall₂.imp (fun _ _ hab => ⟨hab.1, hab.2.imp_right fun hS => ⟨hS.1, hST _ _ hS.2⟩⟩) h

theorem has_eq (h : t.SameBut name S u) : t.has = u.has := by
  have hnames : List.Forall₂ (fun a b : String × α => a.1 = b.1 ∧ True) t u :=
    List.Forall₂.imp (fun _ _ hab => ⟨hab.1, trivial⟩) h
  exact has_eq_of_forall₂ (R := fun _ _ => True) hnames

theorem isEmpty_eq (h : t.SameBut name S u) : t.isEmpty = u.isEmpty := by
  cases h with
  | nil => rfl
  | cons => rfl

/-- What is found in both tables is the same, or is related and found under the one name. -/
theorem get? (h : t.SameBut name S u) (other : String) :
    Option.Rel (fun a b => a = b ∨ (other = name ∧ S a b)) (t.get? other) (u.get? other) := by
  induction h with
  | nil => exact .none
  | @cons first first' rest rest' hfirst _ ih =>
    obtain ⟨key, a⟩ := first
    obtain ⟨key', b⟩ := first'
    obtain ⟨rfl, hab⟩ := hfirst
    rw [get?_cons, get?_cons]
    by_cases hother : other = key
    · rw [if_pos hother, if_pos hother]
      exact .some (hother ▸ hab)
    · rw [if_neg hother, if_neg hother]
      exact ih

theorem get?_eq (h : t.SameBut name S u) (hne : other ≠ name) : t.get? other = u.get? other := by
  have hrel := h.get? other
  generalize t.get? other = a? at hrel ⊢
  generalize u.get? other = b? at hrel ⊢
  cases hrel with
  | none => rfl
  | some hab =>
    rcases hab with rfl | ⟨heq, -⟩
    · rfl
    · exact absurd heq hne

/-- A selection that leaves the one name out makes the tables the same. -/
theorem filter_eq (h : t.SameBut name S u) {keep : String → Bool} (hname : keep name = false) :
    (t.filter fun entry => keep entry.1) = u.filter fun entry => keep entry.1 := by
  induction h with
  | nil => rfl
  | @cons first first' rest rest' hfirst _ ih =>
    obtain ⟨key, a⟩ := first
    obtain ⟨key', b⟩ := first'
    obtain ⟨rfl, rfl | ⟨hkey, -⟩⟩ := hfirst
    · rw [List.filter_cons, List.filter_cons, ih]
    · subst hkey
      rw [List.filter_cons_of_neg (by simp [hname]), List.filter_cons_of_neg (by simp [hname]), ih]

/-- Tables that are made of such tables differ only under the same name. -/
theorem traverse {T : β → β → Prop} {f : String → α → Except ε β} {made made' : Table β}
    (h : t.SameBut name S u) (hmade : t.traverse f = .ok made) (hmade' : u.traverse f = .ok made')
    (hST : ∀ a b x y, S a b → f name a = .ok x → f name b = .ok y → T x y) :
    made.SameBut name T made' := by
  induction h generalizing made made' with
  | nil =>
    cases hmade
    cases hmade'
    exact .nil
  | @cons first first' rest rest' hfirst _ ih =>
    obtain ⟨key, a⟩ := first
    obtain ⟨key', b⟩ := first'
    obtain ⟨rfl, hab⟩ := hfirst
    obtain ⟨x, tail, hx, htail, rfl⟩ := traverse_cons_eq_ok_iff.1 hmade
    obtain ⟨y, tail', hy, htail', rfl⟩ := traverse_cons_eq_ok_iff.1 hmade'
    refine .cons ⟨rfl, ?_⟩ (ih htail htail')
    rcases hab with rfl | ⟨rfl, hS⟩
    · exact .inl (Except.ok.inj (hx.symm.trans hy))
    · exact .inr ⟨rfl, hST _ _ _ _ hS hx hy⟩

end SameBut

/-- Tables that are made of mappings with one value exchanged differ only under its name, if
each thing is made of its value alone. -/
theorem Matches.sameBut {R : String → α → Value → Prop} {before after : Fields} {v w : Value}
    (ht : t.Matches R (before ++ (.text name, v) :: after))
    (hu : u.Matches R (before ++ (.text name, w) :: after))
    (hR : ∀ key a b x, R key a x → R key b x → a = b) :
    t.SameBut name (fun a b => R name a v ∧ R name b w) u := by
  -- The mappings agree entry by entry, save for the entry whose value is exchanged.
  let Exchanged (x y : Value × Value) : Prop :=
    x.1 = y.1 ∧ (x.2 = y.2 ∨ (x.1 = .text name ∧ x.2 = v ∧ y.2 = w))
  have hsame : ∀ entries : Fields, List.Forall₂ Exchanged entries entries :=
    fun entries => List.forall₂_same.2 fun _ _ => ⟨rfl, .inl rfl⟩
  have hexchanged : List.Forall₂ Exchanged (before ++ (.text name, v) :: after)
      (before ++ (.text name, w) :: after) :=
    List.rel_append (hsame before) (.cons ⟨rfl, .inr ⟨rfl, rfl, rfl⟩⟩ (hsame after))
  refine ht.forall₂ (fun key a b => a = b ∨ (key = name ∧ R name a v ∧ R name b w)) hu hexchanged
    (fun x y hxy => hxy.1) ?_
  rintro key a b x y ⟨-, rfl | ⟨hkey, rfl, rfl⟩⟩ ha hb
  · exact .inl (hR key a b x ha hb)
  · cases hkey
    exact .inr ⟨rfl, ha, hb⟩

end Table

/-! ## Documents that differ in the body of an entry -/

/-- What stands around an entry of a section of a document. -/
structure Surroundings where
  /-- The fields of the document before the section. -/
  before : Fields
  part : Section
  /-- The entries of the section before the entry. -/
  first : Fields
  /-- The name of the entry. -/
  name : String
  last : Fields
  after : Fields

/-- The document whose entry has a body. -/
def Surroundings.fill (c : Surroundings) (body : Value) : Value :=
  .mapping (c.before ++
    (.text c.part.key, .mapping (c.first ++ (.text c.name, body) :: c.last)) :: c.after)

/-- Whether two nodes are the trees of two values in the same place. -/
def Node.ShowBoth (v w : Value) (n m : Node) : Prop :=
  ∃ path depth, Node.ofValueAt path depth v = .ok n ∧ Node.ofValueAt path depth w = .ok m

theorem Node.ShowBoth.shows {v w : Value} {n m : Node} (h : Node.ShowBoth v w n m) :
    n.Shows v ∧ m.Shows w := by
  obtain ⟨path, depth, hn, hm⟩ := h
  exact ⟨Node.shows_of_ofValueAt hn, Node.shows_of_ofValueAt hm⟩

namespace Surroundings

variable {c : Surroundings} {body body' : Value} {root root' : Node} {key : String}

/-- In the trees of the documents a field is the same, or it is the section, whose fields
differ at most under the name of the entry. -/
theorem get?_cases (hroot : Node.ofValue (c.fill body) = .ok root)
    (hroot' : Node.ofValue (c.fill body') = .ok root') (key : String) :
    root.get? key = root'.get? key ∨ (key = c.part.key ∧ ∃ (path : String) (t u : Table Node),
      root.get? key = .ok (some (.mapping path t)) ∧
      root'.get? key = .ok (some (.mapping path u)) ∧
      t.SameBut c.name (Node.ShowBoth body body') u) := by
  obtain ⟨fields, rfl, hfields⟩ := Layout.exists_fields_of_ofValueAt hroot
  obtain ⟨fields', rfl, hfields'⟩ := Layout.exists_fields_of_ofValueAt hroot'
  have hsame := Table.Matches.sameBut hfields hfields' fun key a b x ha hb =>
    Except.ok.inj (ha.symm.trans hb)
  have hrel := hsame.get? key
  simp only [Node.get?, Node.asMapping, pure, bind, Except.pure, Except.bind]
  generalize Table.get? fields key = found at hrel
  generalize Table.get? fields' key = found' at hrel
  cases hrel with
  | none => exact .inl rfl
  | some hab =>
    rcases hab with rfl | ⟨hkey, hn, hm⟩
    · exact .inl rfl
    · obtain ⟨t, rfl, ht⟩ := Layout.exists_fields_of_ofValueAt hn
      obtain ⟨u, rfl, hu⟩ := Layout.exists_fields_of_ofValueAt hm
      refine .inr ⟨hkey, _, t, u, rfl, rfl, ?_⟩
      refine (Table.Matches.sameBut ht hu fun key a b x ha hb =>
        Except.ok.inj (ha.symm.trans hb)).imp ?_
      exact fun n m hnm => ⟨_, _, hnm.1, hnm.2⟩

/-- Fields other than the section are the same in both trees. -/
theorem get?_eq {names : List String} (hroot : Node.ofValue (c.fill body) = .ok root)
    (hroot' : Node.ofValue (c.fill body') = .ok root') (hpart : c.part.key ∉ names) :
    ∀ key ∈ names, root.get? key = root'.get? key := by
  intro key hkey
  rcases get?_cases hroot hroot' key with hsame | ⟨rfl, -⟩
  · exact hsame
  · exact absurd hkey hpart

/-- What is made of the section differs at most under the name of the entry. -/
theorem section_sameBut {α : Type} {T : α → α → Prop}
    {read read' : Table Node → Except ParseError (Table α)} {made made' : Table α}
    (hroot : Node.ofValue (c.fill body) = .ok root)
    (hroot' : Node.ofValue (c.fill body') = .ok root')
    (hmade : (Pricing.optionalSection c.part read root).result = .ok made)
    (hmade' : (Pricing.optionalSection c.part read' root').result = .ok made')
    (hnone : read [] = .ok []) (hnone' : read' [] = .ok [])
    (hread : ∀ t u, t.SameBut c.name (Node.ShowBoth body body') u → read t = .ok made →
      read' u = .ok made' → made.SameBut c.name T made') :
    made.SameBut c.name T made' := by
  obtain ⟨t, ht, hreadt⟩ := Pricing.optionalSection_eq_ok hmade hnone
  obtain ⟨u, hu, hreadu⟩ := Pricing.optionalSection_eq_ok hmade' hnone'
  refine hread t u ?_ hreadt hreadu
  unfold Node.fieldsIn at ht hu
  rcases get?_cases hroot hroot' c.part.key with heq | ⟨-, path, t', u', hget, hget', hsame⟩
  · rw [heq] at ht
    cases Except.ok.inj (ht.symm.trans hu)
    exact .refl _ _ _
  · rw [hget] at ht
    rw [hget'] at hu
    cases ht
    cases hu
    exact hsame

end Surroundings

/-! ## Entries that differ in their variables -/

/-- Whether two bodies have the same fields, the variables apart. -/
def Value.SameButVariables (body body' : Value) : Prop :=
  ∀ key, key ≠ "variables" → body.field? key = body'.field? key

theorem Node.ShowBoth.get?_eq {body body' : Value} {n m : Node}
    (h : Node.ShowBoth body body' n m) (hbody : body.IsMapping) (hbody' : body'.IsMapping)
    (hsame : body.SameButVariables body') : ∀ key, key ≠ "variables" → n.get? key = m.get? key := by
  obtain ⟨path, depth, hn, hm⟩ := h
  exact fun key hkey => Layout.get?_eq_of_field?_eq hn hm hbody hbody' (hsame key hkey)

section Entries

variable {limits : Limits} {catalog : Catalog} {bindings : Table Scalar} {name : String}
  {n m : Node}

theorem Overrides.ofEntry_eq_of_get?_eq (hget : ∀ key, key ≠ "variables" → n.get? key = m.get? key) :
    Overrides.ofEntry catalog n = Overrides.ofEntry catalog m := by
  unfold Overrides.ofEntry Node.overrides
  rw [hget "features" (by decide), hget "usageLimits" (by decide)]

theorem Plan.isMapping_of_ofNode {v : Value} {p : Plan} (h : n.Shows v)
    (hread : Plan.ofNode limits catalog bindings name n = .ok p) : v.IsMapping := by
  obtain ⟨description, hdescription, -⟩ := Outcome.bind_eq_ok_iff.1 hread
  exact h.isMapping_of_optional (Outcome.ofConfig_eq_ok_iff.1 hdescription)

/-- The variables of a plan bear on its price only. -/
theorem Plan.eq_but_price {p q : Plan}
    (hget : ∀ key, key ≠ "variables" → n.get? key = m.get? key)
    (hp : Plan.ofNode limits catalog bindings name n = .ok p)
    (hq : Plan.ofNode limits catalog bindings name m = .ok q) : q = { p with price := q.price } := by
  simp only [Plan.ofNode, Outcome.bind_eq_ok_iff, Outcome.pure_eq_ok_iff,
    Outcome.ofConfig_eq_ok_iff, Node.optional_congr (hget "description" (by decide)),
    Node.optional_congr (hget "unit" (by decide)), Node.optional_congr (hget "private" (by decide)),
    Overrides.ofEntry_eq_of_get?_eq hget] at hp hq
  obtain ⟨description, hdescription, price, -, unit, hunit, isPrivate, hprivate, overrides,
    hoverrides, rfl⟩ := hp
  obtain ⟨description', hdescription', price', -, unit', hunit', isPrivate', hprivate', overrides',
    hoverrides', rfl⟩ := hq
  cases hdescription.symm.trans hdescription'
  cases hunit.symm.trans hunit'
  cases hprivate.symm.trans hprivate'
  cases hoverrides.symm.trans hoverrides'
  rfl

section AddOns

variable {isPlan isAddOn : String → Bool}

theorem AddOn.isMapping_of_ofNode {v : Value} {a : AddOn} (h : n.Shows v)
    (hread : AddOn.ofNode limits catalog bindings isPlan isAddOn name n = .ok a) :
    v.IsMapping := by
  obtain ⟨description, hdescription, -⟩ := Outcome.bind_eq_ok_iff.1 hread
  exact h.isMapping_of_optional (Outcome.ofConfig_eq_ok_iff.1 hdescription)

/-- The variables of an add-on bear on its price only. -/
theorem AddOn.eq_but_price {p q : AddOn}
    (hget : ∀ key, key ≠ "variables" → n.get? key = m.get? key)
    (hp : AddOn.ofNode limits catalog bindings isPlan isAddOn name n = .ok p)
    (hq : AddOn.ofNode limits catalog bindings isPlan isAddOn name m = .ok q) :
    q = { p with price := q.price } := by
  simp only [AddOn.ofNode, Outcome.bind_eq_ok_iff, Outcome.pure_eq_ok_iff,
    Outcome.ofConfig_eq_ok_iff, AddOn.otherAddOns_eq_ok_iff,
    Node.optional_congr (hget "description" (by decide)),
    Node.optional_congr (hget "unit" (by decide)),
    Node.references_congr (hget "availableFor" (by decide)),
    Node.references_congr (hget "dependsOn" (by decide)),
    Node.references_congr (hget "excludes" (by decide)),
    Overrides.ofEntry_eq_of_get?_eq hget] at hp hq
  obtain ⟨description, hdescription, price, -, unit, hunit, available, havailable, depends,
    ⟨hdepends, -⟩, excludes, ⟨hexcludes, -⟩, overrides, hoverrides, rfl⟩ := hp
  obtain ⟨description', hdescription', price', -, unit', hunit', available', havailable', depends',
    ⟨hdepends', -⟩, excludes', ⟨hexcludes', -⟩, overrides', hoverrides', rfl⟩ := hq
  cases hdescription.symm.trans hdescription'
  cases hunit.symm.trans hunit'
  cases havailable.symm.trans havailable'
  cases hdepends.symm.trans hdepends'
  cases hexcludes.symm.trans hexcludes'
  cases hoverrides.symm.trans hoverrides'
  rfl

end AddOns

end Entries

/-! ## Answers that do not depend on an entry -/

namespace Request

variable {pricing : Pricing} {name : String} {request : Request}

theorem name_of_planOf {v : Value} (h : planOf v = .ok (some name)) : v = .text name := by
  unfold planOf at h
  split at h
  · cases h
  · cases h
    rfl
  · cases h

/-- A request for another plan is answered without looking at the one. -/
theorem answer_eq_of_plans {S : Plan → Plan → Prop} {plans : Table Plan}
    (h : pricing.plans.SameBut name S plans) (hrequest : request.plan ≠ .text name) :
    request.answer { pricing with plans } = request.answer pricing := by
  have hoverrides : ∀ plan, planOf request.plan = .ok plan →
      Pricing.planOverrides { pricing with plans } plan = pricing.planOverrides plan := by
    intro plan hplan
    unfold Pricing.planOverrides
    cases plan with
    | none =>
      dsimp only
      rw [h.isEmpty_eq]
    | some other =>
      have hother : other ≠ name := fun heq => hrequest (heq ▸ name_of_planOf hplan)
      dsimp only
      rw [h.get?_eq hother]
  unfold answer
  refine Outcome.bind_congr fun plan hplan => ?_
  rw [hoverrides plan hplan]
  rfl

/-- A request without an add-on is answered without looking at it. -/
theorem answer_eq_of_addOns {S : AddOn → AddOn → Prop} {addOns : Table AddOn}
    (h : pricing.addOns.SameBut name S addOns)
    (hrequest : ∀ names, addOnsOf request.addOns = .ok names → name ∉ names) :
    request.answer { pricing with addOns } = request.answer pricing := by
  have hactive : ∀ plan names, addOnsOf request.addOns = .ok names →
      Pricing.activeAddOns { pricing with addOns } plan names = pricing.activeAddOns plan names := by
    intro plan names hnames
    have hname : names.contains name = false := by simpa using hrequest names hnames
    unfold Pricing.activeAddOns Pricing.unknownAddOn? Pricing.requestedAddOns
    dsimp only
    rw [h.has_eq, h.filter_eq hname]
  unfold answer
  refine Outcome.bind_congr fun plan _ => Outcome.bind_congr fun overrides _ =>
    Outcome.bind_congr fun names hnames => ?_
  rw [hactive plan names hnames]
  rfl

end Request

/-! ## Two documents -/

namespace Pricing

/-- Whether two pricings are the same, save that the plans of one name may be related only. -/
def SameButPlan (name : String) (S : Plan → Plan → Prop) (pricing pricing' : Pricing) : Prop :=
  ∃ plans, pricing.plans.SameBut name S plans ∧ pricing' = { pricing with plans }

/-- Whether two pricings are the same, save that the add-ons of one name may be related only. -/
def SameButAddOn (name : String) (S : AddOn → AddOn → Prop) (pricing pricing' : Pricing) : Prop :=
  ∃ addOns, pricing.addOns.SameBut name S addOns ∧ pricing' = { pricing with addOns }

variable {c : Surroundings} {body body' : Value} {limits : Limits} {version : Version}
  {pricing pricing' : Pricing}

/-- The phases before the plans read neither plans nor add-ons. -/
theorem Phase.offers_not_mem_fieldNames {phase : Phase} : phase.rank ≤ 3 →
    Section.plans.key ∉ phase.fieldNames ∧ Section.addOns.key ∉ phase.fieldNames := by
  cases phase <;> decide

/-- What is read before the plans and the add-ons is the same in both documents. -/
theorem same_before_offers {root root' : Node} (hpart : c.part = .plans ∨ c.part = .addOns)
    (hroot : Node.ofValue (c.fill body) = .ok root)
    (hroot' : Node.ofValue (c.fill body') = .ok root')
    (h : pricing.ReadFrom limits root) (h' : pricing'.ReadFrom limits root') :
    pricing.toAttributes = pricing'.toAttributes ∧ pricing.toCatalog = pricing'.toCatalog := by
  have hget : ∀ phase : Phase, phase.rank ≤ 3 → ∀ key ∈ phase.fieldNames,
      root.get? key = root'.get? key := by
    intro phase hrank
    obtain ⟨hplans, haddOns⟩ := Phase.offers_not_mem_fieldNames hrank
    refine Surroundings.get?_eq hroot hroot' ?_
    rcases hpart with hpart | hpart <;> rw [hpart]
    · exact hplans
    · exact haddOns
  have hpath : root.path = root'.path := by
    rw [Node.path_of_ofValueAt hroot, Node.path_of_ofValueAt hroot']
  have hattributes : pricing.toAttributes = pricing'.toAttributes := by
    have heq := attributesOf_congr hpath (hget .attributes (by decide))
    rw [h.attributes, h'.attributes] at heq
    exact Except.ok.inj heq
  have hfeatures : pricing.features = pricing'.features := by
    have heq : featuresOf limits root = featuresOf limits root' :=
      featuresOf_congr hpath (hget .features (by decide))
    rw [h.features, h'.features] at heq
    exact Except.ok.inj heq
  have husageLimits : pricing.usageLimits = pricing'.usageLimits := by
    have heq := usageLimitsOf_congr pricing.features (hget .usageLimits (by decide))
    rw [h.usageLimits, hfeatures, h'.usageLimits] at heq
    exact Except.ok.inj heq
  exact ⟨hattributes, congrArg₂ Catalog.mk hfeatures husageLimits⟩

/-- Documents that differ in the body of a plan give pricings that differ in what was made of
it. The add-ons notice the names of the plans only. -/
theorem sameButPlan_of_ofCanonical {T : Plan → Plan → Prop} (hpart : c.part = .plans)
    (h : (ofCanonical limits (c.fill body) version).result = .ok pricing)
    (h' : (ofCanonical limits (c.fill body') version).result = .ok pricing')
    (hT : ∀ n m p q, Node.ShowBoth body body' n m →
      Plan.ofNode limits pricing.toCatalog pricing.bindings c.name n = .ok p →
      Plan.ofNode limits pricing.toCatalog pricing.bindings c.name m = .ok q → T p q) :
    SameButPlan c.name T pricing pricing' := by
  obtain ⟨hversion, root, hroot, hread⟩ := exists_readFrom h
  obtain ⟨hversion', root', hroot', hread'⟩ := exists_readFrom h'
  obtain ⟨hattributes, hcatalog⟩ := same_before_offers (.inl hpart) hroot hroot' hread hread'
  have hplans : pricing.plans.SameBut c.name T pricing'.plans := by
    have hmade := hread.plans
    have hmade' := hread'.plans
    rw [← hattributes, ← hcatalog] at hmade'
    unfold plansOf at hmade hmade'
    rw [← hpart] at hmade hmade'
    exact Surroundings.section_sameBut hroot hroot' hmade hmade' rfl rfl
      fun t u hsame ht hu => hsame.traverse ht hu hT
  have haddOns : pricing.addOns = pricing'.addOns := by
    have hget : ∀ key ∈ Phase.addOns.fieldNames, root.get? key = root'.get? key :=
      Surroundings.get?_eq hroot hroot' (by rw [hpart]; decide)
    -- What an add-on is read with are the names of the plans.
    have hmade : addOnsOf limits pricing.toCatalog pricing.bindings pricing'.plans root =
        .ok pricing.addOns := by
      rw [← hread.addOns]
      unfold addOnsOf AddOn.catalogOf
      rw [hplans.has_eq]
    rw [addOnsOf_congr _ _ _ hget, hattributes, hcatalog, hread'.addOns] at hmade
    exact (Except.ok.inj hmade).symm
  refine ⟨pricing'.plans, hplans, ?_⟩
  obtain ⟨⟩ := pricing
  obtain ⟨⟩ := pricing'
  dsimp only at *
  subst hattributes hcatalog haddOns hversion hversion'
  rfl

/-- Documents that differ in the body of an add-on give pricings that differ in what was made
of it. The other add-ons notice its name only. -/
theorem sameButAddOn_of_ofCanonical {T : AddOn → AddOn → Prop} (hpart : c.part = .addOns)
    (h : (ofCanonical limits (c.fill body) version).result = .ok pricing)
    (h' : (ofCanonical limits (c.fill body') version).result = .ok pricing')
    (hT : ∀ isAddOn n m p q, Node.ShowBoth body body' n m →
      AddOn.ofNode limits pricing.toCatalog pricing.bindings pricing.plans.has isAddOn c.name n =
        .ok p →
      AddOn.ofNode limits pricing.toCatalog pricing.bindings pricing.plans.has isAddOn c.name m =
        .ok q → T p q) :
    SameButAddOn c.name T pricing pricing' := by
  obtain ⟨hversion, root, hroot, hread⟩ := exists_readFrom h
  obtain ⟨hversion', root', hroot', hread'⟩ := exists_readFrom h'
  obtain ⟨hattributes, hcatalog⟩ := same_before_offers (.inr hpart) hroot hroot' hread hread'
  have hplans : pricing.plans = pricing'.plans := by
    have hget : ∀ key ∈ Phase.plans.fieldNames, root.get? key = root'.get? key :=
      Surroundings.get?_eq hroot hroot' (by rw [hpart]; decide)
    have hmade := hread.plans
    rw [plansOf_congr _ _ hget, hattributes, hcatalog, hread'.plans] at hmade
    exact (Except.ok.inj hmade).symm
  have haddOns : pricing.addOns.SameBut c.name T pricing'.addOns := by
    have hmade := hread.addOns
    have hmade' := hread'.addOns
    rw [← hattributes, ← hcatalog, ← hplans] at hmade'
    unfold addOnsOf at hmade hmade'
    rw [← hpart] at hmade hmade'
    refine Surroundings.section_sameBut hroot hroot' hmade hmade' rfl rfl fun t u hsame ht hu => ?_
    -- Every add-on is read with the names of all, so these have to be the same first.
    unfold AddOn.catalogOf at ht hu
    rw [← hsame.has_eq] at hu
    exact hsame.traverse ht hu (hT t.has)
  refine ⟨pricing'.addOns, haddOns, ?_⟩
  obtain ⟨⟩ := pricing
  obtain ⟨⟩ := pricing'
  dsimp only at *
  subst hattributes hcatalog hplans hversion hversion'
  rfl

/-- The entries of plans and add-ons are independent of each other. Documents that differ in
the body of a plan give pricings that differ in that plan, and if the bodies differ in their
variables only, then in the price of that plan. Requests for other plans have the same
answer. The like holds of add-ons, and requests that are not for the add-on. -/
theorem entries_are_independent
    (h : (ofCanonical limits (c.fill body) version).result = .ok pricing)
    (h' : (ofCanonical limits (c.fill body') version).result = .ok pricing') :
    (c.part = .plans →
      SameButPlan c.name (fun _ _ => True) pricing pricing' ∧
      (body.SameButVariables body' → SameButPlan c.name
        (fun plan plan' => plan' = { plan with price := plan'.price }) pricing pricing') ∧
      ∀ request : Request, request.plan ≠ .text c.name →
        request.answer pricing' = request.answer pricing) ∧
    (c.part = .addOns →
      SameButAddOn c.name (fun _ _ => True) pricing pricing' ∧
      (body.SameButVariables body' → SameButAddOn c.name
        (fun addOn addOn' => addOn' = { addOn with price := addOn'.price }) pricing pricing') ∧
      ∀ request : Request,
        (∀ names, Request.addOnsOf request.addOns = .ok names → c.name ∉ names) →
        request.answer pricing' = request.answer pricing) := by
  constructor
  · intro hpart
    have hsame : SameButPlan c.name (fun _ _ => True) pricing pricing' :=
      sameButPlan_of_ofCanonical hpart h h' fun _ _ _ _ _ _ _ => trivial
    refine ⟨hsame, fun hvariables => ?_, fun request hrequest => ?_⟩
    · refine sameButPlan_of_ofCanonical hpart h h' fun n m plan plan' hnodes hplan hplan' => ?_
      have hbody := Plan.isMapping_of_ofNode hnodes.shows.1 hplan
      have hbody' := Plan.isMapping_of_ofNode hnodes.shows.2 hplan'
      exact Plan.eq_but_price (hnodes.get?_eq hbody hbody' hvariables) hplan hplan'
    · obtain ⟨plans, hplans, rfl⟩ := hsame
      exact Request.answer_eq_of_plans hplans hrequest
  · intro hpart
    have hsame : SameButAddOn c.name (fun _ _ => True) pricing pricing' :=
      sameButAddOn_of_ofCanonical hpart h h' fun _ _ _ _ _ _ _ _ => trivial
    refine ⟨hsame, fun hvariables => ?_, fun request hrequest => ?_⟩
    · refine sameButAddOn_of_ofCanonical hpart h h'
        fun isAddOn n m addOn addOn' hnodes haddOn haddOn' => ?_
      have hbody := AddOn.isMapping_of_ofNode hnodes.shows.1 haddOn
      have hbody' := AddOn.isMapping_of_ofNode hnodes.shows.2 haddOn'
      exact AddOn.eq_but_price (hnodes.get?_eq hbody hbody' hvariables) haddOn haddOn'
    · obtain ⟨addOns, haddOns, rfl⟩ := hsame
      exact Request.answer_eq_of_addOns haddOns hrequest

/-- A document around a plan, of which another plan and the pricing have variables of the
same name. -/
def hiddenVariable : Surroundings where
  before := [(.text "saasName", .text "Demo"), (.text "currency", .text "EUR"),
    (.text "createdAt", .text "2024-08-31"), (.text "variables", .mapping [(.text "n", .int 3)]),
    (.text "features", .mapping [(.text "sso", .mapping [(.text "type", .text "CAPABILITY"),
      (.text "valueType", .text "BOOLEAN"), (.text "defaultValue", .bool true)])])]
  part := .plans
  first := []
  name := "pro"
  last := [(.text "basic", .mapping [(.text "price", .text "n * 2")])]
  after := []

/-- The body of a plan whose price depends on its own variable. -/
def pricedBy (n : Int) : Value :=
  .mapping [(.text "price", .text "n * 2"), (.text "variables", .mapping [(.text "n", .int n)])]

/-- The variable of the one plan bears on its price, and not on that of the other. -/
theorem entries_are_independent_hiddenVariable : ∃ pricing pricing',
    (ofCanonical ⟨64, 1000⟩ (hiddenVariable.fill (pricedBy 5))).result = .ok pricing ∧
    (ofCanonical ⟨64, 1000⟩ (hiddenVariable.fill (pricedBy 7))).result = .ok pricing' ∧
    ((pricing.plans.get? "pro").bind Plan.price).map Price.amount = some (.int 10) ∧
    ((pricing'.plans.get? "pro").bind Plan.price).map Price.amount = some (.int 14) ∧
    SameButPlan "pro" (fun plan plan' => plan' = { plan with price := plan'.price })
      pricing pricing' ∧
    ∀ request : Request, request.plan ≠ .text "pro" →
      request.answer pricing' = request.answer pricing := by
  have hrun : ((ofCanonical ⟨64, 1000⟩ (hiddenVariable.fill (pricedBy 5))).result.toOption.map
      fun pricing => ((pricing.plans.get? "pro").bind Plan.price).map Price.amount) =
        some (some (.int 10)) := by
    decide +kernel
  have hrun' : ((ofCanonical ⟨64, 1000⟩ (hiddenVariable.fill (pricedBy 7))).result.toOption.map
      fun pricing => ((pricing.plans.get? "pro").bind Plan.price).map Price.amount) =
        some (some (.int 14)) := by
    decide +kernel
  obtain ⟨pricing, h, hamount⟩ := Option.map_eq_some_iff.1 hrun
  obtain ⟨pricing', h', hamount'⟩ := Option.map_eq_some_iff.1 hrun'
  rw [Outcome.toOption_eq_some_iff] at h h'
  have hvariables : (pricedBy 5).SameButVariables (pricedBy 7) := by
    intro key hkey
    have hne : Value.text "variables" ≠ .text key := fun heq => hkey (by cases heq; rfl)
    show Fields.present? ([_] ++ _ :: []) key = Fields.present? ([_] ++ _ :: []) key
    rw [Layout.Edit.present?_dropUnread hne, Layout.Edit.present?_dropUnread hne]
  obtain ⟨-, hprices, hanswers⟩ := (entries_are_independent h h').1 rfl
  exact ⟨pricing, pricing', h, h', hamount, hamount', hprices hvariables, hanswers⟩

end Pricing

end Tariff
