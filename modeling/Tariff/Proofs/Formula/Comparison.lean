import Mathlib.Tactic.FinCases
import Tariff.Proofs.Entitlement.Difference
import Tariff.Proofs.Formula.Compiled
import Tariff.Proofs.Formula.Evaluation
import Tariff.Proofs.Number.Exact

/-!
# Comparisons in formulas

A formula compares two numbers by their exact values (`Comparison.evaluate_numbers`), so that
the comparisons of integers and floating-point numbers among one another are those of one
linear order. Two scalars are equal in a formula exactly if entitlements that differ in nothing
else are not different (`comparison_is_exact`); where a formula refuses to compare operands of
different kinds, such entitlements are different.
-/

namespace Tariff

/-! ## Numbers that are the same -/

/-- Numbers are the same if they agree, unless both are "not a number". -/
theorem Number.same_iff_agrees {x y : Number} (h : x ≠ .float .nan ∨ y ≠ .float .nan) :
    x.same y = true ↔ x.Agrees y := by
  have hplace {z : Number} (hz : z ≠ .float .nan) : ∃ p, z.position? = some p := by
    obtain ⟨q, hq⟩ := Number.exists_exact_iff.2 hz
    rw [Number.exactValue?_eq_map_position?] at hq
    obtain ⟨p, hp, -⟩ := Option.map_eq_some_iff.1 hq
    exact ⟨p, hp⟩
  rw [Number.same_iff, Number.Agrees]
  constructor
  · rintro ⟨p, hx, hy⟩
    rw [hx, hy]
  · intro heq
    rcases h with hx | hy
    · obtain ⟨p, hp⟩ := hplace hx
      exact ⟨p, hp, heq.symm.trans hp⟩
    · obtain ⟨p, hp⟩ := hplace hy
      exact ⟨p, heq.trans hp, hp⟩

/-! ## Snapshots with one feature -/

namespace Snapshot

/-- Whether a snapshot has the one feature `id` with a value and no usage limits. -/
structure HasOnly (S : Snapshot) (id : String) (s : Scalar) : Prop where
  features : S.features = Fields.ofScalars [(id, s)]
  usageLimits : S.usageLimits = []

namespace HasOnly

variable {S S' : Snapshot} {id : String} {s t : Scalar}

theorem isPlain (h : S.HasOnly id s) : S.IsPlain := by
  intro sort
  cases sort with
  | feature =>
    show S.features.IsPlain
    rw [h.features]
    exact Fields.isPlain_ofScalars (List.nodup_singleton id)
  | usageLimit =>
    show S.usageLimits.IsPlain
    rw [h.usageLimits]
    exact Fields.isPlain_ofScalars (t := []) List.nodup_nil

theorem granted?_eq (h : S.HasOnly id s) (sort : Capability) (other : String) :
    (Entitlement.snapshot S).granted? sort other =
      if sort = .feature ∧ other = id then some s else none := by
  have hplain := Entitlement.isPlain_sections h.isPlain
  rw [Entitlement.granted?_eq rfl fun sort => (hplain sort).1, (hplain sort).2]
  cases sort with
  | feature =>
    show S.features.granted.get? other = _
    rw [h.features, Fields.granted_ofScalars]
    simp [Table.get?_cons]
  | usageLimit =>
    show S.usageLimits.granted.get? other = _
    rw [h.usageLimits]
    rfl

/-- Snapshots with one and the same feature agree if their values do. -/
theorem agrees_iff (h : S.HasOnly id s) (h' : S'.HasOnly id t) :
    (Entitlement.snapshot S).Agrees (.snapshot S') ↔ s.Agrees t := by
  unfold Entitlement.Agrees
  simp only [h.granted?_eq, h'.granted?_eq]
  constructor
  · intro hall
    have hfeature := hall .feature id
    simp only [and_self, ↓reduceIte] at hfeature
    cases hfeature with
    | some hagrees => exact hagrees
  · intro hagrees sort other
    split
    · exact .some hagrees
    · exact .none

end HasOnly

end Snapshot

namespace Formula

/-! ## Comparisons in formulas -/

/-- The scope of the two operands `a` and `b`. -/
def Scope.operands (s t : Scalar) : Scope := .ofTable [("a", s), ("b", t)]

/-- The comparisons that a formula can make. -/
inductive Comparison where
  | less
  | lessEqual
  | greater
  | greaterEqual
  | equal
  | notEqual
  deriving DecidableEq

namespace Comparison

/-- The text of a formula that compares `a` with `b`. -/
def source : Comparison → String
  | .less => "a < b"
  | .lessEqual => "a <= b"
  | .greater => "a > b"
  | .greaterEqual => "a >= b"
  | .equal => "a == b"
  | .notEqual => "a != b"

/-- The operator of a comparison. -/
def operator : Comparison → BinaryOperator
  | .less => .less
  | .lessEqual => .lessEqual
  | .greater => .greater
  | .greaterEqual => .greaterEqual
  | .equal => .equal
  | .notEqual => .notEqual

/-- The formula that compares `a` with `b`. -/
def formula (c : Comparison) : Formula :=
  ⟨c.source, .binaryOf c.operator (.name "a") (.name "b")⟩

/-- Whether two values compare so. -/
def Holds {α : Type*} [LinearOrder α] (c : Comparison) (p q : α) : Prop :=
  match c with
  | .less => p < q
  | .lessEqual => p ≤ q
  | .greater => q < p
  | .greaterEqual => q ≤ p
  | .equal => p = q
  | .notEqual => p ≠ q

instance {α : Type*} [LinearOrder α] (c : Comparison) (p q : α) : Decidable (c.Holds p q) :=
  match c with
  | .less => inferInstanceAs (Decidable (p < q))
  | .lessEqual => inferInstanceAs (Decidable (p ≤ q))
  | .greater => inferInstanceAs (Decidable (q < p))
  | .greaterEqual => inferInstanceAs (Decidable (q ≤ p))
  | .equal => inferInstanceAs (Decidable (p = q))
  | .notEqual => inferInstanceAs (Decidable (p ≠ q))

/-! ## The formulas -/

/-- The symbol of a comparison. -/
def symbol : Comparison → Symbol
  | .less => .less
  | .lessEqual => .lessEqual
  | .greater => .greater
  | .greaterEqual => .greaterEqual
  | .equal => .equal
  | .notEqual => .notEqual

/-- The tokens of a comparison. -/
def tokens (c : Comparison) : List Token :=
  [⟨.name "a", 0⟩, ⟨.symbol c.symbol, 2⟩, ⟨.name "b", c.source.length - 1⟩,
    ⟨.finish, c.source.length⟩]

theorem ofFormula_source (c : Comparison) : Token.ofFormula c.source = .ok c.tokens := by
  cases c <;> with_unfolding_all rfl

/-- A comparison is compiled within any limits that its length and its two levels keep. -/
theorem compile_source (c : Comparison) {limits : Limits} (path : String)
    (hdepth : 2 ≤ limits.depth) (hlength : (c.source.length : Int) ≤ limits.length) :
    compile limits path c.source = .ok c.formula := by
  have hread : readAll 2 c.tokens = .ok c.formula.root := by cases c <;> with_unfolding_all rfl
  exact compile_of_readAll hlength c.ofFormula_source (readAll_mono hdepth hread)

theorem eq_formula_of_compile (c : Comparison) {limits : Limits} {path : String} {f : Formula}
    (h : compile limits path c.source = .ok f) : f = c.formula :=
  compile_unique h (c.compile_source path (Int.le_refl 2) (Int.le_refl _) :
    compile ⟨2, c.source.length⟩ path c.source = .ok c.formula)

variable {c : Comparison} {s t : Scalar} {x y : Number} {p q : ExactValue}

/-- A comparison has the boolean that its operator makes of the two operands. -/
theorem evaluate_eq_ok_iff {b : Bool} :
    c.formula.evaluate (.operands s t) = .ok (.bool b) ↔
      applyBinary c.operator (.scalar s) (.scalar t) = .ok (.bool b) := by
  have hvalue : c.formula.root.value (.operands s t) =
      applyBinary c.operator (.scalar s) (.scalar t) := rfl
  rw [Formula.evaluate_eq_ok_iff, hvalue]
  exact and_iff_left rfl

/-! ## Numbers -/

/-- The orders of two numbers in which a comparison is true. -/
def orders : Comparison → List Ordering
  | .less => [.lt]
  | .lessEqual => [.lt, .eq]
  | .greater => [.gt]
  | .greaterEqual => [.gt, .eq]
  | .equal => [.eq]
  | .notEqual => [.lt, .gt]

theorem contains_orders_cmp {α : Type*} [LinearOrder α] (c : Comparison) (p q : α) :
    c.orders.contains (cmp p q) = decide (c.Holds p q) := by
  rcases lt_trichotomy p q with h | rfl | h
  · rw [(cmp_eq_lt_iff p q).2 h]
    cases c <;> simp [orders, Holds, h, h.le, h.ne, h.not_gt, h.not_ge]
  · rw [cmp_self_eq_eq]
    cases c <;> simp [orders, Holds]
  · rw [(cmp_eq_gt_iff p q).2 h]
    cases c <;> simp [orders, Holds, h, h.le, h.ne', h.not_gt, h.not_ge]

/-- What the operator makes of two numbers depends on their order alone. -/
theorem applyBinary_numbers {o : Ordering} (h : x.compare? y = some o) :
    applyBinary c.operator (.number x) (.number y) = .ok (.bool (c.orders.contains o)) := by
  have hordered (operator : BinaryOperator) (orders : List Ordering) :
      ordered operator orders (.number x) (.number y) = .ok (.bool (orders.contains o)) := by
    show Except.ok (Value.bool ((x.compare? y).any orders.contains)) = _
    rw [h]
    rfl
  have hsame (operator : BinaryOperator) :
      sameKindEqual operator (.number x) (.number y) = .ok (o == .eq) := by
    show Except.ok (x.compare? y == some Ordering.eq) = _
    rw [h]
    rfl
  cases c with
  | less => exact hordered _ _
  | lessEqual => exact hordered _ _
  | greater => exact hordered _ _
  | greaterEqual => exact hordered _ _
  | equal =>
    refine Outcome.bind_eq_ok_iff.2 ⟨_, hsame .equal, ?_⟩
    cases o <;> rfl
  | notEqual =>
    refine Outcome.bind_eq_ok_iff.2 ⟨_, hsame .notEqual, ?_⟩
    cases o <;> rfl

/-- The operator compares the exact values of two numbers. -/
theorem applyBinary_exact (c : Comparison) (hx : x.exactValue? = some p)
    (hy : y.exactValue? = some q) :
    applyBinary c.operator (.number x) (.number y) = .ok (.bool (decide (c.Holds p q))) := by
  rw [← c.contains_orders_cmp]
  exact applyBinary_numbers (Number.compare?_eq_some_cmp hx hy)

/-- A comparison of numbers is the comparison of their exact values. -/
theorem evaluate_numbers (c : Comparison) (hx : x.exactValue? = some p)
    (hy : y.exactValue? = some q) :
    c.formula.evaluate (.operands (.number x) (.number y)) = .ok (.bool (decide (c.Holds p q))) :=
  evaluate_eq_ok_iff.2 (c.applyBinary_exact hx hy)

/-- A comparison of numbers is true if it holds of their exact values. -/
theorem evaluate_numbers_eq_true_iff (hx : x.exactValue? = some p) (hy : y.exactValue? = some q) :
    c.formula.evaluate (.operands (.number x) (.number y)) = .ok (.bool true) ↔ c.Holds p q := by
  rw [c.evaluate_numbers hx hy]
  simp [Value.bool]

/-! ## Linear orders -/

section Orders

variable {α : Type*} [LinearOrder α]

/-- Of two values one is less, or they are equal. -/
theorem existsUnique_holds (p q : α) :
    ∃! c : Comparison, c ∈ [.less, .equal, .greater] ∧ c.Holds p q := by
  rcases lt_trichotomy p q with h | rfl | h
  · refine ⟨.less, ⟨by simp, h⟩, ?_⟩
    rintro c ⟨hc, hholds⟩
    fin_cases hc
    · rfl
    · exact absurd hholds h.ne
    · exact absurd hholds h.not_gt
  · refine ⟨.equal, ⟨by simp, rfl⟩, ?_⟩
    rintro c ⟨hc, hholds⟩
    fin_cases hc
    · exact absurd hholds (lt_irrefl p)
    · rfl
    · exact absurd hholds (lt_irrefl p)
  · refine ⟨.greater, ⟨by simp, h⟩, ?_⟩
    rintro c ⟨hc, hholds⟩
    fin_cases hc
    · exact absurd hholds h.not_gt
    · exact absurd hholds h.ne'
    · rfl

theorem Holds.trans {p q r : α} (hc : c ∈ [.less, .equal]) (h : c.Holds p q)
    (h' : c.Holds q r) : c.Holds p r := by
  fin_cases hc
  · exact lt_trans h h'
  · exact Eq.trans h h'

/-- Values compare as their images in a larger order do. -/
theorem holds_map_iff {β : Type*} [LinearOrder β] {image : α → β}
    (hmono : StrictMono image) {a b : α} : c.Holds (image a) (image b) ↔ c.Holds a b := by
  cases c with
  | less => exact hmono.lt_iff_lt
  | lessEqual => exact hmono.le_iff_le
  | greater => exact hmono.lt_iff_lt
  | greaterEqual => exact hmono.le_iff_le
  | equal => exact hmono.injective.eq_iff
  | notEqual => exact hmono.injective.ne_iff

end Orders

/-- The operator compares integers as integers are compared. -/
theorem applyBinary_ints (c : Comparison) (a b : Int) :
    applyBinary c.operator (.number (.int a)) (.number (.int b)) =
      .ok (.bool (decide (c.Holds a b))) := by
  have hmono : StrictMono fun n : Int => ExactValue.rational n :=
    ExactValue.rational_strictMono.comp Int.cast_strictMono
  rw [c.applyBinary_exact (x := .int a) (y := .int b) rfl rfl]
  exact congrArg (fun verdict => Except.ok (Value.bool verdict))
    (decide_eq_decide.2 (holds_map_iff hmono))

/-! ## Scalars of any kind -/

/-- Operands of one kind are equal in a formula or not; operands of two kinds are refused. -/
theorem evaluate_equal (s t : Scalar) :
    (s.operandKind = t.operandKind → equal.formula.evaluate (.operands s t) =
      .ok (.bool ((Value.scalar s).same (.scalar t)))) ∧
    (s.operandKind ≠ t.operandKind →
      ∃ fault, equal.formula.evaluate (.operands s t) = .error (.fault equal.source fault)) := by
  constructor
  · intro hkind
    have hequal : sameKindEqual .equal (.scalar s) (.scalar t) =
        .ok ((Value.scalar s).same (.scalar t)) := if_pos hkind
    exact evaluate_eq_ok_iff.2 (Outcome.bind_eq_ok_iff.2 ⟨_, hequal, rfl⟩)
  · intro hkind
    have hequal : sameKindEqual .equal (.scalar s) (.scalar t) =
        .error (.binaryOperands "==" s.operandKind t.operandKind) := if_neg hkind
    refine exists_fault_of_evaluate fun v hv => ?_
    obtain ⟨hvalue, -⟩ := Formula.evaluate_eq_ok_iff.1 hv
    obtain ⟨b, hb, -⟩ := Outcome.bind_eq_ok_iff.1
      (show applyBinary .equal (.scalar s) (.scalar t) = .ok v from hvalue)
    cases hequal.symm.trans hb

/-- Scalars of one kind are the same if they agree, unless both are "not a number". -/
theorem same_iff_agrees (hkind : s.operandKind = t.operandKind)
    (h : s ≠ .number (.float .nan) ∨ t ≠ .number (.float .nan)) :
    (Value.scalar s).same (.scalar t) = true ↔ s.Agrees t := by
  cases s with
  | bool a =>
    cases t with
    | bool b =>
      show (Value.bool a).same (.bool b) = true ↔ a = b
      rw [Entry.same_bool, beq_iff_eq]
    | number n => simp [Scalar.operandKind] at hkind
    | text b => simp [Scalar.operandKind] at hkind
  | number m =>
    cases t with
    | bool b => simp [Scalar.operandKind] at hkind
    | number n =>
      exact Number.same_iff_agrees (h.imp (fun hs hm => hs (congrArg Scalar.number hm))
        fun ht hn => ht (congrArg Scalar.number hn))
    | text b => simp [Scalar.operandKind] at hkind
  | text a =>
    cases t with
    | bool b => simp [Scalar.operandKind] at hkind
    | number n => simp [Scalar.operandKind] at hkind
    | text b =>
      show (Value.text a).same (.text b) = true ↔ a = b
      rw [Value.same_text, beq_iff_eq]

end Comparison

/-- Formulas compare numbers by exact value, and equality in formulas is equality of
entitlements. The six comparisons are compiled within any limits that they keep, and to one
formula each. For all numbers but "not a number" they give what the exact values compare to;
exactly one of less, equal and greater is true, and less and equal are transitive. For all
scalars that are not both "not a number", `a == b` is true exactly if snapshots with the one or
the other as their only feature are not different; if it is refused, since the scalars are of
different kinds, they are different. -/
theorem comparison_is_exact :
    (∀ (c : Comparison) (limits : Limits) (path : String),
      (2 ≤ limits.depth → (c.source.length : Int) ≤ limits.length →
        compile limits path c.source = .ok c.formula) ∧
      ∀ f, compile limits path c.source = .ok f → f = c.formula) ∧
    (∀ x y : Number, x ≠ .float .nan → y ≠ .float .nan →
      ∃ p q, x.exactValue? = some p ∧ y.exactValue? = some q ∧ ∀ c : Comparison,
        c.formula.evaluate (.operands (.number x) (.number y)) =
          .ok (.bool (decide (c.Holds p q)))) ∧
    (∀ x y : Number, x ≠ .float .nan → y ≠ .float .nan →
      ∃! c : Comparison, c ∈ [.less, .equal, .greater] ∧
        c.formula.evaluate (.operands (.number x) (.number y)) = .ok (.bool true)) ∧
    (∀ c : Comparison, c ∈ [.less, .equal] → ∀ x y z : Number,
      x ≠ .float .nan → y ≠ .float .nan → z ≠ .float .nan →
        c.formula.evaluate (.operands (.number x) (.number y)) = .ok (.bool true) →
        c.formula.evaluate (.operands (.number y) (.number z)) = .ok (.bool true) →
          c.formula.evaluate (.operands (.number x) (.number z)) = .ok (.bool true)) ∧
    ∀ (S S' : Snapshot) (id : String) (s t : Scalar), S.HasOnly id s → S'.HasOnly id t →
      s ≠ .number (.float .nan) ∨ t ≠ .number (.float .nan) →
        ∃ verdict, (Entitlement.snapshot S).differ (.snapshot S') = .ok verdict ∧
          (Comparison.equal.formula.evaluate (.operands s t) = .ok (.bool true) ↔
            verdict = false) ∧
          (s.operandKind = t.operandKind →
            Comparison.equal.formula.evaluate (.operands s t) = .ok (.bool !verdict)) ∧
          (s.operandKind ≠ t.operandKind → verdict = true ∧
            ∃ fault, Comparison.equal.formula.evaluate (.operands s t) =
              .error (.fault Comparison.equal.source fault)) := by
  refine ⟨fun c limits path => ⟨c.compile_source path, fun f => c.eq_formula_of_compile⟩,
    ?_, ?_, ?_, ?_⟩
  · intro x y hx hy
    obtain ⟨p, hp⟩ := Number.exists_exact_iff.2 hx
    obtain ⟨q, hq⟩ := Number.exists_exact_iff.2 hy
    exact ⟨p, q, hp, hq, fun c => c.evaluate_numbers hp hq⟩
  · intro x y hx hy
    obtain ⟨p, hp⟩ := Number.exists_exact_iff.2 hx
    obtain ⟨q, hq⟩ := Number.exists_exact_iff.2 hy
    simp only [Comparison.evaluate_numbers_eq_true_iff hp hq]
    exact Comparison.existsUnique_holds p q
  · intro c hc x y z hx hy hz
    obtain ⟨p, hp⟩ := Number.exists_exact_iff.2 hx
    obtain ⟨q, hq⟩ := Number.exists_exact_iff.2 hy
    obtain ⟨r, hr⟩ := Number.exists_exact_iff.2 hz
    rw [Comparison.evaluate_numbers_eq_true_iff hp hq,
      Comparison.evaluate_numbers_eq_true_iff hq hr, Comparison.evaluate_numbers_eq_true_iff hp hr]
    exact Comparison.Holds.trans hc
  · intro S S' id s t hS hS' hnumbers
    obtain ⟨verdict, hverdict, hagrees⟩ :=
      Entitlement.exists_differ_iff (Entitlement.isPlain_snapshot hS.isPlain)
        (Entitlement.isPlain_snapshot hS'.isPlain)
    rw [hS.agrees_iff hS'] at hagrees
    obtain ⟨hequal, hrefused⟩ := Comparison.evaluate_equal s t
    by_cases hkind : s.operandKind = t.operandKind
    · have hsame : (Value.scalar s).same (.scalar t) = !verdict := by
        rw [Bool.eq_iff_iff, Comparison.same_iff_agrees hkind hnumbers, ← hagrees,
          Bool.not_eq_true']
      have hvalue := hsame ▸ hequal hkind
      refine ⟨verdict, hverdict, ?_, fun _ => hvalue, fun hnot => absurd hkind hnot⟩
      rw [hvalue]
      simp [Value.bool]
    · obtain ⟨fault, hfault⟩ := hrefused hkind
      have hdiffer : verdict = true :=
        Bool.eq_true_of_not_eq_false fun hfalse => hkind (hagrees.1 hfalse).operandKind_eq
      refine ⟨verdict, hverdict, ?_, fun hsame => absurd hsame hkind,
        fun _ => ⟨hdiffer, fault, hfault⟩⟩
      rw [hfault, hdiffer]
      exact iff_of_false nofun nofun

/-- The floating-point number `2 ^ 53`, from which on not every integer is one. -/
def lastExact : Number := .float (.finite false ⟨1076 * Binary64.binade, by decide⟩)

/-- The integer `2 ^ 53 + 1` is greater than the floating-point number `2 ^ 53`, which is the
nearest to it. As it is less than infinity, so is that number. An integer zero and a negative
zero are no different entitlements. -/
theorem comparison_is_exact_beyondDoubles :
    compile ⟨64, 1024⟩ "formula" "a < b" = .ok Comparison.less.formula ∧
    Comparison.less.formula.evaluate
      (.operands (.number lastExact) (.number (.int (2 ^ 53 + 1)))) = .ok (.bool true) ∧
    Comparison.less.formula.evaluate
      (.operands (.number lastExact) (.number (.float (.infinity false)))) = .ok (.bool true) ∧
    (Entitlement.snapshot ⟨none, [], Fields.ofScalars [("a", .number (.int 0))], []⟩).differ
      (.snapshot ⟨some "PRO", [], Fields.ofScalars [("a", .number (.float (.zero true)))], []⟩) =
        .ok false := by
  obtain ⟨hcompile, -, -, htrans, hdiffer⟩ := comparison_is_exact
  have hfirst : Comparison.less.formula.evaluate
      (.operands (.number lastExact) (.number (.int (2 ^ 53 + 1)))) = .ok (.bool true) :=
    Comparison.evaluate_eq_ok_iff.2 (Comparison.applyBinary_numbers (o := .lt) (by decide +kernel))
  have hsecond : Comparison.less.formula.evaluate
      (.operands (.number (.int (2 ^ 53 + 1))) (.number (.float (.infinity false)))) =
        .ok (.bool true) :=
    Comparison.evaluate_eq_ok_iff.2 (Comparison.applyBinary_numbers (o := .lt) (by decide +kernel))
  have hequal : Comparison.equal.formula.evaluate
      (.operands (.number (.int 0)) (.number (.float (.zero true)))) = .ok (.bool true) :=
    Comparison.evaluate_eq_ok_iff.2 (Comparison.applyBinary_numbers (o := .eq) (by decide +kernel))
  refine ⟨(hcompile .less ⟨64, 1024⟩ "formula").1 (by decide) (by decide), hfirst,
    htrans .less (by simp) lastExact (.int (2 ^ 53 + 1)) (.float (.infinity false))
      nofun nofun nofun hfirst hsecond, ?_⟩
  obtain ⟨verdict, hverdict, hiff, -⟩ :=
    hdiffer ⟨none, [], Fields.ofScalars [("a", .number (.int 0))], []⟩
      ⟨some "PRO", [], Fields.ofScalars [("a", .number (.float (.zero true)))], []⟩ "a" _ _
      ⟨rfl, rfl⟩ ⟨rfl, rfl⟩ (.inl nofun)
  rw [hverdict, hiff.1 hequal]

end Formula

end Tariff
