import Tariff.Number.Basic

/-!
# Operations on finite numbers

An operation on numbers answers only what is finite, and what it answers shows that it worked
on finite numbers alone, with one exception: a finite number divided by an infinite one is
zero (`FiniteStep`). Sums, differences and products with an infinite operand or "not a number"
are infinite or "not a number" themselves, whatever the other operand is, and so is a quotient
with such a dividend. Integers are always finite; one that is too large to be converted makes
the operation answer nothing.
-/

namespace Tariff

/-! ## Operations on floating-point numbers -/

namespace Binary64

variable {x y : Binary64}

theorem isFinite_of_add (h : (add x y).isFinite = true) :
    x.isFinite = true ∧ y.isFinite = true := by
  cases x with
  | nan => simp [add, isFinite] at h
  | infinity s =>
    cases y with
    | nan => simp [add, isFinite] at h
    | infinity t => by_cases hsame : s = t <;> simp [add, hsame, isFinite] at h
    | finite t q => simp [add, isFinite] at h
  | finite s r =>
    cases y with
    | nan => simp [add, isFinite] at h
    | infinity t => simp [add, isFinite] at h
    | finite t q => exact ⟨rfl, rfl⟩

theorem isFinite_of_sub (h : (sub x y).isFinite = true) :
    x.isFinite = true ∧ y.isFinite = true := by
  have hsum := isFinite_of_add h
  rwa [isFinite_neg] at hsum

theorem isFinite_of_mul (h : (mul x y).isFinite = true) :
    x.isFinite = true ∧ y.isFinite = true := by
  cases x with
  | nan => simp [mul, isFinite] at h
  | infinity s =>
    cases y with
    | nan => simp [mul, isFinite] at h
    | infinity t => simp [mul, isFinite] at h
    | finite t q => by_cases hzero : q.val = 0 <;> simp [mul, hzero, isFinite] at h
  | finite s r =>
    cases y with
    | nan => simp [mul, isFinite] at h
    | infinity t => by_cases hzero : r.val = 0 <;> simp [mul, hzero, isFinite] at h
    | finite t q => exact ⟨rfl, rfl⟩

/-- A finite quotient is one of finite numbers, or it is zero since the divisor is infinite. -/
theorem isFinite_of_div (h : (div x y).isFinite = true) :
    x.isFinite = true ∧
      (y.isFinite = true ∨ (∃ negative, y = .infinity negative) ∧ (div x y).isZero = true) := by
  cases x with
  | nan => simp [div, isFinite] at h
  | infinity s => cases y <;> simp [div, isFinite] at h
  | finite s r =>
    cases y with
    | nan => simp [div, isFinite] at h
    | infinity t => exact ⟨rfl, .inr ⟨⟨t, rfl⟩, rfl⟩⟩
    | finite t q => exact ⟨rfl, .inl rfl⟩

end Binary64

/-! ## Operations on numbers -/

namespace Number

/-- Whether a number is infinite, of either sign. -/
def IsInfinite (x : Number) : Prop := ∃ negative, x = .float (.infinity negative)

theorem isFinite_neg (x : Number) : x.neg.isFinite = x.isFinite := by
  cases x with
  | int n => rfl
  | float a => exact a.isFinite_neg

theorem IsInfinite.isFinite_eq_false {x : Number} (h : x.IsInfinite) : x.isFinite = false := by
  obtain ⟨negative, rfl⟩ := h
  rfl

/-- A number is infinite if the one of opposite sign is. -/
theorem isInfinite_of_neg (x : Number) (h : x.neg.IsInfinite) : x.IsInfinite := by
  obtain ⟨negative, heq⟩ := h
  refine ⟨!negative, ?_⟩
  rw [← x.neg_neg, heq]
  rfl

/-- Whether a step from two numbers to a third has worked on finite numbers and made one, but
that a divisor may be infinite if the quotient is zero. -/
structure FiniteStep (divides : Prop) (x y z : Number) : Prop where
  left : x.isFinite = true
  right : y.isFinite = true ∨ divides ∧ y.IsInfinite ∧ z.isZero = true
  result : z.isFinite = true

variable {x y z : Number} {divides : Prop} {operation : Binary64 → Binary64 → Binary64}

theorem finiteStep_int {a b c : Int} : FiniteStep divides (.int a) (.int b) (.int c) :=
  ⟨rfl, .inl rfl, rfl⟩

theorem isFinite_of_toBinary64? {a : Binary64} (h : x.toBinary64? = some a) :
    x.isFinite = a.isFinite := by
  cases x with
  | int n => exact (Binary64.isFinite_of_ofInt? h).symm
  | float b => exact congrArg Binary64.isFinite (Option.some.inj h)

/-- Only an infinite number is nearest to an infinite one. -/
theorem isInfinite_of_toBinary64? {negative : Bool}
    (h : x.toBinary64? = some (.infinity negative)) :
    x.IsInfinite := by
  cases x with
  | int n => cases Binary64.isFinite_of_ofInt? h
  | float b => exact ⟨negative, congrArg Number.float (Option.some.inj h)⟩

/-- A floating-point operation answers what it makes of the numbers nearest to its operands,
if that is finite. -/
theorem viaBinary64_eq_some_iff :
    viaBinary64 operation x y = some z ↔ ∃ a b, x.toBinary64? = some a ∧ y.toBinary64? = some b ∧
      (operation a b).isFinite = true ∧ z = .float (operation a b) := by
  simp only [viaBinary64, Option.bind_eq_bind, Option.bind_eq_some_iff,
    Option.ite_none_right_eq_some, Option.some.injEq]
  constructor
  · rintro ⟨a, ha, b, hb, hfinite, rfl⟩
    exact ⟨a, b, ha, hb, hfinite, rfl⟩
  · rintro ⟨a, b, ha, hb, hfinite, rfl⟩
    exact ⟨a, ha, b, hb, hfinite, rfl⟩

/-- A floating-point operation in whose result every operand that is not finite shows. -/
theorem finiteStep_of_viaBinary64
    (hshows : ∀ {a b}, (operation a b).isFinite = true → a.isFinite = true ∧ b.isFinite = true)
    (h : viaBinary64 operation x y = some z) : FiniteStep divides x y z := by
  obtain ⟨a, b, ha, hb, hfinite, rfl⟩ := viaBinary64_eq_some_iff.1 h
  obtain ⟨hleft, hright⟩ := hshows hfinite
  exact ⟨(isFinite_of_toBinary64? ha).trans hleft, .inl ((isFinite_of_toBinary64? hb).trans hright),
    hfinite⟩

theorem finiteStep_of_add? (h : add? x y = some z) : FiniteStep divides x y z := by
  cases x <;> cases y
  · cases h
    exact finiteStep_int
  all_goals exact finiteStep_of_viaBinary64 Binary64.isFinite_of_add h

theorem finiteStep_of_sub? (h : sub? x y = some z) : FiniteStep divides x y z := by
  cases x <;> cases y
  · cases h
    exact finiteStep_int
  all_goals exact finiteStep_of_viaBinary64 Binary64.isFinite_of_sub h

theorem finiteStep_of_mul? (h : mul? x y = some z) : FiniteStep divides x y z := by
  cases x <;> cases y
  · cases h
    exact finiteStep_int
  all_goals exact finiteStep_of_viaBinary64 Binary64.isFinite_of_mul h

theorem finiteStep_of_viaBinary64_div (hdivides : divides)
    (h : viaBinary64 Binary64.div x y = some z) : FiniteStep divides x y z := by
  obtain ⟨a, b, ha, hb, hfinite, rfl⟩ := viaBinary64_eq_some_iff.1 h
  obtain ⟨hleft, hright⟩ := Binary64.isFinite_of_div hfinite
  refine ⟨(isFinite_of_toBinary64? ha).trans hleft, ?_, hfinite⟩
  rcases hright with hright | ⟨⟨negative, rfl⟩, hzero⟩
  · exact .inl ((isFinite_of_toBinary64? hb).trans hright)
  · exact .inr ⟨hdivides, isInfinite_of_toBinary64? hb, hzero⟩

theorem finiteStep_of_div? (hdivides : divides) (h : div? x y = some z) :
    FiniteStep divides x y z := by
  cases x with
  | int a =>
    cases y with
    | int b =>
      obtain ⟨hfinite, heq⟩ := Option.ite_none_right_eq_some.1 h
      obtain rfl := Option.some.inj heq
      exact ⟨rfl, .inl rfl, hfinite⟩
    | float b => exact finiteStep_of_viaBinary64_div hdivides h
  | float a => exact finiteStep_of_viaBinary64_div hdivides h

end Number

end Tariff
