import Mathlib.Algebra.Order.Field.Basic
import Mathlib.Algebra.Order.Field.Rat
import Mathlib.Algebra.Order.Ring.Cast
import Mathlib.Order.Compare
import Mathlib.Order.WithBot
import Tariff.Number.Basic

/-!
# Exact values of numbers

A number has an exact value: an integer itself, a finite floating-point number a rational one,
and the infinities the two ends of the line. "Not a number" has none. Comparing two numbers is
comparing their exact values (`Number.compare?_eq_some_cmp`), so that nothing is lost between
integers and floating-point numbers, however large they are.
-/

namespace Tariff

/-- The line of exact values: the rational numbers, and an infinity at each end. -/
abbrev ExactValue := WithBot (WithTop ℚ)

/-- The exact value of a rational number. -/
def ExactValue.rational (q : ℚ) : ExactValue := ((q : WithTop ℚ) : WithBot (WithTop ℚ))

/-- The exact value of a floating-point number; "not a number" has none. -/
def Binary64.exactValue? : Binary64 → Option ExactValue
  | .nan => none
  | .infinity negative => some (if negative then ⊥ else ⊤)
  | .finite negative rank => some (.rational (finiteUnits negative rank / unitsPerOne))

/-- The exact value of a number; "not a number" has none. -/
def Number.exactValue? : Number → Option ExactValue
  | .int n => some (.rational n)
  | .float x => x.exactValue?

/-! ## The line -/

theorem Binary64.unitsPerOne_pos : 0 < unitsPerOne := by
  rw [unitsPerOne, Nat.one_shiftLeft]
  exact Nat.two_pow_pos 1074

theorem ExactValue.rational_strictMono : StrictMono rational :=
  WithBot.coe_strictMono.comp WithTop.coe_strictMono

namespace Extended

/-- The exact value that a place on the line stands for. -/
def exact : Extended → ExactValue
  | .bottom => ⊥
  | .units n => .rational (n / Binary64.unitsPerOne)
  | .top => ⊤

/-- The order of places is the order of the values that they stand for. -/
theorem compare_eq_cmp (p q : Extended) : p.compare q = cmp p.exact q.exact := by
  have hbottom (n : Int) : ⊥ < (units n).exact := WithBot.bot_lt_coe _
  have htop (n : Int) : (units n).exact < ⊤ := WithBot.coe_lt_coe.2 (WithTop.coe_lt_top _)
  have hunits : StrictMono fun n : Int => (units n).exact :=
    ExactValue.rational_strictMono.comp
      ((strictMono_div_right_of_pos (Nat.cast_pos.2 Binary64.unitsPerOne_pos)).comp
        Int.cast_strictMono)
  cases p with
  | bottom =>
    cases q with
    | bottom => exact (cmp_self_eq_eq _).symm
    | units n => exact ((cmp_eq_lt_iff _ _).2 (hbottom n)).symm
    | top => exact ((cmp_eq_lt_iff _ _).2 bot_lt_top).symm
  | units m =>
    cases q with
    | bottom => exact ((cmp_eq_gt_iff _ _).2 (hbottom m)).symm
    | units n =>
      rw [compare_units, ← cmp_eq_compare]
      exact (hunits.cmp_map_eq m n).symm
    | top => exact ((cmp_eq_lt_iff _ _).2 (htop m)).symm
  | top =>
    cases q with
    | bottom => exact ((cmp_eq_gt_iff _ _).2 bot_lt_top).symm
    | units n => exact ((cmp_eq_gt_iff _ _).2 (htop n)).symm
    | top => exact (cmp_self_eq_eq _).symm

end Extended

/-! ## Numbers -/

namespace Number

/-- A number has the exact value of its place. -/
theorem exactValue?_eq_map_position? (x : Number) :
    x.exactValue? = x.position?.map Extended.exact := by
  cases x with
  | int n =>
    have hunits : (n * Binary64.unitsPerOne : ℚ) / Binary64.unitsPerOne = n :=
      mul_div_cancel_right₀ _ (Nat.cast_ne_zero.2 Binary64.unitsPerOne_pos.ne')
    simp only [exactValue?, position?, Option.map_some, Extended.exact, Int.cast_mul,
      Int.cast_natCast, hunits]
  | float x =>
    cases x with
    | nan => rfl
    | infinity negative => cases negative <;> rfl
    | finite negative rank => rfl

/-- All numbers but "not a number" have an exact value. -/
theorem exists_exact_iff {x : Number} : (∃ p, x.exactValue? = some p) ↔ x ≠ .float .nan := by
  cases x with
  | int n => exact iff_of_true ⟨_, rfl⟩ nofun
  | float x =>
    cases x with
    | nan => exact iff_of_false nofun fun h => h rfl
    | infinity negative => exact iff_of_true ⟨_, rfl⟩ nofun
    | finite negative rank => exact iff_of_true ⟨_, rfl⟩ nofun

variable {x y : Number} {p q : ExactValue}

/-- Comparing numbers is comparing their exact values. -/
theorem compare?_eq_some_cmp (hx : x.exactValue? = some p) (hy : y.exactValue? = some q) :
    x.compare? y = some (cmp p q) := by
  rw [exactValue?_eq_map_position?] at hx hy
  obtain ⟨place, hplace, rfl⟩ := Option.map_eq_some_iff.1 hx
  obtain ⟨place', hplace', rfl⟩ := Option.map_eq_some_iff.1 hy
  rw [compare?, hplace, hplace', ← Extended.compare_eq_cmp]
  rfl

end Number

end Tariff
