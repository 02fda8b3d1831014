/-!
# Refusals

Integers are read from texts and written into messages digit by digit, and an integer with
more than `Text.maxDigits` digits is neither read nor written. So whatever reads an integer, or
shows one in the message of an error, can fail beside its own causes: the integer is overlong.
A cause is reported, an overlong integer ends everything without a report.

`Refusal ε` has both. A step that cannot meet an overlong integer fails with a cause alone,
and is made a part of one that can by `Refusal.lift`.
-/

namespace Tariff

/-- Why something is refused: for a cause, or since an integer has too many digits. -/
inductive Refusal (ε : Type) where
  /-- There is a cause, which can be shown. -/
  | because (cause : ε)
  /-- An integer has too many digits to be read or shown. -/
  | overlong
  deriving DecidableEq

namespace Refusal

variable {ε δ α : Type}

/-- The refusal for a cause, if all integers that the cause shows can be written. -/
def showing (isWritable : Bool) (cause : ε) : Refusal ε :=
  if isWritable then .because cause else .overlong

/-- Restates the cause. -/
def map (f : ε → δ) : Refusal ε → Refusal δ
  | .because cause => .because (f cause)
  | .overlong => .overlong

/-- The outcome of a step that fails with a cause alone. -/
def lift (outcome : Except ε α) : Except (Refusal ε) α := outcome.mapError because

@[simp] theorem showing_true (cause : ε) : showing true cause = .because cause := rfl

@[simp] theorem showing_false (cause : ε) : showing false cause = .overlong := rfl

theorem showing_eq_because_iff {isWritable : Bool} {cause e : ε} :
    showing isWritable cause = because e ↔ isWritable = true ∧ cause = e := by
  cases isWritable <;> simp

theorem showing_eq_overlong_iff {isWritable : Bool} {cause : ε} :
    showing isWritable cause = overlong ↔ isWritable = false := by
  cases isWritable <;> simp

end Refusal

end Tariff
