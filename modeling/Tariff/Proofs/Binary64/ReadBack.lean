import Tariff.Binary64.Shortest
import Tariff.Proofs.Binary64.Rounding
import Tariff.Proofs.Text.Digits

/-!
# What is shown reads back

The decimal by which a floating-point number is shown is read back as that number
(`ofDecimal_shortest`), since the search for it either found one that is, or fell back on
the exact value, whose rounding changes nothing.

What stands in a text is not that decimal but a spelling of it: zeros at its end are
dropped, or put there. `Decimal.extended` puts zeros at the end of a decimal, and
`ofDecimal_extended` says that reading does not notice.
-/

namespace Tariff

/-- The same value with `k` zeros more at the end of the significand. -/
def Decimal.extended (d : Decimal) (k : Nat) : Decimal :=
  ⟨d.significand * 10 ^ k, d.exponent - k⟩

/-- The digits of a number followed by zeros are those of the number multiplied by ten. -/
theorem toDigits_mul_pow {n : Nat} (h : 0 < n) (k : Nat) :
    Nat.toDigits 10 (n * 10 ^ k) = Nat.toDigits 10 n ++ List.replicate k '0' := by
  induction k with
  | zero => simp
  | succ k ih =>
    have hpos : 0 < n * 10 ^ k := Nat.mul_pos h (Nat.pow_pos (by decide))
    have hlast := Nat.toDigits_append_toDigits (b := 10) (by decide) hpos (show 0 < 10 by decide)
    rw [Nat.toDigits_zero, Nat.add_zero, ih] at hlast
    rw [List.replicate_succ', ← List.append_assoc, hlast, Nat.pow_succ]
    congr 1
    ring

@[simp] theorem Decimal.pointPosition_extended {d : Decimal} (h : 0 < d.significand) (k : Nat) :
    (d.extended k).pointPosition = d.pointPosition := by
  unfold Decimal.pointPosition Decimal.digits Decimal.extended
  dsimp only
  rw [toDigits_mul_pow h, List.length_append, List.length_replicate]
  omega

namespace Binary64

/-! ## Decimals of one value -/

/-- Reading a decimal rounds one ratio, whichever sign the exponent has. -/
theorem ofDecimalExact_eq (negative : Bool) (d : Decimal) :
    ofDecimalExact negative d =
      nearest negative (d.significand * 10 ^ d.exponent.toNat * unitsPerOne)
        (10 ^ (-d.exponent).toNat) := by
  unfold ofDecimalExact
  cases d.exponent with
  | ofNat e =>
    have hneg : (-Int.ofNat e).toNat = 0 := by
      rw [Int.ofNat_eq_natCast]
      omega
    rw [hneg]
    rfl
  | negSucc e =>
    have hneg : (-Int.negSucc e).toNat = e + 1 := rfl
    have hpos : (Int.negSucc e).toNat = 0 := rfl
    dsimp only
    rw [hneg, hpos, Nat.pow_zero, Nat.mul_one, Nat.pow_eq]

/-- Zeros at the end do not change what a decimal is read as. -/
theorem ofDecimal_extended (negative : Bool) (d : Decimal) (k : Nat) :
    ofDecimal negative (d.extended k) = ofDecimal negative d := by
  rcases Nat.eq_zero_or_pos d.significand with hzero | hpos
  · have hextended : d.significand * 10 ^ k = 0 := by rw [hzero, Nat.zero_mul]
    unfold ofDecimal Decimal.extended
    rw [if_pos hextended, if_pos hzero]
  · have hne : d.significand * 10 ^ k ≠ 0 :=
      Nat.ne_of_gt (Nat.mul_pos hpos (Nat.pow_pos (by decide)))
    have hexact : ofDecimalExact negative (d.extended k) = ofDecimalExact negative d := by
      have hexponents : k + (d.exponent - k).toNat + (-d.exponent).toNat =
          d.exponent.toNat + (-(d.exponent - k)).toNat := by omega
      rw [ofDecimalExact_eq, ofDecimalExact_eq]
      apply nearest_congr negative (Nat.pow_pos (by decide)) (Nat.pow_pos (by decide))
      unfold Decimal.extended
      dsimp only
      calc d.significand * 10 ^ k * 10 ^ (d.exponent - k).toNat * unitsPerOne *
            10 ^ (-d.exponent).toNat
          = d.significand * unitsPerOne *
              10 ^ (k + (d.exponent - k).toNat + (-d.exponent).toNat) := by
            rw [Nat.pow_add, Nat.pow_add]
            ring
        _ = d.significand * 10 ^ d.exponent.toNat * unitsPerOne *
              10 ^ (-(d.exponent - k)).toNat := by
            rw [hexponents, Nat.pow_add]
            ring
    unfold ofDecimal
    rw [hexact, Decimal.pointPosition_extended hpos, if_neg (show ¬d.significand = 0 by omega),
      if_neg (show ¬(d.extended k).significand = 0 from hne)]

/-- The sign has no part in which magnitude a decimal is read as. -/
theorem ofDecimal_eq_finite (negative : Bool) {d : Decimal} {rank : Fin rankCount}
    (h : ofDecimal false d = .finite false rank) : ofDecimal negative d = .finite negative rank := by
  unfold ofDecimal at h ⊢
  split at h
  · cases h
    rw [if_pos ‹_›]
    rfl
  · rw [if_neg ‹_›]
    split at h
    · cases h
    · rw [if_neg ‹_›]
      split at h
      · cases h
        rw [if_pos ‹_›]
        rfl
      · rw [if_neg ‹_›]
        rw [ofDecimalExact_eq] at h ⊢
        unfold nearest at h ⊢
        dsimp only at h ⊢
        split at h
        · cases h
          rw [dif_pos ‹_›]
        · cases h

/-! ## The decimals shown -/

theorem length_toDigits_bounds {n low high : Nat} (hlow : 10 ^ low ≤ n) (hhigh : n < 10 ^ high)
    (hpos : 0 < low) : low < (Nat.toDigits 10 n).length ∧ (Nat.toDigits 10 n).length ≤ high := by
  have hlt : low < high :=
    (Nat.pow_lt_pow_iff_right (by decide)).1 (Nat.lt_of_le_of_lt hlow hhigh)
  constructor
  · have := (Nat.length_toDigits_le_iff (b := 10) (n := n) (by decide) hpos).not
    omega
  · exact (Nat.length_toDigits_le_iff (by decide) (by omega)).2 hhigh

theorem unitScale_mul_unitsPerOne : unitScale * unitsPerOne = 10 ^ 1074 := by decide +kernel

theorem pow_le_unitScale : 10 ^ 674 ≤ unitScale := by decide +kernel

theorem mul_unitScale_le : 2 ^ 1024 * unitsPerOne * unitScale ≤ 10 ^ 1474 := by decide +kernel

theorem significand_exactDecimal (rank : Nat) :
    (exactDecimal rank).significand = unitsAt rank * unitScale := rfl

theorem exponent_exactDecimal (rank : Nat) : (exactDecimal rank).exponent = -1074 := rfl

/-- The significand of the exact decimal of a magnitude has as many digits as reading can
do with. -/
theorem significand_exactDecimal_bounds {rank : Fin rankCount} (h : 0 < rank.val) :
    10 ^ 674 ≤ (exactDecimal rank).significand ∧ (exactDecimal rank).significand < 10 ^ 1474 := by
  have hscale : 0 < unitScale := Nat.lt_of_lt_of_le (Nat.pow_pos (by decide)) pow_le_unitScale
  rw [significand_exactDecimal]
  constructor
  · exact Nat.le_trans pow_le_unitScale (Nat.le_mul_of_pos_left unitScale (unitsAt_pos h))
  · exact Nat.lt_of_lt_of_le (Nat.mul_lt_mul_of_pos_right (unitsAt_lt rank) hscale)
      mul_unitScale_le

/-- The exact decimal of a magnitude is read as that magnitude. -/
theorem ofDecimal_exactDecimal (rank : Fin rankCount) :
    ofDecimal false (exactDecimal rank) = .finite false rank := by
  rcases Nat.eq_zero_or_pos rank.val with hzero | hpos
  · have hrank : rank = ⟨0, by decide⟩ := Fin.ext hzero
    have hunits : unitsAt rank = 0 := by rw [hzero, unitsAt_zero]
    have hsignificand : (exactDecimal rank).significand = 0 := by
      rw [significand_exactDecimal, hunits, Nat.zero_mul]
    unfold ofDecimal
    rw [if_pos hsignificand, hrank]
    rfl
  · obtain ⟨hlow, hhigh⟩ := significand_exactDecimal_bounds hpos
    obtain ⟨hlength, hlength'⟩ := length_toDigits_bounds hlow hhigh (by decide)
    have hsignificand : (exactDecimal rank).significand ≠ 0 :=
      Nat.ne_of_gt (Nat.lt_of_lt_of_le (Nat.pow_pos (by decide)) hlow)
    have hposition : (exactDecimal rank).pointPosition =
        (Nat.toDigits 10 (exactDecimal rank).significand).length + -1074 := by
      rw [← exponent_exactDecimal rank]
      rfl
    have hratio : unitsAt rank * unitScale * 10 ^ (-1074 : Int).toNat * unitsPerOne * 1 =
        unitsAt rank * 10 ^ (- -1074 : Int).toNat := by
      rw [show (-1074 : Int).toNat = 0 from rfl, show (- -1074 : Int).toNat = 1074 from rfl,
        Nat.pow_zero, Nat.mul_one, Nat.mul_one, Nat.mul_assoc, unitScale_mul_unitsPerOne]
    -- What is left for the number of digits is linear; the powers above are too large for it.
    clear hlow hhigh
    unfold ofDecimal
    rw [if_neg hsignificand, if_neg (by omega), if_neg (by omega), ofDecimalExact_eq,
      ← nearest_unitsAt false rank, significand_exactDecimal, exponent_exactDecimal]
    exact nearest_congr false (Nat.pow_pos (by decide)) Nat.one_pos hratio

/-- What is shown is read as the magnitude that it shows. -/
theorem ofDecimal_shortest (rank : Fin rankCount) :
    ofDecimal false (shortest rank) = .finite false rank := by
  rcases readsBack_shortest rank with hreads | hexact
  · exact eq_of_beq hreads
  · rw [hexact]
    exact ofDecimal_exactDecimal rank

end Binary64

end Tariff
