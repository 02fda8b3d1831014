import Mathlib.Tactic.Ring
import Tariff.Binary64.Basic

/-!
# Rounding to a floating-point number

`nearest` rounds a ratio of whole numbers. Two facts about it are all that reading
numbers back rests on: it looks at the ratio only, not at its two parts
(`nearest_congr`), and a ratio that is the value of a rank is rounded to that rank
(`nearest_unitsAt`).

This file is about whole numbers of units. That decimals and texts are read back is in
the files that import it.
-/

namespace Tariff.Binary64

/-! ## Ratios -/

/-- Rounding a quotient to a whole number looks at the ratio only. -/
theorem roundDiv_mul_mul {k : Nat} (hk : 0 < k) (num den : Nat) :
    roundDiv (num * k) (den * k) = roundDiv num den := by
  have hquotient : num * k / (den * k) = num / den := Nat.mul_div_mul_right num den hk
  have hdoubled : 2 * (num * k % (den * k)) = 2 * (num % den) * k := by
    rw [Nat.mul_mod_mul_right]
    ring
  unfold roundDiv
  dsimp only
  rw [hquotient, hdoubled]
  simp only [Nat.mul_lt_mul_right hk]

theorem rankNearest_eq (num den : Nat) :
    rankNearest num den = ((num / den).log2 - 52) * binade +
      roundDiv num (den * 2 ^ ((num / den).log2 - 52)) := rfl

theorem rankNearest_mul_mul {k : Nat} (hk : 0 < k) (num den : Nat) :
    rankNearest (num * k) (den * k) = rankNearest num den := by
  rw [rankNearest_eq, rankNearest_eq]
  have hden : ∀ shift, den * k * 2 ^ shift = den * 2 ^ shift * k := by
    intro shift
    ring
  rw [Nat.mul_div_mul_right num den hk, hden, roundDiv_mul_mul hk]

/-- Rounding to the nearest number looks at the ratio only. -/
theorem nearest_mul_mul (negative : Bool) {k : Nat} (hk : 0 < k) (num den : Nat) :
    nearest negative (num * k) (den * k) = nearest negative num den := by
  unfold nearest
  simp only [rankNearest_mul_mul hk]

/-- Equal ratios are rounded to the same number. -/
theorem nearest_congr (negative : Bool) {num den num' den' : Nat} (hden : 0 < den)
    (hden' : 0 < den') (h : num * den' = num' * den) :
    nearest negative num den = nearest negative num' den' := by
  rw [← nearest_mul_mul negative hden' num den, ← nearest_mul_mul negative hden num' den', h,
    Nat.mul_comm den den']

/-! ## Values of ranks -/

/-- Beyond the subnormal values, the value of a rank in its binade. -/
theorem unitsAt_binade {q m : Nat} (hm : m < binade) :
    unitsAt ((q + 1) * binade + m) = (binade + m) * 2 ^ q := by
  have hdiv : ((q + 1) * binade + m) / binade = q + 1 := by
    rw [Nat.add_comm, Nat.add_mul_div_right _ _ (by decide : 0 < binade), Nat.div_eq_of_lt hm]
    omega
  have hmod : ((q + 1) * binade + m) % binade = m := by
    rw [Nat.add_comm, Nat.add_mul_mod_self_right, Nat.mod_eq_of_lt hm]
  have hnot : ¬(q + 1) * binade + m < binade := by
    have := Nat.le_mul_of_pos_left binade (show 0 < q + 1 by omega)
    omega
  unfold unitsAt
  rw [if_neg hnot, hdiv, hmod, Nat.add_sub_cancel, Nat.pow_eq]

/-- Every rank is a subnormal one or a place in a binade. -/
theorem rank_cases (rank : Nat) :
    rank < binade ∨ ∃ q m, m < binade ∧ rank = (q + 1) * binade + m := by
  have hmod : rank % binade < binade := Nat.mod_lt _ (by decide)
  have hsum := Nat.div_add_mod rank binade
  rcases Nat.eq_zero_or_pos (rank / binade) with hzero | hpos
  · rw [hzero] at hsum
    exact .inl (by omega)
  · refine .inr ⟨rank / binade - 1, rank % binade, hmod, ?_⟩
    rw [Nat.sub_add_cancel hpos, Nat.mul_comm]
    exact hsum.symm

/-- The magnitudes in a binade have 53 binary digits and the power of the binade. -/
theorem log2_binade {q m : Nat} (hm : m < binade) : ((binade + m) * 2 ^ q).log2 = 52 + q := by
  have hbinade : binade = 2 ^ 52 := by decide
  have hpos : 0 < 2 ^ q := Nat.two_pow_pos q
  rw [Nat.log2_eq_iff (Nat.mul_ne_zero (by omega) (by omega)), Nat.pow_add, Nat.add_right_comm,
    Nat.pow_add, ← hbinade]
  constructor
  · exact Nat.mul_le_mul_right _ (by omega)
  · refine Nat.mul_lt_mul_of_pos_right ?_ hpos
    rw [show (2 : Nat) ^ (52 + 1) = 2 * binade by decide]
    omega

/-- The rank nearest to the value of a rank is that rank. -/
theorem rankNearest_unitsAt (rank : Nat) : rankNearest (unitsAt rank) 1 = rank := by
  rw [rankNearest_eq, Nat.div_one, Nat.one_mul]
  -- A subnormal value needs no shift; the others have `q` binary digits too many, all zero.
  rcases rank_cases rank with hlt | ⟨q, m, hm, rfl⟩
  · have hlog : rank.log2 - 52 = 0 := by
      have : rank.log2 ≤ 52 := by
        rcases Nat.eq_zero_or_pos rank with rfl | hpos
        · decide
        · have hpow : rank < 2 ^ 53 := Nat.lt_trans hlt (by decide)
          have := (Nat.log2_lt (by omega)).2 hpow
          omega
      omega
    rw [unitsAt_of_lt (by omega), hlog, Nat.pow_zero, roundDiv_one]
    omega
  · have hround := roundDiv_mul_mul (Nat.two_pow_pos q) (binade + m) 1
    rw [Nat.one_mul, roundDiv_one] at hround
    rw [unitsAt_binade hm, log2_binade hm, Nat.add_sub_cancel_left, hround]
    ring

/-- The number nearest to the value of a rank is that of the rank. -/
theorem nearest_unitsAt (negative : Bool) (rank : Fin rankCount) :
    nearest negative (unitsAt rank) 1 = .finite negative rank := by
  unfold nearest
  dsimp only
  rw [rankNearest_unitsAt]
  exact dif_pos rank.isLt

/-- The magnitudes up to the end of a binade stay below its doubled first one. -/
theorem unitsAt_lt_of_lt {rank last : Nat} (h : rank < (last + 2) * binade) :
    unitsAt rank < 2 ^ 53 * 2 ^ last := by
  have hpos : 0 < 2 ^ last := Nat.two_pow_pos last
  have hbinade : 2 * binade ≤ 2 ^ 53 := by decide
  rcases rank_cases rank with hlt | ⟨q, m, hm, rfl⟩
  · have hle : 2 ^ 53 * 1 ≤ 2 ^ 53 * 2 ^ last := Nat.mul_le_mul_left _ hpos
    rw [unitsAt_of_lt (by omega)]
    omega
  · have hq : q ≤ last := by
      unfold binade at *
      omega
    rw [unitsAt_binade hm]
    exact Nat.mul_lt_mul_of_lt_of_le (by omega) (Nat.pow_le_pow_right (by omega) hq) hpos

/-- No finite magnitude reaches `2 ^ 1024`. -/
theorem unitsAt_lt (rank : Fin rankCount) : unitsAt rank < 2 ^ 1024 * unitsPerOne := by
  have hunits : (2 : Nat) ^ 1024 * unitsPerOne = 2 ^ 53 * 2 ^ 2045 := by decide +kernel
  rw [hunits]
  exact unitsAt_lt_of_lt rank.isLt

/-- Only the rank zero has the value zero. -/
theorem unitsAt_pos {rank : Nat} (h : 0 < rank) : 0 < unitsAt rank := by
  rcases rank_cases rank with hlt | ⟨q, m, hm, rfl⟩
  · rw [unitsAt_of_lt (by omega)]
    exact h
  · rw [unitsAt_binade hm]
    exact Nat.mul_pos (by unfold binade; omega) (Nat.two_pow_pos q)

end Tariff.Binary64
