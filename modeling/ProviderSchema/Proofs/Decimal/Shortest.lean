import Mathlib.Tactic.Ring
import ProviderSchema.Decimal.Shortest
import ProviderSchema.Proofs.Decimal.Format

/-!
# The shortest decimal is in range

The decimal that `shortest` finds lies in the interval of the number it is found for
(`contains_of_search`), and the intervals of the numbers of the format end below the
range (`shortest_lt_overflow`): that of the largest number ends at
`Binary64.overflow`, but is open because its significand is odd.
-/

namespace ProviderSchema.Decimal

namespace RoundingInterval

/-- The upper end of an interval. -/
def upperEnd (i : RoundingInterval) : ℚ := i.high / i.den

/-- A power of ten as a quotient of naturals, as intervals are compared. -/
theorem ten_zpow_mul (exponent : Int) :
    (10 : ℚ) ^ exponent * (if exponent < 0 then Nat.pow 10 exponent.natAbs else 1 : Nat) =
      (if exponent < 0 then 1 else Nat.pow 10 exponent.natAbs : Nat) := by
  split
  · obtain ⟨n, rfl⟩ : ∃ n : Nat, exponent = -(n : Int) := ⟨exponent.natAbs, by omega⟩
    have hpow : ((Nat.pow 10 n : Nat) : ℚ) = 10 ^ n := by exact_mod_cast rfl
    rw [Int.natAbs_neg, Int.natAbs_natCast, hpow, zpow_neg, zpow_natCast, Nat.cast_one]
    exact inv_mul_cancel₀ (pow_ne_zero n (by decide))
  · obtain ⟨n, rfl⟩ := Int.eq_ofNat_of_zero_le (Int.not_lt.mp ‹_›)
    have hpow : ((Nat.pow 10 n : Nat) : ℚ) = 10 ^ n := by exact_mod_cast rfl
    rw [Int.natAbs_natCast, hpow, zpow_natCast, Nat.cast_one, mul_one]

/-- A decimal in an interval is not beyond the upper end, nor at it if the interval is
open. -/
theorem le_upperEnd_of_contains {i : RoundingInterval} (hden : 0 < i.den) {k : Nat}
    {exponent : Int} (h : i.contains k exponent = true) :
    (k : ℚ) * 10 ^ exponent ≤ i.upperEnd ∧
      (i.closed = false → (k : ℚ) * 10 ^ exponent < i.upperEnd) := by
  have hpos : (0 : ℚ) < i.den := Nat.cast_pos.mpr hden
  have hscale := ten_zpow_mul exponent
  rw [contains] at h
  obtain ⟨up, hup⟩ : ∃ n, n = if exponent < 0 then 1 else Nat.pow 10 exponent.natAbs := ⟨_, rfl⟩
  obtain ⟨down, hdown⟩ : ∃ n, n = if exponent < 0 then Nat.pow 10 exponent.natAbs else 1 :=
    ⟨_, rfl⟩
  rw [← hup, ← hdown] at h hscale
  have hdownPos : (0 : ℚ) < down := by
    rw [hdown]
    split
    · exact Nat.cast_pos.mpr (Nat.pow_pos (by decide))
    · exact Nat.cast_pos.mpr Nat.one_pos
  -- Both sides are multiplied by the denominators, which leaves an inequality of naturals.
  have hpoint : (k : ℚ) * 10 ^ exponent * i.den * down = (k * up * i.den : Nat) := by
    push_cast
    rw [← hscale]
    ring
  have hhigh : (i.high : ℚ) * down = (i.high * down : Nat) := by
    push_cast
    rfl
  rw [upperEnd, le_div_iff₀ hpos, lt_div_iff₀ hpos, ← mul_le_mul_iff_left₀ hdownPos,
    ← mul_lt_mul_iff_left₀ hdownPos, hpoint, hhigh, Nat.cast_le, Nat.cast_lt]
  split at h
  · rename_i hclosed
    rw [hclosed]
    exact ⟨(of_decide_eq_true h).2, fun hopen => by cases hopen⟩
  · have hlt := (of_decide_eq_true h).2
    exact ⟨hlt.le, fun _ => hlt⟩

theorem contains_of_pointOn? {i : RoundingInterval} {tie : TieRule} {exponent : Int} {k : Nat}
    (h : i.pointOn? tie exponent = some k) : i.contains k exponent = true := by
  rw [pointOn?] at h
  dsimp only at h
  split at h
  · rename_i hboth
    rw [Bool.and_eq_true, Bool.and_eq_true] at hboth
    obtain ⟨⟨hlower, -⟩, hupper⟩ := hboth
    have hboth : ∀ nearerUpper : Bool, i.contains (if nearerUpper then
        (i.onGrid exponent).1 / (i.onGrid exponent).2 + 1
        else (i.onGrid exponent).1 / (i.onGrid exponent).2) exponent = true := fun nearerUpper => by
      cases nearerUpper
      · exact hlower
      · exact hupper
    cases h
    exact hboth _
  · split at h
    · rename_i hlower
      rw [Bool.and_eq_true] at hlower
      cases h
      exact hlower.1
    · split at h
      · rename_i hupper
        cases h
        exact hupper
      · cases h

/-- The decimal that is found lies in the interval. -/
theorem contains_of_search {i : RoundingInterval} {tie : TieRule} {fuel : Nat} {exponent : Int}
    {d : DecimalText} (h : i.search tie fuel exponent = some d) :
    i.contains d.digits d.exponent = true := by
  induction fuel generalizing exponent with
  | zero => cases h
  | succ fuel ih =>
    rw [search] at h
    split at h
    · rename_i digits hdigits
      cases h
      exact contains_of_pointOn? hdigits
    · exact ih h

theorem den_around_pos (significand : Nat) (exponent : Int) :
    0 < (around significand exponent).den := by
  rw [around]
  dsimp only
  split
  · exact Nat.two_pow_pos _
  · exact Nat.one_pos

/-- The interval of a number ends half a unit above it. -/
theorem upperEnd_around (significand : Nat) (exponent : Int) :
    (around significand exponent).upperEnd = (2 * significand + 1 : Nat) * 2 ^ (exponent - 1) := by
  have htwo : (2 : ℚ) ^ (exponent - 1) = 2 * 2 ^ (exponent - 2) := by
    rw [← zpow_one_add₀ (by decide)]
    exact congrArg _ (by omega)
  rw [upperEnd, around, htwo]
  dsimp only
  split
  · rename_i hneg
    obtain ⟨n, hn⟩ : ∃ n : Nat, exponent - 2 = -(n : Int) := ⟨(exponent - 2).natAbs, by omega⟩
    have hnat : (exponent - 2).natAbs = n := by omega
    have hpow : ((Nat.pow 2 n : Nat) : ℚ) = 2 ^ n := by exact_mod_cast rfl
    rw [hn, zpow_neg, zpow_natCast, ← hn, hnat, hpow]
    push_cast
    ring
  · rename_i hneg
    obtain ⟨n, hn⟩ := Int.eq_ofNat_of_zero_le (Int.not_lt.mp hneg)
    have hnat : (exponent - 2).natAbs = n := by omega
    have hpow : ((Nat.pow 2 n : Nat) : ℚ) = 2 ^ n := by exact_mod_cast rfl
    rw [hn, Int.natAbs_natCast, zpow_natCast]
    push_cast
    rw [hpow]
    ring

end RoundingInterval

/-- What is written for a number of the format is below the range. -/
theorem shortest_lt_overflow {negative : Bool} {significand : Nat} {exponent : Int}
    (h : (Binary64.finite negative significand exponent).InFormat) (tie : TieRule) :
    ((shortest tie significand exponent).digits : ℚ) *
        10 ^ (shortest tie significand exponent).exponent < Binary64.overflow := by
  obtain ⟨hsignificand, hexponent⟩ := h
  obtain ⟨k, hk⟩ : ∃ k, k = (Binary64.maxExponent - 1).toNat := ⟨_, rfl⟩
  have hmax : Binary64.maxExponent = k + 1 := by
    rw [hk]
    decide
  obtain ⟨half, hhalf⟩ : ∃ n, n = Nat.pow 2 52 := ⟨_, rfl⟩
  have hfull : Nat.pow 2 53 = 2 * half := by rw [hhalf]
  have hhalfPos : 0 < half := by
    rw [hhalf]
    decide
  have hoverflow : (Binary64.overflow : ℚ) = (2 * (2 * half) - 1 : Nat) * 2 ^ k := by
    rw [Binary64.overflow, hfull, ← hk]
    have hpow : ((Nat.pow 2 k : Nat) : ℚ) = 2 ^ k := by exact_mod_cast rfl
    rw [Nat.cast_mul, hpow]
  rw [hfull] at hsignificand
  rw [hmax] at hexponent
  rw [shortest, hoverflow]
  have hunit : (2 : ℚ) ^ (exponent - 1) ≤ 2 ^ k := by
    rw [← zpow_natCast]
    exact zpow_le_zpow_right₀ (by decide) (by omega)
  have hunitPos : (0 : ℚ) < 2 ^ k := pow_pos (by decide) k
  split
  · rename_i d hd
    obtain ⟨hle, hlt⟩ := RoundingInterval.le_upperEnd_of_contains
      (RoundingInterval.den_around_pos _ _) (RoundingInterval.contains_of_search hd)
    rw [RoundingInterval.upperEnd_around] at hle hlt
    have hend : ((2 * significand + 1 : Nat) : ℚ) * 2 ^ (exponent - 1) ≤
        (2 * significand + 1 : Nat) * 2 ^ k :=
      mul_le_mul_of_nonneg_left hunit (Nat.cast_nonneg _)
    have hmost : 2 * significand + 1 ≤ 2 * (2 * half) - 1 := by omega
    rcases Nat.lt_or_eq_of_le hmost with hless | heq
    · exact (hle.trans hend).trans_lt
        (mul_lt_mul_of_pos_right (Nat.cast_lt.mpr hless) hunitPos)
    · -- The largest significand is odd, and the interval does not have its ends.
      have hopen : (RoundingInterval.around significand exponent).closed = false := by
        rw [RoundingInterval.around]
        exact decide_eq_false (by omega)
      rw [← heq]
      exact (hlt hopen).trans_le hend
  · rw [Nat.cast_zero, zero_mul]
    exact mul_pos (Nat.cast_pos.mpr (by omega)) hunitPos

end ProviderSchema.Decimal
