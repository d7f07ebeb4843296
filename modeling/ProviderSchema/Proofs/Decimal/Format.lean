import Mathlib.Algebra.Order.Field.Power
import Mathlib.Data.Rat.Cast.Order
import ProviderSchema.Proofs.Decimal.Range

/-!
# The format and its range

`Binary64.InFormat` says that a finite number has a significand of 53 bits and an
exponent that the format has.  Rounding gives no other numbers.

What is below `Binary64.overflow`, half a unit above the largest finite number, is
rounded to a finite number, be it a quotient (`isFinite_ofRatio`) or a decimal
(`isFinite_ofDecimal`).
-/

namespace ProviderSchema.Decimal

namespace Binary64

/-! ## Numbers of the format -/

/-- A finite number has a significand and an exponent of the format. -/
def InFormat : Binary64 → Prop
  | .finite _ significand exponent => significand < Nat.pow 2 53 ∧ exponent ≤ maxExponent
  | _ => True

theorem inFormat_zero (negative : Bool) : (zero negative).InFormat := by
  rw [zero, InFormat]
  exact ⟨by decide, by decide⟩

theorem inFormat_ofRatio (negative : Bool) (num den : Nat) :
    (ofRatio negative num den).InFormat := by
  by_cases hnum : num = 0
  · rw [ofRatio, if_pos hnum]
    exact inFormat_zero negative
  · obtain ⟨significand, exponent, hrounds, heq⟩ := exists_roundsTo negative hnum den
    rw [heq]
    split
    · rename_i hexponent
      exact ⟨hrounds.significand_lt, hexponent⟩
    · trivial

theorem inFormat_ofScaled (negative : Bool) (significand : Nat) (exponent : Int) :
    (ofScaled negative significand exponent).InFormat := by
  rw [ofScaled]
  split <;> exact inFormat_ofRatio _ _ _

theorem inFormat_ofInt (n : Int) : (ofInt n).InFormat := inFormat_ofRatio _ _ _

theorem inFormat_ofDecimal (negative : Bool) (significand : Nat) (exponent : Int) :
    (ofDecimal negative significand exponent).InFormat := by
  rw [ofDecimal]
  split
  · exact inFormat_zero negative
  · split
    · trivial
    · split <;> exact inFormat_ofRatio _ _ _

theorem InFormat.neg {x : Binary64} (h : x.InFormat) : x.neg.InFormat := by
  cases x with
  | finite negative significand exponent => exact h
  | _ => trivial

theorem inFormat_mul (x y : Binary64) : (x.mul y).InFormat := by
  unfold mul
  split
  · exact inFormat_ofScaled _ _ _
  · split <;> trivial
  · split <;> trivial
  · trivial
  · trivial

theorem inFormat_div (x y : Binary64) : (x.div y).InFormat := by
  unfold div
  split
  · split
    · split <;> trivial
    · dsimp only
      split <;> exact inFormat_ofRatio _ _ _
  · exact inFormat_zero _
  · trivial
  · trivial

/-! ## The range -/

/-- The least value that is rounded to infinity, half a unit above the largest finite
number. -/
def overflow : Nat := (2 * Nat.pow 2 53 - 1) * Nat.pow 2 (maxExponent - 1).toNat

theorem overflow_pos : 0 < overflow := by decide +kernel

theorem roundHalfEven_lt {num den k : Nat} (hk : 0 < k) (h : 2 * num < (2 * k - 1) * den) :
    roundHalfEven num den < k := by
  have hdiv := Nat.div_add_mod num den
  have hbelow : num / den < k := by
    rw [Nat.div_lt_iff_lt_mul (Nat.pos_of_ne_zero (by rintro rfl; simp at h))]
    have hle : (2 * k - 1) * den ≤ 2 * (k * den) := by
      rw [← Nat.mul_assoc]
      exact Nat.mul_le_mul_right _ (by omega)
    omega
  rw [roundHalfEven]
  split
  · exact hbelow
  · rename_i hrest
    -- Only from `k - 1` on would rounding up lead too far, and there it is not reached.
    have hlast : num / den ≠ k - 1 := by
      intro heq
      rw [heq] at hdiv
      have hsum : (2 * k - 1) * den = 2 * (den * (k - 1)) + den := by
        obtain ⟨k, rfl⟩ : ∃ j, k = j + 1 := ⟨k - 1, by omega⟩
        have hodd : 2 * (k + 1) - 1 = 2 * k + 1 := by omega
        rw [hodd, Nat.add_sub_cancel]
        rw [Nat.add_mul, Nat.one_mul, Nat.mul_assoc, Nat.mul_comm k den]
      omega
    split <;> omega

theorem inUnits_succ (num den k : Nat) :
    inUnits num den (k + 1) = (num, den * Nat.pow 2 (k + 1)) := by
  rw [inUnits, if_neg (by omega)]
  rfl

/-- What has few binary digits before the point is measured in small units. -/
theorem exponentOf_le_of_lt {num den k : Nat} (hnum : num ≠ 0) (h : num < 2 ^ (k + 54) * den) :
    exponentOf num den ≤ k + 1 := by
  have hlog : num.log2 ≤ den.log2 + k + 54 := by
    have hself : den < 2 ^ (den.log2 + 1) := Nat.lt_log2_self
    have hlt : num < 2 ^ (den.log2 + k + 54 + 1) := by
      refine Nat.lt_of_lt_of_le h ?_
      calc 2 ^ (k + 54) * den ≤ 2 ^ (k + 54) * 2 ^ (den.log2 + 1) :=
            Nat.mul_le_mul_left _ hself.le
        _ = 2 ^ (den.log2 + k + 54 + 1) := by
            rw [← Nat.pow_add]
            exact congrArg _ (by omega)
    exact Nat.le_of_lt_succ ((Nat.log2_lt hnum).mpr hlt)
  rw [exponentOf]
  dsimp only
  by_cases hlow : max ((num.log2 : Int) - den.log2 - 53) minExponent = k + 1
  · have hsmall : num < den * Nat.pow 2 (k + 1) * Nat.pow 2 53 := by
      have hpow : Nat.pow 2 (k + 1) * Nat.pow 2 53 = 2 ^ (k + 54) := (Nat.pow_add 2 (k + 1) 53).symm
      rw [Nat.mul_assoc, hpow, Nat.mul_comm]
      exact h
    rw [hlow, inUnits_succ, if_pos hsmall]
  · have hle : max ((num.log2 : Int) - den.log2 - 53) minExponent ≤ k := by
      rw [minExponent] at hlow ⊢
      omega
    split <;> omega

/-- With the largest exponent there are units enough for a significand below the range. -/
theorem roundHalfEven_inUnits_lt {num den k full : Nat} (hfull : 0 < full)
    (h : num < (2 * full - 1) * Nat.pow 2 k * den) :
    roundHalfEven (inUnits num den (k + 1)).1 (inUnits num den (k + 1)).2 < full := by
  have hpow : Nat.pow 2 (k + 1) = 2 * Nat.pow 2 k := Nat.pow_succ'
  rw [inUnits_succ]
  refine roundHalfEven_lt hfull ?_
  calc 2 * num < 2 * ((2 * full - 1) * Nat.pow 2 k * den) := by omega
    _ = (2 * full - 1) * (den * Nat.pow 2 (k + 1)) := by
      rw [hpow, Nat.mul_left_comm den, Nat.mul_left_comm (2 * full - 1) 2, Nat.mul_comm den,
        Nat.mul_assoc]

/-- What is below the range is rounded to a finite number. -/
theorem isFinite_ofRatio (negative : Bool) {num den : Nat} (h : num < overflow * den) :
    (ofRatio negative num den).isFinite = true := by
  by_cases hnum : num = 0
  · rw [ofRatio, if_pos hnum]
    rfl
  · obtain ⟨full, hfull⟩ : ∃ n, n = Nat.pow 2 53 := ⟨_, rfl⟩
    obtain ⟨k, hk⟩ : ∃ k, k = (maxExponent - 1).toNat := ⟨_, rfl⟩
    have hmax : maxExponent = k + 1 := by
      rw [hk]
      decide
    rw [overflow, ← hfull, ← hk] at h
    have hexponent : exponentOf num den ≤ k + 1 := by
      refine exponentOf_le_of_lt hnum (Nat.lt_of_lt_of_le h (Nat.mul_le_mul_right _ ?_))
      have hpow : 2 ^ (k + 54) = 2 * full * Nat.pow 2 k := by
        rw [hfull, Nat.pow_add, Nat.mul_comm]
        rfl
      rw [hpow]
      exact Nat.mul_le_mul_right _ (Nat.sub_le _ _)
    obtain ⟨significand, exponent, hrounds, heq⟩ := exists_roundsTo negative hnum den
    have hle : exponent ≤ k + 1 := by
      cases hrounds with
      | within _ _ => exact hexponent
      | carried hcarried =>
        have hsmall : exponentOf num den ≠ k + 1 := by
          intro hlargest
          rw [hlargest, ← hfull] at hcarried
          exact absurd (roundHalfEven_inUnits_lt (by rw [hfull]; decide) h)
            (Nat.not_lt.mpr hcarried)
        omega
    rw [heq, hmax, if_pos hle]
    rfl

/-- A number is at least the power of ten of its leading digit. -/
theorem ten_pow_length_le {n : Nat} (hn : n ≠ 0) : 10 ^ ((Nat.toDigits 10 n).length - 1) ≤ n := by
  by_cases hone : (Nat.toDigits 10 n).length - 1 = 0
  · rw [hone]
    exact Nat.pos_of_ne_zero hn
  · by_contra hlt
    have hle := (Nat.length_toDigits_le_iff (by decide) (Nat.pos_of_ne_zero hone)).mpr
      (Nat.lt_of_not_le hlt)
    omega

/-- A decimal with so many digits before the point is beyond the range. -/
theorem overflow_le_of_lt_length {significand : Nat} (hsignificand : significand ≠ 0)
    {exponent : Int} (h : 310 < ((Nat.toDigits 10 significand).length : Int) + exponent) :
    (overflow : ℚ) ≤ significand * 10 ^ exponent := by
  have htop : (overflow : ℚ) ≤ 10 ^ (310 : ℤ) := by
    have hle : overflow ≤ 10 ^ 310 := by decide +kernel
    exact_mod_cast hle
  obtain ⟨digits, hdigits⟩ : ∃ k, (Nat.toDigits 10 significand).length = k + 1 :=
    Nat.exists_eq_add_one.mpr (List.length_pos_iff.mpr Nat.toDigits_ne_nil)
  have hleading := ten_pow_length_le hsignificand
  rw [hdigits, Nat.add_sub_cancel] at hleading
  rw [hdigits] at h
  have hleading : (10 : ℚ) ^ (digits : ℤ) ≤ significand := by
    rw [zpow_natCast]
    exact_mod_cast hleading
  calc (overflow : ℚ) ≤ 10 ^ (310 : ℤ) := htop
    _ ≤ 10 ^ ((digits : ℤ) + exponent) := zpow_le_zpow_right₀ (by decide) (by omega)
    _ = 10 ^ (digits : ℤ) * 10 ^ exponent := zpow_add₀ (by decide) _ _
    _ ≤ significand * 10 ^ exponent :=
        mul_le_mul_of_nonneg_right hleading (zpow_nonneg (by decide) _)

/-- A decimal below the range is rounded to a finite number as well. -/
theorem isFinite_ofDecimal (negative : Bool) {significand : Nat} {exponent : Int}
    (h : (significand : ℚ) * 10 ^ exponent < overflow) :
    (ofDecimal negative significand exponent).isFinite = true := by
  rw [ofDecimal]
  split
  · rfl
  · rename_i hsignificand
    rw [not_or] at hsignificand
    rw [if_neg fun hmany => absurd h (not_lt.mpr (overflow_le_of_lt_length hsignificand.1 hmany))]
    obtain ⟨top, htop⟩ : ∃ n, n = overflow := ⟨_, rfl⟩
    rw [← htop] at h
    split
    · rename_i hneg
      obtain ⟨n, rfl⟩ : ∃ n : Nat, exponent = -(n : Int) := ⟨exponent.natAbs, by omega⟩
      rw [zpow_neg, zpow_natCast, ← div_eq_mul_inv, div_lt_iff₀ (pow_pos (by decide) n)] at h
      have hlt : significand < top * 10 ^ n := by exact_mod_cast h
      refine isFinite_ofRatio negative ?_
      rwa [← htop, Int.natAbs_neg, Int.natAbs_natCast]
    · rename_i hneg
      obtain ⟨n, rfl⟩ := Int.eq_ofNat_of_zero_le (Int.not_lt.mp hneg)
      rw [zpow_natCast] at h
      have hlt : significand * 10 ^ n < top := by exact_mod_cast h
      refine isFinite_ofRatio negative ?_
      rwa [← htop, Nat.mul_one]

end Binary64

end ProviderSchema.Decimal
