import Mathlib.Data.Rat.Floor
import ProviderSchema.Decimal.Layout

/-!
# Exact values

A finite number has a rational value.  `Binary64.floor` and `Binary64.ceil` are the
floor and the ceiling of that value, so rounding a bound inward changes nothing for
integers.  Among the integers of 64 bits clamping changes nothing either, but for the
bounds that lie beyond all of them (`clampInt64_le_iff`, `le_clampInt64_iff`).
-/

namespace ProviderSchema.Decimal

namespace Binary64

/-- The value of a finite number. -/
def valueOf (negative : Bool) (significand : Nat) (exponent : Int) : ℚ :=
  (if negative then -1 else 1) * (significand * 2 ^ exponent)

/-- The value of a number, if it is finite. -/
def value? : Binary64 → Option ℚ
  | .finite negative significand exponent => some (valueOf negative significand exponent)
  | _ => none

theorem isSome_value? (x : Binary64) : x.value?.isSome = x.isFinite := by
  cases x <;> rfl

/-- The value of a number is the quotient of its numerator and denominator. -/
theorem ratio_eq (negative : Bool) (significand : Nat) (exponent : Int) :
    ((ratio negative significand exponent).1 : ℚ) / (ratio negative significand exponent).2 =
      valueOf negative significand exponent := by
  rw [ratio, valueOf]
  split
  · rename_i hneg
    obtain ⟨n, rfl⟩ : ∃ n : Nat, exponent = -(n : Int) := ⟨exponent.natAbs, by omega⟩
    cases negative <;> simp [div_eq_mul_inv]
  · rename_i hneg
    obtain ⟨n, rfl⟩ := Int.eq_ofNat_of_zero_le (Int.not_lt.mp hneg)
    cases negative <;> simp

theorem floor_eq (negative : Bool) (significand : Nat) (exponent : Int) :
    floor negative significand exponent = ⌊valueOf negative significand exponent⌋ := by
  rw [← ratio_eq, Rat.floor_intCast_div_natCast]
  exact Int.fdiv_eq_ediv_of_nonneg _ (Int.natCast_nonneg _)

theorem ceil_eq (negative : Bool) (significand : Nat) (exponent : Int) :
    ceil negative significand exponent = ⌈valueOf negative significand exponent⌉ := by
  rw [← ratio_eq, Rat.ceil_intCast_div_natCast]
  exact congrArg Int.neg (Int.fdiv_eq_ediv_of_nonneg _ (Int.natCast_nonneg _))

end Binary64

/-! ## Integers of 64 bits -/

/-- An integer fits 64 bits. -/
def IsInt64 (n : Int) : Prop := minInt64 ≤ n ∧ n ≤ maxInt64

theorem minInt64_lt_maxInt64 : minInt64 < maxInt64 := by decide

theorem isInt64_clampInt64 (n : Int) : IsInt64 (clampInt64 n) := by
  have hlt := minInt64_lt_maxInt64
  unfold IsInt64 clampInt64
  omega

variable {n : Int}

/-- A bound from below that is clamped admits the same integers of 64 bits, and the
largest one in any case. -/
theorem clampInt64_le_iff (h : IsInt64 n) (m : Int) :
    clampInt64 m ≤ n ↔ m ≤ n ∨ n = maxInt64 := by
  obtain ⟨hmin, hmax⟩ := h
  unfold clampInt64
  omega

/-- A bound from above that is clamped admits the same integers of 64 bits, and the
smallest one in any case. -/
theorem le_clampInt64_iff (h : IsInt64 n) (m : Int) :
    n ≤ clampInt64 m ↔ n ≤ m ∨ n = minInt64 := by
  obtain ⟨hmin, hmax⟩ := h
  unfold clampInt64
  omega

variable {x : Binary64} {q : ℚ}

theorem clampedInteger_ceil_le_iff (hx : x.value? = some q) (h : IsInt64 n) :
    clampedInteger Binary64.ceil x ≤ n ↔ q ≤ n ∨ n = maxInt64 := by
  cases x with
  | finite negative significand exponent =>
    cases hx
    rw [clampedInteger, clampInt64_le_iff h, Binary64.ceil_eq, Int.ceil_le]
  | _ => cases hx

theorem le_clampedInteger_floor_iff (hx : x.value? = some q) (h : IsInt64 n) :
    n ≤ clampedInteger Binary64.floor x ↔ n ≤ q ∨ n = minInt64 := by
  cases x with
  | finite negative significand exponent =>
    cases hx
    rw [clampedInteger, le_clampInt64_iff h, Binary64.floor_eq, Int.le_floor]
  | _ => cases hx

/-- A bound of integers is an integer of 64 bits, whatever it is rounded from. -/
theorem isInt64_clampedInteger (round : Bool → Nat → Int → Int) (x : Binary64) :
    IsInt64 (clampedInteger round x) := by
  cases x with
  | nan => exact (show IsInt64 0 from ⟨by decide, by decide⟩)
  | infinite negative =>
    have hlt := minInt64_lt_maxInt64
    rw [clampedInteger, IsInt64]
    split <;> omega
  | finite negative significand exponent => exact isInt64_clampInt64 _

end ProviderSchema.Decimal
