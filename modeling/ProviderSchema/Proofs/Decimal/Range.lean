import Mathlib.Algebra.Group.Nat.Defs
import ProviderSchema.Json.Lexeme

/-!
# The range of numbers

`RoundsTo` says which significand and which exponent a quotient is rounded to, whether
or not the format has the exponent (`exists_roundsTo`).

`Binary64.AtMost limit` says that a number is finite and that its leading binary
digit stands for `2 ^ limit` at most.  Rounding a quotient keeps the leading digit
where it is or moves it up by one place (`ofRatio_atMost`), so a number that is
divided by one of at least `2 ^ 2` stays where it was (`AtMost.div`).
-/

namespace ProviderSchema.Decimal.Binary64

/-- A finite number with its leading binary digit at most at `limit`. -/
def AtMost (limit : Int) : Binary64 → Prop
  | .finite _ significand exponent => significand.log2 + exponent ≤ limit
  | _ => False

/-- A finite number other than zero with its leading binary digit at least at
`limit`. -/
def AtLeast (limit : Int) : Binary64 → Prop
  | .finite _ significand exponent => significand ≠ 0 ∧ limit ≤ significand.log2 + exponent
  | _ => False

variable {limit : Int}

theorem AtMost.isFinite {x : Binary64} (h : x.AtMost limit) : x.isFinite = true := by
  cases x with
  | finite s m q => rfl
  | _ => exact absurd h id

theorem AtLeast.mono {x : Binary64} {limit' : Int} (h : x.AtLeast limit)
    (hle : limit' ≤ limit) : x.AtLeast limit' := by
  cases x with
  | finite s m q => exact ⟨h.1, Int.le_trans hle h.2⟩
  | _ => exact absurd h id

theorem log2_le_of_lt {n k : Nat} (h : n < 2 ^ (k + 1)) : n.log2 ≤ k := by
  by_cases hn : n = 0
  · simp [hn]
  · exact Nat.le_of_lt_succ ((Nat.log2_lt hn).mpr h)

theorem log2_mul_two_pow {n : Nat} (hn : n ≠ 0) (k : Nat) :
    (n * 2 ^ k).log2 = n.log2 + k := by
  have hpos : 0 < 2 ^ k := Nat.two_pow_pos k
  have hne : n * 2 ^ k ≠ 0 := Nat.mul_ne_zero hn (Nat.ne_of_gt hpos)
  rw [Nat.log2_eq_iff hne]
  constructor
  · rw [Nat.pow_add]
    exact Nat.mul_le_mul_right _ (Nat.log2_self_le hn)
  · have hlt : n < 2 ^ (n.log2 + 1) := Nat.lt_log2_self
    calc n * 2 ^ k < 2 ^ (n.log2 + 1) * 2 ^ k := Nat.mul_lt_mul_of_pos_right hlt hpos
      _ = 2 ^ (n.log2 + k + 1) := by rw [← Nat.pow_add, Nat.add_right_comm]

theorem exponentOf_le (num den : Nat) :
    exponentOf num den ≤ max ((num.log2 : Int) - den.log2 - 53) minExponent + 1 := by
  rw [exponentOf]
  dsimp only
  split <;> omega

/-- What a quotient is rounded to: a significand in units of its exponent, or the least of
the next exponent if that one has too many digits for the format. -/
inductive RoundsTo (num den : Nat) : Nat → Int → Prop where
  | within {rounded : Nat}
    (hrounded : rounded = roundHalfEven (inUnits num den (exponentOf num den)).1
      (inUnits num den (exponentOf num den)).2)
    (hlt : rounded < Nat.pow 2 53) : RoundsTo num den rounded (exponentOf num den)
  | carried
    (hle : Nat.pow 2 53 ≤ roundHalfEven (inUnits num den (exponentOf num den)).1
      (inUnits num den (exponentOf num den)).2) :
    RoundsTo num den (Nat.pow 2 52) (exponentOf num den + 1)

theorem RoundsTo.significand_lt {num den significand : Nat} {exponent : Int}
    (h : RoundsTo num den significand exponent) : significand < Nat.pow 2 53 := by
  cases h with
  | within _ hlt => exact hlt
  | carried _ => decide

theorem RoundsTo.exponent_le {num den significand : Nat} {exponent : Int}
    (h : RoundsTo num den significand exponent) : exponent ≤ exponentOf num den + 1 := by
  cases h <;> omega

/-- A quotient other than zero is rounded to a number of the format, or it is beyond the
range. -/
theorem exists_roundsTo (negative : Bool) {num : Nat} (hnum : num ≠ 0) (den : Nat) :
    ∃ significand exponent, RoundsTo num den significand exponent ∧
      ofRatio negative num den =
        if exponent ≤ maxExponent then .finite negative significand exponent
        else .infinite negative := by
  rw [ofRatio, if_neg hnum]
  -- The powers of two become variables, as the kernel would count them out.
  obtain ⟨full, hfull⟩ : ∃ n, n = Nat.pow 2 53 := ⟨_, rfl⟩
  obtain ⟨half, hhalf⟩ : ∃ n, n = Nat.pow 2 52 := ⟨_, rfl⟩
  obtain ⟨exponent, hexp⟩ : ∃ e, e = exponentOf num den := ⟨_, rfl⟩
  obtain ⟨rounded, hrounded⟩ : ∃ n, n = roundHalfEven (inUnits num den exponent).1
    (inUnits num den exponent).2 := ⟨_, rfl⟩
  rw [← hfull, ← hhalf, ← hexp]
  dsimp only
  rw [← hrounded]
  rw [hexp] at hrounded
  by_cases hlt : rounded < full
  · have hwithin := RoundsTo.within hrounded (Nat.lt_of_lt_of_eq hlt hfull)
    rw [if_pos hlt]
    exact ⟨rounded, exponent, hexp ▸ hwithin, rfl⟩
  · have hle : Nat.pow 2 53 ≤ rounded := hfull ▸ Nat.le_of_not_lt hlt
    have hcarried := RoundsTo.carried (hrounded ▸ hle)
    rw [if_neg hlt]
    exact ⟨half, exponent + 1, hhalf ▸ hexp ▸ hcarried, rfl⟩

/-- The leading digit of a rounded quotient is one place above that of the quotient
at most. -/
theorem ofRatio_atMost (hlow : -1020 ≤ limit) (hhigh : limit ≤ 1023) {num den : Nat}
    (h : num ≠ 0 → (num.log2 : Int) - den.log2 < limit) (negative : Bool) :
    (ofRatio negative num den).AtMost limit := by
  by_cases hnum : num = 0
  · rw [ofRatio, if_pos hnum]
    show ((0 : Nat).log2 : Int) + -1074 ≤ limit
    rw [Nat.log2_zero]
    omega
  · have hlog := h hnum
    have hexponentOf := exponentOf_le num den
    rw [minExponent] at hexponentOf
    obtain ⟨significand, exponent, hrounds, heq⟩ := exists_roundsTo negative hnum den
    have hexponent := hrounds.exponent_le
    have hlog2 : significand.log2 ≤ 52 := log2_le_of_lt hrounds.significand_lt
    rw [heq, if_pos (by rw [maxExponent]; omega), AtMost]
    omega

/-- A number that is divided by one of at least four does not grow. -/
theorem AtMost.div (hlow : -1020 ≤ limit) (hhigh : limit ≤ 1023) {x y : Binary64}
    (hx : x.AtMost limit) (hy : y.AtLeast 2) : (x.div y).AtMost limit := by
  cases x with
  | finite s m q =>
    cases y with
    | finite t n r =>
      obtain ⟨hn, hr⟩ := hy
      rw [AtMost] at hx
      rw [Binary64.div, if_neg hn]
      dsimp only
      split
      · refine ofRatio_atMost hlow hhigh (fun hm => ?_) _
        have hlog : (n * Nat.pow 2 (q - r).natAbs).log2 = n.log2 + (q - r).natAbs :=
          log2_mul_two_pow hn _
        rw [hlog]
        omega
      · refine ofRatio_atMost hlow hhigh (fun hm => ?_) _
        have hlog : (m * Nat.pow 2 (q - r).natAbs).log2 = m.log2 + (q - r).natAbs :=
          log2_mul_two_pow (Nat.ne_zero_of_mul_ne_zero_left hm) _
        rw [hlog]
        omega
    | _ => exact absurd hy id
  | _ => exact absurd hx id

theorem le_exponentOf (num den : Nat) :
    (num.log2 : Int) - den.log2 - 53 ≤ exponentOf num den := by
  rw [exponentOf]
  dsimp only
  split <;> omega

/-- In units that are not too large, a rounded integer has all binary digits of the
integer. -/
theorem two_pow_le_roundHalfEven {num : Nat} (hnum : num ≠ 0) {exponent : Int}
    (h : exponent ≤ num.log2) :
    2 ^ (num.log2 - exponent).natAbs ≤
      roundHalfEven (inUnits num 1 exponent).1 (inUnits num 1 exponent).2 := by
  have hround : ∀ n d : Nat, n / d ≤ roundHalfEven n d := by
    intro n d
    rw [roundHalfEven]
    split
    · exact Nat.le_refl _
    · split <;> omega
  refine Nat.le_trans ?_ (hround _ _)
  rw [inUnits]
  have hself : 2 ^ num.log2 ≤ num := Nat.log2_self_le hnum
  split
  · rename_i hneg
    have hsum : (num.log2 - exponent).natAbs = num.log2 + exponent.natAbs := by omega
    dsimp only
    rw [hsum, Nat.pow_add, Nat.div_one]
    exact Nat.mul_le_mul_right _ hself
  · rename_i hnonneg
    have hsum : (num.log2 - exponent).natAbs + exponent.natAbs = num.log2 := by omega
    dsimp only
    rw [Nat.one_mul]
    show 2 ^ (num.log2 - exponent).natAbs ≤ num / 2 ^ exponent.natAbs
    rw [Nat.le_div_iff_mul_le (Nat.two_pow_pos _), ← Nat.pow_add, hsum]
    exact hself

/-- Rounding an integer keeps its leading binary digit or moves it up. -/
theorem ofRatio_one_atLeast {num : Nat} (hnum : num ≠ 0) (negative : Bool)
    (hfinite : (ofRatio negative num 1).isFinite = true) :
    (ofRatio negative num 1).AtLeast num.log2 := by
  have hone : (1 : Nat).log2 = 0 := by decide
  have hle := exponentOf_le num 1
  have hge : (num.log2 : Int) - (1 : Nat).log2 - 53 ≤ exponentOf num 1 := le_exponentOf num 1
  rw [hone, minExponent] at hle
  rw [hone] at hge
  rw [ofRatio, if_neg hnum] at hfinite ⊢
  obtain ⟨full, hfull⟩ : ∃ n, n = Nat.pow 2 53 := ⟨_, rfl⟩
  obtain ⟨half, hhalf⟩ : ∃ n, n = Nat.pow 2 52 := ⟨_, rfl⟩
  obtain ⟨exponent, hexp⟩ : ∃ e, e = exponentOf num 1 := ⟨_, rfl⟩
  have hround : 2 ^ (num.log2 - exponent).natAbs ≤
      roundHalfEven (inUnits num 1 exponent).1 (inUnits num 1 exponent).2 :=
    two_pow_le_roundHalfEven hnum (by omega)
  rw [← hfull, ← hhalf, ← hexp] at hfinite ⊢
  rw [← hexp] at hle hge
  obtain ⟨rounded, hrounded⟩ : ∃ n, n = roundHalfEven (inUnits num 1 exponent).1
    (inUnits num 1 exponent).2 := ⟨_, rfl⟩
  dsimp only at hfinite ⊢
  rw [← hrounded] at hround hfinite ⊢
  by_cases hlt : rounded < full
  · rw [if_pos hlt] at hfinite ⊢
    dsimp only at hfinite ⊢
    split
    · have hne : rounded ≠ 0 := fun hzero => by
        have hpos : 0 < 2 ^ (num.log2 - exponent).natAbs := Nat.two_pow_pos _
        omega
      have hlog : (num.log2 - exponent).natAbs ≤ rounded.log2 := (Nat.le_log2 hne).mpr hround
      exact ⟨hne, by omega⟩
    · rename_i hmax
      rw [if_neg hmax] at hfinite
      cases hfinite
  · rw [if_neg hlt] at hfinite ⊢
    dsimp only at hfinite ⊢
    split
    · have hlog2 : half.log2 = 52 := by
        rw [hhalf]
        exact Nat.log2_two_pow
      have hne : half ≠ 0 := fun hzero => by
        rw [hzero, Nat.log2_zero] at hlog2
        cases hlog2
      exact ⟨hne, by rw [hlog2]; omega⟩
    · rename_i hmax
      rw [if_neg hmax] at hfinite
      cases hfinite

theorem isFinite_neg {x : Binary64} (h : x.isFinite = true) : x.neg.isFinite = true := by
  cases x with
  | finite s m q => rfl
  | _ => cases h

/-- An integer of 64 bits is in range. -/
theorem isFinite_ofInt {n : Int} (h : n.natAbs < 2 ^ 64) : (ofInt n).isFinite = true := by
  have hlog : n.natAbs.log2 ≤ 63 := log2_le_of_lt h
  have hmost : (ofInt n).AtMost 64 :=
    ofRatio_atMost (by decide) (by decide) (fun _ => by omega) _
  exact hmost.isFinite

end ProviderSchema.Decimal.Binary64

namespace ProviderSchema.Json

open Decimal Decimal.Binary64

theorem powerOfTen_eq_ofRatio {k : Nat} (hk : k ≤ 308) :
    powerOfTen k = ofRatio false (10 ^ k) 1 := by
  have hdigits : (Nat.toDigits 10 1).length = 1 := by decide
  rw [powerOfTen, ofDecimal]
  rw [hdigits, if_neg (by omega), if_neg (by omega), if_neg (by omega), Nat.one_mul]
  rfl

theorem isFinite_powerOfTen {k : Nat} (hk : k ≤ 308) : (powerOfTen k).isFinite = true := by
  rcases Nat.lt_or_eq_of_le hk with hlt | rfl
  · have hlog : (10 ^ k).log2 ≤ 1022 := by
      obtain ⟨most, hmost, hlarge⟩ : ∃ m, k ≤ m ∧ 10 ^ m < 2 ^ (1022 + 1) :=
        ⟨307, Nat.le_of_lt_succ hlt, by decide +kernel⟩
      exact log2_le_of_lt (Nat.lt_of_le_of_lt (Nat.pow_le_pow_right (by decide) hmost) hlarge)
    have hone : (1 : Nat).log2 = 0 := by decide
    rw [powerOfTen_eq_ofRatio hk]
    exact (ofRatio_atMost (by decide) (Int.le_refl 1023) (fun _ => by omega) false).isFinite
  · decide +kernel

/-- All powers of ten that a number is divided by are at least four. -/
theorem powerOfTen_atLeast {k : Nat} (hk : 1 ≤ k) (hlarge : k ≤ 308) :
    (powerOfTen k).AtLeast 2 := by
  have hfinite := isFinite_powerOfTen hlarge
  have hne : 10 ^ k ≠ 0 := Nat.ne_of_gt (Nat.pow_pos (by decide))
  have hlog : 2 ≤ (10 ^ k).log2 := by
    rw [Nat.le_log2 hne]
    exact Nat.le_trans (by decide) (Nat.pow_le_pow_right (by decide) hk)
  rw [powerOfTen_eq_ofRatio hlarge] at hfinite ⊢
  exact (ofRatio_one_atLeast hne false hfinite).mono (by omega)

theorem div_powerOfTen_atMost {x : Binary64} (hx : x.AtMost 65) {k : Nat} (hk : 1 ≤ k)
    (hlarge : k ≤ 308) : (x.div (powerOfTen k)).AtMost 65 := by
  exact hx.div (by decide) (by decide) (powerOfTen_atLeast hk hlarge)

/-- A significand that is scaled is in range, if it can be scaled at all. -/
theorem isFinite_scale? {x y : Binary64} (hx : x.AtMost 65) {exponent : Int} {steps : Nat}
    (h : scale? x exponent steps = some y) : y.isFinite = true := by
  induction steps generalizing x exponent with
  | zero =>
    cases h
    exact hx.isFinite
  | succ steps ih =>
    rw [scale?] at h
    split at h
    · rename_i hsmall
      split at h
      · dsimp only at h
        split at h
        · cases h
          assumption
        · cases h
      · cases h
        exact (div_powerOfTen_atMost hx (by omega) hsmall).isFinite
    · split at h
      · cases h
        exact hx.isFinite
      · split at h
        · cases h
        · exact ih (div_powerOfTen_atMost hx (by decide) (by decide)) h

end ProviderSchema.Json
