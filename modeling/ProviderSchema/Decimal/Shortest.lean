import ProviderSchema.Decimal.Binary64

/-!
# The fewest digits that read back

`shortest` gives, for a finite non-zero number, the shortest decimal that rounds to it and, among
those, the nearest to it. The numbers that round to `x` form an interval around `x`; on each decimal
grid, from coarse to fine, only the two neighbours of `x` have to be tried, because a grid with a
point in the interval has one next to `x`.
-/

namespace ProviderSchema.Decimal

/-- A positive decimal `digits · 10 ^ exponent`. -/
structure DecimalText where
  digits : Nat
  exponent : Int
deriving DecidableEq, Repr

/-- Which of two equally near decimals is taken. -/
inductive TieRule where
  | even
  | up
deriving DecidableEq, Repr

/-- The interval of reals that round to a number, with all three points measured in one unit,
`1 / den`: its ends, the number itself, and whether the ends belong to it. -/
structure RoundingInterval where
  low : Nat
  value : Nat
  high : Nat
  den : Nat
  closed : Bool

/-- The interval around `significand · 2 ^ exponent`. Below a power of two the numbers lie twice as
dense, so the lower end is nearer there. -/
def RoundingInterval.around (significand : Nat) (exponent : Int) : RoundingInterval :=
  let lowGap := if significand = Nat.pow 2 52 ∧ Binary64.minExponent < exponent then 1 else 2
  let quarter := exponent - 2
  let scale := if quarter < 0 then 1 else Nat.pow 2 quarter.natAbs
  { low := (4 * significand - lowGap) * scale
    value := 4 * significand * scale
    high := (4 * significand + 2) * scale
    den := if quarter < 0 then Nat.pow 2 quarter.natAbs else 1
    closed := significand % 2 = 0 }

namespace RoundingInterval

/-- The quotient of the value by `10 ^ exponent`. -/
def onGrid (i : RoundingInterval) (exponent : Int) : Nat × Nat :=
  if exponent < 0 then (i.value * Nat.pow 10 exponent.natAbs, i.den)
  else (i.value, i.den * Nat.pow 10 exponent.natAbs)

/-- Whether `k · 10 ^ exponent` lies in the interval. -/
def contains (i : RoundingInterval) (k : Nat) (exponent : Int) : Bool :=
  let up := if exponent < 0 then 1 else Nat.pow 10 exponent.natAbs
  let down := if exponent < 0 then Nat.pow 10 exponent.natAbs else 1
  let point := k * up * i.den
  if i.closed then i.low * down ≤ point ∧ point ≤ i.high * down
  else i.low * down < point ∧ point < i.high * down

/-- The grid point of `10 ^ exponent` nearest to the value that lies in the interval, if any
does. -/
def pointOn? (i : RoundingInterval) (tie : TieRule) (exponent : Int) : Option Nat :=
  let (num, den) := i.onGrid exponent
  let below := num / den
  let rest := num % den
  let lower := i.contains below exponent && below != 0
  let upper := i.contains (below + 1) exponent
  let nearerUpper :=
    if 2 * rest < den then false
    else if den < 2 * rest then true
    else match tie with
      | .even => below % 2 = 1
      | .up => true
  if lower && upper then some (if nearerUpper then below + 1 else below)
  else if lower then some below
  else if upper then some (below + 1)
  else none

/-- The first grid with a point in the interval, starting at `10 ^ exponent` and going finer. -/
def search (i : RoundingInterval) (tie : TieRule) : Nat → Int → Option DecimalText
  | 0, _ => none
  | fuel + 1, exponent =>
    match i.pointOn? tie exponent with
    | some digits => some ⟨digits, exponent⟩
    | none => i.search tie fuel (exponent - 1)

end RoundingInterval

/-- A power of ten that is not below `num / den`, at most ten times as large: the exponent of the
coarsest grid worth trying. -/
def coarsestGrid (num den : Nat) : Int :=
  if den ≤ num then (Nat.toDigits 10 (num / den)).length
  else 1 - (Nat.toDigits 10 (den / num)).length

/-- The shortest decimal that rounds to `significand · 2 ^ exponent` and is nearest to it. Twenty
grids are enough, because seventeen digits always read back. -/
def shortest (tie : TieRule) (significand : Nat) (exponent : Int) : DecimalText :=
  let i := RoundingInterval.around significand exponent
  match i.search tie 20 (coarsestGrid i.value i.den) with
  | some d => d
  | none => ⟨0, 0⟩

end ProviderSchema.Decimal
