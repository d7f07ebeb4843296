/-!
# Binary64 numbers, exactly

A number is kept as a sign, a natural significand and a power of two, so that every operation is
arithmetic on naturals and its rounding is one definition, `Binary64.ofRatio`. Powers are written
`Nat.pow`, so that they do not depend on the instances in scope.

* `roundHalfEven`: the nearest integer to a quotient, a half going to the even neighbour.
* `Binary64.ofRatio`: the number nearest to a quotient, with the range and the gradual underflow of
  the 64-bit format.
* `Binary64.ofDecimal`: the number nearest to a decimal.
* `Binary64.mul`, `Binary64.div`: products and quotients, rounded once.
* `Binary64.floor`, `Binary64.ceil`: the integers on either side of a number.
-/

namespace ProviderSchema.Decimal

/-- A 64-bit floating-point number. A finite one is `± significand · 2 ^ exponent`; numbers made by
`Binary64.ofRatio` have a significand below `2 ^ 53` and, above the smallest exponent, at least
`2 ^ 52`. -/
inductive Binary64 where
  | nan
  | infinite (negative : Bool)
  | finite (negative : Bool) (significand : Nat) (exponent : Int)
deriving DecidableEq, Repr, Inhabited

/-- The integer nearest to `num / den`; a half goes to the even neighbour. -/
def roundHalfEven (num den : Nat) : Nat :=
  let below := num / den
  let rest := num % den
  if 2 * rest < den then below
  else if den < 2 * rest then below + 1
  else below + below % 2

namespace Binary64

/-- The exponent of the smallest numbers. -/
def minExponent : Int := -1074

/-- The exponent of the largest finite numbers. -/
def maxExponent : Int := 971

/-- Zero with a sign. -/
def zero (negative : Bool) : Binary64 := .finite negative 0 minExponent

/-- The quotient `num / den` measured in units of `2 ^ exponent`, as a quotient again. -/
def inUnits (num den : Nat) (exponent : Int) : Nat × Nat :=
  if exponent < 0 then (num * Nat.pow 2 exponent.natAbs, den)
  else (num, den * Nat.pow 2 exponent.natAbs)

/-- The exponent at which `num / den` has a significand of 53 bits, or the smallest exponent. -/
def exponentOf (num den : Nat) : Int :=
  let low : Int := max ((num.log2 : Int) - den.log2 - 53) minExponent
  let (n, d) := inUnits num den low
  if n < d * Nat.pow 2 53 then low else low + 1

/-- The number nearest to `num / den`, with the given sign; a tie goes to the even significand, and
what lies beyond the range is infinite. -/
def ofRatio (negative : Bool) (num den : Nat) : Binary64 :=
  if num = 0 then zero negative
  else
    let exponent := exponentOf num den
    let (n, d) := inUnits num den exponent
    let rounded := roundHalfEven n d
    let (significand, exponent) :=
      if rounded < Nat.pow 2 53 then (rounded, exponent) else (Nat.pow 2 52, exponent + 1)
    if exponent ≤ maxExponent then .finite negative significand exponent else .infinite negative

/-- The number nearest to `significand · 2 ^ exponent`. -/
def ofScaled (negative : Bool) (significand : Nat) (exponent : Int) : Binary64 :=
  if exponent < 0 then ofRatio negative significand (Nat.pow 2 exponent.natAbs)
  else ofRatio negative (significand * Nat.pow 2 exponent.natAbs) 1

/-- The number nearest to an integer. -/
def ofInt (n : Int) : Binary64 := ofRatio (n < 0) n.natAbs 1

/-- The number nearest to `significand · 10 ^ exponent`. The two shortcuts leave the result alone:
beyond `10 ^ 310` everything is infinite and below `10 ^ -330` everything is zero. -/
def ofDecimal (negative : Bool) (significand : Nat) (exponent : Int) : Binary64 :=
  let digits : Int := (Nat.toDigits 10 significand).length
  if significand = 0 ∨ digits + exponent < -330 then zero negative
  else if 310 < digits + exponent then .infinite negative
  else if exponent < 0 then ofRatio negative significand (Nat.pow 10 exponent.natAbs)
  else ofRatio negative (significand * Nat.pow 10 exponent.natAbs) 1

/-- Whether a number is neither infinite nor `nan`. -/
def isFinite : Binary64 → Bool
  | .finite .. => true
  | _ => false

/-- Whether a number is zero, of either sign. -/
def isZero : Binary64 → Bool
  | .finite _ 0 _ => true
  | _ => false

/-- The number with the other sign. -/
def neg : Binary64 → Binary64
  | .nan => .nan
  | .infinite s => .infinite !s
  | .finite s m q => .finite (!s) m q

/-- The product of two finite numbers, rounded once. -/
def mul : Binary64 → Binary64 → Binary64
  | .finite s m q, .finite t n r => ofScaled (s != t) (m * n) (q + r)
  | .finite s m _, .infinite t | .infinite t, .finite s m _ =>
    if m = 0 then .nan else .infinite (s != t)
  | .infinite s, .infinite t => .infinite (s != t)
  | _, _ => .nan

/-- The quotient of two numbers, rounded once. -/
def div : Binary64 → Binary64 → Binary64
  | .finite s m q, .finite t n r =>
    if n = 0 then (if m = 0 then .nan else .infinite (s != t))
    else
      let shift := q - r
      if shift < 0 then ofRatio (s != t) m (n * Nat.pow 2 shift.natAbs)
      else ofRatio (s != t) (m * Nat.pow 2 shift.natAbs) n
  | .finite s _ _, .infinite t => zero (s != t)
  | .infinite s, .finite t _ _ => .infinite (s != t)
  | _, _ => .nan

/-- The numerator and the (positive) denominator of a finite number. -/
def ratio (negative : Bool) (significand : Nat) (exponent : Int) : Int × Nat :=
  let sign : Int := if negative then -1 else 1
  if exponent < 0 then (sign * significand, Nat.pow 2 exponent.natAbs)
  else (sign * (significand * Nat.pow 2 exponent.natAbs : Nat), 1)

/-- The largest integer not above a finite number. -/
def floor (negative : Bool) (significand : Nat) (exponent : Int) : Int :=
  let (num, den) := ratio negative significand exponent
  num.fdiv den

/-- The smallest integer not below a finite number. -/
def ceil (negative : Bool) (significand : Nat) (exponent : Int) : Int :=
  let (num, den) := ratio negative significand exponent
  Int.neg ((-num).fdiv den)

end Binary64

end ProviderSchema.Decimal
