import ProviderSchema.Decimal.Shortest

/-!
# How a number is written

A `Layout` holds the decisions a number format makes, and `Layout.text` writes a number by them. Two
layouts are in use, `valueLayout` for values and `boundLayout` for the bounds of validators. A bound
of whole numbers is written as an integer that fits 64 bits (`clampedInteger`).
-/

namespace ProviderSchema.Decimal

/-- The decisions of a number format. A number `0.d₁d₂… · 10 ^ point` is written positionally while
`lowPoint < point ≤ highPoint`, and with an exponent otherwise. -/
structure Layout where
  lowPoint : Int
  highPoint : Int
  /-- Whether a positive exponent is written with a plus sign. -/
  exponentPlus : Bool
  tie : TieRule
  nan : String
  infinity : String

/-- Values are positional from `0.00001` up to `10 ^ 16` and carry signed exponents; what is not a
number is `null`. -/
def valueLayout : Layout := ⟨-5, 16, true, .even, "null", "null"⟩

/-- Bounds are positional from `0.0001` up to `10 ^ 16`, and their exponents carry no plus sign. -/
def boundLayout : Layout := ⟨-4, 16, false, .up, "NaN", "inf"⟩

/-- The digits with the decimal point after the first `point` of them; at least one digit stands on
either side of it. -/
def positional (digits : List Char) (point : Int) : List Char :=
  if point ≤ 0 then '0' :: '.' :: (List.replicate point.natAbs '0' ++ digits)
  else
    let before := digits.take point.natAbs
    let after := digits.drop point.natAbs
    before ++ List.replicate (point.natAbs - before.length) '0'
      ++ '.' :: (if after = [] then ['0'] else after)

/-- The digits with the decimal point after the first one, and the exponent that makes up for it. -/
def scientific (plus : Bool) (digits : List Char) (point : Int) : List Char :=
  let mantissa := match digits with
    | [] => []
    | [d] => [d]
    | d :: rest => d :: '.' :: rest
  let exponent := point - 1
  let sign := if exponent < 0 then ['-'] else if plus then ['+'] else []
  mantissa ++ 'e' :: (sign ++ Nat.toDigits 10 exponent.natAbs)

/-- A number in a layout. -/
def Layout.text (l : Layout) : Binary64 → String
  | .nan => l.nan
  | .infinite negative => if negative && l.infinity != l.nan then "-" ++ l.infinity else l.infinity
  | .finite negative significand exponent =>
    let body :=
      if significand = 0 then ['0', '.', '0']
      else
        let d := shortest l.tie significand exponent
        let digits := Nat.toDigits 10 d.digits
        let point := digits.length + d.exponent
        if l.lowPoint < point ∧ point ≤ l.highPoint then positional digits point
        else scientific l.exponentPlus digits point
    String.ofList (if negative then '-' :: body else body)

/-- The smallest integer of 64 bits with a sign. -/
def minInt64 : Int := -Int.pow 2 63

/-- The largest integer of 64 bits with a sign. -/
def maxInt64 : Int := Int.pow 2 63 - 1

/-- The integer of 64 bits nearest to an integer. -/
def clampInt64 (n : Int) : Int := max minInt64 (min maxInt64 n)

/-- The 64-bit integer a bound stands for when it is rounded by `round`; what is not a number stands
for zero. -/
def clampedInteger (round : Bool → Nat → Int → Int) : Binary64 → Int
  | .nan => 0
  | .infinite negative => if negative then minInt64 else maxInt64
  | .finite negative significand exponent => clampInt64 (round negative significand exponent)

end ProviderSchema.Decimal
