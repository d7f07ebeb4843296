import ProviderSchema.Decimal.Binary64

/-!
# Decimal literals

The numbers that a text of digits stands for: `natural?` reads digits of a radix, and
`Binary64.ofLiteral?` a decimal with an optional sign, fraction and exponent.
-/

namespace ProviderSchema.Decimal

/-- The value of a digit; letters are the digits from ten on, in either case. -/
def digit? (radix : Nat) (c : Char) : Option Nat :=
  let value? :=
    if '0' ≤ c ∧ c ≤ '9' then some (c.toNat - '0'.toNat)
    else if 'a' ≤ c ∧ c ≤ 'z' then some (c.toNat - 'a'.toNat + 10)
    else if 'A' ≤ c ∧ c ≤ 'Z' then some (c.toNat - 'A'.toNat + 10)
    else none
  value?.bind fun d => if d < radix then some d else none

/-- The number that the digits after those of `value` complete. -/
def naturalFrom? (radix value : Nat) : List Char → Option Nat
  | [] => some value
  | c :: rest => (digit? radix c).bind fun d => naturalFrom? radix (value * radix + d) rest

/-- The number of at least one digit. -/
def natural? (radix : Nat) : List Char → Option Nat
  | [] => none
  | digits => naturalFrom? radix 0 digits

/-- The number of any number of decimal digits, none standing for zero. -/
def digitsValue (digits : List Char) : Nat :=
  digits.foldl (fun n c => n * 10 + (c.toNat - '0'.toNat)) 0

/-- An exponent: a sign, perhaps, and digits up to the end. -/
def exponent? : List Char → Option Int
  | '-' :: digits => (natural? 10 digits).map fun n => -(n : Int)
  | '+' :: digits => (natural? 10 digits).map fun n => (n : Int)
  | digits => (natural? 10 digits).map fun n => (n : Int)

/-- The number nearest to a decimal without a sign. Digits may be missing on one side of the point,
but not on both. -/
def Binary64.ofUnsigned? (negative : Bool) (text : List Char) : Option Binary64 :=
  let whole := text.takeWhile Char.isDigit
  let rest := text.dropWhile Char.isDigit
  let (fraction, rest) := match rest with
    | '.' :: after => (after.takeWhile Char.isDigit, after.dropWhile Char.isDigit)
    | _ => ([], rest)
  if whole = [] ∧ fraction = [] then none
  else
    let exponent := match rest with
      | [] => some 0
      | c :: after => if c = 'e' ∨ c = 'E' then exponent? after else none
    exponent.map fun e =>
      .ofDecimal negative (digitsValue (whole ++ fraction)) (e - fraction.length)

/-- The number nearest to a decimal. -/
def Binary64.ofLiteral? : List Char → Option Binary64
  | '-' :: rest => ofUnsigned? true rest
  | '+' :: rest => ofUnsigned? false rest
  | text => ofUnsigned? false text

end ProviderSchema.Decimal
