import ProviderSchema.Decimal.Literal
import ProviderSchema.Document.Content
import ProviderSchema.Yaml.Token

/-!
# The values of scalars

A plain scalar that looks like `null`, a boolean or a number is one, and every other scalar is text
(`typed?`). A tag of the core schema overrides the look of a scalar. Where the kind of value is
known, only that kind is looked for (`flag?`, `natural?`, `number?`).
-/

namespace ProviderSchema.Yaml

open Decimal (Binary64)

namespace Scalar

/-- The tag of truth values. -/
def boolTag : String := "tag:yaml.org,2002:bool"

/-- The tag of integers. -/
def intTag : String := "tag:yaml.org,2002:int"

/-- The tag of floating-point numbers. -/
def floatTag : String := "tag:yaml.org,2002:float"

/-- The tag of `null`. -/
def nullTag : String := "tag:yaml.org,2002:null"

/-- Whether a text is one of the spellings of `null`. The empty text is not among them. -/
def isNull (text : String) : Bool := text ∈ ["null", "Null", "NULL", "~"]

/-- The boolean that a text spells. -/
def bool? (text : String) : Option Bool :=
  if text ∈ ["true", "True", "TRUE"] then some true
  else if text ∈ ["false", "False", "FALSE"] then some false
  else none

/-- Whether digits have a leading zero too many to be a number. -/
def isPadded (text : List Char) : Bool :=
  let digits := match text with
    | '-' :: rest => rest
    | '+' :: rest => rest
    | _ => text
  match digits with
  | '0' :: d :: rest => (d :: rest).all Char.isDigit
  | _ => false

/-- A number in one of the notations that name their radix. -/
def radixNumber? : List Char → Option Nat
  | '0' :: 'x' :: rest => Decimal.natural? 16 rest
  | '0' :: 'o' :: rest => Decimal.natural? 8 rest
  | '0' :: 'b' :: rest => Decimal.natural? 2 rest
  | _ => none

/-- The natural number that a text spells, perhaps with a plus sign. -/
def naturalNumber? (text : List Char) : Option Nat :=
  let unsigned := match text with
    | '+' :: rest => rest
    | _ => text
  match radixNumber? unsigned with
  | some n => some n
  | none => if isPadded text then none else Decimal.natural? 10 unsigned

/-- The integer that a text spells, perhaps with a sign. -/
def integer? : List Char → Option Int
  | '-' :: rest =>
    let magnitude? := match radixNumber? rest with
      | some n => some n
      | none => if isPadded rest then none else Decimal.natural? 10 rest
    magnitude?.map fun n => -(n : Int)
  | text => (naturalNumber? text).map fun n => (n : Int)

/-- The floating-point number that a text spells. A decimal that is out of range is none. -/
def float? (text : List Char) : Option Binary64 :=
  let unsigned := match text with
    | '+' :: '+' :: _ => none
    | '+' :: '-' :: _ => none
    | '+' :: rest => some rest
    | _ => some text
  unsigned.bind fun rest =>
    if String.ofList rest ∈ [".inf", ".Inf", ".INF"] then some (.infinite false)
    else if String.ofList text ∈ ["-.inf", "-.Inf", "-.INF"] then some (.infinite true)
    else if String.ofList text ∈ [".nan", ".NaN", ".NAN"] then some .nan
    else
      match Binary64.ofLiteral? rest with
      | some x => if x.isFinite then some x else none
      | none => none

/-- An integer as content. One that fits neither 64 bits nor 64 bits with a sign is a fault, unless
it is so large that it does not count as an integer at all. -/
def integerContent? (text : List Char) : Option (Option Content) :=
  match integer? text with
  | none => none
  | some n =>
    if -Int.pow 2 63 ≤ n ∧ n < Int.pow 2 64 then some (some (.integer n))
    else if -Int.pow 2 127 ≤ n ∧ n < Int.pow 2 128 then some none
    else none

/-- The value of a plain scalar. -/
def plain? (text : String) : Option Content :=
  if text = "" || isNull text then some .null
  else
    match bool? text with
    | some b => some (.bool b)
    | none =>
      let chars := text.toList
      match integerContent? chars with
      | some content => content
      | none =>
        match if isPadded chars then none else float? chars with
        | some x => some (.float x)
        | none => some (.text text)

/-- Whether a tag is one of the document's own; nothing carries such a tag. -/
def isOwnTag (tag : Option String) : Bool :=
  match tag with
  | some t => ['!'].isPrefixOf t.toList
  | none => false

/-- The value of a scalar. -/
def typed? (tag : Option String) (text : String) (style : Style) : Option Content :=
  match tag with
  | none => if style = .plain then plain? text else some (.text text)
  | some t =>
    if isOwnTag tag then none
    else if t = boolTag then (bool? text).map .bool
    else if t = intTag then (integerContent? text.toList).getD none
    else if t = floatTag then (float? text.toList).map .float
    else if t = nullTag then (if isNull text then some .null else none)
    else some (.text text)

/-- Whether a scalar of some kind may be written like this: plain, or as a literal block with the
tag of the kind. -/
def isDirect (kindTag : String) (tag : Option String) (style : Style) : Bool :=
  style = .plain || (style = .literal && tag = some kindTag)

/-- A scalar where a boolean is wanted. -/
def flag? (tag : Option String) (text : String) (style : Style) : Option Content :=
  if isDirect boolTag tag style then (bool? text).map .bool else none

/-- A scalar where a number without sign and fraction is wanted. -/
def natural? (tag : Option String) (text : String) (style : Style) : Option Content :=
  if isDirect intTag tag style then
    match naturalNumber? text.toList with
    | some n => if n < Nat.pow 2 64 then some (.integer n) else none
    | none => none
  else none

/-- A scalar where any number is wanted. -/
def number? (tag : Option String) (text : String) (style : Style) : Option Content :=
  if isDirect floatTag tag style then (float? text.toList).map .float else none

/-- Whether a scalar leaves an optional node absent; a scalar that is tagged as `null` and is
something else is a fault. -/
def isAbsent? (tag : Option String) (text : String) (style : Style) : Option Bool :=
  if style ≠ .plain then some false
  else
    match tag with
    | none => some (text = "" || isNull text)
    | some t => if t = nullTag then (if isNull text then some true else none) else some false

end Scalar

end ProviderSchema.Yaml
