import ProviderSchema.Attribute.Validator
import ProviderSchema.OpenApi.Schema

/-!
# Validators of a schema

What the constraining keywords of a schema mean for values of some kind. Of an enumeration only the
values of that kind count, and two bounds of one thing make one rule.
-/

namespace ProviderSchema

open OpenApi

namespace ValidatorRule

/-- The rule for a lower and an upper bound, either of which may be missing. -/
def bounded {α : Type} (atLeast atMost : α → ValidatorRule) (between : α → α → ValidatorRule)
    (min max : Option α) : List ValidatorRule :=
  match min, max with
  | some min, some max => [between min max]
  | some min, none => [atLeast min]
  | none, some max => [atMost max]
  | none, none => []

end ValidatorRule

namespace OpenApi.Keywords

/-- The enumeration, as far as its values are accepted. -/
def enumeration (k : Keywords) (accepts : Json → Bool) : List ValidatorRule :=
  let values := k.enum.filter accepts
  if values.isEmpty then [] else [.oneOf values]

/-- The bounds of a number. -/
def range (k : Keywords) : List ValidatorRule :=
  ValidatorRule.bounded .atLeast .atMost .between k.minimum k.maximum

/-- The bounds of the length of a text. -/
def textLength (k : Keywords) : List ValidatorRule :=
  ValidatorRule.bounded .lengthAtLeast .lengthAtMost .lengthBetween k.minLength k.maxLength

/-- The bounds of the number of items. -/
def itemCount (k : Keywords) : List ValidatorRule :=
  ValidatorRule.bounded .sizeAtLeast .sizeAtMost .sizeBetween k.minItems k.maxItems

/-- The bounds of the number of properties. -/
def propertyCount (k : Keywords) : List ValidatorRule :=
  ValidatorRule.bounded .sizeAtLeast .sizeAtMost .sizeBetween k.minProperties k.maxProperties

/-- The rules for values of a kind. -/
def rules (k : Keywords) : ValidatorTarget → List ValidatorRule
  | .string => k.enumeration Json.isText ++ k.textLength
  | .int64 => k.enumeration Json.isInteger ++ k.range
  | .float64 => k.enumeration Json.isNumber ++ k.range
  | .list => k.itemCount ++ if k.uniqueItems = some true then [.uniqueValues] else []
  | .set => k.itemCount
  | .map => k.propertyCount

/-- The validators for values of a kind. -/
def validators (k : Keywords) (target : ValidatorTarget) : List Validator :=
  (k.rules target).map fun rule => ⟨target, rule⟩

end OpenApi.Keywords

end ProviderSchema
