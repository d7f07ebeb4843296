import ProviderSchema.Json.Printer

/-!
# Validators

A validator checks the value of an attribute. It belongs to the package of the kind of value it is
for, and is written as the call that constructs it.

Bounds of integers are rounded inward to integers of 64 bits; other bounds are written as they are.
-/

namespace ProviderSchema

open Decimal (Binary64)

/-- The kind of value that a validator is for. -/
inductive ValidatorTarget where
  | string
  | int64
  | float64
  | list
  | set
  | map
deriving DecidableEq, Repr, Inhabited

/-- What a validator checks. -/
inductive ValidatorRule where
  | oneOf (values : List Json)
  | atLeast (min : Binary64)
  | atMost (max : Binary64)
  | between (min max : Binary64)
  | lengthAtLeast (min : Nat)
  | lengthAtMost (max : Nat)
  | lengthBetween (min max : Nat)
  | sizeAtLeast (min : Nat)
  | sizeAtMost (max : Nat)
  | sizeBetween (min max : Nat)
  | uniqueValues
deriving Repr, Inhabited

/-- A check of values of some kind. -/
structure Validator where
  target : ValidatorTarget
  rule : ValidatorRule
deriving Repr, Inhabited

/-- The package of the validators of a kind. -/
def ValidatorTarget.package : ValidatorTarget → String
  | .string => "stringvalidator"
  | .int64 => "int64validator"
  | .float64 => "float64validator"
  | .list => "listvalidator"
  | .set => "setvalidator"
  | .map => "mapvalidator"

/-- The module that holds the packages. -/
def validatorModule : String := "github.com/hashicorp/terraform-plugin-framework-validators"

namespace Validator

/-- The path by which the package of a validator is imported. -/
def importPath (v : Validator) : String := validatorModule ++ "/" ++ v.target.package

/-- A bound; `round` gives the integer that stands for it where integers are checked. -/
def bound (target : ValidatorTarget) (round : Bool → Nat → Int → Int) (value : Binary64) :
    String :=
  match target with
  | .int64 => toString (Decimal.clampedInteger round value)
  | _ => Decimal.boundLayout.text value

/-- A lower bound. -/
def lower (target : ValidatorTarget) (value : Binary64) : String :=
  bound target Binary64.ceil value

/-- An upper bound. -/
def upper (target : ValidatorTarget) (value : Binary64) : String :=
  bound target Binary64.floor value

/-- The function that constructs a validator, and its arguments. -/
def call (target : ValidatorTarget) : ValidatorRule → String × List String
  | .oneOf values => ("OneOf", values.map Json.compact)
  | .atLeast min => ("AtLeast", [lower target min])
  | .atMost max => ("AtMost", [upper target max])
  | .between min max => ("Between", [lower target min, upper target max])
  | .lengthAtLeast min => ("LengthAtLeast", [toString min])
  | .lengthAtMost max => ("LengthAtMost", [toString max])
  | .lengthBetween min max => ("LengthBetween", [toString min, toString max])
  | .sizeAtLeast min => ("SizeAtLeast", [toString min])
  | .sizeAtMost max => ("SizeAtMost", [toString max])
  | .sizeBetween min max => ("SizeBetween", [toString min, toString max])
  | .uniqueValues => ("UniqueValues", [])

/-- The call that constructs a validator. -/
def definition (v : Validator) : String :=
  let (function, arguments) := call v.target v.rule
  v.target.package ++ "." ++ function ++ "(" ++ Text.joinWith ", " arguments ++ ")"

/-- A validator as a JSON value: its import and its definition. -/
def toJson (v : Validator) : Json :=
  .object [("custom", .object [
    ("imports", .array [.object [("path", .text v.importPath)]]),
    ("schema_definition", .text v.definition)])]

end Validator

end ProviderSchema
