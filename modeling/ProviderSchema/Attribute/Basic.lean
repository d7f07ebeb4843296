import ProviderSchema.Attribute.ElementType
import ProviderSchema.Attribute.Validator

/-!
# Attributes

An attribute is a named field of a schema that can be configured on its own. Its traits say who sets
it, how it is described and how it is checked; its shape is a scalar, a collection of values, a
collection of nested attributes or one group of nested attributes.
-/

namespace ProviderSchema

open Decimal (Binary64)

/-- Whether an attribute must, may or cannot be set by whoever writes a configuration. -/
inductive Computability where
  | required
  | optional
  | computed
  | computedOptional
deriving DecidableEq, Repr, Inhabited

/-- How a specification writes who sets the value. -/
def Computability.name : Computability → String
  | .required => "required"
  | .optional => "optional"
  | .computed => "computed"
  | .computedOptional => "computed_optional"

/-- What is said about a deprecated attribute. -/
def deprecationMessage : String := "This attribute is deprecated."

/-- What attributes of all shapes have in common. -/
structure Traits where
  computability : Computability
  description : Option String := none
  deprecation : Option String := none
  sensitive : Option Bool := none
  validators : List Validator := []
deriving Repr, Inhabited

/-- A scalar value, with the value it has if none is given. -/
inductive ScalarShape where
  | bool (default : Option Bool)
  | int64 (default : Option Int)
  | float64 (default : Option Binary64)
  | number (default : Option Binary64)
  | string (default : Option String)
deriving DecidableEq, Repr, Inhabited

/-- The kind of the values of a shape. -/
def ScalarShape.kind : ScalarShape → ScalarKind
  | .bool _ => .bool
  | .int64 _ => .int64
  | .float64 _ => .float64
  | .number _ => .number
  | .string _ => .string

/-- An attribute. -/
inductive Attribute where
  | scalar (name : String) (traits : Traits) (shape : ScalarShape)
  | collection (name : String) (traits : Traits) (kind : CollectionKind) (element : ElementType)
  | nested (name : String) (traits : Traits) (kind : CollectionKind) (attributes : List Attribute)
  | single (name : String) (traits : Traits) (attributes : List Attribute)
deriving Repr, Inhabited

namespace Attribute

/-- The name of an attribute. -/
def name : Attribute → String
  | .scalar name .. => name
  | .collection name .. => name
  | .nested name .. => name
  | .single name .. => name

/-- What attributes of every variant have. -/
def traits : Attribute → Traits
  | .scalar _ traits _ => traits
  | .collection _ traits .. => traits
  | .nested _ traits .. => traits
  | .single _ traits _ => traits

/-- The name of the shape of an attribute. -/
def shapeName : Attribute → String
  | .scalar _ _ shape => shape.kind.name
  | .collection _ _ kind _ => kind.name
  | .nested _ _ kind _ => kind.name ++ "_nested"
  | .single .. => "single_nested"

/-- The attribute with its traits changed. -/
def mapTraits (f : Traits → Traits) : Attribute → Attribute
  | .scalar name traits shape => .scalar name (f traits) shape
  | .collection name traits kind element => .collection name (f traits) kind element
  | .nested name traits kind attributes => .nested name (f traits) kind attributes
  | .single name traits attributes => .single name (f traits) attributes

/-- The nested attributes, if the shape has any. -/
def children? : Attribute → Option (List Attribute)
  | .nested _ _ _ attributes => some attributes
  | .single _ _ attributes => some attributes
  | _ => none

/-- The attribute with other nested attributes, if its shape has any. -/
def withChildren (attributes : List Attribute) : Attribute → Attribute
  | .nested name traits kind _ => .nested name traits kind attributes
  | .single name traits _ => .single name traits attributes
  | a => a

/-- The shape of the members of a collection of values. -/
def element? : Attribute → Option ElementType
  | .collection _ _ _ element => some element
  | _ => none

end Attribute

end ProviderSchema
