import ProviderSchema.Attribute.Basic

/-!
# Writing attributes

An attribute is written as an object with its name and one member that is named for its shape. That
member holds the traits, and after them whatever the shape needs. Traits that are absent are left
out.
-/

namespace ProviderSchema

open Json (member? listMember?)

/-- The members of the traits. -/
def Traits.members (t : Traits) : List (String × Json) :=
  [("computed_optional_required", .text t.computability.name)]
    ++ member? "description" (t.description.map .text)
    ++ member? "deprecation_message" (t.deprecation.map .text)
    ++ member? "sensitive" (t.sensitive.map .bool)
    ++ listMember? "validators" (t.validators.map Validator.toJson)

/-- The value a scalar has if none is given. -/
def ScalarShape.default? : ScalarShape → Option Json
  | .bool default => default.map .bool
  | .int64 default => default.map .integer
  | .float64 default => default.map .float
  | .number default => default.map .float
  | .string default => default.map .text

namespace Attribute

mutual

/-- An attribute as a JSON value. -/
def toJson : Attribute → Json
  | .scalar name traits shape =>
    .object [("name", .text name), (shape.kind.name, .object (traits.members
      ++ member? "default" (shape.default?.map fun v => .object [("static", v)])))]
  | .collection name traits kind element =>
    .object [("name", .text name), (kind.name, .object (traits.members
      ++ [("element_type", element.toJson)]))]
  | .nested name traits kind attributes =>
    .object [("name", .text name), (kind.name ++ "_nested", .object (traits.members
      ++ [("nested_object", .object [("attributes", .array (listToJson attributes))])]))]
  | .single name traits attributes =>
    .object [("name", .text name), ("single_nested", .object (traits.members
      ++ [("attributes", .array (listToJson attributes))]))]

/-- Attributes as JSON values, in their order. -/
def listToJson : List Attribute → List Json
  | [] => []
  | a :: rest => toJson a :: listToJson rest

end

end Attribute

end ProviderSchema
