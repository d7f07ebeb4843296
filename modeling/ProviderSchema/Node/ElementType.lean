import ProviderSchema.Attribute.ElementType
import ProviderSchema.Node.Basic

/-!
# Nodes as element types

The shape of the values that a node describes. An object with fixed properties has a field for each
of them; an object whose values are described by one schema is a map.
-/

namespace ProviderSchema

/-- The kind of scalar that a node of no other kind is. -/
def Facts.numberKind (f : Facts) : ScalarKind := if f.isFloatingPoint then .float64 else .number

/-- The kind of collection that an array is. -/
def Facts.collectionKind (f : Facts) : CollectionKind := if f.isSet then .set else .list

namespace Node

mutual

/-- The shape of the values of a node. -/
def elementType : Node → Except SchemaError ElementType
  | .mk facts properties items mapValue =>
    match facts.kind with
    | .boolean => .ok (.scalar .bool)
    | .integer => .ok (.scalar .int64)
    | .string => .ok (.scalar .string)
    | .number => .ok (.scalar facts.numberKind)
    | .array =>
      match items with
      | .error e => .error e
      | .ok item => (elementType item).map (.collection facts.collectionKind)
    | .object =>
      if facts.isMap then
        match mapValue with
        | .error e => .error e
        | .ok value => (elementType value).map (.collection .map)
      else (elementFields properties).map .object

/-- The fields of an object with the given properties. -/
def elementFields :
    List (Property × Except SchemaError Node) → Except SchemaError (List (String × ElementType))
  | [] => .ok []
  | (p, .error e) :: _ => .error (e.inProperty p.name)
  | (p, .ok child) :: rest =>
    match elementType child with
    | .error e => .error (e.inProperty p.name)
    | .ok type => (elementFields rest).map ((p.name, type) :: ·)

end

end Node

end ProviderSchema
