import ProviderSchema.Node.Attributes

/-!
# Remarks about building

What is said while element types and attributes are built, in the order in which it happens: about
properties that are dropped or ignored, and about the fixed properties of maps. Nothing is said
after the point at which building fails.
-/

namespace ProviderSchema

namespace Node

mutual

/-- The remarks about the element type of a node. -/
def remarks : Node → List String
  | .mk facts properties items mapValue =>
    match facts.kind with
    | .array =>
      match items with
      | .error _ => []
      | .ok item => remarks item
    | .object =>
      if facts.isMap then
        match mapValue with
        | .error _ => []
        | .ok value => remarks value
      else facts.dropRemarks ++ fieldRemarks properties
    | _ => []

/-- The remarks about fields, up to the first one that has no element type. -/
def fieldRemarks : List (Property × Except SchemaError Node) → List String
  | [] => []
  | (_, .error _) :: _ => []
  | (_, .ok child) :: rest =>
    match elementType child with
    | .error _ => remarks child
    | .ok _ => remarks child ++ fieldRemarks rest

end

end Node

namespace Builder

/-- What is said about a property that is left out. -/
def ignoreRemark (path : String) : String := "ignoring attribute '" ++ path ++ "'"

/-- What is said about a map that has fixed properties as well. -/
def mapRemarks (facts : Facts) (path : String) : List String :=
  if facts.children.properties.isEmpty then []
  else ["ignoring fixed properties of map-shaped object '" ++ path ++ "'"]

mutual

/-- The remarks about the attribute of a node. -/
def namedRemarks (b : Builder) (path : String) : Node → List String
  | .mk facts properties items mapValue =>
    match facts.kind with
    | .array =>
      match items with
      | .error _ => []
      | .ok (.mk inner fields a v) =>
        if inner.isRecord then inner.dropRemarks ++ propertyRemarks b inner path fields
        else Node.remarks (.mk inner fields a v)
    | .object =>
      if facts.isMap then
        mapRemarks facts path ++
          match mapValue with
          | .error _ => []
          | .ok (.mk inner fields a v) =>
            if inner.isRecord then inner.dropRemarks ++ propertyRemarks b inner path fields
            else Node.remarks (.mk inner fields a v)
      else facts.dropRemarks ++ propertyRemarks b facts path properties
    | _ => []

/-- The remarks about the given properties of an object. -/
def propertyRemarks (b : Builder) (owner : Facts) (path : String) :
    List (Property × Except SchemaError Node) → List String
  | [] => []
  | (p, .error _) :: rest =>
    if b.ignores.contains (below path p.name) then
      ignoreRemark (below path p.name) :: propertyRemarks b owner path rest
    else []
  | (p, .ok child) :: rest =>
    if b.ignores.contains (below path p.name) then
      ignoreRemark (below path p.name) :: propertyRemarks b owner path rest
    else
      namedRemarks b (below path p.name) child ++
        match b.named p.name (b.computabilityOf owner p) (below path p.name) child with
        | .error _ => []
        | .ok _ => propertyRemarks b owner path rest

end

/-- The remarks about the attributes of the properties of a node. -/
def remarks (b : Builder) (node : Node) : List String :=
  if node.facts.kind = .object then
    node.facts.dropRemarks ++ b.propertyRemarks node.facts "" node.properties
  else []

end Builder

end ProviderSchema
