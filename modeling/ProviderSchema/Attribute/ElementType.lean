import ProviderSchema.Document.Table

/-!
# Element types

The shape of a value that carries no description of its own: a member of a collection, a value of a
map or a field of an object. `ElementType.merge` is the union of two shapes: fields that only the
second one has are added, and wherever the two disagree the first one is kept. The disagreements are
listed by `ElementType.mismatches`.
-/

namespace ProviderSchema

/-- A kind of value that holds no others. -/
inductive ScalarKind where
  | bool
  | int64
  | float64
  | number
  | string
deriving DecidableEq, Repr, Inhabited

/-- How a specification writes a kind of scalars. -/
def ScalarKind.name : ScalarKind → String
  | .bool => "bool"
  | .int64 => "int64"
  | .float64 => "float64"
  | .number => "number"
  | .string => "string"

/-- A kind of collection. -/
inductive CollectionKind where
  | list
  | set
  | map
deriving DecidableEq, Repr, Inhabited

/-- How a specification writes a kind of collections. -/
def CollectionKind.name : CollectionKind → String
  | .list => "list"
  | .set => "set"
  | .map => "map"

/-- The shape of a value. -/
inductive ElementType where
  | scalar (kind : ScalarKind)
  | collection (kind : CollectionKind) (element : ElementType)
  | object (fields : List (String × ElementType))
deriving Repr, Inhabited

/-- Two sources disagree about the shape at a path. The first shape is kept. -/
structure Mismatch where
  path : String
  target : String
  source : String
deriving DecidableEq, Repr

/-- A name below a path. -/
def below (path name : String) : String := if path = "" then name else path ++ "." ++ name

namespace ElementType

/-- The name of the outermost shape. -/
def shapeName : ElementType → String
  | .scalar kind => kind.name
  | .collection kind _ => kind.name
  | .object _ => "object"

mutual

/-- A shape as a JSON value: an object with one member. -/
def toJson : ElementType → Json
  | .scalar kind => .object [(kind.name, .object [])]
  | .collection kind element => .object [(kind.name, .object [("element_type", toJson element)])]
  | .object fields =>
    .object [("object", .object [("attribute_types", .array (fieldsToJson fields))])]

/-- Fields as JSON values: the member of the shape stands beside the name. -/
def fieldsToJson : List (String × ElementType) → List Json
  | [] => []
  | (name, type) :: rest => .object (("name", .text name) :: members type) :: fieldsToJson rest

/-- The one member of the JSON value of a shape. -/
def members : ElementType → List (String × Json)
  | .scalar kind => [(kind.name, .object [])]
  | .collection kind element => [(kind.name, .object [("element_type", toJson element)])]
  | .object fields => [("object", .object [("attribute_types", .array (fieldsToJson fields))])]

end

mutual

/-- The union of two shapes, the second one being that of lower priority. -/
def merge (target : ElementType) : ElementType → ElementType
  | .scalar _ => target
  | .collection kind source =>
    match target with
    | .collection kind' element =>
      if kind' = kind then .collection kind' (merge element source) else target
    | _ => target
  | .object sources =>
    match target with
    | .object fields => .object (mergeFields fields sources)
    | _ => target

/-- The fields of an object with those of another one merged into them; new ones come last. -/
def mergeFields (target : List (String × ElementType)) :
    List (String × ElementType) → List (String × ElementType)
  | [] => target
  | (name, source) :: rest =>
    mergeFields
      (upsert (·.1 = name) (fun field => (field.1, merge field.2 source)) (name, source) target)
      rest

end

mutual

/-- The disagreements met while two shapes are merged. -/
def mismatches (path : String) (target : ElementType) : ElementType → List Mismatch
  | .scalar kind =>
    if target.shapeName = kind.name then [] else [⟨path, target.shapeName, kind.name⟩]
  | .collection kind source =>
    match target with
    | .collection kind' element =>
      if kind' = kind then mismatches path element source
      else [⟨path, kind'.name, kind.name⟩]
    | _ => [⟨path, target.shapeName, kind.name⟩]
  | .object sources =>
    match target with
    | .object fields => fieldMismatches path fields sources
    | _ => [⟨path, target.shapeName, "object"⟩]

/-- The disagreements met while fields are merged one after the other. -/
def fieldMismatches (path : String) (target : List (String × ElementType)) :
    List (String × ElementType) → List Mismatch
  | [] => []
  | (name, source) :: rest =>
    (match target.find? (·.1 = name) with
      | some (_, type) => mismatches (below path name) type source
      | none => [])
      ++ fieldMismatches path (mergeFields target [(name, source)]) rest

end

end ElementType

end ProviderSchema
