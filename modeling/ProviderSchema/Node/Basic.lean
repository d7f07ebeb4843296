import ProviderSchema.Node.SchemaError
import ProviderSchema.OpenApi.Schema
import ProviderSchema.Text.Identifier

/-!
# Nodes

A node is a schema that stands for one kind of value, whatever compositions it is wrapped in, with
the nodes of its properties, items and map values below it. Where a child stands for no kind of
value, the node holds the reason instead.

Properties are named by the identifiers of their names. They are sorted by identifier and, where
several names have one identifier, only the property with the least name is kept (`arrange`).
-/

namespace ProviderSchema

open OpenApi

/-- The kind of value that a schema stands for. -/
inductive SchemaKind where
  | string
  | integer
  | number
  | boolean
  | array
  | object
deriving DecidableEq, Repr, Inhabited

namespace SchemaKind

/-- The name of a kind, as schemas write it. -/
def name : SchemaKind → String
  | .string => "string"
  | .integer => "integer"
  | .number => "number"
  | .boolean => "boolean"
  | .array => "array"
  | .object => "object"

/-- Whether values of a kind may also be passed as text. -/
def isStringable : SchemaKind → Bool
  | .string | .integer | .number | .boolean => true
  | .array | .object => false

end SchemaKind

/-- A property of an object. -/
structure Property where
  /-- The identifier of the property. -/
  name : String
  /-- The name that the schema gives it. -/
  original : String
deriving DecidableEq, Repr, Inhabited

/-- What is known of a node apart from its children. -/
structure Facts where
  kind : SchemaKind
  /-- The keywords of the effective schema. -/
  keywords : Keywords
  /-- The child schemas of the effective schema. -/
  children : Children Schema
  description : Option String
  /-- The keys that lead to the schema in the document; empty if they are not known. -/
  location : List String
  /-- How many steps lead to the schema. -/
  depth : Nat
deriving Repr, Inhabited

/-- A node. -/
inductive Node where
  | mk (facts : Facts) (properties : List (Property × Except SchemaError Node))
    (items : Except SchemaError Node) (mapValue : Except SchemaError Node)

/-- The location of something below a location; unknown stays unknown. -/
def locationBelow (location keys : List String) : List String :=
  if location = [] then [] else location ++ keys

namespace Facts

/-- The format that a schema names. -/
def format (f : Facts) : Option String := f.keywords.format

/-- Whether the values of an object are described by one schema instead of fixed properties. -/
def isMap (f : Facts) : Bool :=
  f.kind = .object &&
    match f.children.additional with
    | some (.schema _) => true
    | _ => false

/-- Whether an object has fixed properties only. -/
def isRecord (f : Facts) : Bool := f.kind = .object && !f.isMap

/-- Whether the object requires the property of a name, as the document writes it. -/
def isRequired (f : Facts) (original : String) : Bool := f.keywords.required.contains original

/-- Whether numbers have the format of floating-point ones. -/
def isFloatingPoint (f : Facts) : Bool := f.format = some "double" || f.format = some "float"

/-- Whether the items of a list are a set. -/
def isSet (f : Facts) : Bool := f.format = some "set"

/-- Whether a text is a secret. -/
def isSensitive (f : Facts) : Bool := f.format = some "password"

/-- Whether a schema says that it is deprecated. -/
def isDeprecated (f : Facts) : Bool := f.keywords.deprecated = some true

/-- The default, unless it is `null`. -/
def default? (f : Facts) : Option Json := f.keywords.default.filter fun v => !v.isNull

end Facts

namespace Node

/-- What is known of the schema of a node. -/
def facts : Node → Facts
  | .mk facts _ _ _ => facts

/-- The properties of a node, arranged by name; one that is no node has its error. -/
def properties : Node → List (Property × Except SchemaError Node)
  | .mk _ properties _ _ => properties

/-- The node of the items. -/
def items : Node → Except SchemaError Node
  | .mk _ _ items _ => items

/-- The node of the values of a map. -/
def mapValue : Node → Except SchemaError Node
  | .mk _ _ _ mapValue => mapValue

/-- The node with another description, if there is one. -/
def describedBy (description : Option String) : Node → Node
  | .mk facts properties items mapValue =>
    match description with
    | some d => .mk { facts with description := some d } properties items mapValue
    | none => .mk facts properties items mapValue

end Node

/-! ## Arranging properties -/

/-- Whether a property comes before another one. -/
def Property.precedes (p q : Property) : Bool :=
  p.name < q.name || (p.name = q.name && p.original < q.original)

/-- Sorted properties with one more. -/
def insertProperty {α : Type} (p : Property) (a : α) : List (Property × α) → List (Property × α)
  | [] => [(p, a)]
  | (q, b) :: rest =>
    if p.precedes q then (p, a) :: (q, b) :: rest else (q, b) :: insertProperty p a rest

/-- The properties of a table, sorted by identifier and then by name. -/
def sortProperties {α : Type} : List (String × α) → List (Property × α)
  | [] => []
  | (original, a) :: rest =>
    insertProperty ⟨Text.identifier original, original⟩ a (sortProperties rest)

/-- Sorted properties, the first one of every identifier; `taken` is the one before. -/
def distinctFrom {α : Type} (taken : Option String) :
    List (Property × α) → List (Property × α)
  | [] => []
  | (p, a) :: rest =>
    if taken = some p.name then distinctFrom taken rest
    else (p, a) :: distinctFrom (some p.name) rest

/-- The properties of a table, one for every identifier, in order. -/
def arrange {α : Type} (table : List (String × α)) : List (Property × α) :=
  distinctFrom none (sortProperties table)

/-- What is said about a property that is dropped because its identifier is taken. -/
def dropRemark (dropped kept : Property) : String :=
  "dropping property '" ++ dropped.original ++ "': identifier '" ++ dropped.name
    ++ "' already used by '" ++ kept.original ++ "'"

/-- The remarks about the sorted properties that are dropped; `kept` is the one before. -/
def dropRemarksFrom {α : Type} (kept : Option Property) : List (Property × α) → List String
  | [] => []
  | (p, _) :: rest =>
    match kept with
    | some q =>
      if q.name = p.name then dropRemark p q :: dropRemarksFrom kept rest
      else dropRemarksFrom (some p) rest
    | none => dropRemarksFrom (some p) rest

/-- The remarks about the properties of an object that are dropped. -/
def Facts.dropRemarks (f : Facts) : List String :=
  dropRemarksFrom none (sortProperties f.children.properties)

end ProviderSchema
