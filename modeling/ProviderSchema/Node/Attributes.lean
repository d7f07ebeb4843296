import ProviderSchema.Attribute.Basic
import ProviderSchema.Node.ElementType
import ProviderSchema.Node.Validators
import ProviderSchema.OpenApi.LineIndex

/-!
# Nodes as attributes

`Builder.attributes` makes one attribute of every property of an object, sorted by name;
`Builder.attributeNamed` makes a single attribute of any node. Properties at an ignored path are
left out. An error is told by the property it happened at and, if the lines of the document are
known, by the line of the innermost such property that has one.
-/

namespace ProviderSchema

open OpenApi

/-- What attributes are built for. -/
inductive Flavor where
  | resource
  | dataSource
  | provider
deriving DecidableEq, Repr

/-- Only resources have values for attributes that are not given. -/
def Flavor.hasDefaults (f : Flavor) : Bool := f = .resource

/-- The computability of a property that its object does not require. -/
def Flavor.unrequired : Flavor → Computability
  | .provider => .optional
  | .resource | .dataSource => .computedOptional

/-- The validators that a kind of scalar may have. -/
def ScalarKind.target? : ScalarKind → Option ValidatorTarget
  | .int64 => some .int64
  | .float64 => some .float64
  | .string => some .string
  | .bool | .number => none

/-- The validators that a kind of collection may have. -/
def CollectionKind.target : CollectionKind → ValidatorTarget
  | .list => .list
  | .set => .set
  | .map => .map

/-- Whether a scalar has a value if none is given. -/
def ScalarShape.hasDefault : ScalarShape → Bool
  | .bool default => default.isSome
  | .int64 default => default.isSome
  | .float64 default => default.isSome
  | .number default => default.isSome
  | .string default => default.isSome

/-- How attributes are built. -/
structure Builder where
  flavor : Flavor
  /-- The computability of all attributes, whatever their schemas say. -/
  forced : Option Computability := none
  /-- The paths of the properties that are left out. -/
  ignores : List String := []
  /-- The lines of the document, if errors are to name them. -/
  lines : Option LineIndex := none

namespace Builder

/-- The traits of an attribute before its shape is known. -/
def traits (b : Builder) (facts : Facts) (computability : Computability) : Traits :=
  { computability := b.forced.getD computability
    description := facts.description
    deprecation := if facts.isDeprecated then some deprecationMessage else none }

/-- The value of an attribute that is not given, if it is of the right kind. -/
def default? {α : Type} (b : Builder) (facts : Facts) (read : Json → Option α) : Option α :=
  if b.flavor.hasDefaults then facts.default?.bind read else none

/-- The shape of a scalar attribute. -/
def scalarShape (b : Builder) (facts : Facts) : ScalarKind → ScalarShape
  | .bool => .bool (b.default? facts Json.bool?)
  | .int64 => .int64 (b.default? facts Json.int64?)
  | .float64 => .float64 (b.default? facts Json.float?)
  | .number => .number (b.default? facts Json.float?)
  | .string => .string (b.default? facts Json.text?)

/-- The computability of an attribute that may have a default: one that has need not be set. -/
def withDefault (shape : ScalarShape) (computability : Computability) : Computability :=
  if shape.hasDefault ∧ (computability = .required ∨ computability = .optional) then
    .computedOptional
  else computability

/-- A scalar attribute. -/
def scalar (b : Builder) (name : String) (facts : Facts) (computability : Computability)
    (kind : ScalarKind) : Attribute :=
  let shape := b.scalarShape facts kind
  let traits := b.traits facts computability
  .scalar name
    { traits with
      computability := withDefault shape traits.computability
      sensitive := if kind = .string ∧ facts.isSensitive then some true else none
      validators := match kind.target? with
        | some target => facts.keywords.validators target
        | none => [] }
    shape

/-- The traits of a collection. -/
def collectionTraits (b : Builder) (facts : Facts) (computability : Computability)
    (kind : CollectionKind) : Traits :=
  { b.traits facts computability with validators := facts.keywords.validators kind.target }

/-- The computability of a property of an object. -/
def computabilityOf (b : Builder) (owner : Facts) (p : Property) : Computability :=
  if owner.isRequired p.original then .required else b.flavor.unrequired

/-- An error at a property of an object, as it is seen from outside the object. -/
def errorAt (b : Builder) (owner : Facts) (p : Property) (e : SchemaError) : SchemaError :=
  let line := match b.lines with
    | some lines =>
      if owner.location = [] then none
      else lines.locate (owner.location ++ ["properties", p.original])
    | none => none
  (e.inProperty p.name).withLine line

mutual

/-- The attribute of a node; `path` is the path of its name. -/
def named (b : Builder) (name : String) (computability : Computability) (path : String) :
    Node → Except SchemaError Attribute
  | .mk facts properties items mapValue =>
    match facts.kind with
    | .boolean => .ok (b.scalar name facts computability .bool)
    | .integer => .ok (b.scalar name facts computability .int64)
    | .string => .ok (b.scalar name facts computability .string)
    | .number => .ok (b.scalar name facts computability facts.numberKind)
    | .array =>
      let kind := facts.collectionKind
      let traits := b.collectionTraits facts computability kind
      match items with
      | .error e => .error e
      | .ok (.mk inner fields a v) =>
        if inner.isRecord then
          (propertyAttributes b inner path fields).map (.nested name traits kind)
        else (Node.elementType (.mk inner fields a v)).map (.collection name traits kind)
    | .object =>
      if facts.isMap then
        let traits := b.collectionTraits facts computability .map
        match mapValue with
        | .error e => .error e
        | .ok (.mk inner fields a v) =>
          if inner.isRecord then
            (propertyAttributes b inner path fields).map (.nested name traits .map)
          else (Node.elementType (.mk inner fields a v)).map (.collection name traits .map)
      else
        (propertyAttributes b facts path properties).map
          (.single name (b.traits facts computability))

/-- The attributes of the given properties of an object. -/
def propertyAttributes (b : Builder) (owner : Facts) (path : String) :
    List (Property × Except SchemaError Node) → Except SchemaError (List Attribute)
  | [] => .ok []
  | (p, .error e) :: rest =>
    if b.ignores.contains (below path p.name) then propertyAttributes b owner path rest
    else .error (b.errorAt owner p e)
  | (p, .ok child) :: rest =>
    if b.ignores.contains (below path p.name) then propertyAttributes b owner path rest
    else
      match named b p.name (b.computabilityOf owner p) (below path p.name) child with
      | .error e => .error (b.errorAt owner p e)
      | .ok built => (propertyAttributes b owner path rest).map (built :: ·)

end

/-- One attribute for every property of a node, which has to be an object. -/
def attributes (b : Builder) (node : Node) : Except SchemaError (List Attribute) :=
  if node.facts.kind = .object then b.propertyAttributes node.facts "" node.properties
  else .error { fault := .invalidType node.facts.kind.name }

/-- A single attribute for a node of any kind. -/
def attributeNamed (b : Builder) (name : String) (node : Node) (computability : Computability) :
    Except SchemaError Attribute :=
  (b.named name computability name node).mapError (SchemaError.inProperty name)

end Builder

end ProviderSchema
