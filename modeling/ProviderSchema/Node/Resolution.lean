import ProviderSchema.Node.Basic

/-!
# From schemas to nodes

`Schema.node` finds the one kind of value that a schema stands for. A single member of `allOf` is a
wrapper around that member. Of the two members of a union, or of two type names, one survives: that
which is not `null`, or the text if the other one may be passed as text (`survivor`). Every step
deeper into a schema counts, and `maxSchemaDepth` steps are allowed.
-/

namespace ProviderSchema

open OpenApi

/-- How many steps may lead from a root schema to a schema below it. -/
def maxSchemaDepth : Nat := 64

/-- The kind that a type name stands for; `null` is no kind of its own. -/
def SchemaKind.ofType : TypeName → Except SchemaError (Option SchemaKind)
  | .string => .ok (some .string)
  | .integer => .ok (some .integer)
  | .number => .ok (some .number)
  | .boolean => .ok (some .boolean)
  | .array => .ok (some .array)
  | .object => .ok (some .object)
  | .null => .ok none
  | .other name => .error { fault := .invalidType name }

/-- The first or the second of two. -/
inductive Side where
  | first
  | second
deriving DecidableEq, Repr

/-- The one of the two that a side means. -/
def Side.pick {α : Type} (a b : α) : Side → α
  | .first => a
  | .second => b

/-- Which of two kinds stands for both; `none` is `null`. -/
def survivor : Option SchemaKind → Option SchemaKind → Except SchemaError Side
  | none, _ => .ok .second
  | _, none => .ok .first
  | some a, some b =>
    if a = .string && b.isStringable then .ok .first
    else if b = .string && a.isStringable then .ok .second
    else .error { fault := .severalTypes [a.name, b.name] }

/-- The kind that a list of type names stands for; without names, properties make an object. -/
def kindOf (types : List TypeName) (hasProperties : Bool) :
    Except SchemaError (Option SchemaKind) :=
  match types with
  | [] =>
    if hasProperties then .ok (some .object) else .error { fault := .noTypeOrComposition }
  | [t] => SchemaKind.ofType t
  | [t, u] =>
    match SchemaKind.ofType t with
    | .error e => .error e
    | .ok a =>
      match SchemaKind.ofType u with
      | .error e => .error e
      | .ok b => (survivor a b).map (Side.pick a b)
  | types => .error { fault := .severalTypes (types.map TypeName.text) }

/-- A member of a union: nothing but `null`, or a node. -/
inductive Branch where
  | null
  | node (node : Node)

namespace Branch

/-- The kind of a branch; `null` alone has none. -/
def kind? : Branch → Option SchemaKind
  | .null => none
  | .node n => some n.facts.kind

/-- The branch with another description, if there is one and a node to take it. -/
def describedBy (description : Option String) : Branch → Branch
  | .null => .null
  | .node n => .node (n.describedBy description)

/-- The node of a branch; `null` alone is no node. -/
def toNode : Branch → Except SchemaError Node
  | .null => .error { fault := .invalidType "null" }
  | .node n => .ok n

/-- The member of a union of two that survives. -/
def ofPair (first second : Except SchemaError Branch) : Except SchemaError Branch :=
  match first with
  | .error e => .error e
  | .ok a =>
    match second with
    | .error e => .error e
    | .ok b => (survivor a.kind? b.kind?).map (Side.pick a b)

end Branch

/-- The reason why map values have no node: a value without a type is none. -/
def mapValueError (e : SchemaError) : SchemaError :=
  match e.fault with
  | .noTypeOrComposition => { e with fault := .noMapValue }
  | _ => e

/-- The location of a schema that may be the copy of a component. -/
def OpenApi.Keywords.location (k : Keywords) (location : List String) : List String :=
  match k.origin with
  | some name => ["components", "schemas", name]
  | none => location

namespace OpenApi.Schema

mutual

/-- The branch that a schema stands for, `depth` steps below the root and at a location. -/
def branch (depth : Nat) (location : List String) : Schema → Except SchemaError Branch
  | .reference target =>
    if maxSchemaDepth < depth then .error { fault := .tooDeep maxSchemaDepth }
    else .error { fault := .unresolvedReference target }
  | .inline keywords ⟨properties, additional, items, allOf, oneOf, anyOf⟩ =>
    if maxSchemaDepth < depth then .error { fault := .tooDeep maxSchemaDepth }
    else
      let location := keywords.location location
      match allOf, anyOf, oneOf with
      | [inner], [], [] =>
        (branch (depth + 1) location inner).map (Branch.describedBy keywords.description)
      | _ :: _, _, _ => .error { fault := .compositionUnsupported allOf.length "allOf" }
      | [], [a, b], [] =>
        (Branch.ofPair (branch (depth + 1) location a) (branch (depth + 1) location b)).map
          (Branch.describedBy keywords.description)
      | [], _ :: _, _ => .error { fault := .compositionUnsupported anyOf.length "anyOf" }
      | [], [], [a, b] =>
        (Branch.ofPair (branch (depth + 1) location a) (branch (depth + 1) location b)).map
          (Branch.describedBy keywords.description)
      | [], [], _ :: _ => .error { fault := .compositionUnsupported oneOf.length "oneOf" }
      | [], [], [] =>
        match kindOf ((keywords.type.map TypeSet.types).getD []) !properties.isEmpty with
        | .error e => .error e
        | .ok none => .ok .null
        | .ok (some kind) =>
          let children : Children Schema := ⟨properties, additional, items, allOf, oneOf, anyOf⟩
          let facts : Facts :=
            ⟨kind, keywords, children, keywords.description, location, depth⟩
          let itemNode := match items with
            | some (.schema s) =>
              (branch (depth + 1) (locationBelow location ["items"]) s).bind Branch.toNode
            | _ => .error { fault := .noItems }
          let valueNode := match additional with
            | some (.schema s) =>
              ((branch (depth + 1) (locationBelow location ["additionalProperties"]) s).bind
                Branch.toNode).mapError mapValueError
            | _ => .error { fault := .noMapValue }
          .ok (.node (.mk facts (arrange (propertyNodes (depth + 1) location properties))
            itemNode valueNode))

/-- The nodes of a table of properties; `location` is that of their owner. -/
def propertyNodes (depth : Nat) (location : List String) :
    List (String × Schema) → List (String × Except SchemaError Node)
  | [] => []
  | (name, schema) :: rest =>
    (name,
      (branch depth (locationBelow location ["properties", name]) schema).bind Branch.toNode)
      :: propertyNodes depth location rest

end

/-- The node of a root schema. -/
def node (schema : Schema) : Except SchemaError Node :=
  (branch 0 [] schema).bind Branch.toNode

end OpenApi.Schema

end ProviderSchema
