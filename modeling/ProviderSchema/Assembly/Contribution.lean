import ProviderSchema.Attribute.Lookup
import ProviderSchema.Configuration.Basic
import ProviderSchema.Node.Attributes
import ProviderSchema.Node.Resolution

/-!
# What operations contribute

The attributes of a resource or a data source come from the bodies and the parameters of its
operations. A body that may be missing contributes nothing if it is. Parameters in a path or a query
contribute one attribute each, named by an alias if there is one.
-/

namespace ProviderSchema

open OpenApi

/-! ## Bodies -/

/-- A body that contributes attributes. -/
structure Body where
  operation : ExploredOperation
  schema : Except SchemaError Schema
  /-- The computability of all its attributes, whatever the schema says. -/
  forced : Option Computability := none
  /-- Whether it is no error if there is no body. -/
  mayBeMissing : Bool := false

namespace Builder

/-- The attributes of a schema. -/
def schemaAttributes (b : Builder) (schema : Schema) : Except SchemaError (List Attribute) :=
  match schema.node with
  | .error e => .error e
  | .ok node => b.attributes node

/-- The attributes of a body. An error that has no line yet is told by that of the operation. -/
def bodyAttributes (b : Builder) (body : Body) : Except SchemaError (List Attribute) :=
  let b := { b with forced := body.forced }
  let result := match body.schema with
    | .ok schema => b.schemaAttributes schema
    | .error e => if body.mayBeMissing && e.isNotFound then .ok [] else .error e
  result.mapError (SchemaError.withLine (body.operation.line b.lines))

/-! ## Parameters -/

/-- How parameters become attributes. -/
inductive ParameterRole where
  /-- What a resource is looked up by: given or computed. -/
  | lookup
  /-- What a data source is given: required if the parameter is. -/
  | argument
deriving DecidableEq, Repr

/-- Whether a parameter contributes an attribute at all. -/
def contributes (p : Parameter) : Bool := p.place = .path || p.place = .query

/-- The name of the attribute of a parameter. -/
def parameterName (aliases : List (String × String)) (p : Parameter) : String :=
  let identifier := Text.identifier p.name
  match Table.get? aliases p.name with
  | some name => name
  | none => (Table.get? aliases identifier).getD identifier

/-- The forced computability of the attributes of a parameter, and that of the attribute itself. -/
def parameterComputability (role : ParameterRole) (p : Parameter) :
    Option Computability × Computability :=
  match role with
  | .lookup => (some .computedOptional, .computedOptional)
  | .argument => (none, if p.required then .required else .computedOptional)

/-- The attribute of a parameter with a schema. -/
def parameterAttribute (b : Builder) (role : ParameterRole) (name : String) (p : Parameter)
    (schema : Schema) : Except SchemaError Attribute :=
  let (forced, computability) := parameterComputability role p
  match schema.node with
  | .error e => .error (e.inProperty name)
  | .ok node =>
    let b := { b with forced }
    match b.attributeNamed name (node.describedBy p.description) computability with
    | .error e => .error e
    | .ok a =>
      .ok (if p.deprecated = some true then
        a.mapTraits fun t => { t with deprecation := some deprecationMessage }
      else a)

/-- The attributes of parameters. -/
def parameterAttributes (b : Builder) (role : ParameterRole) (options : SchemaOptions) :
    List Parameter → Except SchemaError (List Attribute)
  | [] => .ok []
  | p :: rest =>
    let name := parameterName options.attributes.aliases p
    if !contributes p || options.ignores.contains name then
      parameterAttributes b role options rest
    else
      match p.schema with
      | none => parameterAttributes b role options rest
      | some schema =>
        match b.parameterAttribute role name p schema with
        | .error e => .error e
        | .ok a => (parameterAttributes b role options rest).map (a :: ·)

/-- The attributes of the parameters of an operation. -/
def operationParameters (b : Builder) (role : ParameterRole) (options : SchemaOptions)
    (o : ExploredOperation) : Except SchemaError (List Attribute) :=
  (b.parameterAttributes role options o.parameters).mapError
    (SchemaError.withLine (o.line b.lines))

end Builder

/-! ## Overrides -/

/-- The attributes with what an override replaces. -/
def AttributeOverride.apply (o : AttributeOverride) (path : String)
    (attributes : List Attribute) : List Attribute :=
  match o.description with
  | none => attributes
  | some description =>
    (Attribute.update? attributes path (Attribute.describedAs description)).getD attributes

/-- The attributes with what overrides replace. -/
def applyOverrides (overrides : List (String × AttributeOverride)) (attributes : List Attribute) :
    List Attribute :=
  overrides.foldl (fun attributes entry => entry.2.apply entry.1 attributes) attributes

end ProviderSchema
