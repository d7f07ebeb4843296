import ProviderSchema.Assembly.Contribution
import ProviderSchema.Assembly.Specification
import ProviderSchema.Attribute.Merge
import ProviderSchema.OpenApi.Inlining

/-!
# Generating a provider

`generate` compiles a description into the specification of the provider that a configuration asks
for. A resource is what its operations contribute, merged in order of priority: the request and the
response that create it, the response that reads it, the request that updates it and the parameters
by which it is read. A data source is its parameters merged with its response.

A resource or a data source that cannot be generated is skipped and does not affect the others. If
the schema of the provider itself fails, nothing is generated.
-/

namespace ProviderSchema

open OpenApi

/-- Why a provider, a resource or a data source is not generated. -/
inductive GenerationError where
  | reference (e : ReferenceError)
  | exploration (e : ExplorationError)
  | schema (e : SchemaError)
  | provider (e : SchemaError)
deriving DecidableEq, Repr, Inhabited

/-- What is said about an error. -/
def GenerationError.message : GenerationError → String
  | .reference e => "resolve error: " ++ e.message
  | .exploration e => e.message
  | .schema e => e.message
  | .provider e => "provider schema: " ++ e.message

/-- Whether something skipped is a resource or a data source. -/
inductive EntryKind where
  | resource
  | dataSource
deriving DecidableEq, Repr, Inhabited

/-- What an entry of a kind is called in a summary. -/
def EntryKind.name : EntryKind → String
  | .resource => "resource"
  | .dataSource => "data source"

/-- A resource or a data source that is not generated. -/
structure Skipped where
  kind : EntryKind
  name : String
  error : GenerationError
deriving DecidableEq, Repr, Inhabited

/-- What is said about an entry that is skipped. -/
def Skipped.message (s : Skipped) : String :=
  "skipping '" ++ s.name ++ "': " ++ s.error.message

/-- A specification, and what it lacks. -/
structure Generated where
  specification : Specification
  skipped : List Skipped
deriving Repr, Inhabited

/-- What entries are generated from: a description without references, and the lines of its text if
errors are to name them. -/
structure Source where
  description : Description
  lines : Option LineIndex := none

namespace Source

/-! ## The provider -/

/-- How the attributes of the provider are built. -/
def providerBuilder (s : Source) (c : ProviderConfiguration) : Builder :=
  { flavor := .provider, ignores := c.ignores, lines := s.lines }

/-- The node of the component schema of the provider. -/
def providerNode (s : Source) (name target : String) : Except SchemaError Node :=
  match Table.get? s.description.schemas name with
  | none => .error { fault := .notFound target }
  | some schema => schema.node

/-- The provider. -/
def provider (s : Source) (c : ProviderConfiguration) : Except GenerationError ProviderEntry :=
  match c.schemaReference with
  | none => .ok ⟨c.name, none⟩
  | some target =>
    match Reference.name "schemas" target with
    | .error e => .error (.reference e)
    | .ok name =>
      let line := s.lines.bind fun index => index.locate ["components", "schemas", name]
      match (s.providerNode name target).bind (s.providerBuilder c).attributes with
      | .error e => .error (.provider (e.withLine line))
      | .ok attributes => .ok ⟨c.name, some attributes⟩

/-! ## Operations -/

/-- An operation that an entry must have. -/
def operation (s : Source) (owner field : String) :
    Option OperationTarget → Except ExplorationError ExploredOperation
  | none => .error (.invalidOperation
      ("'" ++ owner ++ "' has no " ++ field ++ " operation configured"))
  | some target => s.description.explore target

/-- An operation that an entry may have. -/
def operation? (s : Source) :
    Option OperationTarget → Except ExplorationError (Option ExploredOperation)
  | none => .ok none
  | some target => (s.description.explore target).map some

/-! ## Resources -/

/-- The operations of a resource. -/
structure ResourceOperations where
  create : ExploredOperation
  read : ExploredOperation
  update : Option ExploredOperation

/-- The operations of a resource: one to create it, one to read it, and maybe one to update it. -/
def resourceOperations (s : Source) (name : String) (c : ResourceConfiguration) :
    Except ExplorationError ResourceOperations :=
  match s.operation name "create" c.create with
  | .error e => .error e
  | .ok create =>
    match s.operation name "read" c.read with
    | .error e => .error e
    | .ok read =>
      match s.operation? c.update with
      | .error e => .error e
      | .ok update => .ok ⟨create, read, update⟩

/-- The body that a resource is created from. -/
def ResourceOperations.primary (o : ResourceOperations) : Body :=
  { operation := o.create, schema := o.create.requestSchema }

/-- The other bodies of a resource, in order of priority. -/
def ResourceOperations.others (o : ResourceOperations) : List Body :=
  [{ operation := o.create, schema := o.create.responseSchema, forced := some .computed,
     mayBeMissing := true },
   { operation := o.read, schema := o.read.responseSchema, forced := some .computed,
     mayBeMissing := true }]
    ++ match o.update with
      | some update =>
        [{ operation := update, schema := update.requestSchema,
           forced := some .computedOptional, mayBeMissing := true }]
      | none => []

/-- How the attributes of an entry are built. -/
def entryBuilder (s : Source) (flavor : Flavor) (options : SchemaOptions) : Builder :=
  { flavor, ignores := options.ignores, lines := s.lines }

/-- What the bodies and parameters of a resource contribute, in order of priority. -/
def resourceContributions (s : Source) (c : ResourceConfiguration) (o : ResourceOperations) :
    Except SchemaError (List Attribute × List (List Attribute)) :=
  let b := s.entryBuilder .resource c.schema
  match b.bodyAttributes o.primary with
  | .error e => .error e
  | .ok primary =>
    match o.others.mapM b.bodyAttributes with
    | .error e => .error e
    | .ok bodies =>
      match b.operationParameters .lookup c.schema o.read with
      | .error e => .error e
      | .ok parameters => .ok (primary, bodies ++ [parameters])

/-- The attributes of a resource. -/
def resource (s : Source) (name : String) (c : ResourceConfiguration) :
    Except GenerationError (List Attribute) :=
  match s.resourceOperations name c with
  | .error e => .error (.exploration e)
  | .ok operations =>
    match s.resourceContributions c operations with
    | .error e => .error (.schema e)
    | .ok (primary, others) =>
      .ok (applyOverrides c.schema.attributes.overrides (mergeAttributes primary others))

/-! ## Data sources -/

/-- The attributes of a response. A list is one attribute that has the name of the data source. -/
def responseAttributes (b : Builder) (name : String) (node : Node) :
    Except SchemaError (List Attribute) :=
  if node.facts.kind = .array then
    (b.attributeNamed (Text.identifier name) node .computed).map fun a => [a]
  else b.attributes node

/-- What the parameters and the response of a data source contribute. -/
def dataSourceContributions (s : Source) (name : String) (c : DataSourceConfiguration)
    (o : ExploredOperation) : Except SchemaError (List Attribute × List Attribute) :=
  let b := s.entryBuilder .dataSource c.schema
  match b.operationParameters .argument c.schema o with
  | .error e => .error e
  | .ok parameters =>
    let response : Except SchemaError (List Attribute) :=
      match o.responseSchema.bind Schema.node with
      | .error e => .error e
      | .ok node => responseAttributes { b with forced := some .computed } name node
    match response with
    | .error e => .error (e.withLine (o.line s.lines))
    | .ok response => .ok (parameters, response)

/-- The attributes of a data source. -/
def dataSource (s : Source) (name : String) (c : DataSourceConfiguration) :
    Except GenerationError (List Attribute) :=
  match s.operation name "read" c.read with
  | .error e => .error (.exploration e)
  | .ok read =>
    match s.dataSourceContributions name c read with
    | .error e => .error (.schema e)
    | .ok (parameters, response) =>
      .ok (applyOverrides c.schema.attributes.overrides (mergeAttributes parameters [response]))

end Source

/-! ## All entries -/

/-- Entries one after the other: those that are generated, and those that are skipped. -/
def generateEntries {α : Type} (kind : EntryKind)
    (attributes : String → α → Except GenerationError (List Attribute)) :
    List (String × α) → List SchemaEntry × List Skipped
  | [] => ([], [])
  | (name, config) :: rest =>
    let (entries, skipped) := generateEntries kind attributes rest
    match attributes name config with
    | .ok built => (⟨name, built⟩ :: entries, skipped)
    | .error e => (entries, ⟨kind, name, e⟩ :: skipped)

/-- The source of a description with its references. -/
def Source.ofDescription (d : Description) (lines : Option LineIndex) : Source :=
  ⟨d.inlined, lines⟩

/-- The provider that a configuration asks for. -/
def generate (d : Description) (c : Configuration) (lines : Option LineIndex) :
    Except GenerationError Generated :=
  let s := Source.ofDescription d lines
  match s.provider c.provider with
  | .error e => .error e
  | .ok provider =>
    let (resources, skippedResources) := generateEntries .resource s.resource c.resources
    let (dataSources, skippedSources) := generateEntries .dataSource s.dataSource c.dataSources
    .ok {
      specification := { provider, resources, dataSources }
      skipped := skippedResources ++ skippedSources }

end ProviderSchema
