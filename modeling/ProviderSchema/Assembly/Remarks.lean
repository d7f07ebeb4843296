import ProviderSchema.Assembly.Generation
import ProviderSchema.Node.Remarks

/-!
# Remarks about generating

What is said while a provider is generated, in the order in which it happens. Warnings tell what is
skipped; everything else is said for whoever wants to know why a schema looks as it does. Nothing is
said about an entry after the point at which it fails.
-/

namespace ProviderSchema

open OpenApi

/-- How important a remark is. -/
inductive RemarkLevel where
  | warn
  | debug
deriving DecidableEq, Repr

/-- The name that a remark begins with. -/
def RemarkLevel.name : RemarkLevel → String
  | .warn => "WARN"
  | .debug => "DEBUG"

/-- A remark. -/
structure Remark where
  level : RemarkLevel
  text : String
deriving DecidableEq, Repr

/-- A remark as a line, its level first. -/
def Remark.message (r : Remark) : String := r.level.name ++ " " ++ r.text

namespace Builder

/-- The remarks about the attributes of a body. -/
def bodyRemarks (b : Builder) (body : Body) : List String :=
  match body.schema.bind Schema.node with
  | .error _ => []
  | .ok node => { b with forced := body.forced }.remarks node

/-- The remarks about the attributes of bodies, up to the first that fails. -/
def bodiesRemarks (b : Builder) : List Body → List String
  | [] => []
  | body :: rest =>
    b.bodyRemarks body ++
      match b.bodyAttributes body with
      | .error _ => []
      | .ok _ => bodiesRemarks b rest

/-- The remarks about the attribute of a parameter with a schema. -/
def parameterRemarks (b : Builder) (role : ParameterRole) (name : String) (p : Parameter)
    (schema : Schema) : List String :=
  match schema.node with
  | .error _ => []
  | .ok node => { b with forced := (parameterComputability role p).1 }.namedRemarks name node

/-- The remarks about the attributes of parameters. -/
def parametersRemarks (b : Builder) (role : ParameterRole) (options : SchemaOptions) :
    List Parameter → List String
  | [] => []
  | p :: rest =>
    let name := parameterName options.attributes.aliases p
    if !contributes p then parametersRemarks b role options rest
    else if options.ignores.contains name then
      ("ignoring parameter '" ++ p.name ++ "'") :: parametersRemarks b role options rest
    else
      match p.schema with
      | none =>
        ("skipping parameter '" ++ p.name ++ "' without a schema")
          :: parametersRemarks b role options rest
      | some schema =>
        b.parameterRemarks role name p schema ++
          match b.parameterAttribute role name p schema with
          | .error _ => []
          | .ok _ => parametersRemarks b role options rest

end Builder

/-- What is said about a disagreement between two sources of an entry. -/
def Mismatch.remark (owner : String) (m : Mismatch) : String :=
  owner ++ ": keeping " ++ m.target ++ " for '" ++ m.path ++ "', ignoring lower priority "
    ++ m.source

/-- The remarks about overrides of attributes that do not exist. -/
def overrideRemarks (owner : String) (overrides : List (String × AttributeOverride))
    (attributes : List Attribute) : List String :=
  overrides.filterMap fun (path, _) =>
    match Attribute.find? attributes path with
    | some _ => none
    | none => some (owner ++ ": override for unknown attribute '" ++ path ++ "'")

/-- The remarks about merging what an entry is made of, and about its overrides. -/
def mergeRemarks (owner : String) (options : SchemaOptions) (target : List Attribute)
    (sources : List (List Attribute)) : List String :=
  (attributeMismatches target sources).map (Mismatch.remark owner)
    ++ overrideRemarks owner options.attributes.overrides (mergeAttributes target sources)

namespace Source

/-- The remarks about the provider. -/
def providerRemarks (s : Source) (c : ProviderConfiguration) : List String :=
  match c.schemaReference with
  | none => []
  | some target =>
    match Reference.name "schemas" target with
    | .error _ => []
    | .ok name =>
      match s.providerNode name target with
      | .error _ => []
      | .ok node => (s.providerBuilder c).remarks node

/-- The remarks about a resource. -/
def resourceRemarks (s : Source) (name : String) (c : ResourceConfiguration) : List String :=
  match s.resourceOperations name c with
  | .error _ => []
  | .ok o =>
    let b := s.entryBuilder .resource c.schema
    let bodies := o.primary :: o.others
    b.bodiesRemarks bodies ++
      (if bodies.all fun body => (b.bodyAttributes body).isOk then
        b.parametersRemarks .lookup c.schema o.read.parameters
      else [])
      ++ match s.resourceContributions c o with
        | .error _ => []
        | .ok (primary, others) => mergeRemarks name c.schema primary others

/-- The remarks about a data source. -/
def dataSourceRemarks (s : Source) (name : String) (c : DataSourceConfiguration) : List String :=
  match s.operation name "read" c.read with
  | .error _ => []
  | .ok o =>
    let b := s.entryBuilder .dataSource c.schema
    b.parametersRemarks .argument c.schema o.parameters ++
      (match b.operationParameters .argument c.schema o, o.responseSchema.bind Schema.node with
        | .ok _, .ok node =>
          let b := { b with forced := some .computed }
          if node.facts.kind = .array then b.namedRemarks (Text.identifier name) node
          else b.remarks node
        | _, _ => [])
      ++ match s.dataSourceContributions name c o with
        | .error _ => []
        | .ok (parameters, response) => mergeRemarks name c.schema parameters [response]

end Source

/-- The remarks about entries one after the other, each skip at the end of its entry. -/
def entriesRemarks {α : Type} (kind : EntryKind)
    (attributes : String → α → Except GenerationError (List Attribute))
    (remarks : String → α → List String) (entries : List (String × α)) : List Remark :=
  entries.flatMap fun (name, config) =>
    (remarks name config).map (⟨.debug, ·⟩)
      ++ match attributes name config with
        | .ok _ => []
        | .error e => [⟨.warn, (Skipped.mk kind name e).message⟩]

/-- Everything that is said while a provider is generated. -/
def generationRemarks (d : Description) (c : Configuration) (lines : Option LineIndex) :
    List Remark :=
  let s := Source.ofDescription d lines
  (d.unresolved ++ s.providerRemarks c.provider).map (⟨.debug, ·⟩)
    ++ match s.provider c.provider with
      | .error _ => []
      | .ok _ =>
        entriesRemarks .resource s.resource s.resourceRemarks c.resources
          ++ entriesRemarks .dataSource s.dataSource s.dataSourceRemarks c.dataSources

end ProviderSchema
