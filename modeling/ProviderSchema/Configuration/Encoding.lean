import ProviderSchema.Configuration.Basic

/-!
# Writing configurations

A configuration is written back as a JSON value. The two operations that a resource needs and the
options of its schema are always written.
-/

namespace ProviderSchema

open Json (member? listMember? objectMember?)
open OpenApi (OperationTarget)

/-- An operation as a JSON value. -/
def OpenApi.OperationTarget.toJson (o : OperationTarget) : Json :=
  .object [("path", .text o.path), ("method", .text o.method)]

/-- An override as a JSON value. -/
def AttributeOverride.toJson (o : AttributeOverride) : Json :=
  .object (member? "description" (o.description.map .text))

/-- What is said about attributes as a JSON value; empty tables are written too. -/
def AttributeOptions.toJson (o : AttributeOptions) : Json :=
  .object [
    ("aliases", .object (o.aliases.map fun (name, value) => (name, .text value))),
    ("overrides", .object (o.overrides.map fun (path, value) => (path, value.toJson)))]

/-- What is said about a schema as a JSON value. -/
def SchemaOptions.toJson (o : SchemaOptions) : Json :=
  .object [("ignores", .array (o.ignores.map .text)), ("attributes", o.attributes.toJson)]

/-- The provider as a JSON value. -/
def ProviderConfiguration.toJson (p : ProviderConfiguration) : Json :=
  .object (
    [("name", .text p.name)]
      ++ member? "schema_ref" (p.schemaReference.map .text)
      ++ listMember? "ignores" (p.ignores.map .text))

/-- An operation that is written as `null` if there is none. -/
def operationMember (name : String) (o : Option OperationTarget) : String × Json :=
  (name, (o.map OperationTarget.toJson).getD .null)

/-- A resource as a JSON value. -/
def ResourceConfiguration.toJson (r : ResourceConfiguration) : Json :=
  .object (
    [operationMember "create" r.create, operationMember "read" r.read]
      ++ member? "update" (r.update.map OperationTarget.toJson)
      ++ member? "delete" (r.delete.map OperationTarget.toJson)
      ++ [("schema", r.schema.toJson)])

/-- A data source as a JSON value. -/
def DataSourceConfiguration.toJson (d : DataSourceConfiguration) : Json :=
  .object [operationMember "read" d.read, ("schema", d.schema.toJson)]

/-- A configuration as a JSON value. -/
def Configuration.toJson (c : Configuration) : Json :=
  .object (
    [("provider", c.provider.toJson)]
      ++ objectMember? "resources" (c.resources.map fun (name, r) => (name, r.toJson))
      ++ objectMember? "data_sources" (c.dataSources.map fun (name, d) => (name, d.toJson)))

end ProviderSchema
