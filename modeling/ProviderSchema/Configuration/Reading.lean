import ProviderSchema.Configuration.Basic
import ProviderSchema.Yaml.ShapedReading

/-!
# Reading configurations

A configuration is a YAML document. Fields that it does not know are passed over, and everything but
the provider and its name may be left out.
-/

namespace ProviderSchema

open OpenApi (OperationTarget)

namespace OpenApi.OperationTarget

/-- The fields of an operation. -/
def fields : List (String × Presence × Shape) :=
  [("path", .required, .text), ("method", .required, .text)]

/-- The shape of an operation. -/
def shape : Shape := .record "operation" fields

/-- An operation from its content. -/
def ofContent? (content : Content) : Option OperationTarget := do
  let f ← content.fields? (fields.map fun field => (field.1, field.2.1))
  return { path := ← f.required 0 Content.text?, method := ← f.required 1 Content.text? }

end OpenApi.OperationTarget

namespace AttributeOverride

/-- The fields of an override. -/
def fields : List (String × Presence × Shape) := [("description", .defaulted, .optional .text)]

/-- The shape of an override. -/
def shape : Shape := .record "override" fields

/-- An override from its content. -/
def ofContent? (content : Content) : Option AttributeOverride := do
  let f ← content.fields? (fields.map fun field => (field.1, field.2.1))
  return { description := ← f.optional 0 Content.text? }

end AttributeOverride

namespace AttributeOptions

/-- The fields of what is said about attributes. -/
def fields : List (String × Presence × Shape) :=
  [("aliases", .defaulted, .table .text),
    ("overrides", .defaulted, .table AttributeOverride.shape)]

/-- The shape of what is said about attributes. -/
def shape : Shape := .record "attributes" fields

/-- What is said about attributes, from its content. -/
def ofContent? (content : Content) : Option AttributeOptions := do
  let f ← content.fields? (fields.map fun field => (field.1, field.2.1))
  return {
    aliases := ← f.defaulted 0 [] (Content.table? Content.text?)
    overrides := ← f.defaulted 1 [] (Content.table? AttributeOverride.ofContent?) }

end AttributeOptions

namespace SchemaOptions

/-- The fields of what is said about a schema. -/
def fields : List (String × Presence × Shape) :=
  [("ignores", .defaulted, .list .text), ("attributes", .defaulted, AttributeOptions.shape)]

/-- The shape of what is said about a schema. -/
def shape : Shape := .record "schema" fields

/-- What is said about a schema, from its content. -/
def ofContent? (content : Content) : Option SchemaOptions := do
  let f ← content.fields? (fields.map fun field => (field.1, field.2.1))
  return {
    ignores := ← f.defaulted 0 [] Content.textList?
    attributes := ← f.defaulted 1 {} AttributeOptions.ofContent? }

end SchemaOptions

namespace ProviderConfiguration

/-- The fields of the provider. -/
def fields : List (String × Presence × Shape) :=
  [("name", .required, .text), ("schema_ref", .defaulted, .optional .text),
    ("ignores", .defaulted, .list .text)]

/-- The shape of the provider. -/
def shape : Shape := .record "provider" fields

/-- The provider from its content. -/
def ofContent? (content : Content) : Option ProviderConfiguration := do
  let f ← content.fields? (fields.map fun field => (field.1, field.2.1))
  return {
    name := ← f.required 0 Content.text?
    schemaReference := ← f.optional 1 Content.text?
    ignores := ← f.defaulted 2 [] Content.textList? }

end ProviderConfiguration

namespace ResourceConfiguration

/-- The fields of a resource. -/
def fields : List (String × Presence × Shape) :=
  [("create", .optional, .optional OperationTarget.shape),
    ("read", .optional, .optional OperationTarget.shape),
    ("update", .defaulted, .optional OperationTarget.shape),
    ("delete", .defaulted, .optional OperationTarget.shape),
    ("schema", .defaulted, SchemaOptions.shape)]

/-- The shape of a resource. -/
def shape : Shape := .record "resource" fields

/-- A resource from its content. -/
def ofContent? (content : Content) : Option ResourceConfiguration := do
  let f ← content.fields? (fields.map fun field => (field.1, field.2.1))
  return {
    create := ← f.optional 0 OperationTarget.ofContent?
    read := ← f.optional 1 OperationTarget.ofContent?
    update := ← f.optional 2 OperationTarget.ofContent?
    delete := ← f.optional 3 OperationTarget.ofContent?
    schema := ← f.defaulted 4 {} SchemaOptions.ofContent? }

end ResourceConfiguration

namespace DataSourceConfiguration

/-- The fields of a data source. -/
def fields : List (String × Presence × Shape) :=
  [("read", .optional, .optional OperationTarget.shape),
    ("schema", .defaulted, SchemaOptions.shape)]

/-- The shape of a data source. -/
def shape : Shape := .record "data source" fields

/-- A data source from its content. -/
def ofContent? (content : Content) : Option DataSourceConfiguration := do
  let f ← content.fields? (fields.map fun field => (field.1, field.2.1))
  return {
    read := ← f.optional 0 OperationTarget.ofContent?
    schema := ← f.defaulted 1 {} SchemaOptions.ofContent? }

end DataSourceConfiguration

namespace Configuration

/-- The fields of a configuration. -/
def fields : List (String × Presence × Shape) :=
  [("provider", .required, ProviderConfiguration.shape),
    ("resources", .defaulted, .table ResourceConfiguration.shape),
    ("data_sources", .defaulted, .table DataSourceConfiguration.shape)]

/-- The shape of a configuration. -/
def shape : Shape := .record "configuration" fields

/-- A configuration from its content. -/
def ofContent? (content : Content) : Option Configuration := do
  let f ← content.fields? (fields.map fun field => (field.1, field.2.1))
  return {
    provider := ← f.required 0 ProviderConfiguration.ofContent?
    resources := ← f.defaulted 1 [] (Content.table? ResourceConfiguration.ofContent?)
    dataSources := ← f.defaulted 2 [] (Content.table? DataSourceConfiguration.ofContent?) }

/-- The configuration that a text stands for. -/
def read? (text : String) : Option Configuration := (Yaml.contentOf? shape text).bind ofContent?

end Configuration

end ProviderSchema
