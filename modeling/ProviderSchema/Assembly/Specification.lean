import ProviderSchema.Attribute.Encoding
import ProviderSchema.Attribute.Lookup

/-!
# Provider specifications

The document that the compiler produces: the schemas of a provider, of its resources and of its data
sources, each of them an ordered tree of attributes.
-/

namespace ProviderSchema

/-- The version of the format of the document. -/
def specificationVersion : String := "0.1"

/-- A resource or a data source. -/
structure SchemaEntry where
  name : String
  attributes : List Attribute
deriving Repr, Inhabited

/-- The provider itself, which need not have a schema. -/
structure ProviderEntry where
  name : String
  attributes : Option (List Attribute) := none
deriving Repr, Inhabited

/-- A provider with its resources and data sources. -/
structure Specification where
  version : String := specificationVersion
  provider : ProviderEntry
  resources : List SchemaEntry
  dataSources : List SchemaEntry
deriving Repr, Inhabited

/-- A schema as a JSON value. -/
def schemaToJson (attributes : List Attribute) : Json :=
  .object [("attributes", .array (Attribute.listToJson attributes))]

/-- An entry as a JSON value. -/
def SchemaEntry.toJson (e : SchemaEntry) : Json :=
  .object [("name", .text e.name), ("schema", schemaToJson e.attributes)]

/-- The provider as a JSON value; without a schema of its own it has its name only. -/
def ProviderEntry.toJson (p : ProviderEntry) : Json :=
  .object ([("name", .text p.name)] ++ Json.member? "schema" (p.attributes.map schemaToJson))

namespace Specification

/-- The specification as a JSON value. -/
def toJson (s : Specification) : Json :=
  .object [
    ("version", .text s.version),
    ("provider", s.provider.toJson),
    ("resources", .array (s.resources.map SchemaEntry.toJson)),
    ("data_sources", .array (s.dataSources.map SchemaEntry.toJson))]

/-- The attribute at a path in the first entry of a name. -/
def attributeIn? (entries : List SchemaEntry) (name path : String) : Option Attribute :=
  (entries.find? (·.name = name)).bind fun e => Attribute.find? e.attributes path

/-- The attribute at a path in a resource. -/
def resourceAttribute? (s : Specification) (name path : String) : Option Attribute :=
  attributeIn? s.resources name path

/-- The attribute at a path in a data source. -/
def dataSourceAttribute? (s : Specification) (name path : String) : Option Attribute :=
  attributeIn? s.dataSources name path

/-- The attribute at a path in the schema of the provider. -/
def providerAttribute? (s : Specification) (path : String) : Option Attribute :=
  s.provider.attributes.bind fun attributes => Attribute.find? attributes path

end Specification

end ProviderSchema
