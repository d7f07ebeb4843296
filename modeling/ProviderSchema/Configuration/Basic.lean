import ProviderSchema.OpenApi.Exploration

/-!
# Configurations

A configuration says which operations of a description make up the resources and data sources of a
provider, and what is changed about their attributes.
-/

namespace ProviderSchema

open OpenApi (OperationTarget)

/-- What replaces parts of an attribute. -/
structure AttributeOverride where
  description : Option String := none
deriving DecidableEq, Repr, Inhabited

/-- Changes to attributes. -/
structure AttributeOptions where
  /-- Names of attributes for the names of parameters. -/
  aliases : List (String × String) := []
  /-- Replacements by the path of the attribute. -/
  overrides : List (String × AttributeOverride) := []
deriving DecidableEq, Repr, Inhabited

/-- Changes to a schema. -/
structure SchemaOptions where
  /-- The paths of the attributes that are left out. -/
  ignores : List String := []
  attributes : AttributeOptions := {}
deriving DecidableEq, Repr, Inhabited

/-- The provider itself. -/
structure ProviderConfiguration where
  name : String
  /-- A reference to the component schema that describes the provider. -/
  schemaReference : Option String := none
  ignores : List String := []
deriving DecidableEq, Repr, Inhabited

/-- A resource. -/
structure ResourceConfiguration where
  create : Option OperationTarget := none
  read : Option OperationTarget := none
  update : Option OperationTarget := none
  delete : Option OperationTarget := none
  schema : SchemaOptions := {}
deriving DecidableEq, Repr, Inhabited

/-- A data source. -/
structure DataSourceConfiguration where
  read : Option OperationTarget := none
  schema : SchemaOptions := {}
deriving DecidableEq, Repr, Inhabited

/-- A configuration. -/
structure Configuration where
  provider : ProviderConfiguration
  resources : List (String × ResourceConfiguration) := []
  dataSources : List (String × DataSourceConfiguration) := []
deriving DecidableEq, Repr, Inhabited

/-- The name of the file that a configuration is kept in. -/
def configurationFileName : String := "generator_config.yml"

end ProviderSchema
