import ProviderSchema.Configuration.Basic
import ProviderSchema.Text.Identifier
import ProviderSchema.Text.Join

/-!
# Problems of configurations

`Configuration.problems` lists everything that is wrong with a configuration although it can be
read: names that are no identifiers, operations that are missing, paths that are none and methods
that do not exist. A configuration is valid if the list is empty.
-/

namespace ProviderSchema

open OpenApi (Method OperationTarget)

/-- What a reference to a component schema starts with. -/
def schemaReferenceStart : String := "#/components/schemas/"

/-- Whether a text starts with another one. -/
def startsWith (start text : String) : Bool := start.toList.isPrefixOf text.toList

namespace Configuration

/-- The problems of the name of a resource or a data source. -/
def nameProblems (owner name : String) : List String :=
  if Text.isIdentifier name then [] else [owner ++ ": name must match [a-z_][a-z0-9_]*"]

/-- The problems of an operation. -/
def operationProblems (owner field : String) (o : OperationTarget) : List String :=
  let subject := owner ++ "." ++ field ++ ": "
  (if startsWith "/" o.path then []
    else [subject ++ "path '" ++ o.path ++ "' must start with '/'"])
    ++ match Method.ofName? o.method with
      | some _ => []
      | none => [subject ++ Method.unknown o.method]

/-- The problems of an operation that must be there. -/
def requiredProblems (owner field : String) : Option OperationTarget → List String
  | some o => operationProblems owner field o
  | none => [owner ++ ": missing '" ++ field ++ "' operation"]

/-- The problems of an operation that may be missing. -/
def optionalProblems (owner field : String) : Option OperationTarget → List String
  | some o => operationProblems owner field o
  | none => []

/-- The problems of the name of the provider. -/
def providerNameProblems (name : String) : List String :=
  if name = "" then ["provider.name is required"]
  else if Text.isIdentifier name then []
  else ["provider.name '" ++ name ++ "' must match [a-z_][a-z0-9_]*"]

/-- The problems of the reference to the schema of the provider, which may be missing. -/
def schemaReferenceProblems : Option String → List String
  | some target =>
    if startsWith schemaReferenceStart target then []
    else
      ["provider.schema_ref '" ++ target ++ "' must start with '" ++ schemaReferenceStart ++ "'"]
  | none => []

/-- The problems of a resource: its name, the operations it must have, and those it may have. -/
def resourceProblems (name : String) (r : ResourceConfiguration) : List String :=
  let owner := "resources." ++ name
  nameProblems owner name
    ++ requiredProblems owner "create" r.create
    ++ requiredProblems owner "read" r.read
    ++ optionalProblems owner "update" r.update
    ++ optionalProblems owner "delete" r.delete

/-- The problems of a data source, which must have an operation to read it. -/
def dataSourceProblems (name : String) (d : DataSourceConfiguration) : List String :=
  let owner := "data_sources." ++ name
  nameProblems owner name ++ requiredProblems owner "read" d.read

/-- Everything that is wrong with a configuration. -/
def problems (c : Configuration) : List String :=
  providerNameProblems c.provider.name
    ++ schemaReferenceProblems c.provider.schemaReference
    ++ (c.resources.flatMap fun (name, r) => resourceProblems name r)
    ++ c.dataSources.flatMap fun (name, d) => dataSourceProblems name d

/-- Whether a configuration has no problems. -/
def isValid (c : Configuration) : Bool := c.problems.isEmpty

/-- What is said about problems, one line for each. -/
def problemsMessage (problems : List String) : String :=
  "invalid generator config:\n" ++ Text.joinWith "\n" problems

end Configuration

end ProviderSchema
