import ProviderSchema.OpenApi.SchemaDecoding
import ProviderSchema.OpenApi.Description

/-!
# Reading descriptions

Every record of a description has a list of its fields, a shape that readers work along, and a
function that decodes it from the content of its node. Components that may be references are read as
they stand: a mapping with a text under `$ref` is a reference, anything else has to be the component
itself.
-/

namespace ProviderSchema.OpenApi

/-- A reference, or a thing that `read` decodes. -/
def OrReference.ofContent? {α : Type} (read : Content → Option α) (content : Content) :
    Option (OrReference α) :=
  let target := match content with
    | .object entries => Schema.referenceTarget? entries
    | _ => none
  match target with
  | some target => some (.reference target)
  | none => (read content).map .inline

/-- The place of a parameter: its name, or a mapping from its name to `null`. -/
def ParameterPlace.ofContent? : Content → Option ParameterPlace
  | .text name => ofText? name
  | .object [(.name name, .null)] => ofText? name
  | .object [(.position i, .null)] => ParameterPlace.all[i]?
  | _ => none

namespace Parameter

/-- The fields of a parameter. -/
def fieldList : FieldList :=
  [("name", .required), ("in", .required), ("description", .optional), ("required", .defaulted),
    ("deprecated", .optional), ("schema", .optional)]

/-- A parameter from its content. -/
def ofContent? (content : Content) : Option Parameter := do
  let f ← content.fields? fieldList
  return {
    name := ← f.required 0 Content.text?
    place := ← f.required 1 ParameterPlace.ofContent?
    description := ← f.optional 2 Content.text?
    required := ← f.defaulted 3 false Content.bool?
    deprecated := ← f.optional 4 Content.bool?
    schema := ← f.optional 5 Schema.ofContent? }

end Parameter

namespace MediaType

/-- The fields of a media type. -/
def fieldList : FieldList := [("schema", .optional), ("example", .optional)]

/-- A media type from its content. -/
def ofContent? (content : Content) : Option MediaType := do
  let f ← content.fields? fieldList
  return {
    schema := ← f.optional 0 Schema.ofContent?
    sample := ← f.optional 1 Content.toJson? }

end MediaType

namespace RequestBody

/-- The fields of the body of a request. -/
def fieldList : FieldList :=
  [("description", .optional), ("content", .defaulted), ("required", .defaulted)]

/-- The body of a request from its content. -/
def ofContent? (content : Content) : Option RequestBody := do
  let f ← content.fields? fieldList
  return {
    description := ← f.optional 0 Content.text?
    content := ← f.defaulted 1 [] (Content.table? MediaType.ofContent?)
    required := ← f.defaulted 2 false Content.bool? }

end RequestBody

namespace Response

/-- The fields of a response. -/
def fieldList : FieldList := [("description", .optional), ("content", .defaulted)]

/-- A response from its content. -/
def ofContent? (content : Content) : Option Response := do
  let f ← content.fields? fieldList
  return {
    description := ← f.optional 0 Content.text?
    content := ← f.defaulted 1 [] (Content.table? MediaType.ofContent?) }

end Response

/-! ## Alternatives -/

/-- A node that is read as it stands and fits if `read` decodes it. -/
def fits {α : Type} (read : Content → Option α) (content : Content) : Bool := (read content).isSome

/-- A schema, or a reference to one. -/
def schemaShape : Shape := .choice "SchemaOrRef" (fits Schema.ofContent?)

/-- A parameter, or a reference to one. -/
def parameterShape : Shape :=
  .choice "ParameterOrRef" (fits (OrReference.ofContent? Parameter.ofContent?))

/-- The body of a request, or a reference to one. -/
def requestBodyShape : Shape :=
  .choice "RequestBodyOrRef" (fits (OrReference.ofContent? RequestBody.ofContent?))

/-- A response, or a reference to one. -/
def responseShape : Shape :=
  .choice "ResponseOrRef" (fits (OrReference.ofContent? Response.ofContent?))

/-- The names and presences of the fields of a shape. -/
def fieldsOf (fields : List (String × Presence × Shape)) : FieldList :=
  fields.map fun f => (f.1, f.2.1)

/-! ## Records that are read field by field -/

namespace Schema

/-- Whether content fits one of the alternatives of a child field. -/
def childFits (field : ChildField) (content : Content) : Bool :=
  (childOf? (some field) {} content).isSome

/-- The shape of an inline schema. -/
def inlineShape : Shape :=
  .record "Schema"
    [("type", .optional, .optional (.choice "TypeSet" (fits TypeSet.ofContent?))),
      ("format", .optional, .optional .text), ("title", .optional, .optional .text),
      ("description", .optional, .optional .text), ("default", .optional, .optional .free),
      ("nullable", .optional, .optional .flag), ("deprecated", .optional, .optional .flag),
      ("properties", .defaulted, .table schemaShape), ("required", .defaulted, .list .text),
      ("additionalProperties", .optional,
        .optional (.choice "AdditionalProperties" (childFits .additional))),
      ("minProperties", .optional, .optional .natural),
      ("maxProperties", .optional, .optional .natural),
      ("items", .optional, .optional (.choice "Items" (childFits .items))),
      ("allOf", .defaulted, .list schemaShape), ("oneOf", .defaulted, .list schemaShape),
      ("anyOf", .defaulted, .list schemaShape), ("enum", .defaulted, .list .free),
      ("minimum", .optional, .optional .number), ("maximum", .optional, .optional .number),
      ("minLength", .optional, .optional .natural), ("maxLength", .optional, .optional .natural),
      ("minItems", .optional, .optional .natural), ("maxItems", .optional, .optional .natural),
      ("uniqueItems", .optional, .optional .flag), ("readOnly", .optional, .optional .flag),
      ("writeOnly", .optional, .optional .flag)]

end Schema

namespace Operation

/-- The fields of an operation. -/
def fields : List (String × Presence × Shape) :=
  [("operationId", .optional, .optional .text), ("summary", .optional, .optional .text),
    ("description", .optional, .optional .text), ("parameters", .defaulted, .list parameterShape),
    ("requestBody", .optional, .optional requestBodyShape),
    ("responses", .defaulted, .table responseShape), ("deprecated", .optional, .optional .flag)]

/-- The shape of an operation. -/
def shape : Shape := .record "Operation" fields

/-- An operation from its content. -/
def ofContent? (content : Content) : Option Operation := do
  let f ← content.fields? (fieldsOf fields)
  return {
    operationId := ← f.optional 0 Content.text?
    summary := ← f.optional 1 Content.text?
    description := ← f.optional 2 Content.text?
    parameters := ← f.defaulted 3 [] (Content.list? (OrReference.ofContent? Parameter.ofContent?))
    requestBody := ← f.optional 4 (OrReference.ofContent? RequestBody.ofContent?)
    responses := ← f.defaulted 5 [] (Content.table? (OrReference.ofContent? Response.ofContent?))
    deprecated := ← f.optional 6 Content.bool? }

end Operation

namespace PathItem

/-- The fields of a path. -/
def fields : List (String × Presence × Shape) :=
  [("summary", .optional, .optional .text), ("description", .optional, .optional .text),
    ("parameters", .defaulted, .list parameterShape)]
    ++ Method.all.map fun m => (m.key, .optional, .optional Operation.shape)

/-- The shape of a path. -/
def shape : Shape := .record "PathItem" fields

/-- A path from its content. -/
def ofContent? (content : Content) : Option PathItem := do
  let f ← content.fields? (fieldsOf fields)
  return {
    summary := ← f.optional 0 Content.text?
    description := ← f.optional 1 Content.text?
    parameters := ← f.defaulted 2 [] (Content.list? (OrReference.ofContent? Parameter.ofContent?))
    get := ← f.optional 3 Operation.ofContent?
    post := ← f.optional 4 Operation.ofContent?
    put := ← f.optional 5 Operation.ofContent?
    delete := ← f.optional 6 Operation.ofContent?
    patch := ← f.optional 7 Operation.ofContent?
    options := ← f.optional 8 Operation.ofContent?
    head := ← f.optional 9 Operation.ofContent?
    trace := ← f.optional 10 Operation.ofContent? }

end PathItem

namespace Components

/-- The fields of the components. -/
def fields : List (String × Presence × Shape) :=
  [("schemas", .defaulted, .table schemaShape), ("responses", .defaulted, .table responseShape),
    ("parameters", .defaulted, .table parameterShape),
    ("requestBodies", .defaulted, .table requestBodyShape)]

/-- The shape of the components. -/
def shape : Shape := .record "Components" fields

/-- The components from their content. -/
def ofContent? (content : Content) : Option Components := do
  let f ← content.fields? (fieldsOf fields)
  return {
    schemas := ← f.defaulted 0 [] (Content.table? Schema.ofContent?)
    responses := ← f.defaulted 1 [] (Content.table? (OrReference.ofContent? Response.ofContent?))
    parameters := ← f.defaulted 2 [] (Content.table? (OrReference.ofContent? Parameter.ofContent?))
    requestBodies :=
      ← f.defaulted 3 [] (Content.table? (OrReference.ofContent? RequestBody.ofContent?)) }

end Components

namespace Info

/-- The fields of what a description says about itself. -/
def fields : List (String × Presence × Shape) :=
  [("title", .required, .text), ("description", .optional, .optional .text),
    ("version", .required, .text)]

/-- The shape of what a description says about itself. -/
def shape : Shape := .record "Info" fields

/-- What a description says about itself, from its content. -/
def ofContent? (content : Content) : Option Info := do
  let f ← content.fields? (fieldsOf fields)
  return {
    title := ← f.required 0 Content.text?
    description := ← f.optional 1 Content.text?
    version := ← f.required 2 Content.text? }

end Info

namespace Description

/-- The fields of a description. -/
def fields : List (String × Presence × Shape) :=
  [("openapi", .required, .text), ("info", .required, Info.shape),
    ("paths", .defaulted, .table PathItem.shape),
    ("components", .optional, .optional Components.shape)]

/-- The shape of a description. -/
def shape : Shape := .record "OpenApiSpec" fields

/-- A description from its content. -/
def ofContent? (content : Content) : Option Description := do
  let f ← content.fields? (fieldsOf fields)
  return {
    openapi := ← f.required 0 Content.text?
    info := ← f.required 1 Info.ofContent?
    paths := ← f.defaulted 2 [] (Content.table? PathItem.ofContent?)
    components := ← f.optional 3 Components.ofContent? }

end Description

end ProviderSchema.OpenApi
