import ProviderSchema.OpenApi.Description

/-!
# Writing descriptions

`Description.toJson` writes a description back as a JSON value: fields in a fixed order, absent
fields and empty tables and lists left out. Only the content and the requiredness of a request body
and the requiredness of a parameter are always written. The origin of a schema is bookkeeping and is
never written.
-/

namespace ProviderSchema.OpenApi

open Json (member? listMember? objectMember?)

/-- A member with a text, if there is one. -/
def textMember? (name : String) (value : Option String) : List (String × Json) :=
  member? name (value.map .text)

/-- A member with a truth value, if there is one. -/
def flagMember? (name : String) (value : Option Bool) : List (String × Json) :=
  member? name (value.map .bool)

/-- A member with a natural number, if there is one. -/
def naturalMember? (name : String) (value : Option Nat) : List (String × Json) :=
  member? name (value.map fun n => .integer n)

/-- A bound is written as a floating-point number; one that is not finite is written as `null`. -/
def boundMember? (name : String) (value : Option Decimal.Binary64) : List (String × Json) :=
  member? name (value.map fun x => if x.isFinite then .float x else .null)

/-- Types as a JSON value: one name alone, or a list of names. -/
def TypeSet.toJson : TypeSet → Json
  | .single t => .text t.text
  | .several ts => .array (ts.map fun t => .text t.text)

namespace Schema

mutual

/-- A schema as a JSON value. -/
def toJson : Schema → Json
  | .reference target => .object [("$ref", .text target)]
  | .inline k c => .object (members k c)

/-- The members of an inline schema. -/
def members (k : Keywords) : Children Schema → List (String × Json)
  | ⟨properties, additional, items, allOf, oneOf, anyOf⟩ =>
    member? "type" (k.type.map TypeSet.toJson)
      ++ textMember? "format" k.format
      ++ textMember? "title" k.title
      ++ textMember? "description" k.description
      ++ member? "default" k.default
      ++ flagMember? "nullable" k.nullable
      ++ flagMember? "deprecated" k.deprecated
      ++ objectMember? "properties" (tableToJson properties)
      ++ listMember? "required" (k.required.map .text)
      ++ member? "additionalProperties" (additionalToJson additional)
      ++ naturalMember? "minProperties" k.minProperties
      ++ naturalMember? "maxProperties" k.maxProperties
      ++ member? "items" (itemsToJson items)
      ++ listMember? "allOf" (listToJson allOf)
      ++ listMember? "oneOf" (listToJson oneOf)
      ++ listMember? "anyOf" (listToJson anyOf)
      ++ listMember? "enum" k.enum
      ++ boundMember? "minimum" k.minimum
      ++ boundMember? "maximum" k.maximum
      ++ naturalMember? "minLength" k.minLength
      ++ naturalMember? "maxLength" k.maxLength
      ++ naturalMember? "minItems" k.minItems
      ++ naturalMember? "maxItems" k.maxItems
      ++ flagMember? "uniqueItems" k.uniqueItems
      ++ flagMember? "readOnly" k.readOnly
      ++ flagMember? "writeOnly" k.writeOnly

/-- The schemas of a table as members. -/
def tableToJson : List (String × Schema) → List (String × Json)
  | [] => []
  | (name, schema) :: rest => (name, schema.toJson) :: tableToJson rest

/-- Schemas as JSON values, in their order. -/
def listToJson : List Schema → List Json
  | [] => []
  | schema :: rest => schema.toJson :: listToJson rest

/-- What is said about further properties as a JSON value. -/
def additionalToJson : Option (Additional Schema) → Option Json
  | none => none
  | some (.allowed b) => some (.bool b)
  | some (.schema s) => some s.toJson

/-- What is said about items as a JSON value. -/
def itemsToJson : Option (Items Schema) → Option Json
  | none => none
  | some (.allowed b) => some (.bool b)
  | some (.tuple schemas) => some (.array (listToJson schemas))
  | some (.schema s) => some s.toJson

end

end Schema

/-- A reference, or a thing that `write` encodes. -/
def OrReference.toJson {α : Type} (write : α → Json) : OrReference α → Json
  | .reference target => .object [("$ref", .text target)]
  | .inline value => write value

/-- The members of a table whose values `write` encodes. -/
def tableMembers {α : Type} (write : α → Json) (table : List (String × α)) :
    List (String × Json) :=
  table.map fun entry => (entry.1, write entry.2)

/-- A parameter as a JSON value. -/
def Parameter.toJson (p : Parameter) : Json :=
  .object (
    [("name", .text p.name), ("in", .text p.place.text)]
      ++ textMember? "description" p.description
      ++ [("required", .bool p.required)]
      ++ flagMember? "deprecated" p.deprecated
      ++ member? "schema" (p.schema.map Schema.toJson))

/-- A media type as a JSON value. -/
def MediaType.toJson (m : MediaType) : Json :=
  .object (member? "schema" (m.schema.map Schema.toJson) ++ member? "example" m.sample)

/-- The body of a request as a JSON value. -/
def RequestBody.toJson (b : RequestBody) : Json :=
  .object (
    textMember? "description" b.description
      ++ [("content", .object (tableMembers MediaType.toJson b.content)),
        ("required", .bool b.required)])

/-- A response as a JSON value. -/
def Response.toJson (r : Response) : Json :=
  .object (
    textMember? "description" r.description
      ++ objectMember? "content" (tableMembers MediaType.toJson r.content))

/-- An operation as a JSON value. -/
def Operation.toJson (o : Operation) : Json :=
  .object (
    textMember? "operationId" o.operationId
      ++ textMember? "summary" o.summary
      ++ textMember? "description" o.description
      ++ listMember? "parameters" (o.parameters.map (OrReference.toJson Parameter.toJson))
      ++ member? "requestBody" (o.requestBody.map (OrReference.toJson RequestBody.toJson))
      ++ objectMember? "responses" (tableMembers (OrReference.toJson Response.toJson) o.responses)
      ++ flagMember? "deprecated" o.deprecated)

/-- A path as a JSON value. -/
def PathItem.toJson (i : PathItem) : Json :=
  .object (
    textMember? "summary" i.summary
      ++ textMember? "description" i.description
      ++ listMember? "parameters" (i.parameters.map (OrReference.toJson Parameter.toJson))
      ++ Method.all.flatMap fun m => member? m.key ((i.operation? m).map Operation.toJson))

/-- The components as a JSON value. -/
def Components.toJson (c : Components) : Json :=
  .object (
    objectMember? "schemas" (tableMembers Schema.toJson c.schemas)
      ++ objectMember? "responses" (tableMembers (OrReference.toJson Response.toJson) c.responses)
      ++ objectMember? "parameters"
        (tableMembers (OrReference.toJson Parameter.toJson) c.parameters)
      ++ objectMember? "requestBodies"
        (tableMembers (OrReference.toJson RequestBody.toJson) c.requestBodies))

/-- What a description says about itself as a JSON value. -/
def Info.toJson (i : Info) : Json :=
  .object (
    [("title", .text i.title)] ++ textMember? "description" i.description
      ++ [("version", .text i.version)])

/-- A description as a JSON value. -/
def Description.toJson (d : Description) : Json :=
  .object (
    [("openapi", .text d.openapi), ("info", d.info.toJson)]
      ++ objectMember? "paths" (tableMembers PathItem.toJson d.paths)
      ++ member? "components" (d.components.map Components.toJson))

end ProviderSchema.OpenApi
