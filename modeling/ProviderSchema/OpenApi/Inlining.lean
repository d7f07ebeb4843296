import ProviderSchema.OpenApi.Reference

/-!
# Inlining references

`Description.inlined` puts the definitions in the place of the references to them. A reference stays
where it is if it has no target, or if it is met while its own target is being put in place, so
circular definitions come to an end. Schemas that are copied from a component remember its name.

* `Schema.substitute` replaces every reference of a schema, those among the members of a tuple
  excepted.
* `Schema.expand` is what a reference is replaced with. On one branch a reference is expanded once,
  and different references to schemas have different targets, so as many nested expansions as there
  are component schemas suffice.
* `Description.unresolved` are the remarks about references without a target, in the order in which
  the references are met.
-/

namespace ProviderSchema.OpenApi

namespace Schema

mutual

/-- A schema with `f` in the place of its references; the members of a tuple stay as they are. -/
def substitute (f : String → Schema) : Schema → Schema
  | .reference target => f target
  | .inline keywords ⟨properties, additional, items, allOf, oneOf, anyOf⟩ =>
    .inline keywords {
      properties := substituteTable f properties
      additional := match additional with
        | some (.schema s) => some (.schema (substitute f s))
        | other => other
      items := match items with
        | some (.schema s) => some (.schema (substitute f s))
        | other => other
      allOf := substituteList f allOf
      oneOf := substituteList f oneOf
      anyOf := substituteList f anyOf }

/-- The schemas of a table with `f` in the place of their references. -/
def substituteTable (f : String → Schema) : List (String × Schema) → List (String × Schema)
  | [] => []
  | (name, schema) :: rest => (name, substitute f schema) :: substituteTable f rest

/-- Schemas with `f` in the place of their references. -/
def substituteList (f : String → Schema) : List Schema → List Schema
  | [] => []
  | schema :: rest => substitute f schema :: substituteList f rest

end

mutual

/-- What `f` yields for the references of a schema, in the order in which they are met; the members
of a tuple are left out. -/
def gather {α : Type} (f : String → List α) : Schema → List α
  | .reference target => f target
  | .inline _ ⟨properties, additional, items, allOf, oneOf, anyOf⟩ =>
    gatherTable f properties
      ++ (match items with
        | some (.schema s) => gather f s
        | _ => [])
      ++ gatherList f allOf ++ gatherList f oneOf ++ gatherList f anyOf
      ++ (match additional with
        | some (.schema s) => gather f s
        | _ => [])

/-- What `f` yields for the references of the schemas of a table. -/
def gatherTable {α : Type} (f : String → List α) : List (String × Schema) → List α
  | [] => []
  | (_, schema) :: rest => gather f schema ++ gatherTable f rest

/-- What `f` yields for the references of schemas. -/
def gatherList {α : Type} (f : String → List α) : List Schema → List α
  | [] => []
  | schema :: rest => gather f schema ++ gatherList f rest

end

/-- The schema as a copy of a component, unless it is a copy already. -/
def copiedFrom (name : String) : Schema → Schema
  | .inline keywords children =>
    .inline { keywords with origin := some (keywords.origin.getD name) } children
  | schema => schema

/-- The component schema that a reference stands for. -/
def lookup (schemas : List (String × Schema)) (target : String) :
    Except ReferenceError (String × Schema) :=
  Reference.lookup "schemas" schemas target

/-- What a reference is replaced with: the component it stands for, with the references in it
replaced in turn. References in `visited` are being expanded already and stay. -/
def expand (schemas : List (String × Schema)) : Nat → List String → String → Schema
  | 0, _, target => .reference target
  | expansions + 1, visited, target =>
    if target ∈ visited then .reference target
    else
      match lookup schemas target with
      | .error _ => .reference target
      | .ok (name, schema) =>
        (schema.substitute (expand schemas expansions (target :: visited))).copiedFrom name

/-- A schema with its references inlined. -/
def inlined (schemas : List (String × Schema)) (schema : Schema) : Schema :=
  schema.substitute (expand schemas schemas.length [])

/-- The remarks about a reference and those met in its expansion. -/
def unresolvedBelow (schemas : List (String × Schema)) : Nat → List String → String → List String
  | 0, _, _ => []
  | expansions + 1, visited, target =>
    if target ∈ visited then []
    else
      match lookup schemas target with
      | .error e => [Reference.remark e]
      | .ok (_, schema) => schema.gather (unresolvedBelow schemas expansions (target :: visited))

/-- The remarks about the references of a schema. -/
def unresolved (schemas : List (String × Schema)) (schema : Schema) : List String :=
  schema.gather (unresolvedBelow schemas schemas.length [])

end Schema

/-! ## The parts of a description -/

/-- Inlines a thing that may be a reference to an entry of a section. Only one reference is
followed. -/
def OrReference.inlined {α : Type} (section_ : String) (table : List (String × OrReference α))
    (inline : α → α) (node : OrReference α) : OrReference α :=
  match node with
  | .inline value => .inline (inline value)
  | .reference target =>
    match Reference.lookupInline section_ table target with
    | .ok value => .inline (inline value)
    | .error _ => node

/-- The remarks about a thing that may be a reference. -/
def OrReference.unresolved {α : Type} (section_ : String) (table : List (String × OrReference α))
    (inside : α → List String) (node : OrReference α) : List String :=
  match node with
  | .inline value => inside value
  | .reference target =>
    match Reference.lookupInline section_ table target with
    | .ok value => inside value
    | .error e => [Reference.remark e]

/-- Media types with a function applied to their schemas. -/
def mapContent (f : Schema → Schema) (content : List (String × MediaType)) :
    List (String × MediaType) :=
  content.map fun (name, media) => (name, { media with schema := media.schema.map f })

/-- What a function yields for the schemas of media types. -/
def gatherContent (f : Schema → List String) (content : List (String × MediaType)) :
    List String :=
  content.flatMap fun (_, media) => (media.schema.map f).getD []

namespace Components

/-- A parameter with the references in its schema inlined. -/
def inlinedParameter (c : Components) (p : OrReference Parameter) : OrReference Parameter :=
  p.inlined "parameters" c.parameters fun p =>
    { p with schema := p.schema.map (Schema.inlined c.schemas) }

/-- The body of a request with the references in its schemas inlined. -/
def inlinedBody (c : Components) (b : OrReference RequestBody) : OrReference RequestBody :=
  b.inlined "requestBodies" c.requestBodies fun b =>
    { b with content := mapContent (Schema.inlined c.schemas) b.content }

/-- A response with the references in its schemas inlined. -/
def inlinedResponse (c : Components) (r : OrReference Response) : OrReference Response :=
  r.inlined "responses" c.responses fun r =>
    { r with content := mapContent (Schema.inlined c.schemas) r.content }

/-- An operation with the references in its parameters, its body and its responses inlined. -/
def inlinedOperation (c : Components) (o : Operation) : Operation :=
  { o with
    parameters := o.parameters.map c.inlinedParameter
    requestBody := o.requestBody.map c.inlinedBody
    responses := o.responses.map fun (status, r) => (status, c.inlinedResponse r) }

/-- A path with the references in its parameters and its operations inlined. -/
def inlinedPathItem (c : Components) (item : PathItem) : PathItem :=
  { item with
    parameters := item.parameters.map c.inlinedParameter
    get := item.get.map c.inlinedOperation
    post := item.post.map c.inlinedOperation
    put := item.put.map c.inlinedOperation
    delete := item.delete.map c.inlinedOperation
    patch := item.patch.map c.inlinedOperation
    options := item.options.map c.inlinedOperation
    head := item.head.map c.inlinedOperation
    trace := item.trace.map c.inlinedOperation }

/-- The component schemas with their references inlined. Every one of them is a copy of itself, if
of nothing else. -/
def inlinedSchemas (c : Components) : List (String × Schema) :=
  c.schemas.map fun (name, schema) => (name, (schema.inlined c.schemas).copiedFrom name)

/-- The remarks about a parameter. -/
def unresolvedParameter (c : Components) (p : OrReference Parameter) : List String :=
  p.unresolved "parameters" c.parameters fun p =>
    (p.schema.map (Schema.unresolved c.schemas)).getD []

/-- The remarks about the body of a request. -/
def unresolvedBody (c : Components) (b : OrReference RequestBody) : List String :=
  b.unresolved "requestBodies" c.requestBodies fun b =>
    gatherContent (Schema.unresolved c.schemas) b.content

/-- The remarks about a response. -/
def unresolvedResponse (c : Components) (r : OrReference Response) : List String :=
  r.unresolved "responses" c.responses fun r =>
    gatherContent (Schema.unresolved c.schemas) r.content

/-- The remarks about an operation: its parameters, its body and its responses. -/
def unresolvedOperation (c : Components) (o : Operation) : List String :=
  o.parameters.flatMap c.unresolvedParameter
    ++ (o.requestBody.map c.unresolvedBody).getD []
    ++ o.responses.flatMap fun (_, r) => c.unresolvedResponse r

/-- The remarks about a path: its parameters, and its operations in the order of their methods. -/
def unresolvedPathItem (c : Components) (item : PathItem) : List String :=
  item.parameters.flatMap c.unresolvedParameter
    ++ Method.all.flatMap fun m => ((item.operation? m).map c.unresolvedOperation).getD []

end Components

namespace Description

/-- A description with its references inlined: those of the paths and of the component schemas. -/
def inlined (d : Description) : Description :=
  let c := d.components.getD {}
  { d with
    paths := d.paths.map fun (path, item) => (path, c.inlinedPathItem item)
    components := d.components.map fun c => { c with schemas := c.inlinedSchemas } }

/-- The remarks about references of a description that have no target. -/
def unresolved (d : Description) : List String :=
  let c := d.components.getD {}
  (d.paths.flatMap fun (_, item) => c.unresolvedPathItem item)
    ++ c.schemas.flatMap fun (_, schema) => schema.unresolved c.schemas

end Description

end ProviderSchema.OpenApi
