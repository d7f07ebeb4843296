import ProviderSchema.Proofs.OpenApi.Children
import ProviderSchema.Proofs.OpenApi.ReferenceName

/-!
# Where references stand

`Mentions` says that a reference stands somewhere in a schema, a parameter, a
body, an operation or a path, wherever it is.  What is found under a name in a
section of the components is mentioned by others through a reference, so
`Schema.Refers` is the graph of the references among component schemas, and
`Description.Needs` are the components that paths lead to.
-/

namespace ProviderSchema.OpenApi

/-! ## Schemas -/

/-- A reference stands somewhere in a schema. -/
inductive Schema.Mentions (target : String) : Schema → Prop where
  | reference : Mentions target (.reference target)
  | inline {keywords : Keywords} {c : Children Schema} {s : Schema} (held : c.Holds s)
      (below : Mentions target s) : Mentions target (.inline keywords c)

/-- A component schema has a reference to another one. -/
def Schema.Refers (schemas : List (String × Schema)) (name other : String) : Prop :=
  ∃ s, Table.get? schemas name = some s ∧ s.Mentions (Reference.text "schemas" other)

/-! ## Paths and what they are made of -/

/-- A reference stands in one of the schemas of media types. -/
def contentMentions (target : String) (content : List (String × MediaType)) : Prop :=
  ∃ entry ∈ content, ∃ s, entry.2.schema = some s ∧ s.Mentions target

/-- A thing is the reference, or the reference stands in it. -/
def OrReference.Mentions {α : Type} (inside : α → Prop) (target : String) :
    OrReference α → Prop
  | .reference other => other = target
  | .inline value => inside value

/-- A reference stands in the schema of a parameter. -/
def Parameter.Mentions (target : String) (p : Parameter) : Prop :=
  ∃ s, p.schema = some s ∧ s.Mentions target

/-- A reference stands in a schema of the body of a request. -/
def RequestBody.Mentions (target : String) (b : RequestBody) : Prop :=
  contentMentions target b.content

/-- A reference stands in a schema of a response. -/
def Response.Mentions (target : String) (r : Response) : Prop :=
  contentMentions target r.content

/-- A reference stands in an operation. -/
def Operation.Mentions (target : String) (o : Operation) : Prop :=
  (∃ p ∈ o.parameters, p.Mentions (Parameter.Mentions target) target) ∨
    (∃ b, o.requestBody = some b ∧ b.Mentions (RequestBody.Mentions target) target) ∨
      ∃ r ∈ o.responses, r.2.Mentions (Response.Mentions target) target

/-- A reference stands in a path item. -/
def PathItem.Mentions (target : String) (item : PathItem) : Prop :=
  (∃ p ∈ item.parameters, p.Mentions (Parameter.Mentions target) target) ∨
    ∃ method o, item.operation? method = some o ∧ o.Mentions target

/-! ## Components -/

/-- A section of the components. -/
inductive Section where
  | schemas
  | responses
  | parameters
  | requestBodies
deriving DecidableEq, Repr

/-- The section as references write it. -/
def Section.text : Section → String
  | .schemas => "schemas"
  | .responses => "responses"
  | .parameters => "parameters"
  | .requestBodies => "requestBodies"

/-- A reference stands in the entry of a name in a section. -/
def Components.Mentions (c : Components) (target : String) : Section → String → Prop
  | .schemas, name => ∃ s, Table.get? c.schemas name = some s ∧ s.Mentions target
  | .responses, name =>
    ∃ r, Table.get? c.responses name = some r ∧ r.Mentions (Response.Mentions target) target
  | .parameters, name =>
    ∃ p, Table.get? c.parameters name = some p ∧ p.Mentions (Parameter.Mentions target) target
  | .requestBodies, name =>
    ∃ b, Table.get? c.requestBodies name = some b ∧
      b.Mentions (RequestBody.Mentions target) target

/-- The components that references lead to from some paths, whether there are
entries of these names or not. -/
inductive Description.Needs (d : Description) (paths : List String) : Section → String → Prop where
  | ofPath {path : String} {item : PathItem} {section_ : Section} {name : String}
      (hpath : path ∈ paths) (hitem : Table.get? d.paths path = some item)
      (h : item.Mentions (Reference.text section_.text name)) : Needs d paths section_ name
  | ofComponent {from_ section_ : Section} {other name : String}
      (needed : Needs d paths from_ other)
      (h : (d.components.getD {}).Mentions (Reference.text section_.text name) from_ other) :
      Needs d paths section_ name

end ProviderSchema.OpenApi
