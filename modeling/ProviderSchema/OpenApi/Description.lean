import ProviderSchema.OpenApi.Schema
import ProviderSchema.OpenApi.Method

/-!
# Descriptions of an interface

The part of an OpenAPI description that the compiler reads: paths with their operations, and the
reusable components. Tables keep the order in which their entries were written.
-/

namespace ProviderSchema.OpenApi

/-- A component entry: a reference to another one, or the thing itself. -/
inductive OrReference (α : Type) where
  | reference (target : String)
  | inline (value : α)
deriving Repr, Inhabited

/-- Where a parameter is passed. -/
inductive ParameterPlace where
  | query
  | header
  | path
  | cookie
deriving DecidableEq, Repr, Inhabited

/-- The places, in the order in which positions number them. -/
def ParameterPlace.all : List ParameterPlace := [.query, .header, .path, .cookie]

/-- How a description writes a place. -/
def ParameterPlace.text : ParameterPlace → String
  | .query => "query"
  | .header => "header"
  | .path => "path"
  | .cookie => "cookie"

/-- The place that a text names. -/
def ParameterPlace.ofText? (text : String) : Option ParameterPlace :=
  ParameterPlace.all.find? fun p => p.text = text

/-- A parameter of an operation. -/
structure Parameter where
  name : String
  place : ParameterPlace
  description : Option String := none
  required : Bool := false
  deprecated : Option Bool := none
  schema : Option Schema := none
deriving Repr, Inhabited

/-- One representation of a body. -/
structure MediaType where
  schema : Option Schema := none
  sample : Option Json := none
deriving Repr, Inhabited

/-- The body of a request. -/
structure RequestBody where
  description : Option String := none
  content : List (String × MediaType) := []
  required : Bool := false
deriving Repr, Inhabited

/-- A response. -/
structure Response where
  description : Option String := none
  content : List (String × MediaType) := []
deriving Repr, Inhabited

/-- An operation. -/
structure Operation where
  operationId : Option String := none
  summary : Option String := none
  description : Option String := none
  parameters : List (OrReference Parameter) := []
  requestBody : Option (OrReference RequestBody) := none
  responses : List (String × OrReference Response) := []
  deprecated : Option Bool := none
deriving Repr, Inhabited

/-- The operations of a path, and what they share. -/
structure PathItem where
  summary : Option String := none
  description : Option String := none
  parameters : List (OrReference Parameter) := []
  get : Option Operation := none
  post : Option Operation := none
  put : Option Operation := none
  delete : Option Operation := none
  patch : Option Operation := none
  options : Option Operation := none
  head : Option Operation := none
  trace : Option Operation := none
deriving Repr, Inhabited

/-- The operation of a method. -/
def PathItem.operation? (item : PathItem) : Method → Option Operation
  | .get => item.get
  | .post => item.post
  | .put => item.put
  | .delete => item.delete
  | .patch => item.patch
  | .options => item.options
  | .head => item.head
  | .trace => item.trace

/-- The reusable definitions of a description. -/
structure Components where
  schemas : List (String × Schema) := []
  responses : List (String × OrReference Response) := []
  parameters : List (String × OrReference Parameter) := []
  requestBodies : List (String × OrReference RequestBody) := []
deriving Repr, Inhabited

/-- What a description says about itself. -/
structure Info where
  title : String
  description : Option String := none
  version : String
deriving Repr, Inhabited

/-- A description of an interface. -/
structure Description where
  openapi : String
  info : Info
  paths : List (String × PathItem) := []
  components : Option Components := none
deriving Repr, Inhabited

namespace Description

/-- The component schemas of a description. -/
def schemas (d : Description) : List (String × Schema) :=
  match d.components with
  | some c => c.schemas
  | none => []

/-- Whether the version a description declares is one of the third generation. -/
def supported (d : Description) : Bool := ['3', '.'].isPrefixOf d.openapi.toList

end Description

end ProviderSchema.OpenApi
