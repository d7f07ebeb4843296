import ProviderSchema.Node.SchemaError
import ProviderSchema.OpenApi.LineIndex
import ProviderSchema.OpenApi.Reference

/-!
# Exploring operations

`Description.explore` finds the operation of a path and a method. Its parameters are those of the
path and its own; its own replace those of the path with the same name and place.

Of the bodies that an operation offers one counts. The status of a response is chosen before its
media type: first `200`, then `201`, then the least other one that starts with a two. Among media
types, `application/json` comes first if it has a schema, then the least one that has.
-/

namespace ProviderSchema.OpenApi

/-- Which operation is meant; the method is a name in any case. -/
structure OperationTarget where
  path : String
  method : String
deriving DecidableEq, Repr, Inhabited

/-- Why an operation is not found. -/
inductive ExplorationError where
  | pathNotFound (path : String)
  | operationNotFound (method : Method) (path : String)
  | invalidOperation (reason : String)
  | unresolvedParameter (target : String)
deriving DecidableEq, Repr, Inhabited

/-- What is said about an error. -/
def ExplorationError.message : ExplorationError → String
  | .pathNotFound path => "path '" ++ path ++ "' not found in OpenAPI document"
  | .operationNotFound method path =>
    method.name ++ " operation not found on path '" ++ path ++ "'"
  | .invalidOperation reason => reason
  | .unresolvedParameter target => "unresolved parameter reference '" ++ target ++ "'"

/-- An operation of a description. -/
structure ExploredOperation where
  path : String
  method : Method
  operation : Operation
  parameters : List Parameter
deriving Repr, Inhabited

/-! ## Parameters -/

/-- The parameters of a list that has no references left. -/
def inlineParameters : List (OrReference Parameter) → Except ExplorationError (List Parameter)
  | [] => .ok []
  | .reference target :: _ => .error (.unresolvedParameter target)
  | .inline p :: rest =>
    match inlineParameters rest with
    | .error e => .error e
    | .ok ps => .ok (p :: ps)

/-- Whether two parameters are the same one, declared twice. -/
def Parameter.sameAs (p q : Parameter) : Bool := p.name = q.name && p.place = q.place

/-- The parameters of a path with those of an operation. -/
def effectiveParameters (shared own : List Parameter) : List Parameter :=
  own.foldl (fun ps p => upsert (Parameter.sameAs p) (fun _ => p) p ps) shared

/-- The operation that a target means. -/
def Description.explore (d : Description) (target : OperationTarget) :
    Except ExplorationError ExploredOperation :=
  match Method.ofName? target.method with
  | none => .error (.invalidOperation (Method.unknown target.method))
  | some method =>
    match Table.get? d.paths target.path with
    | none => .error (.pathNotFound target.path)
    | some item =>
      match item.operation? method with
      | none => .error (.operationNotFound method target.path)
      | some operation =>
        match inlineParameters item.parameters with
        | .error e => .error e
        | .ok shared =>
          match inlineParameters operation.parameters with
          | .error e => .error e
          | .ok own =>
            .ok ⟨target.path, method, operation, effectiveParameters shared own⟩

/-! ## Bodies -/

/-- The media type that is preferred to all others. -/
def jsonMediaType : String := "application/json"

/-- The entry with the least name. -/
def leastNamed? {α : Type} : List (String × α) → Option (String × α)
  | [] => none
  | entry :: rest =>
    match leastNamed? rest with
    | none => some entry
    | some other => if other.1 < entry.1 then some other else some entry

/-- The media types that have a schema, with it. -/
def schemaEntries (content : List (String × MediaType)) : List (String × Schema) :=
  content.filterMap fun (name, media) => media.schema.map fun s => (name, s)

/-- The schema of a body. -/
def preferredSchema? (content : List (String × MediaType)) : Option Schema :=
  match (Table.get? content jsonMediaType).bind (·.schema) with
  | some schema => some schema
  | none => (leastNamed? (schemaEntries content)).map (·.2)

/-- The response that counts as the successful one. -/
def successResponse? (responses : List (String × OrReference Response)) :
    Option (OrReference Response) :=
  match Table.get? responses "200" with
  | some response => some response
  | none =>
    match Table.get? responses "201" with
    | some response => some response
    | none =>
      (leastNamed? (responses.filter fun entry => entry.1.toList.head? = some '2')).map (·.2)

namespace ExploredOperation

/-- That an operation has no schema of some sort. -/
def notFound (o : ExploredOperation) (what : String) : SchemaError :=
  { fault := .notFound (o.method.name ++ " " ++ o.path ++ " " ++ what) }

/-- The schema of the request body. -/
def requestSchema (o : ExploredOperation) : Except SchemaError Schema :=
  match o.operation.requestBody with
  | some (.inline body) =>
    match preferredSchema? body.content with
    | some schema => .ok schema
    | none => .error (o.notFound "request body")
  | some (.reference target) => .error { fault := .unresolvedReference target }
  | none => .error (o.notFound "request body")

/-- The schema of the successful response. -/
def responseSchema (o : ExploredOperation) : Except SchemaError Schema :=
  match successResponse? o.operation.responses with
  | some (.inline response) =>
    match preferredSchema? response.content with
    | some schema => .ok schema
    | none => .error (o.notFound "success response body")
  | some (.reference target) => .error { fault := .unresolvedReference target }
  | none => .error (o.notFound "success response body")

/-- The line of the operation in its document. -/
def line (o : ExploredOperation) (lines : Option LineIndex) : Option Nat :=
  lines.bind fun index => index.locate ["paths", o.path, o.method.key]

end ExploredOperation

end ProviderSchema.OpenApi
