import ProviderSchema.Text.Join

/-!
# Errors of schemas

Why no attribute can be made of a schema, with the property it happened at. The path grows at its
front while the error is passed outward, and the first line that is attached stays.
-/

namespace ProviderSchema

/-- What is wrong with a schema. -/
inductive SchemaFault where
  | noTypeOrComposition
  | severalTypes (names : List String)
  | invalidType (name : String)
  | compositionUnsupported (count : Nat) (keyword : String)
  | noItems
  | noMapValue
  | unresolvedReference (target : String)
  | tooDeep (limit : Nat)
  | notFound (what : String)
deriving DecidableEq, Repr, Inhabited

/-- What is said about a fault. -/
def SchemaFault.message : SchemaFault → String
  | .noTypeOrComposition => "no 'type' array or supported allOf/oneOf/anyOf constraint"
  | .severalTypes names =>
    "unsupported multi-type, attribute cannot be created: " ++ Text.joinWith ", " names
  | .invalidType name => "invalid schema type '" ++ name ++ "'"
  | .compositionUnsupported count keyword =>
    "found " ++ toString count ++ " " ++ keyword
      ++ " subschema(s), schema composition is currently not supported"
  | .noItems => "invalid array type, doesn't have a schema"
  | .noMapValue => "invalid map type, additionalProperties doesn't declare a value type"
  | .unresolvedReference target => "unresolved schema reference '" ++ target ++ "'"
  | .tooDeep limit => "schema nesting exceeds the maximum depth of " ++ toString limit
  | .notFound what => "no schema found: " ++ what

/-- A fault with the path of the property and the line where it is. -/
structure SchemaError where
  fault : SchemaFault
  path : List String := []
  line : Option Nat := none
deriving DecidableEq, Repr, Inhabited

namespace SchemaError

/-- The error as it is seen from outside a property. -/
def inProperty (name : String) (e : SchemaError) : SchemaError := { e with path := name :: e.path }

/-- The error with a line, unless it has one. -/
def withLine (line : Option Nat) (e : SchemaError) : SchemaError :=
  { e with line := match e.line with
    | some n => some n
    | none => line }

/-- Whether there was no schema to begin with. -/
def isNotFound (e : SchemaError) : Bool :=
  match e.fault with
  | .notFound _ => true
  | _ => false

/-- The path, its names separated by dots. -/
def dottedPath (e : SchemaError) : String := Text.joinWith "." e.path

/-- What is said about an error: the path, the fault and the line, as far as they are known. -/
def message (e : SchemaError) : String :=
  (if e.path = [] then "" else e.dottedPath ++ ": ") ++ e.fault.message
    ++ match e.line with
      | some line => " (line " ++ toString line ++ ")"
      | none => ""

end SchemaError

end ProviderSchema
