import ProviderSchema.Json.Basic

/-!
# Schemas

A schema node is a reference or an inline schema. An inline schema has keywords, which hold no other
schemas, and children, which do; the two are kept apart so that a statement about "every keyword but
the child schemas" is a statement about one field.
-/

namespace ProviderSchema.OpenApi

open Decimal (Binary64)

/-- A type name. Names outside the vocabulary are kept, so that one odd schema does not spoil the
document. -/
inductive TypeName where
  | string
  | number
  | integer
  | boolean
  | array
  | object
  | null
  | other (name : String)
deriving DecidableEq, Repr, Inhabited

/-- The type that a name stands for. -/
def TypeName.ofText (name : String) : TypeName :=
  if name = "string" then .string
  else if name = "number" then .number
  else if name = "integer" then .integer
  else if name = "boolean" then .boolean
  else if name = "array" then .array
  else if name = "object" then .object
  else if name = "null" then .null
  else .other name

/-- The name of a type. -/
def TypeName.text : TypeName → String
  | .string => "string"
  | .number => "number"
  | .integer => "integer"
  | .boolean => "boolean"
  | .array => "array"
  | .object => "object"
  | .null => "null"
  | .other name => name

@[simp] theorem TypeName.text_ofText (name : String) : (TypeName.ofText name).text = name := by
  unfold TypeName.ofText
  (repeat' split) <;> simp_all only [TypeName.text]

/-- The `type` keyword: one name, or a list of names. -/
inductive TypeSet where
  | single (type : TypeName)
  | several (types : List TypeName)
deriving DecidableEq, Repr, Inhabited

/-- The declared names in document order. -/
def TypeSet.types : TypeSet → List TypeName
  | .single t => [t]
  | .several ts => ts

/-- The `additionalProperties` keyword: whether there may be more properties, or their schema. -/
inductive Additional (α : Type) where
  | allowed (value : Bool)
  | schema (value : α)
deriving Repr, Inhabited

/-- The `items` keyword: whether there may be items, a schema per position, or one schema for
all. -/
inductive Items (α : Type) where
  | allowed (value : Bool)
  | tuple (members : List α)
  | schema (value : α)
deriving Repr, Inhabited

/-- The keywords of a schema that hold no schemas. -/
structure Keywords where
  type : Option TypeSet := none
  format : Option String := none
  title : Option String := none
  description : Option String := none
  default : Option Json := none
  nullable : Option Bool := none
  deprecated : Option Bool := none
  required : List String := []
  minProperties : Option Nat := none
  maxProperties : Option Nat := none
  enum : List Json := []
  minimum : Option Binary64 := none
  maximum : Option Binary64 := none
  minLength : Option Nat := none
  maxLength : Option Nat := none
  minItems : Option Nat := none
  maxItems : Option Nat := none
  uniqueItems : Option Bool := none
  readOnly : Option Bool := none
  writeOnly : Option Bool := none
  /-- The component this schema was copied from when a reference to it was resolved. -/
  origin : Option String := none
deriving Repr, Inhabited

/-- The child schemas of a schema. -/
structure Children (α : Type) where
  properties : List (String × α) := []
  additional : Option (Additional α) := none
  items : Option (Items α) := none
  allOf : List α := []
  oneOf : List α := []
  anyOf : List α := []
deriving Repr, Inhabited

/-- A reference to a schema, or an inline schema. -/
inductive Schema where
  | reference (target : String)
  | inline (keywords : Keywords) (children : Children Schema)
deriving Repr, Inhabited

end ProviderSchema.OpenApi
