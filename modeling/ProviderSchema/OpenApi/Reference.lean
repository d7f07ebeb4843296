import ProviderSchema.Document.Table
import ProviderSchema.OpenApi.Description

/-!
# References to components

A reference names a section of the components and an entry of that section, as in
`#/components/schemas/Pet`. Everything after the section is the name of the entry.
-/

namespace ProviderSchema.OpenApi

/-- Why a reference has no target. -/
inductive ReferenceError where
  | invalidFormat (detail : String)
  | targetNotFound (target : String)
deriving DecidableEq, Repr, Inhabited

/-- What is said about an error. -/
def ReferenceError.message : ReferenceError → String
  | .invalidFormat detail => "invalid reference format: " ++ detail
  | .targetNotFound target => "reference target not found: " ++ target

namespace Reference

/-- What every reference to a component starts with. -/
def start : List Char := "#/components/".toList

/-- The text that is left of a text after a start, if it does start so. -/
def rest? : List Char → List Char → Option (List Char)
  | [], text => some text
  | c :: start, d :: text => if c = d then rest? start text else none
  | _ :: _, [] => none

/-- The name of the entry a reference stands for, which has to be in the given section. -/
def name (section_ : String) (target : String) : Except ReferenceError String :=
  match rest? start target.toList with
  | none => .error (.invalidFormat target)
  | some rest =>
    match rest.dropWhile (· ≠ '/') with
    | [] => .error (.invalidFormat target)
    | _ :: name =>
      let found := String.ofList (rest.takeWhile (· ≠ '/'))
      if found = section_ then .ok (String.ofList name)
      else
        .error (.invalidFormat
          ("expected section '" ++ section_ ++ "', got '" ++ found ++ "' in " ++ target))

/-- The entry of a table that a reference stands for, with its name. -/
def lookup {α : Type} (section_ : String) (table : List (String × α)) (target : String) :
    Except ReferenceError (String × α) :=
  match name section_ target with
  | .error e => .error e
  | .ok name =>
    match Table.get? table name with
    | some value => .ok (name, value)
    | none => .error (.targetNotFound target)

/-- The inline entry of a table that a reference stands for. Entries that are references themselves
are no targets. -/
def lookupInline {α : Type} (section_ : String) (table : List (String × OrReference α))
    (target : String) : Except ReferenceError α :=
  match lookup section_ table target with
  | .error e => .error e
  | .ok (_, .inline value) => .ok value
  | .ok (_, .reference _) => .error (.targetNotFound target)

/-- What is said about a reference that stays because it has no target. -/
def remark (e : ReferenceError) : String := "leaving reference unresolved: " ++ e.message

end Reference

end ProviderSchema.OpenApi
