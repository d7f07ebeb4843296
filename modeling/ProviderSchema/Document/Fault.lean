/-!
# Faults of a document

Why a text cannot be read as a document of some shape. A text that breaks the grammar is malformed
or ends too early, at a line; a text within the grammar may still hold the wrong data.
-/

namespace ProviderSchema

/-- Why a text was not read. Lines count from one. -/
inductive Fault where
  /-- The grammar is respected, but something else was expected. -/
  | data (message : String)
  /-- The grammar is broken. -/
  | malformed (line : Nat)
  /-- The text ends too early. -/
  | truncated (line : Nat)
deriving DecidableEq, Repr, Inhabited

namespace Fault

/-- The data that was found is not of the wanted kind. -/
def mismatch (found wanted : String) : Fault :=
  .data ("invalid type: " ++ found ++ ", expected " ++ wanted)

/-- A value of the wanted kind is out of its range. -/
def invalidValue (found wanted : String) : Fault :=
  .data ("invalid value: " ++ found ++ ", expected " ++ wanted)

/-- A field that must be there is not. -/
def missingField (name : String) : Fault := .data ("missing field `" ++ name ++ "`")

/-- A field is there twice. -/
def duplicateField (name : String) : Fault := .data ("duplicate field `" ++ name ++ "`")

/-- A record written as a list ends before its last field that cannot be left out. -/
def tooShort (length : Nat) (record : String) (fields : Nat) : Fault :=
  .data ("invalid length " ++ toString length ++ ", expected struct " ++ record ++ " with "
    ++ toString fields ++ if fields = 1 then " element" else " elements")

/-- No alternative of a choice fits. -/
def noAlternative (name : String) : Fault :=
  .data ("data did not match any variant of untagged enum " ++ name)

end Fault

end ProviderSchema
