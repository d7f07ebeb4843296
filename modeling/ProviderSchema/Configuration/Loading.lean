import ProviderSchema.Configuration.Problems
import ProviderSchema.Configuration.Reading
import ProviderSchema.Files.Error

/-!
# Loading configurations
-/

namespace ProviderSchema

/-- Why there is no configuration. -/
inductive ConfigurationError where
  | file (e : FileError)
  /-- The text of the file is no configuration. -/
  | unreadable
  | invalid (problems : List String)
deriving DecidableEq, Repr, Inhabited

/-- What is said about an error of the configuration at a path. The reader's own words are not part
of it. -/
def ConfigurationError.message (path : String) : ConfigurationError → String
  | .file e => "failed to read config " ++ path ++ ": " ++ e.message
  | .unreadable => "failed to parse config " ++ path
  | .invalid problems => Configuration.problemsMessage problems

namespace Configuration

/-- The configuration that was read from a file. -/
def load (content : Except FileError String) : Except ConfigurationError Configuration :=
  match content with
  | .error e => .error (.file e)
  | .ok text =>
    match read? text with
    | some c => .ok c
    | none => .error .unreadable

/-- A configuration that has no problems. -/
def checked (c : Configuration) : Except ConfigurationError Configuration :=
  if c.isValid then .ok c else .error (.invalid c.problems)

end Configuration

end ProviderSchema
