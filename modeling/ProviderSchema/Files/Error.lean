/-!
# Errors of files
-/

namespace ProviderSchema

/-- Why a file is not read or written. -/
inductive FileError where
  | notFound
  | alreadyExists
  | notDirectory
  | isDirectory
  | denied
  /-- The content of the file is no text. -/
  | notText
  /-- Anything else, in the words of the system. -/
  | other (message : String)
deriving DecidableEq, Repr, Inhabited

/-- What is said about an error. -/
def FileError.message : FileError → String
  | .notFound => "No such file or directory (os error 2)"
  | .denied => "Permission denied (os error 13)"
  | .alreadyExists => "File exists (os error 17)"
  | .notDirectory => "Not a directory (os error 20)"
  | .isDirectory => "Is a directory (os error 21)"
  | .notText => "stream did not contain valid UTF-8"
  | .other message => message

/-- Why a file is not written: a directory above it cannot be created, or the file itself. -/
inductive WriteError where
  | directory (e : FileError)
  | file (e : FileError)
deriving DecidableEq, Repr, Inhabited

end ProviderSchema
