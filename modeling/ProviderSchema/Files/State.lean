import ProviderSchema.Document.Table
import ProviderSchema.Files.Error
import ProviderSchema.Files.PathName

/-!
# The state of the files

A `FileState` holds the files there are, by the names along their paths from the working directory.
A directory exists if something in it does. Writing a file creates the directories above it.

Directories without a file below them are not part of a state. So no path leads through one, and
those that a write leaves behind do not show in the state after it. A write leaves some behind where
its path goes into a directory that does not exist and out of it again, as `a/../b.json` does, and
where the directories above a file are created but the file itself cannot be written.
-/

namespace ProviderSchema

/-- The files, each with its text. -/
structure FileState where
  files : List (List String × String)
deriving DecidableEq, Repr, Inhabited

namespace FileState

/-- The text of a file. -/
def file? (s : FileState) (names : List String) : Option String :=
  (s.files.find? fun f => f.1 = names).map (·.2)

/-- Whether there is a directory: one that holds a file, the working directory, the root or a
directory above. -/
def isDirectory (s : FileState) (names : List String) : Bool :=
  names.all (· = "..") || names = ["/"]
    || s.files.any fun f => names.isPrefixOf f.1 && names.length < f.1.length

/-- The directory that a name leads to. -/
def enter (place : List String) (name : String) : List String :=
  if name ≠ ".." then place ++ [name]
  else if place = ["/"] then place
  else
    match place.getLast? with
    | none | some ".." => place ++ [".."]
    | some _ => place.dropLast

/-- Follows names; all but the last have to lead to directories. -/
def walk (s : FileState) (place : List String) : List String → Except FileError (List String)
  | [] => .ok place
  | [name] => .ok (enter place name)
  | name :: rest =>
    let next := enter place name
    if s.isDirectory next then walk s next rest
    else if (s.file? next).isSome then .error .notDirectory
    else .error .notFound

/-- The text of the file at a path. -/
def read (s : FileState) (path : String) : Except FileError String :=
  match s.walk [] (PathName.steps path) with
  | .error e => .error e
  | .ok names =>
    match s.file? names with
    | some text => if PathName.namesDirectory path then .error .notDirectory else .ok text
    | none => if s.isDirectory names then .error .isDirectory else .error .notFound

/-- Follows names to a directory that is created where it does not exist. -/
def create (s : FileState) (place : List String) : List String → Except FileError (List String)
  | [] => .ok place
  | name :: rest =>
    let next := enter place name
    if (s.file? next).isSome then
      .error (if rest = [] then .alreadyExists else .notDirectory)
    else create s next rest

/-- The state with a file of the given text. -/
def put (s : FileState) (names : List String) (text : String) : FileState :=
  ⟨upsert (·.1 = names) (fun f => (f.1, text)) (names, text) s.files⟩

/-- The state after a text is written to a path. -/
def write (s : FileState) (path text : String) : Except WriteError FileState :=
  match s.create [] (PathName.steps (PathName.parent path)) with
  | .error e => .error (.directory e)
  | .ok place =>
    match (PathName.steps path).getLast? with
    | none => .error (.file .isDirectory)
    | some name =>
      let names := enter place name
      if PathName.namesDirectory path || s.isDirectory names then .error (.file .isDirectory)
      else .ok (s.put names text)

end FileState

end ProviderSchema
