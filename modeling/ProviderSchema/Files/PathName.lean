/-!
# Names of files

A path names a file by the directories that lead to it, from the working directory or from the root.
-/

namespace ProviderSchema.PathName

/-- The parts between slashes, added to the part that has begun, whose last character comes
first. -/
def partsFrom (current : List Char) : List Char → List String
  | [] => [String.ofList current.reverse]
  | '/' :: rest => String.ofList current.reverse :: partsFrom [] rest
  | c :: rest => partsFrom (c :: current) rest

/-- The parts between slashes. -/
def parts (path : String) : List String := partsFrom [] path.toList

/-- The names along a path. Empty parts and parts that stay in place count for nothing; a path from
the root has the root as its first name. -/
def steps (path : String) : List String :=
  let names := (parts path).filter fun part => part ≠ "" && part ≠ "."
  if path.toList.head? = some '/' then "/" :: names else names

/-- Whether a path says that it names a directory. -/
def namesDirectory (path : String) : Bool :=
  let last := (parts path).getLast?
  last = some "" || last = some "." || last = some ".."

/-- The path of the directory that holds what a path names, or the empty path if it is the working
directory. -/
def parent (path : String) : String :=
  let trailing := path.toList.reverse.dropWhile (· = '/')
  let above := trailing.dropWhile (· ≠ '/')
  let kept := above.dropWhile (· = '/')
  if kept = [] && above ≠ [] then "/" else String.ofList kept.reverse

/-- The part of a file's name after its last dot, unless the name starts there. -/
def suffix? (path : String) : Option String :=
  match (steps path).getLast? with
  | none => none
  | some name =>
    if name = ".." then none
    else
      let reversed := name.toList.reverse
      match reversed.dropWhile (· ≠ '.') with
      | [] => none
      | [_] => none
      | _ => some (String.ofList (reversed.takeWhile (· ≠ '.')).reverse)

end ProviderSchema.PathName
