import ProviderSchema.Attribute.Basic

/-!
# Attributes by path

A path names an attribute and nested attributes below it, separated by dots. Of several attributes
with one name the first is meant.
-/

namespace ProviderSchema.Attribute

/-- The names of a path, added to the name that has begun, whose last character comes first. -/
def pathNamesFrom (current : List Char) : List Char → List String
  | [] => [String.ofList current.reverse]
  | '.' :: rest => String.ofList current.reverse :: pathNamesFrom [] rest
  | c :: rest => pathNamesFrom (c :: current) rest

/-- The names of a path. -/
def pathNames (path : String) : List String := pathNamesFrom [] path.toList

/-- The attribute that a list of names leads to. -/
def findNames? : List String → List Attribute → Option Attribute
  | [], _ => none
  | [name], attributes => attributes.find? (·.name = name)
  | name :: names, attributes =>
    match attributes.find? (·.name = name) with
    | some a => a.children?.bind (findNames? names)
    | none => none

/-- The attribute at a path. -/
def find? (attributes : List Attribute) (path : String) : Option Attribute :=
  findNames? (pathNames path) attributes

/-- A list with `f` applied to the first attribute of a name, or nothing if there is none or `f`
yields nothing. -/
def updateFirst? (name : String) (f : Attribute → Option Attribute) :
    List Attribute → Option (List Attribute)
  | [] => none
  | a :: rest =>
    if a.name = name then (f a).map (· :: rest) else (updateFirst? name f rest).map (a :: ·)

/-- The attributes with `f` applied to the one that a list of names leads to. -/
def updateNames? (f : Attribute → Attribute) :
    List String → List Attribute → Option (List Attribute)
  | [], _ => none
  | [name], attributes => updateFirst? name (fun a => some (f a)) attributes
  | name :: names, attributes =>
    updateFirst? name
      (fun a =>
        match a.children? with
        | some children => (updateNames? f names children).map fun cs => a.withChildren cs
        | none => none)
      attributes

/-- The attributes with `f` applied to the one at a path, if there is one. -/
def update? (attributes : List Attribute) (path : String) (f : Attribute → Attribute) :
    Option (List Attribute) :=
  updateNames? f (pathNames path) attributes

/-- The attribute with another description. -/
def describedAs (description : String) (a : Attribute) : Attribute :=
  a.mapTraits fun t => { t with description := some description }

end ProviderSchema.Attribute
