/-!
# HTTP methods

A method is written in capitals in messages and in small letters as the key of a path item, and read
without regard to the case of ASCII letters.
-/

namespace ProviderSchema.OpenApi

/-- An HTTP method. -/
inductive Method where
  | get
  | post
  | put
  | delete
  | patch
  | options
  | head
  | trace
deriving DecidableEq, Repr, Inhabited

namespace Method

/-- All methods, in the order in which a path item lists its operations. -/
def all : List Method := [.get, .post, .put, .delete, .patch, .options, .head, .trace]

/-- The method as messages write it. -/
def name : Method → String
  | .get => "GET"
  | .post => "POST"
  | .put => "PUT"
  | .delete => "DELETE"
  | .patch => "PATCH"
  | .options => "OPTIONS"
  | .head => "HEAD"
  | .trace => "TRACE"

/-- The method as a path item writes it. -/
def key : Method → String
  | .get => "get"
  | .post => "post"
  | .put => "put"
  | .delete => "delete"
  | .patch => "patch"
  | .options => "options"
  | .head => "head"
  | .trace => "trace"

/-- A text with its ASCII letters made capital. -/
def capitals (text : String) : String := String.ofList (text.toList.map Char.toUpper)

/-- The method of a name, in whatever case it is written. -/
def ofName? (name : String) : Option Method :=
  let name := capitals name
  all.find? fun m => m.name = name

/-- What is said about a name that belongs to no method. -/
def unknown (name : String) : String := "unknown HTTP method '" ++ name ++ "'"

end Method

end ProviderSchema.OpenApi
