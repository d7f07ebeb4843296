import ProviderSchema.Json.Basic
import ProviderSchema.Json.Quoted
import ProviderSchema.Text.Join

/-!
# Writing JSON

`Json.compact` writes a value without any blanks, `Json.pretty` with one member or item per line and
two spaces of indentation. Both write members in the order in which the value holds them.
-/

namespace ProviderSchema.Json

open Text (joinWith)

/-- The text of a value that holds no others. -/
def scalarText : Json → String
  | .null => "null"
  | .bool true => "true"
  | .bool false => "false"
  | .integer n => toString n
  | .float x => Decimal.valueLayout.text x
  | .text s => Quoted.quote s
  | .array _ | .object _ => ""

mutual

/-- A value without blanks. -/
def compact : Json → String
  | .array items => "[" ++ joinWith "," (compactItems items) ++ "]"
  | .object members => "\x7b" ++ joinWith "," (compactMembers members) ++ "\x7d"
  | value => scalarText value

/-- The items of an array without blanks. -/
def compactItems : List Json → List String
  | [] => []
  | item :: rest => compact item :: compactItems rest

/-- The members of an object without blanks, each with its name. -/
def compactMembers : List (String × Json) → List String
  | [] => []
  | (name, value) :: rest => (Quoted.quote name ++ ":" ++ compact value) :: compactMembers rest

end

/-- A line break and the indentation of a nesting level. -/
def lineBreak (level : Nat) : String := "\n" ++ String.ofList (List.replicate (2 * level) ' ')

/-- Brackets around lines, or around nothing. -/
def bracketed (left right : String) (level : Nat) (lines : List String) : String :=
  if lines.isEmpty then left ++ right
  else
    let inner := lineBreak (level + 1)
    left ++ inner ++ joinWith ("," ++ inner) lines ++ lineBreak level ++ right

mutual

/-- A value over several lines, its first line not indented. -/
def prettyAt (level : Nat) : Json → String
  | .array items => bracketed "[" "]" level (prettyItems (level + 1) items)
  | .object members => bracketed "\x7b" "\x7d" level (prettyMembers (level + 1) members)
  | value => scalarText value

/-- The items of an array over several lines. -/
def prettyItems (level : Nat) : List Json → List String
  | [] => []
  | item :: rest => prettyAt level item :: prettyItems level rest

/-- The members of an object over several lines, each with its name. -/
def prettyMembers (level : Nat) : List (String × Json) → List String
  | [] => []
  | (name, value) :: rest =>
    (Quoted.quote name ++ ": " ++ prettyAt level value) :: prettyMembers level rest

end

/-- A value over several lines. -/
def pretty (value : Json) : String := prettyAt 0 value

end ProviderSchema.Json
