import ProviderSchema.Json.Basic

/-!
# Node content

What a reader makes of a node of a document before anything is known about its meaning. It differs
from a JSON value in the keys of its mappings: a document format may allow keys that are not text. A
key that is a natural number stands for the field at that position wherever fields have an order;
any other key that is not text fits nowhere.
-/

namespace ProviderSchema

open Decimal (Binary64)

/-- The key of a mapping. -/
inductive Key where
  | name (text : String)
  | position (index : Nat)
  | foreign
deriving DecidableEq, Repr, Inhabited

/-- The content of a node. -/
inductive Content where
  | null
  | bool (value : Bool)
  | integer (value : Int)
  | float (value : Binary64)
  | text (value : String)
  | array (items : List Content)
  | object (entries : List (Key × Content))
deriving Repr, Inhabited

namespace Content

mutual

/-- A JSON value as content. -/
def ofJson : Json → Content
  | .null => .null
  | .bool b => .bool b
  | .integer n => .integer n
  | .float x => .float x
  | .text s => .text s
  | .array items => .array (ofJsonItems items)
  | .object members => .object (ofJsonMembers members)

/-- The items of an array as content. -/
def ofJsonItems : List Json → List Content
  | [] => []
  | item :: rest => ofJson item :: ofJsonItems rest

/-- The members of an object as content. -/
def ofJsonMembers : List (String × Json) → List (Key × Content)
  | [] => []
  | (name, value) :: rest => (.name name, ofJson value) :: ofJsonMembers rest

end

mutual

/-- Content as a free value. Members are sorted by name, the last one of a name counts, and a number
that is not finite becomes `null`; a key that is not text has no place in a free value. -/
def toJson? : Content → Option Json
  | .null => some .null
  | .bool b => some (.bool b)
  | .integer n => some (.integer n)
  | .float x => some (if x.isFinite then .float x else .null)
  | .text s => some (.text s)
  | .array items => (toJsonItems? items).map .array
  | .object entries => (toJsonMembers? [] entries).map .object

/-- Items as free values, if each of them is one. -/
def toJsonItems? : List Content → Option (List Json)
  | [] => some []
  | item :: rest =>
    match toJson? item, toJsonItems? rest with
    | some value, some values => some (value :: values)
    | _, _ => none

/-- Members as free values, put into those that are done. -/
def toJsonMembers? (done : List (String × Json)) :
    List (Key × Content) → Option (List (String × Json))
  | [] => some done
  | (.name name, item) :: rest =>
    match toJson? item with
    | some value => toJsonMembers? (Json.insertMember name value done) rest
    | none => none
  | (_, _) :: _ => none

end

/-- A text. -/
def text? : Content → Option String
  | .text s => some s
  | _ => none

/-- A truth value. -/
def bool? : Content → Option Bool
  | .bool b => some b
  | _ => none

/-- A number without sign and fraction. -/
def natural? : Content → Option Nat
  | .integer n => if 0 ≤ n then some n.toNat else none
  | _ => none

/-- Any number, rounded to the nearest floating-point one. -/
def float? : Content → Option Binary64
  | .integer n => some (.ofInt n)
  | .float x => some x
  | _ => none

/-- A node that may be absent, `null` standing for absence. -/
def optional? {α : Type} (read : Content → Option α) : Content → Option (Option α)
  | .null => some none
  | c => (read c).map some

/-- Texts, if each item is one. -/
def texts? : List Content → Option (List String)
  | [] => some []
  | .text s :: rest => (texts? rest).map (s :: ·)
  | _ :: _ => none

/-- A list of texts. -/
def textList? : Content → Option (List String)
  | .array items => texts? items
  | _ => none

end Content

end ProviderSchema
