import ProviderSchema.Document.Content

/-!
# Shapes

A `Shape` says what a reader is to find at a node before the node is decoded: which scalars are text
whatever they look like, which nodes are records with known fields, and which are read as they stand
and fit one of several alternatives. A reader that works along a shape skips the fields nobody asks
for and can say, at the first node that does not fit, what it expected there.

`Content.fields?` is the other half: it takes the content of a record apart into its fields. A
record is written as a mapping from names to fields, or as a list of the fields in order.
-/

namespace ProviderSchema

/-- Whether a field of a record may be left out. -/
inductive Presence where
  /-- The field must be there. -/
  | required
  /-- The field may be missing from a mapping, but keeps its place in a list. -/
  | optional
  /-- The field may be missing from a mapping and from the end of a list. -/
  | defaulted
deriving DecidableEq, Repr, Inhabited

/-- What is to be found at a node. -/
inductive Shape where
  | text
  | flag
  | natural
  | number
  /-- Any value at all. -/
  | free
  /-- A node of the given shape, or `null`. -/
  | optional (shape : Shape)
  | list (shape : Shape)
  /-- A mapping from arbitrary names. -/
  | table (shape : Shape)
  /-- A node that is read as it stands and has to fit one of the alternatives of `name`. -/
  | choice (name : String) (fits : Content → Bool)
  | record (name : String) (fields : List (String × Presence × Shape))

namespace Shape

/-- The shape without the permission to be `null`. -/
def bare : Shape → Shape
  | .optional s => s
  | s => s

/-- Whether a node of a shape may be `null`. -/
def allowsNull : Shape → Bool
  | .optional _ => true
  | _ => false

/-- What is expected at a node of a shape, in the words of an error message. -/
def wanted : Shape → String
  | .text => "a string"
  | .flag => "a boolean"
  | .natural => "u64"
  | .number => "f64"
  | .free => "any valid JSON value"
  | .optional s => s.wanted
  | .list _ => "a sequence"
  | .table _ => "a map"
  | .choice name _ => name
  | .record name _ => "struct " ++ name

end Shape

/-- The names and presences of the fields of a record, in order. -/
abbrev FieldList := List (String × Presence)

/-- The fields of a record that is being decoded, by their positions. -/
abbrev Fields := List (Nat × Content)

namespace Content

/-- The field that a key names. -/
def fieldIndex? (fields : FieldList) : Key → Except Unit (Option Nat)
  | .name name => .ok (fields.findIdx? fun f => f.1 = name)
  | .position i => .ok (if i < fields.length then some i else none)
  | .foreign => .error ()

/-- The known fields among the entries of a mapping, each of which may be there once. -/
def entryFields? (fields : FieldList) (seen : Fields) : List (Key × Content) → Option Fields
  | [] => some seen
  | (key, value) :: rest =>
    match fieldIndex? fields key with
    | .error _ => none
    | .ok none => entryFields? fields seen rest
    | .ok (some i) =>
      if seen.any (·.1 = i) then none else entryFields? fields ((i, value) :: seen) rest

/-- The fields of a record that is written as a list. -/
def itemFields? (index : Nat) : FieldList → List Content → Option Fields
  | [], [] => some []
  | [], _ :: _ => none
  | fields, [] => if fields.all (·.2 = .defaulted) then some [] else none
  | _ :: fields, item :: items => (itemFields? (index + 1) fields items).map ((index, item) :: ·)

/-- The fields of a record, by their positions. -/
def fields? (fields : FieldList) : Content → Option Fields
  | .object entries => entryFields? fields [] entries
  | .array items => itemFields? 0 fields items
  | _ => none

end Content

namespace Fields

/-- The content of the field at a position. -/
def get? (fields : Fields) (index : Nat) : Option Content :=
  (fields.find? fun f => f.1 = index).map (·.2)

/-- A field that must be there. -/
def required {α : Type} (fields : Fields) (index : Nat) (read : Content → Option α) : Option α :=
  (fields.get? index).bind read

/-- A field that may be missing or `null`. -/
def optional {α : Type} (fields : Fields) (index : Nat) (read : Content → Option α) :
    Option (Option α) :=
  match fields.get? index with
  | none => some none
  | some c => c.optional? read

/-- A field with a value for the case that it is missing; `null` is no such case. -/
def defaulted {α : Type} (fields : Fields) (index : Nat) (fallback : α)
    (read : Content → Option α) : Option α :=
  match fields.get? index with
  | none => some fallback
  | some c => read c

end Fields

end ProviderSchema
