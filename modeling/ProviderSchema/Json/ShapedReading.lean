import ProviderSchema.Json.Reader
import ProviderSchema.Document.Shape
import ProviderSchema.Text.Shown

/-!
# Reading a JSON text along a shape

`Source.read` turns a value of a text into content, as a shape wants it, and gives the first fault
it meets on the way: of the grammar, or of the data. What a shape does not ask for is skipped
(`Source.skip`); a free value and a choice are read as they stand (`Source.content`).
-/

namespace ProviderSchema.Json

namespace Number

/-- A number as it stands. -/
def content : Number → Content
  | .integer n => .integer n
  | .float x => .float x

/-- A number in the words of an error message. -/
def found : Number → String
  | .integer n => "integer `" ++ toString n ++ "`"
  | .float x => "floating point `" ++ Decimal.valueLayout.text x ++ "`"

end Number

mutual

/-- Skipping a value: only a text that breaks off is a fault. -/
def Source.skip : Source → Except Fault Unit
  | .array items => items.skip
  | .object members => members.skip
  | .broken f => .error f
  | .unreadable _ inner => inner.skip
  | _ => .ok ()

/-- Skipping the items of an array. -/
def Items.skip : Items → Except Fault Unit
  | .done => .ok ()
  | .stop f => .error f
  | .item _ value rest =>
    match value.skip with
    | .error f => .error f
    | .ok () => rest.skip

/-- Skipping the members of an object, whose names are not looked at. -/
def Members.skip : Members → Except Fault Unit
  | .done => .ok ()
  | .stop f => .error f
  | .member _ value rest =>
    match value.skip with
    | .error f => .error f
    | .ok () => rest.skip

end

mutual

/-- A value as it stands. -/
def Source.content : Source → Except Fault Content
  | .null => .ok .null
  | .bool b => .ok (.bool b)
  | .number n => .ok n.content
  | .text s => .ok (.text s)
  | .array items => items.contents.map .array
  | .object members => members.entries.map .object
  | .broken f => .error f
  | .unreadable f _ => .error f

/-- The items of an array as they stand. -/
def Items.contents : Items → Except Fault (List Content)
  | .done => .ok []
  | .stop f => .error f
  | .item _ value rest =>
    match value.content with
    | .error f => .error f
    | .ok c => rest.contents.map (c :: ·)

/-- The members of an object as they stand. -/
def Members.entries : Members → Except Fault (List (Key × Content))
  | .done => .ok []
  | .stop f => .error f
  | .member (.error f) _ _ => .error f
  | .member (.ok name) value rest =>
    match value.content with
    | .error f => .error f
    | .ok c => rest.entries.map ((.name name, c) :: ·)

end

/-- What a value is, in the words of an error message. -/
def Source.found : Source → String
  | .null => "null"
  | .bool true => "boolean `true`"
  | .bool false => "boolean `false`"
  | .number n => n.found
  | .text s => "string " ++ Text.shown s
  | .array _ => "sequence"
  | .object _ => "map"
  | .broken _ | .unreadable _ _ => ""

/-- A value that is not of the wanted kind. -/
def Source.unwanted (shape : Shape) (s : Source) : Except Fault Content :=
  .error (.mismatch s.found shape.bare.wanted)

/-- A value where a scalar is wanted. -/
def Source.scalar (shape : Shape) (s : Source) : Except Fault Content :=
  match shape, s with
  | .text, .text t => .ok (.text t)
  | .flag, .bool b => .ok (.bool b)
  | .natural, .number (.integer n) =>
    if 0 ≤ n then .ok (.integer n)
    else .error (.invalidValue (Number.found (.integer n)) Shape.natural.wanted)
  | .number, .number n => .ok n.content
  | _, s => s.unwanted shape

/-- The fields that have to be there and are not: the first of them is reported. -/
def missingField? (seen : List String) : List (String × Presence × Shape) → Option Fault
  | [] => none
  | (name, presence, _) :: rest =>
    if presence = .required ∧ name ∉ seen then some (.missingField name)
    else missingField? seen rest

/-- The position of the first field that cannot be left out of a list. -/
def firstNeeded? (index : Nat) : List (String × Presence × Shape) → Option Nat
  | [] => none
  | (_, presence, _) :: rest =>
    if presence = .defaulted then firstNeeded? (index + 1) rest else some index

mutual

/-- A value as a shape wants it. -/
def Source.read (shape : Shape) : Source → Except Fault Content
  | .broken f => .error f
  | .unreadable f _ => .error f
  | .array items =>
    match shape.bare with
    | .free => items.contents.map .array
    | .list s => (items.readAll s).map .array
    | .record name fields => (items.readFields name fields.length 0 fields).map .array
    | .choice name fits =>
      match items.contents with
      | .error f => .error f
      | .ok cs => if fits (.array cs) then .ok (.array cs) else .error (.noAlternative name)
    | _ => Source.unwanted shape (.array items)
  | .object members =>
    match shape.bare with
    | .free => members.entries.map .object
    | .table s => (members.readTable s).map .object
    | .record _ fields => (members.readFields fields []).map .object
    | .choice name fits =>
      match members.entries with
      | .error f => .error f
      | .ok es => if fits (.object es) then .ok (.object es) else .error (.noAlternative name)
    | _ => Source.unwanted shape (.object members)
  | s =>
    if shape.allowsNull && s matches .null then .ok .null
    else
      match shape.bare with
      | .free => s.content
      | .choice name fits =>
        match s.content with
        | .error f => .error f
        | .ok c => if fits c then .ok c else .error (.noAlternative name)
      | wanted => s.scalar wanted

/-- The items of a list, all of one shape. -/
def Items.readAll (shape : Shape) : Items → Except Fault (List Content)
  | .done => .ok []
  | .stop f => .error f
  | .item _ value rest =>
    match value.read shape with
    | .error f => .error f
    | .ok c => (rest.readAll shape).map (c :: ·)

/-- The fields of a record that is written as a list, from the position `index` on. -/
def Items.readFields (record : String) (size index : Nat)
    (fields : List (String × Presence × Shape)) : Items → Except Fault (List Content)
  | .done =>
    match firstNeeded? index fields with
    | none => .ok []
    | some i => .error (.tooShort i record size)
  | .stop f => .error f
  | .item line value rest =>
    match fields with
    | [] => .error (.malformed line)
    | (_, _, shape) :: fields =>
      match value.read shape with
      | .error f => .error f
      | .ok c => (rest.readFields record size (index + 1) fields).map (c :: ·)

/-- The entries of a table, all of one shape. -/
def Members.readTable (shape : Shape) : Members → Except Fault (List (Key × Content))
  | .done => .ok []
  | .stop f => .error f
  | .member (.error f) _ _ => .error f
  | .member (.ok name) value rest =>
    match value.read shape with
    | .error f => .error f
    | .ok c => (rest.readTable shape).map ((.name name, c) :: ·)

/-- The fields of a record that is written as a mapping; `seen` are the names read so far. -/
def Members.readFields (fields : List (String × Presence × Shape)) (seen : List String) :
    Members → Except Fault (List (Key × Content))
  | .done =>
    match missingField? seen fields with
    | none => .ok []
    | some f => .error f
  | .stop f => .error f
  | .member (.error f) _ _ => .error f
  | .member (.ok name) value rest =>
    match fields.find? fun field => field.1 = name with
    | none =>
      match value.skip with
      | .error f => .error f
      | .ok () => rest.readFields fields seen
    | some (_, _, shape) =>
      if name ∈ seen then .error (.duplicateField name)
      else
        match value.read shape with
        | .error f => .error f
        | .ok c => (rest.readFields fields (name :: seen)).map ((.name name, c) :: ·)

end

/-- The content of a whole text, as a shape wants it. -/
def contentOf (shape : Shape) (text : String) : Except Fault Content :=
  let source := SourceText.ofText text
  match source.value.read shape with
  | .error f => .error f
  | .ok c =>
    match source.trailing with
    | some f => .error f
    | none => .ok c

end ProviderSchema.Json
