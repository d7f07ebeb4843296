import ProviderSchema.Document.Shape
import ProviderSchema.Yaml.Composition
import ProviderSchema.Yaml.Lexer
import ProviderSchema.Yaml.Scalar

/-!
# Reading a YAML text along a shape

`Document.read` turns a node into content, as a shape wants it. Where a scalar of a known kind is
wanted, its text is read as that kind; where a node is read as it stands, its scalars have the
values that they look like. Collections nest to a limited depth, and the number of aliases that are
followed is limited by the extent of the document.
-/

namespace ProviderSchema.Yaml

/-- A reading in progress: how many aliases may still be followed. -/
abbrev Reading := StateT Nat Option

/-- How many collections may be nested. -/
def maxDepth : Nat := 128

/-- How many aliases may be followed for every unit of the extent of a document. -/
def aliasesPerUnit : Nat := 100

namespace Document

/-- The node that a node stands for. -/
def follow (d : Document) : Node → Reading Node
  | .alias number => do
    match ← get with
    | 0 => failure
    | left + 1 =>
      set left
      match d.target? number with
      | some node => return node
      | none => failure
  | node => return node

/-- The text of a node, which has to be a scalar. -/
def text (d : Document) (node : Node) : Reading String := do
  match ← d.follow node with
  | .scalar _ text _ => return text
  | _ => failure

/-- Content that is there. -/
def found (content : Option Content) : Reading Content := StateT.lift content

/-- Whether a node is a scalar of which nothing is written, which stands for an empty collection. -/
def isUnwritten : Node → Bool
  | .scalar _ text style => text = "" && style = .plain
  | _ => false

/-- The key of a mapping that is read as it stands. -/
def keyOf : Content → Key
  | .text name => .name name
  | .integer n => if 0 ≤ n then .position n.toNat else .foreign
  | _ => .foreign

/-- A node as it stands, with `depth` nested collections at most. With `textKeys` the keys of
mappings are text whatever they look like. -/
def content (d : Document) (textKeys : Bool) (depth : Nat) (node : Node) : Reading Content := do
  match ← d.follow node with
  | .alias _ => failure
  | .scalar tag text style => found (Scalar.typed? tag text style)
  | .sequence tag items =>
    match depth with
    | 0 => failure
    | depth + 1 =>
      if Scalar.isOwnTag tag then failure
      .array <$> items.mapM (d.content textKeys depth)
  | .mapping tag entries =>
    match depth with
    | 0 => failure
    | depth + 1 =>
      if Scalar.isOwnTag tag then failure
      let entries ← entries.mapM fun (key, value) => do
        let key ←
          if textKeys then Key.name <$> d.text key else keyOf <$> d.content textKeys depth key
        return (key, ← d.content textKeys depth value)
      return .object entries

/-- A scalar where a scalar of some kind is wanted. -/
def scalar (shape : Shape) (node : Node) : Reading Content :=
  match shape, node with
  | .text, .scalar _ text _ => return .text text
  | .flag, .scalar tag text style => found (Scalar.flag? tag text style)
  | .natural, .scalar tag text style => found (Scalar.natural? tag text style)
  | .number, .scalar tag text style => found (Scalar.number? tag text style)
  | _, _ => failure

/-- Whether a node leaves an optional node absent. -/
def isAbsent (shape : Shape) (node : Node) : Reading Bool :=
  match node with
  | .scalar tag text style =>
    if shape.allowsNull then StateT.lift (Scalar.isAbsent? tag text style) else return false
  | _ => return false

/-- A node as a shape wants it, with `depth` nested collections at most. -/
def read (d : Document) (depth : Nat) (shape : Shape) (node : Node) : Reading Content := do
  let node ← d.follow node
  if ← isAbsent shape node then return .null
  match shape.bare with
  | .free => d.content true depth node
  | .choice _ _ => d.content false depth node
  | .list item =>
    if isUnwritten node then return .array []
    match depth with
    | 0 => failure
    | depth + 1 =>
      match node with
      | .sequence _ items => .array <$> items.mapM (d.read depth item)
      | _ => failure
  | .table value =>
    if isUnwritten node then return .object []
    match depth with
    | 0 => failure
    | depth + 1 =>
      match node with
      | .mapping _ entries =>
        let entries ← entries.mapM fun entry => do
          let name ← d.text entry.1
          return (Key.name name, ← d.read depth value entry.2)
        return .object entries
      | _ => failure
  | .record _ fields =>
    if isUnwritten node then return .object []
    match depth with
    | 0 => failure
    | depth + 1 =>
      match node with
      | .mapping _ entries =>
        let entries ← entries.mapM fun entry => do
          let name ← d.text entry.1
          match fields.find? fun f => f.1 = name with
          | some (_, _, field) => return some (Key.name name, ← d.read depth field entry.2)
          | none => return none
        return .object (entries.filterMap id)
      | _ => failure
  | wanted => scalar wanted node

end Document

/-- The content of a whole text, as a shape wants it. -/
def contentOf? (shape : Shape) (text : String) : Option Content := do
  let document ← Document.ofTokens? (← tokens? text)
  let aliases := aliasesPerUnit * document.root.extent
  let (content, _) ← (document.read maxDepth shape document.root).run aliases
  return content

end ProviderSchema.Yaml
