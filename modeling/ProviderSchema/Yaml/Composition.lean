import ProviderSchema.Yaml.Node

/-!
# From tokens to a document

`Document.ofTokens?` composes the nodes of the one document that a list of tokens describes. There
is one function per production of the grammar. A node that may be left out is `Node.empty` where the
token after it shows that it was.

Anchors are numbered when they begin, by how many different names there are so far, and an alias
takes the number that its name has at that point.
-/

namespace ProviderSchema.Yaml

/-- What is known while the nodes of a document are composed. -/
structure Composer where
  tokens : List Token
  /-- The starts of tags that handles stand for. -/
  handles : List (String × String)
  /-- The numbers of the names of anchors. -/
  numbers : List (String × Nat) := []
  /-- How many anchors have begun. -/
  begun : Nat := 0
  anchored : List Anchored := []

/-- A step of composing nodes, which fails where the tokens make none. -/
abbrev Composing := StateT Composer Option

namespace Composing

/-- The next token, which stays where it is. -/
def peek? : Composing (Option Token) := do return (← get).tokens.head?

/-- Leaves out the next token. -/
def skip : Composing Unit := modify fun c => { c with tokens := c.tokens.drop 1 }

/-- Whether the next token is one of the given ones. -/
def atOneOf (tokens : List Token) : Composing Bool := do
  match ← peek? with
  | some t => return t ∈ tokens
  | none => return false

/-- Takes the next token if it is the given one. -/
def accept (token : Token) : Composing Bool := do
  if ← atOneOf [token] then
    skip
    return true
  else return false

/-- Takes the next token, which has to be the given one. -/
def expect (token : Token) : Composing Unit := do
  if !(← accept token) then failure

/-! ## Properties of nodes -/

/-- Takes an anchor, if there is one. -/
def anchor? : Composing (Option String) := do
  match ← peek? with
  | some (.anchor name) => do
    skip
    return some name
  | _ => return none

/-- Takes a tag, if there is one. The start that its handle stands for is put before it. -/
def tag? : Composing (Option String) := do
  match ← peek? with
  | some (.tag handle rest) => do
    skip
    if handle = "" then return some rest
    else
      match (← get).handles.find? fun h => h.1 = handle with
      | some (_, start) => return some (start ++ rest)
      | none => failure
  | _ => return none

/-- Takes an anchor and a tag, in either order. -/
def properties : Composing (Option String × Option String) := do
  match ← anchor? with
  | some name => return (some name, ← tag?)
  | none =>
    let tag ← tag?
    if tag.isSome then return (← anchor?, tag) else return (none, none)

/-- Gives an anchor its number and its place in the order of anchors. -/
def begin (name : String) : Composing (Nat × Nat) := do
  let c ← get
  let number := c.numbers.length
  let others := c.numbers.filter fun n => n.1 ≠ name
  set { c with numbers := (name, number) :: others, begun := c.begun + 1 }
  return (c.begun, number)

/-- Composes a node that carries an anchor. -/
def anchoring (name : Option String) (node : Composing Node) : Composing Node :=
  match name with
  | none => node
  | some name => do
    let (order, number) ← begin name
    let node ← node
    modify fun c => { c with anchored := ⟨order, number, node⟩ :: c.anchored }
    return node

/-! ## Nodes -/

mutual

/-- A node. In the block context it may be a block collection, and after a key a sequence without
indentation of its own. -/
def node (block indentless : Bool) : Nat → Composing Node
  | 0 => failure
  | steps + 1 => do
    match ← peek? with
    | some (.alias name) =>
      skip
      match (← get).numbers.find? fun n => n.1 = name with
      | some (_, number) => return .alias number
      | none => failure
    | _ =>
      let (name, tag) ← properties
      anchoring name do
        match ← peek? with
        | some .blockEntry =>
          if indentless then .sequence tag <$> indentlessItems steps
          else if name.isSome || tag.isSome then return .scalar tag "" .plain
          else failure
        | some (.scalar text style) =>
          skip
          return .scalar (if tag = some "!" then none else tag) text style
        | some .flowSequenceStart =>
          skip
          .sequence tag <$> flowItems true steps
        | some .flowMappingStart =>
          skip
          .mapping tag <$> flowEntries true steps
        | other =>
          if block && other = some .blockSequenceStart then do
            skip
            .sequence tag <$> blockItems steps
          else if block && other = some .blockMappingStart then do
            skip
            .mapping tag <$> blockEntries steps
          else if name.isSome || tag.isSome then return .scalar tag "" .plain
          else failure

/-- A node, unless one of the given tokens shows that it is left out. -/
def nodeBefore (ends : List Token) (block indentless : Bool) : Nat → Composing Node
  | 0 => failure
  | steps + 1 => do
    if ← atOneOf ends then return .empty else node block indentless steps

/-- The items of a block sequence. -/
def blockItems : Nat → Composing (List Node)
  | 0 => failure
  | steps + 1 => do
    if ← accept .blockEntry then
      let item ← nodeBefore [.blockEntry, .blockEnd] true false steps
      return item :: (← blockItems steps)
    else
      expect .blockEnd
      return []

/-- The items of a sequence that stands at the indentation of its key. -/
def indentlessItems : Nat → Composing (List Node)
  | 0 => failure
  | steps + 1 => do
    if ← accept .blockEntry then
      let item ← nodeBefore [.blockEntry, .key, .value, .blockEnd] true false steps
      return item :: (← indentlessItems steps)
    else return []

/-- The entries of a block mapping. -/
def blockEntries : Nat → Composing (List (Node × Node))
  | 0 => failure
  | steps + 1 => do
    if ← accept .key then
      let key ← nodeBefore [.key, .value, .blockEnd] true true steps
      let value ←
        if ← accept .value then nodeBefore [.key, .value, .blockEnd] true true steps
        else pure .empty
      return (key, value) :: (← blockEntries steps)
    else
      expect .blockEnd
      return []

/-- The items of a flow sequence. -/
def flowItems (first : Bool) : Nat → Composing (List Node)
  | 0 => failure
  | steps + 1 => do
    if ← accept .flowSequenceEnd then return []
    if !first then expect .flowEntry
    if ← accept .key then
      let entry ← singleEntry steps
      return .mapping none [entry] :: (← flowItems false steps)
    else if ← accept .flowSequenceEnd then return []
    else
      let item ← node false false steps
      return item :: (← flowItems false steps)

/-- The one entry of a mapping that is an item of a flow sequence. If its key is left out, the token
that shows it is taken with it. -/
def singleEntry : Nat → Composing (Node × Node)
  | 0 => failure
  | steps + 1 => do
    let key ←
      if ← atOneOf [.value, .flowEntry, .flowSequenceEnd] then do
        skip
        pure .empty
      else node false false steps
    let value ←
      if ← accept .value then nodeBefore [.flowEntry, .flowSequenceEnd] false false steps
      else pure .empty
    return (key, value)

/-- The entries of a flow mapping. -/
def flowEntries (first : Bool) : Nat → Composing (List (Node × Node))
  | 0 => failure
  | steps + 1 => do
    if ← accept .flowMappingEnd then return []
    if !first then expect .flowEntry
    if ← accept .key then
      let key ← nodeBefore [.value, .flowEntry, .flowMappingEnd] false false steps
      let value ←
        if ← accept .value then nodeBefore [.flowEntry, .flowMappingEnd] false false steps
        else pure .empty
      return (key, value) :: (← flowEntries false steps)
    else if ← accept .flowMappingEnd then return []
    else
      let key ← node false false steps
      return (key, .empty) :: (← flowEntries false steps)

end

/-! ## Documents -/

/-- Takes the directives before a document. -/
def directives (version : Bool) : Nat → Composing Unit
  | 0 => failure
  | steps + 1 => do
    match ← peek? with
    | some (.version major minor) =>
      if version || major ≠ 1 || (minor ≠ 1 && minor ≠ 2) then failure
      skip
      directives true steps
    | some (.tagHandle handle start) =>
      if (← get).handles.any fun h => h.1 = handle then failure
      skip
      modify fun c => { c with handles := c.handles ++ [(handle, start)] }
      directives version steps
    | _ => return ()

/-- The root node of the only document. -/
def root (steps : Nat) : Composing Node := do
  match ← peek? with
  | none => return .empty
  | some (.version ..) | some (.tagHandle ..) | some .documentStart =>
    directives false steps
    expect .documentStart
    match ← peek? with
    | none | some (.version ..) | some (.tagHandle ..) | some .documentStart
    | some .documentEnd => return .empty
    | _ => addDefaults; node true false steps
  | _ => addDefaults; node true false steps
where
  /-- The handles that need no directive, unless a directive has defined them. -/
  addDefaults : Composing Unit :=
    modify fun c => { c with
      handles := c.handles ++ [("!", "!"), ("!!", "tag:yaml.org,2002:")] }

end Composing

/-- The document that a list of tokens describes. Every two steps of the grammar take a token at
least, so the number of steps never runs out. -/
def Document.ofTokens? (tokens : List Token) : Option Document := do
  let steps := 2 * tokens.length + 8
  let (root, composer) ← (Composing.root steps).run ⟨tokens, [], [], 0, []⟩
  if composer.tokens.all (· = .documentEnd) then some ⟨root, composer.anchored⟩ else none

end ProviderSchema.Yaml
