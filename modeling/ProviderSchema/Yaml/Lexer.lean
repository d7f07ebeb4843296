import ProviderSchema.Yaml.NodeProperty

/-!
# From a text to its tokens

`tokens?` gives the tokens of a whole text, or nothing if some lexeme is not well formed or stands
where it must not. Two things need more than the characters at hand.

* *Indentation.* Outside flow collections, a column beyond that of the enclosing block opens a
  block, and a smaller one closes blocks (`Lexer.openBlock`, `Lexer.closeBlocks`).
* *Keys.* Whether a scalar is a key shows only at the colon after it. The lexer remembers the last
  place on every level of flow collections where a key may have begun (`PendingKey`), and at the
  colon puts the `key` token back there. Such a key ends on its line and within 1024 characters.
-/

namespace ProviderSchema.Yaml

/-- A place where a key may have begun. -/
structure PendingKey where
  /-- How many tokens stand before the key. -/
  tokensBefore : Nat
  /-- Whether the block cannot go on without a key here. -/
  required : Bool
  line : Nat
  column : Nat
  index : Nat
deriving Repr

/-- What the lexer knows at a place. -/
structure Lexer where
  place : Place
  /-- The tokens so far, the last one first. -/
  tokens : List Token := []
  /-- The column of the innermost block, `-1` outside all blocks. -/
  indent : Int := -1
  /-- The columns of the blocks around it. -/
  outer : List Int := []
  /-- Whether a key may begin here. -/
  keyAllowed : Bool := true
  /-- The pending key of the innermost flow collection, or of the block if there is none. -/
  pending : Option PendingKey := none
  /-- The pending keys of the levels around it; as many as there are flow collections. -/
  pendingOuter : List (Option PendingKey) := []

namespace Lexer

/-- Whether the place is inside a flow collection. -/
def inFlow (l : Lexer) : Bool := !l.pendingOuter.isEmpty

/-- The lexer after a token. -/
def push (l : Lexer) (t : Token) : Lexer := { l with tokens := t :: l.tokens }

/-- A token put back where `before` tokens stand before it. -/
def insert (l : Lexer) (before : Nat) (t : Token) : Lexer :=
  let later := l.tokens.length - before
  { l with tokens := l.tokens.take later ++ t :: l.tokens.drop later }

/-! ## Blanks -/

/-- The place of the next token, and whether a key may begin there. Tabs may not indent a line on
which a key may begin, and a byte order mark may stand at the start of a line. -/
def nextToken (flow comment keyAllowed : Bool) (line column index : Nat) :
    List Char → Place × Bool
  | [] => (⟨[], line, column, index⟩, keyAllowed)
  | '\r' :: '\n' :: rest => nextToken flow false (keyAllowed || !flow) (line + 1) 0 (index + 2) rest
  | c :: rest =>
    if isBreak c then nextToken flow false (keyAllowed || !flow) (line + 1) 0 (index + 1) rest
    else if comment then nextToken flow true keyAllowed line (column + 1) (index + 1) rest
    else if c = ' ' || (c = '\t' && (flow || !keyAllowed)) || (c = '\ufeff' && column = 0) then
      nextToken flow false keyAllowed line (column + 1) (index + 1) rest
    else if c = '#' then nextToken flow true keyAllowed line (column + 1) (index + 1) rest
    else (⟨c :: rest, line, column, index⟩, keyAllowed)

/-- The lexer at the next token. -/
def skipToToken (l : Lexer) : Lexer :=
  let p := l.place
  let (place, keyAllowed) := nextToken l.inFlow false l.keyAllowed p.line p.column p.index p.rest
  { l with place, keyAllowed }

/-! ## Keys and blocks -/

/-- Drops a pending key that is too far away; one that is required must not be. -/
def refresh? (p : Place) : Option PendingKey → Option (Option PendingKey)
  | none => some none
  | some k =>
    if k.line < p.line || k.index + 1024 < p.index then
      if k.required then none else some none
    else some (some k)

/-- Drops all pending keys that are too far away. -/
def dropStale? (l : Lexer) : Option Lexer := do
  let pendingOuter ← l.pendingOuter.mapM (refresh? l.place)
  let pending ← refresh? l.place l.pending
  return { l with pending, pendingOuter }

/-- Drops the pending key of the level; one that is required must not be dropped. -/
def dropKey? (l : Lexer) : Option Lexer :=
  match l.pending with
  | some k => if k.required then none else some { l with pending := none }
  | none => some l

/-- Remembers that a key may begin here. -/
def saveKey? (l : Lexer) : Option Lexer :=
  if l.keyAllowed then do
    let l ← l.dropKey?
    let p := l.place
    let required := !l.inFlow && l.indent = p.column
    return { l with pending := some ⟨l.tokens.length, required, p.line, p.column, p.index⟩ }
  else some l

/-- Opens a block at a column, unless the column belongs to the present block; its first token goes
where `before` tokens stand before it. -/
def openBlock (l : Lexer) (column before : Nat) (t : Token) : Lexer :=
  if !l.inFlow && l.indent < column then
    { l.insert before t with outer := l.indent :: l.outer, indent := column }
  else l

/-- Closes the blocks beyond a column, with the blocks around the innermost one given. -/
def closeBlocksTo (column : Int) (tokens : List Token) (indent : Int) :
    List Int → List Token × Int × List Int
  | [] => (tokens, indent, [])
  | around :: outer =>
    if column < indent then closeBlocksTo column (.blockEnd :: tokens) around outer
    else (tokens, indent, around :: outer)

/-- Closes the blocks beyond a column. -/
def closeBlocks (l : Lexer) (column : Int) : Lexer :=
  if l.inFlow then l
  else
    let (tokens, indent, outer) := closeBlocksTo column l.tokens l.indent l.outer
    { l with tokens, indent, outer }

/-! ## Tokens -/

/-- A token that ends all blocks: a directive or a document marker. -/
def topLevel? (l : Lexer) : Option Lexer := do
  let l ← (l.closeBlocks (-1)).dropKey?
  return { l with keyAllowed := false }

/-- The lexer some characters further on. -/
def skip (l : Lexer) (count : Nat) : Lexer := { l with place := l.place.skip count }

/-- The start of a flow collection, which may be a key itself. -/
def startFlow? (l : Lexer) (t : Token) : Option Lexer := do
  let l ← l.saveKey?
  let l := { l with pending := none, pendingOuter := l.pending :: l.pendingOuter,
                    keyAllowed := true }
  return (l.skip 1).push t

/-- The end of a flow collection; the pending key of the level around it is back. -/
def endFlow? (l : Lexer) (t : Token) : Option Lexer := do
  let l ← l.dropKey?
  let l := match l.pendingOuter with
    | [] => l
    | around :: outer => { l with pending := around, pendingOuter := outer }
  return ({ l with keyAllowed := false }.skip 1).push t

/-- The comma between the entries of a flow collection. -/
def flowEntry? (l : Lexer) : Option Lexer := do
  let l ← l.dropKey?
  return ({ l with keyAllowed := true }.skip 1).push .flowEntry

/-- The dash before an item, which opens a block if it stands further to the right. -/
def blockEntry? (l : Lexer) : Option Lexer := do
  if !l.inFlow && !l.keyAllowed then none
  let l := l.openBlock l.place.column l.tokens.length .blockSequenceStart
  let l ← l.dropKey?
  return ({ l with keyAllowed := true }.skip 1).push .blockEntry

/-- The question mark before a key, which opens a block if it stands further to the right. -/
def explicitKey? (l : Lexer) : Option Lexer := do
  if !l.inFlow && !l.keyAllowed then none
  let l := l.openBlock l.place.column l.tokens.length .blockMappingStart
  let l ← l.dropKey?
  return ({ l with keyAllowed := !l.inFlow }.skip 1).push .key

/-- The colon before a value; if a key is pending, it was one. -/
def value? (l : Lexer) : Option Lexer := do
  let l ← match l.pending with
    | some k =>
      let l := (l.insert k.tokensBefore .key).openBlock k.column k.tokensBefore .blockMappingStart
      some { l with pending := none, keyAllowed := false }
    | none =>
      if !l.inFlow && !l.keyAllowed then none
      else
        let l := l.openBlock l.place.column l.tokens.length .blockMappingStart
        some { l with keyAllowed := !l.inFlow }
  return (l.skip 1).push .value

/-- A token that may be a key, or begin one. -/
def keyLike? (l : Lexer) (scan : Place → Option (Token × Place)) : Option Lexer := do
  let l ← l.saveKey?
  let (token, place) ← scan l.place
  return { l with place, keyAllowed := false }.push token

/-- A plain scalar, which may be a key. After one that a line break follows, a key may begin. -/
def plain? (l : Lexer) : Option Lexer := do
  let l ← l.saveKey?
  let (text, broken, place) ← plainScalar l.inFlow l.indent l.place
  return { l with place, keyAllowed := broken }.push (.scalar text .plain)

/-- A literal or folded scalar, which is never a key. -/
def block? (l : Lexer) (literal : Bool) : Option Lexer := do
  let l ← l.dropKey?
  let (text, place) ← blockScalar literal l.indent l.place
  let style := if literal then Style.literal else .folded
  return { l with place, keyAllowed := true }.push (.scalar text style)

/-- Whether a plain scalar may start with these characters. -/
def startsPlain (flow : Bool) : List Char → Bool
  | [] => false
  | c :: rest =>
    let indicator := c ∈ ['-', '?', ':', ',', '[', ']', '{', '}', '#', '&', '*', '!', '|', '>',
      '\'', '"', '%', '@', '\x60']
    (!isBlank c && !isBreak c && !indicator)
      || (c = '-' && !(rest.head?.any isBlank))
      || (!flow && (c = '?' || c = ':') && !startsBlank rest)

/-- The token at a place, which is not the end of the text. -/
def token? (l : Lexer) : Option Lexer :=
  let p := l.place
  match p.rest with
  | [] => none
  | c :: rest =>
    if p.column = 0 && c = '%' then do
      let l ← l.topLevel?
      let (token, place) ← directive? l.place
      return { l with place }.push token
    else if p.atMarker then do
      let l ← l.topLevel?
      return (l.skip 3).push (if c = '-' then .documentStart else .documentEnd)
    else if c = '[' then l.startFlow? .flowSequenceStart
    else if c = '{' then l.startFlow? .flowMappingStart
    else if c = ']' then l.endFlow? .flowSequenceEnd
    else if c = '}' then l.endFlow? .flowMappingEnd
    else if c = ',' then l.flowEntry?
    else if c = '-' && startsBlank rest then l.blockEntry?
    else if c = '?' && (l.inFlow || startsBlank rest) then l.explicitKey?
    else if c = ':' && (l.inFlow || startsBlank rest) then l.value?
    else if c = '*' then
      l.keyLike? fun p => (anchorName? p).map fun (name, p) => (.alias name, p)
    else if c = '&' then
      l.keyLike? fun p => (anchorName? p).map fun (name, p) => (.anchor name, p)
    else if c = '!' then l.keyLike? (tag? l.inFlow)
    else if c = '|' && !l.inFlow then l.block? true
    else if c = '>' && !l.inFlow then l.block? false
    else if c = '\'' then
      l.keyLike? fun p => (quotedScalar true p).map fun (t, p) => (.scalar t .singleQuoted, p)
    else if c = '"' then
      l.keyLike? fun p => (quotedScalar false p).map fun (t, p) => (.scalar t .doubleQuoted, p)
    else if startsPlain l.inFlow p.rest then l.plain?
    else none

/-- The tokens from a place to the end of the text. -/
def run? (l : Lexer) : Nat → Option (List Token)
  | 0 => none
  | steps + 1 => do
    let l ← l.skipToToken.dropStale?
    let l := l.closeBlocks l.place.column
    if l.place.rest.isEmpty then
      let l ← (l.closeBlocks (-1)).dropKey?
      return l.tokens.reverse
    else
      let l ← l.token?
      l.run? steps

end Lexer

/-- The tokens of a text, without the end of the text itself. Every token takes a character at
least, so the number of steps never runs out. -/
def tokens? (text : String) : Option (List Token) :=
  let chars := text.toList
  if chars.all isAllowed then
    Lexer.run? { place := { rest := chars } } (chars.length + 1)
  else none

end ProviderSchema.Yaml
