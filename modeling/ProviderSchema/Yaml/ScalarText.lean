import ProviderSchema.Decimal.Literal
import ProviderSchema.Yaml.Place
import ProviderSchema.Yaml.Token

/-!
# The text of a scalar

Plain, quoted and block scalars. Each function starts at a scalar and gives its text and the place
after it, or nothing if the scalar is not well formed.

Between two lines of a plain or quoted scalar, the blanks around the break are dropped and the break
is folded: a single one becomes a space, and of several the first is dropped. `Gap` holds what was
found between two words, `Gap.text` is what it stands for.
-/

namespace ProviderSchema.Yaml

/-- What stands between two words of a scalar. -/
structure Gap where
  /-- The blanks before any line break, the last one first. -/
  blanks : List Char := []
  /-- Whether there was a line break. -/
  broken : Bool := false
  /-- The first line break. -/
  first : List Char := []
  /-- The other line breaks, the last one first. -/
  others : List Char := []

/-- The text that a gap stands for, its last character first. -/
def Gap.text (g : Gap) : List Char :=
  if !g.broken then g.blanks
  else if g.first = ['\n'] then (if g.others = [] then [' '] else g.others)
  else g.others ++ g.first

/-- A gap read on to its end. In the block context of a plain scalar `indent` is the least
indentation, and a tab before it is a fault. -/
def readGap (indent : Option Int) (g : Gap) (p : Place) : Nat → Option (Gap × Place)
  | 0 => none
  | steps + 1 =>
    match p.rest with
    | [] => some (g, p)
    | c :: _ =>
      if isBlank c then
        let messy := match indent with
          | some i => g.broken && p.column < i && c = '\t'
          | none => false
        if messy then none
        else if g.broken then readGap indent g (p.skip 1) steps
        else readGap indent { g with blanks := c :: g.blanks } (p.skip 1) steps
      else
        match p.takeBreak? with
        | none => some (g, p)
        | some (text, after) =>
          if g.broken then
            readGap indent { g with others := text.reverse ++ g.others } after steps
          else readGap indent { g with broken := true, blanks := [], first := text } after steps

/-! ## Plain scalars -/

/-- The flow indicators that end a plain scalar inside a flow collection. -/
def isFlowIndicator (c : Char) : Bool :=
  c = ',' || c = '[' || c = ']' || c = '{' || c = '}'

/-- The word at the start of a text, the last character first, and what follows it. Inside a flow
collection a colon must not be followed by an indicator. -/
def plainWord (flow : Bool) (taken : List Char) : List Char → Option (List Char × List Char)
  | [] => some (taken, [])
  | c :: rest =>
    if isBlank c || isBreak c then some (taken, c :: rest)
    else if flow && c = ':' && (rest.head?.any fun d => isFlowIndicator d || d = '?') then none
    else if (c = ':' && startsBlank rest) || (flow && isFlowIndicator c) then
      some (taken, c :: rest)
    else plainWord flow (c :: taken) rest

/-- A plain scalar: its words up to the end of the scalar, added to `text`, whose last character
comes first. The flag says whether the scalar ends after a line break. -/
def readPlain (flow : Bool) (indent : Int) (text : List Char) (gap : Gap) (p : Place) :
    Nat → Option (List Char × Bool × Place)
  | 0 => none
  | steps + 1 =>
    if p.atMarker || p.rest.head? = some '#' then some (text, gap.broken, p)
    else
      match plainWord flow [] p.rest with
      | none => none
      | some (word, rest) =>
        let after : Place := ⟨rest, p.line, p.column + word.length, p.index + word.length⟩
        let text := if word = [] then text else word ++ gap.text ++ text
        let broken := if word = [] then gap.broken else false
        if rest = [] || !startsBlank rest then some (text, broken, after)
        else
          let start : Gap := if word = [] then gap else {}
          match readGap (some indent) start after (rest.length + 1) with
          | none => none
          | some (gap, after) =>
            if !flow && after.column < indent then some (text, gap.broken, after)
            else readPlain flow indent text gap after steps

/-- A plain scalar in the block or flow context. -/
def plainScalar (flow : Bool) (indent : Int) (p : Place) : Option (String × Bool × Place) :=
  (readPlain flow (indent + 1) [] {} p (p.rest.length + 1)).map fun (text, broken, after) =>
    (String.ofList text.reverse, broken, after)

/-! ## Quoted scalars -/

/-- The number that `count` hexadecimal digits make. -/
def hexNumber? (value : Nat) : Nat → List Char → Option Nat
  | 0, _ => some value
  | _ + 1, [] => none
  | count + 1, c :: rest =>
    (Decimal.digit? 16 c).bind fun d => hexNumber? (value * 16 + d) count rest

/-- The character of a code point that is one. -/
def charOf? (n : Nat) : Option Char := if n.isValidChar then some (Char.ofNat n) else none

/-- The character that an escape sequence stands for, from after the backslash, and the number of
characters of the sequence. -/
def escapedChar? : List Char → Option (Char × Nat)
  | [] => none
  | c :: rest =>
    let hex (count : Nat) := ((hexNumber? 0 count rest).bind charOf?).map fun d => (d, count + 1)
    match c with
    | '0' => some ('\x00', 1)
    | 'a' => some ('\x07', 1)
    | 'b' => some ('\x08', 1)
    | 't' | '\t' => some ('\t', 1)
    | 'n' => some ('\n', 1)
    | 'v' => some ('\x0b', 1)
    | 'f' => some ('\x0c', 1)
    | 'r' => some ('\r', 1)
    | 'e' => some ('\x1b', 1)
    | ' ' => some (' ', 1)
    | '"' => some ('"', 1)
    | '/' => some ('/', 1)
    | '\\' => some ('\\', 1)
    | 'N' => some ('\u0085', 1)
    | '_' => some ('\u00a0', 1)
    | 'L' => some ('\u2028', 1)
    | 'P' => some ('\u2029', 1)
    | 'x' => hex 2
    | 'u' => hex 4
    | 'U' => hex 8
    | _ => none

/-- A word of a quoted scalar, added to `text`, and whether an escaped line break follows it. -/
def quotedWord (single : Bool) (text : List Char) (p : Place) :
    Nat → Option (List Char × Bool × Place)
  | 0 => none
  | steps + 1 =>
    match p.rest with
    | [] => some (text, false, p)
    | c :: rest =>
      if isBlank c || isBreak c then some (text, false, p)
      else if single then
        if c = '\'' then
          if rest.head? = some '\'' then quotedWord single ('\'' :: text) (p.skip 2) steps
          else some (text, false, p)
        else quotedWord single (c :: text) (p.skip 1) steps
      else if c = '"' then some (text, false, p)
      else if c = '\\' then
        if rest ≠ [] && startsBreak rest then some (text, true, (p.skip 1).skipBreak)
        else
          match escapedChar? rest with
          | none => none
          | some (d, count) => quotedWord single (d :: text) (p.skip (count + 1)) steps
      else quotedWord single (c :: text) (p.skip 1) steps

/-- The rest of a quoted scalar, added to `text`. -/
def readQuoted (single : Bool) (text : List Char) (p : Place) :
    Nat → Option (List Char × Place)
  | 0 => none
  | steps + 1 =>
    if p.atMarker || p.rest = [] then none
    else
      match quotedWord single text p (p.rest.length + 1) with
      | none => none
      | some (text, escapedBreak, after) =>
        if !escapedBreak && after.rest.head? = some (if single then '\'' else '"') then
          some (text, after.skip 1)
        else
          match readGap none { broken := escapedBreak } after (after.rest.length + 1) with
          | none => none
          | some (gap, after) => readQuoted single (gap.text ++ text) after steps

/-- A quoted scalar, from its opening quote. -/
def quotedScalar (single : Bool) (p : Place) : Option (String × Place) :=
  (readQuoted single [] (p.skip 1) (p.rest.length + 1)).map fun (text, after) =>
    (String.ofList text.reverse, after)

/-! ## Block scalars -/

/-- What becomes of the line breaks at the end of a block scalar. -/
inductive Chomping where
  | strip
  | clip
  | keep
deriving DecidableEq, Repr

/-- The indicators of a block scalar: its chomping and the indentation it states. -/
def blockIndicators? (p : Place) : Option (Chomping × Nat × Place) :=
  let chomping? (c : Char) : Option Chomping :=
    if c = '+' then some .keep else if c = '-' then some .strip else none
  let digit? (c : Char) : Option Nat := if c.isDigit then some (c.toNat - '0'.toNat) else none
  match p.rest with
  | [] => some (.clip, 0, p)
  | c :: rest =>
    match chomping? c with
    | some chomping =>
      match rest.head?.bind digit? with
      | some 0 => none
      | some n => some (chomping, n, p.skip 2)
      | none => some (chomping, 0, p.skip 1)
    | none =>
      match digit? c with
      | some 0 => none
      | some n =>
        match rest.head?.bind chomping? with
        | some chomping => some (chomping, n, p.skip 2)
        | none => some (.clip, n, p.skip 1)
      | none => some (.clip, 0, p)

/-- The blank lines before the next line with content, added to `breaks`, the last one first, and
the largest indentation found. The indentation `indent` is zero while it is not known. -/
def blockBreaks (indent : Nat) (breaks : List Char) (widest : Nat) (p : Place) :
    Nat → Option (List Char × Nat × Place)
  | 0 => none
  | steps + 1 =>
    let spaces := (p.rest.takeWhile (· = ' ')).length
    let p := p.skip (if indent = 0 then spaces else min spaces (indent - p.column))
    let widest := max widest p.column
    if (indent = 0 || p.column < indent) && p.rest.head? = some '\t' then none
    else
      match p.takeBreak? with
      | none => some (breaks, widest, p)
      | some (text, after) => blockBreaks indent (text.reverse ++ breaks) widest after steps

/-- The lines of a block scalar, added to `text`. `last` is the line break after the line before,
`breaks` are the blank lines since, and `led` says whether that line started with a blank. All lists
have their last character first. -/
def readBlock (literal : Bool) (indent : Nat) (text last breaks : List Char) (led : Bool)
    (p : Place) : Nat → Option (List Char × List Char × List Char × Place)
  | 0 => none
  | steps + 1 =>
    if p.column ≠ indent || p.rest = [] then some (text, last, breaks, p)
    else
      let leads := p.rest.head?.any isBlank
      let joined :=
        if !literal && last = ['\n'] && !led && !leads then (if breaks = [] then [' '] else [])
        else last
      let line := p.rest.takeWhile fun c => !isBreak c
      let text := line.reverse ++ breaks ++ joined ++ text
      let p := p.skip line.length
      let (last, p) := match p.takeBreak? with
        | some (broken, after) => (broken.reverse, after)
        | none => ([], p)
      match blockBreaks indent [] 0 p (p.rest.length + 1) with
      | none => none
      | some (breaks, _, p) => readBlock literal indent text last breaks leads p steps

/-- A block scalar, from its indicator; `indent` is the indentation of the block around it. -/
def blockScalar (literal : Bool) (indent : Int) (p : Place) : Option (String × Place) := do
  let (chomping, stated, p) ← blockIndicators? (p.skip 1)
  let p := p.skipComment
  if !startsBreak p.rest then none
  let p := p.skipBreak
  let given := if stated = 0 then 0 else if 0 ≤ indent then indent.toNat + stated else stated
  let (breaks, widest, p) ← blockBreaks given [] 0 p (p.rest.length + 1)
  let own := if given ≠ 0 then given else max (max widest (indent + 1).toNat) 1
  let (text, last, breaks, p) ←
    readBlock literal own [] [] breaks false p (p.rest.length + 1)
  let tail := match chomping with
    | .strip => []
    | .clip => last
    | .keep => breaks ++ last
  return (String.ofList (tail ++ text).reverse, p)

end ProviderSchema.Yaml
