/-!
# Places in a YAML text

The classes of characters that the grammar distinguishes, and a place in a text: what is left of it,
with the line, the column and the number of characters before it. A carriage return followed by a
line feed is one line break.
-/

namespace ProviderSchema.Yaml

/-- Whether a character may stand in a text at all. -/
def isAllowed (c : Char) : Bool :=
  let n := c.toNat
  n = 0x9 || n = 0xa || n = 0xd || (0x20 ≤ n && n ≤ 0x7e) || n = 0x85
    || (0xa0 ≤ n && n ≤ 0xd7ff) || (0xe000 ≤ n && n ≤ 0xfffd) || 0x10000 ≤ n

/-- The characters that may stand between tokens on a line. -/
def isBlank (c : Char) : Bool := c = ' ' || c = '\t'

/-- The characters that end a line. -/
def isBreak (c : Char) : Bool :=
  c = '\r' || c = '\n' || c = '\u0085' || c = '\u2028' || c = '\u2029'

/-- The characters of names: letters, digits, `_` and `-`, all ASCII. -/
def isWord (c : Char) : Bool := c.isAlphanum || c = '_' || c = '-'

/-- Whether a text starts with a blank or a line break, or is empty. -/
def startsBlank : List Char → Bool
  | [] => true
  | c :: _ => isBlank c || isBreak c

/-- Whether a text starts with a line break or is empty. -/
def startsBreak : List Char → Bool
  | [] => true
  | c :: _ => isBreak c

/-- A place in a text. -/
structure Place where
  rest : List Char
  line : Nat := 0
  column : Nat := 0
  index : Nat := 0
deriving Repr, Inhabited

namespace Place

/-- The place after `count` characters of the same line. -/
def skip (p : Place) (count : Nat) : Place :=
  ⟨p.rest.drop count, p.line, p.column + count, p.index + count⟩

/-- The line break at a place as it counts in a scalar, and the place after it. -/
def takeBreak? (p : Place) : Option (List Char × Place) :=
  match p.rest with
  | '\r' :: '\n' :: rest => some (['\n'], ⟨rest, p.line + 1, 0, p.index + 2⟩)
  | c :: rest =>
    if isBreak c then
      let text := if c = '\u2028' ∨ c = '\u2029' then [c] else ['\n']
      some (text, ⟨rest, p.line + 1, 0, p.index + 1⟩)
    else none
  | [] => none

/-- The place after the line break at a place, if there is one. -/
def skipBreak (p : Place) : Place :=
  match p.takeBreak? with
  | some (_, p) => p
  | none => p

/-- The place after the characters of a class, none of which is a line break. -/
def skipWhile (p : Place) (inClass : Char → Bool) : Place :=
  let taken := (p.rest.takeWhile inClass).length
  p.skip taken

/-- Whether a document marker, three times the same character, stands at the start of a line. -/
def atMarker (p : Place) : Bool :=
  p.column = 0 &&
    match p.rest with
    | '-' :: '-' :: '-' :: rest => startsBlank rest
    | '.' :: '.' :: '.' :: rest => startsBlank rest
    | _ => false

/-- The place after blanks and a comment. -/
def skipComment (p : Place) : Place :=
  let p := p.skipWhile isBlank
  match p.rest with
  | '#' :: _ => p.skipWhile fun c => !isBreak c
  | _ => p

end Place

end ProviderSchema.Yaml
