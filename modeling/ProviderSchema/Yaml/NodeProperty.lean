import ProviderSchema.Yaml.ScalarText

/-!
# Names, tags and directives

The lexemes that describe nodes and documents: the names of anchors and aliases, tags, and the lines
that start with a percent sign. Each function gives the token and the place after it, or nothing if
the lexeme is not well formed.
-/

namespace ProviderSchema.Yaml

/-- The name of an anchor or alias, from its indicator. -/
def anchorName? (p : Place) : Option (String × Place) :=
  let p := p.skip 1
  let name := p.rest.takeWhile isWord
  let after := p.skip name.length
  let ends := startsBlank after.rest ||
    after.rest.head?.any fun c =>
      c = '?' || c = ':' || c = ',' || c = ']' || c = '}' || c = '%' || c = '@' || c = '\x60'
  if name ≠ [] && ends then some (String.ofList name, after) else none

/-! ## Tags -/

/-- The characters of a tag, the percent sign of escapes left out. -/
def isTagChar (verbatim : Bool) (c : Char) : Bool :=
  isWord c || c = ';' || c = '/' || c = '?' || c = ':' || c = '@' || c = '&' || c = '=' || c = '+'
    || c = '$' || c = '.' || c = '!' || c = '~' || c = '*' || c = '\'' || c = '(' || c = ')'
    || (verbatim && (c = ',' || c = '[' || c = ']'))

/-- An octet that is written as a percent sign and two hexadecimal digits. -/
def escapedOctet? : List Char → Option (Nat × List Char)
  | '%' :: a :: b :: rest =>
    match Decimal.digit? 16 a, Decimal.digit? 16 b with
    | some a, some b => some (16 * a + b, rest)
    | _, _ => none
  | _ => none

/-- How many octets follow the first one of a character, and the bits it contributes. -/
def octetsAfter? (first : Nat) : Option (Nat × Nat) :=
  if first < 0x80 then some (0, first)
  else if first / 0x20 = 6 then some (1, first % 0x20)
  else if first / 0x10 = 14 then some (2, first % 0x10)
  else if first / 8 = 30 then some (3, first % 8)
  else none

/-- The code point that `count` further octets complete. -/
def furtherOctets? (value : Nat) : Nat → List Char → Option (Nat × List Char)
  | 0, rest => some (value, rest)
  | count + 1, text =>
    match escapedOctet? text with
    | some (octet, rest) =>
      if octet / 0x40 = 2 then furtherOctets? (value * 0x40 + octet % 0x40) count rest else none
    | none => none

/-- A character that is written as escaped octets. -/
def escapedTagChar? (text : List Char) : Option (Char × List Char) :=
  match escapedOctet? text with
  | none => none
  | some (first, rest) =>
    match octetsAfter? first with
    | none => none
    | some (count, bits) =>
      (furtherOctets? bits count rest).map fun (n, rest) => (Char.ofNat n, rest)

/-- The characters of a tag up to its end, added to those so far, the last one first. -/
def tagChars (verbatim : Bool) (taken : List Char) (p : Place) :
    Nat → Option (List Char × Place)
  | 0 => none
  | steps + 1 =>
    match p.rest with
    | '%' :: _ =>
      match escapedTagChar? p.rest with
      | none => none
      | some (c, rest) =>
        tagChars verbatim (c :: taken) (p.skip (p.rest.length - rest.length)) steps
    | c :: _ =>
      if isTagChar verbatim c then tagChars verbatim (c :: taken) (p.skip 1) steps
      else some (taken, p)
    | [] => some (taken, p)

/-- The characters of a tag up to its end; `head` was read before and counts as a part of it. -/
def tagText? (verbatim : Bool) (head : List Char) (p : Place) : Option (List Char × Place) :=
  match tagChars verbatim [] p (p.rest.length + 1) with
  | none => none
  | some (taken, after) =>
    if head = [] && p.index = after.index then none
    else some (head.drop 1 ++ taken.reverse, after)

/-- The handle of a tag, from its first exclamation mark: a word, perhaps with a second mark. -/
def tagHandle (p : Place) : List Char × Place :=
  let word := (p.skip 1).rest.takeWhile isWord
  let after := p.skip (1 + word.length)
  match after.rest with
  | '!' :: _ => ('!' :: word ++ ['!'], after.skip 1)
  | _ => ('!' :: word, after)

/-- A tag. -/
def tag? (flow : Bool) (p : Place) : Option (Token × Place) := do
  let (handle, rest, p) ←
    match p.rest with
    | _ :: '<' :: _ => do
      let (text, p) ← tagText? true [] (p.skip 2)
      if p.rest.head? = some '>' then some ([], text, p.skip 1) else none
    | _ => do
      let (handle, after) := tagHandle p
      if 1 < handle.length && handle.getLast? = some '!' then
        let (text, p) ← tagText? false [] after
        some (handle, text, p)
      else
        let (text, p) ← tagText? false handle after
        if text = [] then some ([], ['!'], p) else some (['!'], text, p)
  if (flow && p.rest.head? = some ',') || startsBlank p.rest then
    some (.tag (String.ofList handle) (String.ofList rest), p)
  else none

/-! ## Directives -/

/-- A number of a version: one to nine digits. -/
def versionNumber? (p : Place) : Option (Nat × Place) :=
  let digits := p.rest.takeWhile Char.isDigit
  if digits = [] || 9 < digits.length then none
  else
    some (digits.foldl (fun n d => n * 10 + (d.toNat - '0'.toNat)) 0, p.skip digits.length)

/-- The value of a `%YAML` directive. -/
def versionDirective? (p : Place) : Option (Token × Place) := do
  let (major, p) ← versionNumber? (p.skipWhile isBlank)
  if p.rest.head? ≠ some '.' then none
  let (minor, p) ← versionNumber? (p.skip 1)
  return (.version major minor, p)

/-- The value of a `%TAG` directive. -/
def tagDirective? (p : Place) : Option (Token × Place) := do
  let p := p.skipWhile isBlank
  if p.rest.head? ≠ some '!' then none
  let (handle, p) := tagHandle p
  if handle ≠ ['!'] && handle.getLast? ≠ some '!' then none
  if !(p.rest.head?.any isBlank) then none
  let (start, p) ← tagText? true [] (p.skipWhile isBlank)
  if !startsBlank p.rest then none
  return (.tagHandle (String.ofList handle) (String.ofList start), p)

/-- A directive, from its percent sign, with the rest of its line. -/
def directive? (p : Place) : Option (Token × Place) := do
  let p := p.skip 1
  let name := p.rest.takeWhile isWord
  let p := p.skip name.length
  if name = [] || !startsBlank p.rest then none
  let (token, p) ←
    if name = ['Y', 'A', 'M', 'L'] then versionDirective? p
    else if name = ['T', 'A', 'G'] then tagDirective? p
    else none
  let p := p.skipComment
  if !startsBreak p.rest then none
  return (token, p.skipBreak)

end ProviderSchema.Yaml
