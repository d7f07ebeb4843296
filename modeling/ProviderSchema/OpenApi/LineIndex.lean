/-!
# Lines of a document

A description does not know where its parts stand in the text. A `LineIndex` finds them again: it
keeps the indentation and the key of every line, and `LineIndex.locate` looks for the keys of a path
one after the other, each inside the block of the one before.

The block of a line goes on as long as lines are blank or indented deeper. Indentation counts
octets.
-/

namespace ProviderSchema.OpenApi

/-- What is kept of a line. -/
structure Line where
  indent : Nat
  key : Option String
  /-- Whether the line is empty or a comment. -/
  blank : Bool
deriving DecidableEq, Repr

/-- The lines of a text. -/
structure LineIndex where
  lines : List Line
deriving Repr

/-! ## Reading lines -/

/-- Whether a character is white space, by the Unicode property. -/
def isSpace (c : Char) : Bool :=
  let n := c.toNat
  (9 ≤ n && n ≤ 13) || n = 0x20 || n = 0x85 || n = 0xa0 || n = 0x1680
    || (0x2000 ≤ n && n ≤ 0x200a) || n = 0x2028 || n = 0x2029 || n = 0x202f || n = 0x205f
    || n = 0x3000

/-- The number of octets of a character in UTF-8. -/
def octets (chars : List Char) : Nat := chars.foldl (fun n c => n + c.utf8Size) 0

/-- A line without a carriage return at its end; `line` has its last character first. -/
def finishLine (line : List Char) : List Char :=
  match line with
  | '\r' :: rest => rest.reverse
  | _ => line.reverse

/-- The lines of a text, added to the line that has begun, whose last character comes first. What
follows the last line feed is a line unless it is empty. -/
def splitLines (current : List Char) : List Char → List (List Char)
  | [] => if current = [] then [] else [current.reverse]
  | '\n' :: rest => finishLine current :: splitLines [] rest
  | c :: rest => splitLines (c :: current) rest

/-- A text without white space at its end. -/
def trimEnd (text : List Char) : List Char := (text.reverse.dropWhile isSpace).reverse

/-- The key a line starts with, after the mark of a list item: a quoted text before a colon, or
everything before the first colon if a blank or nothing follows it. -/
def lineKey? (text : List Char) : Option String :=
  let text := match text with
    | '-' :: ' ' :: rest => rest
    | _ => text
  match text with
  | [] => none
  | first :: rest =>
    if first = '"' || first = '\'' then
      match rest.dropWhile (· ≠ first) with
      | [] => none
      | _ :: after =>
        if (after.dropWhile isSpace).head? = some ':' then
          some (String.ofList (rest.takeWhile (· ≠ first)))
        else none
    else
      match text.dropWhile (· ≠ ':') with
      | [] => none
      | _ :: after =>
        if after = [] || after.head? = some ' ' || after.head? = some '\t' then
          some (String.ofList (trimEnd (text.takeWhile (· ≠ ':'))))
        else none

/-- What is kept of a line. -/
def Line.ofChars (text : List Char) : Line :=
  let content := text.dropWhile isSpace
  let blank := content = [] || content.head? = some '#'
  ⟨octets (text.takeWhile isSpace), if blank then none else lineKey? content, blank⟩

namespace LineIndex

/-- The index of a text. -/
def ofText (text : String) : LineIndex := ⟨(splitLines [] text.toList).map Line.ofChars⟩

/-! ## Finding keys -/

/-- The lines of the block that a line of the given indentation opens. -/
def block (indent : Nat) (lines : List Line) : List Line :=
  lines.takeWhile fun line => line.blank || indent < line.indent

/-- The number of the last key of a path, if all of them are found; `before` is the number of the
line before the given ones. -/
def locateFrom (before : Nat) (found : Option Nat) (lines : List Line) :
    List String → Option Nat
  | [] => found
  | key :: path =>
    match lines.findIdx? fun line => line.key = some key with
    | none => none
    | some i =>
      match lines.drop i with
      | [] => none
      | line :: after =>
        locateFrom (before + i + 1) (some (before + i + 1)) (block line.indent after) path

/-- The number of the line of the last key of a path; lines count from one. The empty path stands
nowhere. -/
def locate (index : LineIndex) (path : List String) : Option Nat :=
  locateFrom 0 none index.lines path

end LineIndex

end ProviderSchema.OpenApi
