import ProviderSchema.Json.Lexeme

/-!
# Reading a JSON text

`SourceText.ofText` reads a whole text into a `Source` and the fault, if any, of what follows it. It
never fails: a fault becomes part of the tree. Arrays and objects nested more than `maxNesting` deep
can be skipped but not read.
-/

namespace ProviderSchema.Json

/-- How deep arrays and objects may be nested in a value that is read. -/
def maxNesting : Nat := 127

/-- A lexeme as a value of a text, and the place after it if there is one. -/
def Scanned.source {α : Type} (s : Scanned α) (value : α → Source) : Source × Option Cursor :=
  match s.value, s.after with
  | .ok a, .ok after => (value a, some after)
  | .ok _, .error skip => (.broken skip, none)
  | .error read, .ok after => (.unreadable read .null, some after)
  | .error read, .error skip => (.unreadable read (.broken skip), none)

/-- A word as a value of a text. -/
def wordSource (word : Except Fault Cursor) (value : Source) : Source × Option Cursor :=
  match word with
  | .ok after => (value, some after)
  | .error f => (.broken f, none)

/-- An array or object on some level of nesting. -/
def nested (level line : Nat) (value : Source) : Source :=
  if maxNesting < level then .unreadable (.malformed line) value else value

mutual

/-- The value at a place, inside `level` arrays and objects, and the place after it if the text can
be read so far. -/
def readValue (level : Nat) (place : Cursor) : Nat → Source × Option Cursor
  | 0 => (.broken (.truncated place.line), none)
  | fuel + 1 =>
    let place := place.trimmed
    let line := place.line
    match place.rest with
    | [] => (.broken (.truncated line), none)
    | 'n' :: rest => wordSource (scanWord ['u', 'l', 'l'] line rest) .null
    | 't' :: rest => wordSource (scanWord ['r', 'u', 'e'] line rest) (.bool true)
    | 'f' :: rest => wordSource (scanWord ['a', 'l', 's', 'e'] line rest) (.bool false)
    | '"' :: rest => (scanText ⟨rest, line⟩).source .text
    | '[' :: rest =>
      let (items, after) := readItems (level + 1) true ⟨rest, line⟩ fuel
      (nested (level + 1) line (.array items), after)
    | '{' :: rest =>
      let (members, after) := readMembers (level + 1) true ⟨rest, line⟩ fuel
      (nested (level + 1) line (.object members), after)
    | c :: _ =>
      if c = '-' ∨ c.isDigit then (scanNumber place).source .number
      else (.broken (.malformed line), none)
termination_by structural steps => steps

/-- The items of an array up to its end, from its beginning or from after an item. -/
def readItems (level : Nat) (first : Bool) (place : Cursor) : Nat → Items × Option Cursor
  | 0 => (.stop (.truncated place.line), none)
  | fuel + 1 =>
    let place := place.trimmed
    let line := place.line
    match place.rest with
    | [] => (.stop (.truncated line), none)
    | ']' :: rest => (.done, some ⟨rest, line⟩)
    | c :: rest =>
      if !first && c != ',' then (.stop (.malformed line), none)
      else
        let start := if first then place else (Cursor.mk rest line).trimmed
        match start.rest with
        | [] => (.item start.line (.broken (.truncated start.line)) .done, none)
        | ']' :: _ => (.item start.line (.broken (.malformed start.line)) .done, none)
        | _ =>
          match readValue level start fuel with
          | (value, none) => (.item start.line value .done, none)
          | (value, some after) =>
            let (items, after) := readItems level false after fuel
            (.item start.line value items, after)
termination_by structural steps => steps

/-- The members of an object up to its end, from its beginning or from after a member. -/
def readMembers (level : Nat) (first : Bool) (place : Cursor) : Nat → Members × Option Cursor
  | 0 => (.stop (.truncated place.line), none)
  | fuel + 1 =>
    let place := place.trimmed
    let line := place.line
    match place.rest with
    | [] => (.stop (.truncated line), none)
    | '}' :: rest => (.done, some ⟨rest, line⟩)
    | c :: rest =>
      if !first && c != ',' then (.stop (.malformed line), none)
      else
        let start := if first then place else (Cursor.mk rest line).trimmed
        match start.rest with
        | [] => (.stop (.truncated start.line), none)
        | '"' :: rest =>
          let name := scanText ⟨rest, start.line⟩
          match name.after with
          | .error skip => (.member name.value (.broken skip) .done, none)
          | .ok after =>
            let (value, after) := readMemberValue level after fuel
            match after with
            | none => (.member name.value value .done, none)
            | some after =>
              let (members, after) := readMembers level false after fuel
              (.member name.value value members, after)
        | _ => (.stop (.malformed start.line), none)
termination_by structural steps => steps

/-- The value of a member, from after its name. -/
def readMemberValue (level : Nat) (place : Cursor) : Nat → Source × Option Cursor
  | 0 => (.broken (.truncated place.line), none)
  | fuel + 1 =>
    let place := place.trimmed
    match place.rest with
    | [] => (.broken (.truncated place.line), none)
    | ':' :: rest => readValue level ⟨rest, place.line⟩ fuel
    | _ => (.broken (.malformed place.line), none)
termination_by structural steps => steps

end

/-- A text as far as it can be read, and the fault of what follows the value in it. -/
structure SourceText where
  value : Source
  trailing : Option Fault

/-- A text as far as it can be read. Three steps are taken at most for a character, so the number of
steps never runs out. -/
def SourceText.ofText (text : String) : SourceText :=
  let chars := text.toList
  match readValue 0 ⟨chars, 1⟩ (3 * chars.length + 3) with
  | (value, none) => ⟨value, none⟩
  | (value, some after) =>
    let after := after.trimmed
    ⟨value, if after.rest.isEmpty then none else some (.malformed after.line)⟩

end ProviderSchema.Json
