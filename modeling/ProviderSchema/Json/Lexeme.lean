import ProviderSchema.Decimal.Literal
import ProviderSchema.Json.Source

/-!
# Lexemes of a JSON text

Blanks, words, numbers and quoted texts. A lexeme is scanned once for two readers: one takes its
value, the other only looks for its end and is content with less. `Scanned` holds what both find.

* A quoted text with half of a surrogate pair, and a number beyond the range, can be skipped but not
  read.
* A number is read in two steps: its digits make a 64-bit significand, those that do not fit being
  dropped, and the significand is then scaled by a power of ten. Each step rounds.
-/

namespace ProviderSchema.Json

open Decimal (Binary64)

/-- What is left of a text, and the line it starts on. -/
structure Cursor where
  rest : List Char
  line : Nat
deriving Repr, Inhabited

/-- What two readers find in a lexeme: the value or the fault of the one that reads it, and the text
after it or the fault of the one that skips it. -/
structure Scanned (α : Type) where
  value : Except Fault α
  after : Except Fault Cursor

/-- A lexeme at which both readers stop. -/
def Scanned.fail {α : Type} (read skip : Fault) : Scanned α := ⟨.error read, .error skip⟩

/-- The line after a character. -/
def lineAfter (line : Nat) (c : Char) : Nat := if c = '\n' then line + 1 else line

/-- The number of line breaks among characters. -/
def lineBreaks (text : List Char) : Nat := text.count '\n'

/-- The text after any blanks. -/
def skipBlanks (line : Nat) : List Char → Cursor
  | [] => ⟨[], line⟩
  | c :: rest =>
    if c = ' ' ∨ c = '\t' ∨ c = '\r' then skipBlanks line rest
    else if c = '\n' then skipBlanks (line + 1) rest
    else ⟨c :: rest, line⟩

/-- A place in a text with the blanks before it skipped. -/
def Cursor.trimmed (c : Cursor) : Cursor := skipBlanks c.line c.rest

/-- The text after a word that is expected here. -/
def scanWord (expected : List Char) (line : Nat) (text : List Char) : Except Fault Cursor :=
  match expected, text with
  | [], rest => .ok ⟨rest, line⟩
  | _ :: _, [] => .error (.truncated line)
  | e :: expected, c :: rest =>
    if c = e then scanWord expected line rest else .error (.malformed (lineAfter line c))

/-! ## Quoted texts -/

/-- The shortest beginning of a text that is at least `size` bytes long, if the text is. -/
def leadingBytes? (size : Nat) : List Char → Option (List Char)
  | [] => if size = 0 then some [] else none
  | c :: rest =>
    if size = 0 then some [] else (leadingBytes? (size - c.utf8Size) rest).map (c :: ·)

/-- The number that four hexadecimal digits make. Whether the text is too short for them is decided
by its bytes. -/
def scanHex4 (line : Nat) (text : List Char) : Except Fault (Nat × List Char) :=
  match text with
  | a :: b :: c :: d :: rest =>
    match Decimal.digit? 16 a, Decimal.digit? 16 b, Decimal.digit? 16 c, Decimal.digit? 16 d with
    | some a, some b, some c, some d => .ok (((a * 16 + b) * 16 + c) * 16 + d, rest)
    | _, _, _, _ => invalid
  | _ => invalid
where
  invalid : Except Fault (Nat × List Char) :=
    match leadingBytes? 4 text with
    | some taken => .error (.malformed (line + lineBreaks taken))
    | none => .error (.truncated (line + lineBreaks text))

/-- The character that a letter after a backslash stands for. -/
def escaped? (c : Char) : Option Char :=
  if c = '"' ∨ c = '\\' ∨ c = '/' then some c
  else if c = 'b' then some '\x08'
  else if c = 'f' then some '\x0c'
  else if c = 'n' then some '\n'
  else if c = 'r' then some '\r'
  else if c = 't' then some '\t'
  else none

/-- Whether a number is the first half of a surrogate pair. -/
def isHighSurrogate (n : Nat) : Bool := 0xd800 ≤ n && n ≤ 0xdbff

/-- Whether a number is the second half of a surrogate pair. -/
def isLowSurrogate (n : Nat) : Bool := 0xdc00 ≤ n && n ≤ 0xdfff

/-- What follows a first half of a surrogate pair: the character that the two halves make, or the
fault of the reader that wants one. -/
def secondHalf (high line : Nat) (text : List Char) : Except Fault Char :=
  match text with
  | [] => .error (.truncated line)
  | '\\' :: [] => .error (.truncated line)
  | '\\' :: 'u' :: rest =>
    match scanHex4 line rest with
    | .error f => .error f
    | .ok (low, _) =>
      if isLowSurrogate low then
        .ok (Char.ofNat ((high - 0xd800) * 0x400 + (low - 0xdc00) + 0x10000))
      else .error (.malformed line)
  | '\\' :: c :: _ => .error (.malformed (lineAfter line c))
  | c :: _ => .error (.malformed (lineAfter line c))

/-- The rest of a quoted text. `value` holds the characters so far, the last one first, or the fault
of the reader that takes the value. -/
def scanQuoted (value : Except Fault (List Char)) (line : Nat) (text : List Char) :
    Nat → Scanned String
  | 0 => .fail (.truncated line) (.truncated line)
  | fuel + 1 =>
    let stop (read skip : Fault) : Scanned String :=
      match value with
      | .ok _ => .fail read skip
      | .error f => .fail f skip
    let push (c : Char) : Except Fault (List Char) := value.map (c :: ·)
    match text with
    | [] => stop (.truncated line) (.truncated line)
    | '"' :: rest => ⟨value.map fun cs => String.ofList cs.reverse, .ok ⟨rest, line⟩⟩
    | '\\' :: [] => stop (.truncated line) (.truncated line)
    | '\\' :: 'u' :: rest =>
      match scanHex4 line rest with
      | .error f => stop f f
      | .ok (n, rest) =>
        if isHighSurrogate n then
          match secondHalf n line rest with
          | .ok c => scanQuoted (push c) line (rest.drop 6) fuel
          | .error f =>
            scanQuoted (value.bind fun _ => .error f) line rest fuel
        else if isLowSurrogate n then
          scanQuoted (value.bind fun _ => .error (.malformed line)) line rest fuel
        else scanQuoted (push (Char.ofNat n)) line rest fuel
    | '\\' :: c :: rest =>
      match escaped? c with
      | some e => scanQuoted (push e) line rest fuel
      | none => stop (.malformed (lineAfter line c)) (.malformed (lineAfter line c))
    | c :: rest =>
      if c.toNat < 32 then stop (.malformed (lineAfter line c)) (.malformed line)
      else scanQuoted (push c) line rest fuel

/-- A quoted text, from after its opening quote. -/
def scanText (c : Cursor) : Scanned String := scanQuoted (.ok []) c.line c.rest (c.rest.length + 1)

/-! ## Numbers -/

/-- The largest significand. -/
def maxSignificand : Nat := Nat.pow 2 64 - 1

/-- The value of a decimal digit. -/
def digitValue (c : Char) : Nat := c.toNat - '0'.toNat

/-- A significand with as many more digits as fit, and the number of digits that do not. -/
def takeDigits (significand : Nat) : List Char → Nat × Nat
  | [] => (significand, 0)
  | d :: rest =>
    if maxSignificand < significand * 10 + digitValue d then (significand, rest.length + 1)
    else takeDigits (significand * 10 + digitValue d) rest

/-- The number nearest to a power of ten. -/
def powerOfTen (n : Nat) : Binary64 := .ofDecimal false 1 n

/-- A significand scaled by a power of ten, with one rounding for the significand and one for each
power applied; `none` if the result is beyond the range. -/
def scale? (x : Binary64) (exponent : Int) : Nat → Option Binary64
  | 0 => some x
  | steps + 1 =>
    if exponent.natAbs ≤ 308 then
      if 0 ≤ exponent then
        let y := x.mul (powerOfTen exponent.natAbs)
        if y.isFinite then some y else none
      else some (x.div (powerOfTen exponent.natAbs))
    else if x.isZero then some x
    else if 0 ≤ exponent then none
    else scale? (x.div (powerOfTen 308)) (exponent + 308) steps

/-- The parts of a number as they are written. -/
structure NumberText where
  negative : Bool
  whole : List Char
  fraction : Option (List Char) := none
  exponent : Option Int := none

/-- The number that is written, or `none` if it is beyond the range. An integer that does not fit 64
bits is a floating-point number, and so is minus zero. -/
def NumberText.value? (t : NumberText) : Option Number :=
  let (whole, dropped) := takeDigits 0 t.whole
  let float (significand : Nat) (exponent : Int) : Option Number :=
    (scale? (.ofRatio false significand 1) exponent 4).map fun x =>
      .float (if t.negative then x.neg else x)
  match t.fraction, t.exponent with
  | none, none =>
    if dropped = 0 then
      if !t.negative then some (.integer whole)
      else if whole = 0 ∨ Nat.pow 2 63 < whole then float whole 0
      else some (.integer (-whole))
    else float whole dropped
  | fraction, exponent =>
    let digits := fraction.getD []
    let (significand, unread) := takeDigits whole digits
    float significand (dropped - (digits.length - unread) + exponent.getD 0)

/-- A number as both readers see it once all its characters are there. -/
def NumberText.scanned (t : NumberText) (rest : List Char) (line : Nat) : Scanned Number :=
  ⟨match t.value? with
    | some n => .ok n
    | none => .error (.malformed line),
    .ok ⟨rest, line⟩⟩

/-- The exponent of a number, from after its letter. -/
def scanExponent (t : NumberText) (line : Nat) (text : List Char) : Scanned Number :=
  let (negative, text) := match text with
    | '+' :: rest => (false, rest)
    | '-' :: rest => (true, rest)
    | text => (false, text)
  match text with
  | [] => .fail (.truncated line) (.malformed line)
  | c :: rest =>
    if c.isDigit then
      let digits := (c :: rest).takeWhile Char.isDigit
      let n : Int := digits.foldl (fun n d => n * 10 + digitValue d) 0
      { t with exponent := some (if negative then -n else n) }.scanned
        ((c :: rest).dropWhile Char.isDigit) line
    else
      let fault := .malformed (lineAfter line c)
      .fail fault fault

/-- What may follow the digits before the exponent. -/
def scanAfterDigits (t : NumberText) (line : Nat) (text : List Char) : Scanned Number :=
  match text with
  | 'e' :: rest | 'E' :: rest => scanExponent t line rest
  | rest => t.scanned rest line

/-- A number, from its first digit. -/
def scanMagnitude (negative : Bool) (line : Nat) (text : List Char) : Scanned Number :=
  match text with
  | [] => .fail (.truncated line) (.malformed line)
  | first :: rest =>
    if !first.isDigit then
      let fault := .malformed (lineAfter line first)
      .fail fault fault
    else
      let whole := if first = '0' then ['0'] else (first :: rest).takeWhile Char.isDigit
      let rest := if first = '0' then rest else (first :: rest).dropWhile Char.isDigit
      match rest with
      | [] => NumberText.scanned { negative, whole } [] line
      | c :: after =>
        if first = '0' && c.isDigit then .fail (.malformed line) (.malformed line)
        else if c = '.' then
          match after with
          | [] => .fail (.truncated line) (.malformed line)
          | d :: _ =>
            if d.isDigit then
              scanAfterDigits
                { negative, whole, fraction := some (after.takeWhile Char.isDigit) } line
                (after.dropWhile Char.isDigit)
            else
              let fault := .malformed (lineAfter line d)
              .fail fault fault
        else scanAfterDigits { negative, whole } line (c :: after)

/-- A number, from its sign or its first digit. -/
def scanNumber (c : Cursor) : Scanned Number :=
  match c.rest with
  | '-' :: rest => scanMagnitude true c.line rest
  | digits => scanMagnitude false c.line digits

end ProviderSchema.Json
