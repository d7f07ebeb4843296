/-!
# Identifiers

Names of attributes are identifiers: ASCII letters in lower case, digits and underscores, with no
digit in front. `identifier` turns any name into one by taking it apart into words. A word ends at
every character that is neither an ASCII letter nor a digit, between a small letter and a capital,
and before the last capital of a run that a small letter follows.
-/

namespace ProviderSchema.Text

/-- The runs of ASCII letters and digits in a text, added to the run that has begun, whose last
character comes first. -/
def runsFrom (current : List Char) : List Char → List (List Char)
  | [] => if current = [] then [] else [current.reverse]
  | c :: rest =>
    if c.isAlphanum then runsFrom (c :: current) rest
    else if current = [] then runsFrom [] rest
    else current.reverse :: runsFrom [] rest

/-- The runs of ASCII letters and digits in a text. -/
def runs (text : List Char) : List (List Char) := runsFrom [] text

/-- The case of the letters that were last seen in a word; digits do not change it. -/
inductive LetterCase where
  | none
  | lower
  | upper
deriving DecidableEq, Repr

/-- The case that is known after a character. -/
def LetterCase.after (before : LetterCase) (c : Char) : LetterCase :=
  if c.isLower then .lower else if c.isUpper then .upper else before

/-- The words of a run, added to the word that has begun, whose last character comes first. -/
def wordsFrom (known : LetterCase) (current : List Char) : List Char → List (List Char)
  | [] => []
  | [c] => [(c :: current).reverse]
  | c :: next :: rest =>
    if known.after c = .lower ∧ next.isUpper then
      (c :: current).reverse :: wordsFrom .none [] (next :: rest)
    else if known = .upper ∧ c.isUpper ∧ next.isLower then
      current.reverse :: wordsFrom .none [c] (next :: rest)
    else wordsFrom (known.after c) (c :: current) (next :: rest)

/-- The words of a name, in lower case. -/
def words (name : List Char) : List (List Char) :=
  (runs name).flatMap fun run => (wordsFrom .none [] run).map fun word => word.map Char.toLower

/-- Words joined by underscores. -/
def joinWords : List (List Char) → List Char
  | [] => []
  | [word] => word
  | word :: rest => word ++ '_' :: joinWords rest

/-- The characters of the identifier of a name. -/
def identifierChars (name : List Char) : List Char :=
  match joinWords (words name) with
  | [] => ['u', 'n', 'n', 'a', 'm', 'e', 'd']
  | c :: rest => if c.isDigit then '_' :: c :: rest else c :: rest

/-- The identifier of a name. -/
def identifier (name : String) : String := String.ofList (identifierChars name.toList)

/-- Whether a character may stand inside an identifier. -/
def isIdentifierChar (c : Char) : Bool := c.isLower || c.isDigit || c = '_'

/-- Whether characters make an identifier. -/
def isIdentifierChars : List Char → Bool
  | [] => false
  | c :: rest => (c.isLower || c = '_') && rest.all isIdentifierChar

/-- Whether a text is an identifier. -/
def isIdentifier (text : String) : Bool := isIdentifierChars text.toList

end ProviderSchema.Text
