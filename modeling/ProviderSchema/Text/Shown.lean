import ProviderSchema.Text.Showable

/-!
# Text shown in messages

A text in a message stands between double quotes, with the quote, the backslash and whatever cannot
be shown on its own escaped.
-/

namespace ProviderSchema.Text

/-- One character of a shown text. -/
def shownChar (c : Char) : List Char :=
  if c = '"' ∨ c = '\\' then ['\\', c]
  else if c = '\n' then ['\\', 'n']
  else if c = '\r' then ['\\', 'r']
  else if c = '\t' then ['\\', 't']
  else if c = '\x00' then ['\\', '0']
  else if isShowable c then [c]
  else ['\\', 'u', '\x7b'] ++ Nat.toDigits 16 c.toNat ++ ['\x7d']

/-- A text as messages show it. -/
def shown (text : String) : String :=
  String.ofList ('"' :: (text.toList.flatMap shownChar ++ ['"']))

end ProviderSchema.Text
