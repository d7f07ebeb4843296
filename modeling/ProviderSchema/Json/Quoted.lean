/-!
# Quoted text

A text is written between double quotes. The quote, the backslash and the control characters below
U+0020 are escaped, five of them by a letter and the others by four hexadecimal digits; everything
else, U+007F included, stands for itself.
-/

namespace ProviderSchema.Json.Quoted

/-- A lower-case hexadecimal digit. -/
def hexDigit (n : Nat) : Char :=
  if n < 10 then Char.ofNat (48 + n) else Char.ofNat (87 + n)

/-- One character as it stands between the quotes. -/
def escape (c : Char) : List Char :=
  if c = '"' then ['\\', '"']
  else if c = '\\' then ['\\', '\\']
  else if c = '\x08' then ['\\', 'b']
  else if c = '\x0c' then ['\\', 'f']
  else if c = '\n' then ['\\', 'n']
  else if c = '\r' then ['\\', 'r']
  else if c = '\t' then ['\\', 't']
  else if c.toNat < 32 then
    ['\\', 'u', '0', '0', hexDigit (c.toNat / 16), hexDigit (c.toNat % 16)]
  else [c]

/-- A text between its quotes, as characters. -/
def encode (text : List Char) : List Char :=
  '"' :: (text.flatMap escape ++ ['"'])

/-- A text between its quotes. -/
def quote (text : String) : String := String.ofList (encode text.toList)

end ProviderSchema.Json.Quoted
