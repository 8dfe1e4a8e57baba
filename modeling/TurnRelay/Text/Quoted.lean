import TurnRelay.Text.Printable

/-!
# Quoted text in messages

A text inside an error message stands between double quotes. Quotes and backslashes are escaped,
tab, line feed, carriage return and the null character have their short escapes, and a character
that is not printable is written by its number in hexadecimal.

## Main definitions

* `Text.quoted`: a text with its quotes.
-/

namespace TurnRelay

namespace Text

/-- A character inside the quotes. -/
def quotedChar (c : Char) : List Char :=
  if c = '"' then ['\\', '"']
  else if c = '\\' then ['\\', '\\']
  else if c = '\t' then ['\\', 't']
  else if c = '\n' then ['\\', 'n']
  else if c = '\r' then ['\\', 'r']
  else if c = '\x00' then ['\\', '0']
  else if isPrintable c then [c]
  else ['\\', 'u', '\x7b'] ++ Nat.toDigits 16 c.toNat ++ ['\x7d']

/-- A text with its quotes. -/
def quoted (s : String) : String :=
  String.ofList ('"' :: (s.toList.flatMap quotedChar ++ ['"']))

end Text

end TurnRelay
