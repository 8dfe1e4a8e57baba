import TurnRelay.Json.Value

/-!
# Writing JSON values

The compact form: no blanks, members in the order of the value. In strings the quote, the backslash
and the characters below `U+0020` are escaped and all others stand for themselves, so the written
form of a value is a single line.

## Main definitions

* `Json.chars`: the compact form as characters.
* `Json.compress`: the compact form.
-/

namespace TurnRelay

namespace Json

/-- A lower-case hexadecimal digit. -/
def hexChar (n : Nat) : Char := if n < 10 then Char.ofNat (48 + n) else Char.ofNat (87 + n)

/-- A character inside a string. -/
def charEscape (c : Char) : List Char :=
  if c = '"' then ['\\', '"']
  else if c = '\\' then ['\\', '\\']
  else if c = '\x08' then ['\\', 'b']
  else if c = '\x0c' then ['\\', 'f']
  else if c = '\n' then ['\\', 'n']
  else if c = '\r' then ['\\', 'r']
  else if c = '\t' then ['\\', 't']
  else if c.toNat < 32 then ['\\', 'u', '0', '0', hexChar (c.toNat / 16), hexChar (c.toNat % 16)]
  else [c]

/-- A string with its quotes. -/
def stringChars (s : List Char) : List Char :=
  '"' :: (s.flatMap charEscape ++ ['"'])

mutual

/-- The compact form as characters. -/
def chars : Json → List Char
  | .null => ['n', 'u', 'l', 'l']
  | .bool true => ['t', 'r', 'u', 'e']
  | .bool false => ['f', 'a', 'l', 's', 'e']
  | .number n => n.chars
  | .string s => stringChars s.toList
  | .array items => '[' :: itemsChars items
  | .object members => '{' :: membersChars members

/-- The items of an array and its closing bracket. -/
def itemsChars : List Json → List Char
  | [] => [']']
  | [v] => chars v ++ [']']
  | v :: vs => chars v ++ ',' :: itemsChars vs

/-- The members of an object and its closing brace. -/
def membersChars : List (String × Json) → List Char
  | [] => ['}']
  | [(k, v)] => stringChars k.toList ++ ':' :: (chars v ++ ['}'])
  | (k, v) :: ms => stringChars k.toList ++ ':' :: (chars v ++ ',' :: membersChars ms)

end

/-- The compact form. -/
def compress (v : Json) : String := String.ofList v.chars

end Json

end TurnRelay
