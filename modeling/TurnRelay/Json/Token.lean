import TurnRelay.Json.Number

/-!
# Tokens of JSON texts

A text is cut into tokens before its structure is read. A token says whether its value can be used:
a string that holds half of a surrogate pair, and a number too large for a float, are well-formed
tokens without a value, so that a reader that skips them need not refuse them. Where the text is not
made of tokens, a single `malformed` token ends the list.

Blanks are space, tab, line feed and carriage return.

## Main definitions

* `Json.Token`: the tokens.
* `Json.tokens`: the tokens of a text.
-/

namespace TurnRelay

namespace Json

/-- A token of a JSON text. -/
inductive Token where
  /-- The opening brace. -/
  | openObject
  /-- The closing brace. -/
  | closeObject
  /-- The opening bracket. -/
  | openArray
  /-- The closing bracket. -/
  | closeArray
  /-- The colon. -/
  | colon
  /-- The comma. -/
  | comma
  /-- The literal `null`. -/
  | null
  /-- The literals `true` and `false`. -/
  | bool (b : Bool)
  /-- A number; without a value if it is too large for a float. -/
  | number (value : Option Number)
  /-- A string; without a value if it holds an unpaired surrogate. -/
  | string (value : Option (List Char))
  /-- What follows is no token. -/
  | malformed
  deriving DecidableEq, Repr

/-! ### Strings -/

/-- The value of a hexadecimal digit. -/
def hexValue? (c : Char) : Option Nat :=
  if '0' ≤ c ∧ c ≤ '9' then some (c.toNat - 48)
  else if 'a' ≤ c ∧ c ≤ 'f' then some (c.toNat - 87)
  else if 'A' ≤ c ∧ c ≤ 'F' then some (c.toNat - 55)
  else none

/-- The number that four hexadecimal digits denote. -/
def hexWord? (a b c d : Char) : Option Nat := do
  return ((← hexValue? a) * 16 + (← hexValue? b)) * 256 + ((← hexValue? c) * 16 + (← hexValue? d))

/-- The character that stands for itself behind a backslash, or that a letter stands for. -/
def escaped? : Char → Option Char
  | '"' => some '"'
  | '\\' => some '\\'
  | '/' => some '/'
  | 'b' => some '\x08'
  | 'f' => some '\x0c'
  | 'n' => some '\n'
  | 'r' => some '\r'
  | 't' => some '\t'
  | _ => none

/-- A piece of a string's text: a character, or a UTF-16 unit written as an escape. -/
inductive Piece where
  /-- A character, written as itself or behind a backslash. -/
  | char (c : Char)
  /-- A unit written with four hexadecimal digits. -/
  | unit (n : Nat)
  deriving DecidableEq, Repr

/-- The pieces of a string up to its closing quote, and the text behind the quote. -/
def stringPieces : List Char → Option (List Piece × List Char)
  | [] => none
  | '"' :: rest => some ([], rest)
  | '\\' :: 'u' :: a :: b :: c :: d :: rest => do
    let n ← hexWord? a b c d
    let (ps, rest) ← stringPieces rest
    return (.unit n :: ps, rest)
  | '\\' :: e :: rest => do
    let c ← escaped? e
    let (ps, rest) ← stringPieces rest
    return (.char c :: ps, rest)
  | c :: rest => do
    if c.toNat < 32 then none
    else
      let (ps, rest) ← stringPieces rest
      return (.char c :: ps, rest)

/-- The characters that pieces denote; none if a surrogate has no partner. -/
def decodePieces : List Piece → Option (List Char)
  | [] => some []
  | .char c :: ps => (decodePieces ps).map (c :: ·)
  | .unit n :: ps =>
    if 0xD800 ≤ n ∧ n < 0xDC00 then
      match ps with
      | .unit m :: ps' =>
        if 0xDC00 ≤ m ∧ m < 0xE000 then
          (decodePieces ps').map (Char.ofNat (0x10000 + (n - 0xD800) * 0x400 + (m - 0xDC00)) :: ·)
        else none
      | _ => none
    else if 0xDC00 ≤ n ∧ n < 0xE000 then none
    else (decodePieces ps).map (Char.ofNat n :: ·)

/-! ### Numbers -/

/-- The digits at the front, and the rest. -/
def spanDigits : List Char → List Char × List Char
  | [] => ([], [])
  | c :: cs =>
    if '0' ≤ c ∧ c ≤ '9' then
      let (ds, rest) := spanDigits cs
      (c :: ds, rest)
    else ([], c :: cs)

/-- The digits of a whole part: a single zero, or digits that do not begin with one. -/
def wholePart (cs : List Char) : Option (List Char × List Char) :=
  match spanDigits cs with
  | ([], _) => none
  | ('0' :: _ :: _, _) => none
  | (ds, rest) => some (ds, rest)

/-- A point and at least one digit; nothing if no point stands in front. -/
def fractionPart : List Char → Option (Option (List Char) × List Char)
  | '.' :: cs =>
    match spanDigits cs with
    | ([], _) => none
    | (ds, rest) => some (some ds, rest)
  | cs => some (none, cs)

/-- The sign of an exponent, and the rest. -/
def exponentSign : List Char → Bool × List Char
  | '+' :: cs => (false, cs)
  | '-' :: cs => (true, cs)
  | cs => (false, cs)

/-- An exponent with at least one digit; nothing if no `e` stands in front. -/
def exponentPart (cs : List Char) : Option (Option (Bool × List Char) × List Char) :=
  match cs with
  | [] => some (none, [])
  | c :: rest =>
    if c = 'e' ∨ c = 'E' then
      let (negative, rest) := exponentSign rest
      match spanDigits rest with
      | ([], _) => none
      | (ds, rest) => some (some (negative, ds), rest)
    else some (none, cs)

/-- The parts of the number at the front behind its sign, and the rest. -/
def numberParts (negative : Bool) (cs : List Char) : Option (NumberText × List Char) := do
  let (whole, rest) ← wholePart cs
  let (fraction, rest) ← fractionPart rest
  let (exponent, rest) ← exponentPart rest
  return (⟨negative, whole, fraction, exponent⟩, rest)

/-! ### Texts -/

/-- The characters between tokens. -/
def isBlank (c : Char) : Bool := c = ' ' || c = '\t' || c = '\n' || c = '\r'

/-- The token at the front of a text that does not begin with a blank, and the rest. -/
def firstToken : List Char → Option (Token × List Char)
  | [] => none
  | '{' :: cs => some (.openObject, cs)
  | '}' :: cs => some (.closeObject, cs)
  | '[' :: cs => some (.openArray, cs)
  | ']' :: cs => some (.closeArray, cs)
  | ':' :: cs => some (.colon, cs)
  | ',' :: cs => some (.comma, cs)
  | 'n' :: 'u' :: 'l' :: 'l' :: cs => some (.null, cs)
  | 't' :: 'r' :: 'u' :: 'e' :: cs => some (.bool true, cs)
  | 'f' :: 'a' :: 'l' :: 's' :: 'e' :: cs => some (.bool false, cs)
  | '"' :: cs => (stringPieces cs).map fun (ps, rest) => (.string (decodePieces ps), rest)
  | '-' :: cs => (numberParts true cs).map fun (t, rest) => (.number t.value?, rest)
  | cs => (numberParts false cs).map fun (t, rest) => (.number t.value?, rest)

/-- The tokens of a text, at most `fuel` of its characters being looked at. -/
def tokensWithin : Nat → List Char → List Token
  | 0, _ => []
  | _, [] => []
  | fuel + 1, c :: cs =>
    if isBlank c then tokensWithin fuel cs
    else match firstToken (c :: cs) with
      | some (t, rest) => t :: tokensWithin fuel rest
      | none => [.malformed]

/-- The tokens of a text. Each takes at least one character, so the length of the text suffices. -/
def tokens (text : List Char) : List Token := tokensWithin text.length text

end Json

end TurnRelay
