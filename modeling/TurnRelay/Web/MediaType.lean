/-!
# Media types

The type of a request's body: two words with a slash between, and parameters behind semicolons. The last
plus sign inside the second word divides a name from a suffix. A body is JSON if it is of a type
`application` whose name or suffix is `json`; upper and lower case are the same.

## Main definitions

* `Web.isJsonType`: whether a media type is one of JSON.
-/

namespace TurnRelay.Web

/-- Whether a character may stand in a word of a media type. -/
def isTypeChar (c : Char) : Bool := c.isAlphanum || "!#$%&'+-.^_`|~".toList.contains c

/-- A word at the front and what follows it; none if there is no word. -/
def typeWord? (cs : List Char) : Option (List Char × List Char) :=
  let word := cs.takeWhile isTypeChar
  if word = [] then none else some (word, cs.drop word.length)

/-- Whether a character may stand in a quoted value. -/
def isQuotable (c : Char) : Bool := decide (32 ≤ c.toNat ∧ c.toNat ≠ 127) && c != '"'

/-- The value of a parameter skipped. -/
def skipValue? : List Char → Option (List Char)
  | '"' :: cs =>
    match cs.dropWhile isQuotable with
    | '"' :: rest => some (rest.dropWhile (· = ' '))
    | _ => none
  | cs => some (cs.dropWhile isTypeChar)

/-- Whether characters are parameters, each behind a semicolon; `fuel` bounds their number. -/
def areParameters : Nat → List Char → Bool
  | _, [] => true
  | 0, _ => false
  | fuel + 1, ';' :: cs =>
    match cs.dropWhile (· = ' ') with
    | [] => true
    | cs =>
      match typeWord? cs with
      | some (_, '=' :: rest) =>
        match skipValue? rest with
        | some rest => areParameters fuel rest
        | none => false
      | _ => false
  | _, _ => false

/-- The name and the suffix that a word holds. A plus sign in front divides nothing. -/
def splitSuffix (word : List Char) : List Char × Option (List Char) :=
  let suffix := (word.reverse.takeWhile (· ≠ '+')).reverse
  let length := word.length - (suffix.length + 1)
  if '+' ∈ word ∧ 0 < length then (word.take length, some suffix) else (word, none)

/-- Whether a media type is one of JSON. -/
def isJsonType (text : String) : Bool :=
  match typeWord? (text.toList.map Char.toLower) with
  | some (kind, '/' :: rest) =>
    match typeWord? rest with
    | some (name, parameters) =>
      let (base, suffix) := splitSuffix name
      decide (kind = "application".toList) &&
        (decide (base = "json".toList) || decide (suffix = some "json".toList)) &&
        areParameters parameters.length parameters
    | none => false
  | _ => false

end TurnRelay.Web
