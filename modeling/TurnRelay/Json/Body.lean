import TurnRelay.Json.Decode
import TurnRelay.Json.Reader

/-!
# Reading a structure straight from a text

A structure may be read from a text without building a value first. Then members of other names are
only passed over, a repeated field is refused, and of two faults the one that comes first in the text
counts. Two kinds of fault are told apart: the text is malformed, or it is well-formed as far as read
and not of the right shape. A field that is to hold a plain value refuses a container at its opening
bracket, before anything inside it is looked at.

## Main definitions

* `Shape`: which containers a field admits.
* `Record.readText`: the structure at the front of a token list.
* `Record.parse`: the structure that a whole text holds.
-/

namespace TurnRelay

/-- What is wrong with a text that should hold a structure. -/
inductive TextFault where
  /-- It is no JSON text. -/
  | malformed
  /-- A value is not of the type asked for, missing, or repeated. -/
  | misshapen
  deriving DecidableEq, Repr

/-- Which containers a field admits. -/
inductive Shape where
  /-- None. -/
  | plain
  /-- An array. -/
  | array
  /-- Every value. -/
  | any
  deriving DecidableEq, Repr

/-- Whether a field of this shape refuses a value that begins with the token. -/
def Shape.refuses : Shape → Json.Token → Bool
  | .any, _ => false
  | .array, .openObject => true
  | .plain, .openObject => true
  | .plain, .openArray => true
  | _, _ => false

namespace Record

open Json (Token Members readValue skipValue)

variable {α : Type}

/-- A misreading of a value is a fault of shape. -/
def shaped {β : Type} : Except DecodeError β → Except TextFault β
  | .ok b => .ok b
  | .error _ => .error .misshapen

/-- Reads the value of the field `name` inside the outermost container. -/
def readField (r : Record α) (shapes : String → Shape) (name : String) (ts : List Token) :
    Except TextFault (Json × List Token) :=
  if ts.head?.any (shapes name).refuses then .error .misshapen
  else match readValue (Json.maxDepth - 1) [] ts with
    | none => .error .malformed
    | some (v, rest) => do
      shaped (r.check name v.normalize)
      return (v.normalize, rest)

/-- Reads members up to the closing brace, at most `fuel` of them, behind those already read. -/
def readMembers (r : Record α) (shapes : String → Shape) :
    Nat → Members → List Token → Except TextFault (Members × List Token)
  | fuel + 1, done, .string (some k) :: .colon :: ts => do
    let name := String.ofList k
    let (done, rest) ←
      if name ∈ r.names then
        if (Json.find? name done).isSome then .error .misshapen
        else do
          let (v, rest) ← r.readField shapes name ts
          .ok (done ++ [(name, v)], rest)
      else match skipValue [] ts with
        | some rest => .ok (done, rest)
        | none => .error .malformed
    match rest with
    | .closeObject :: rest => return (done, rest)
    | .comma :: rest => readMembers r shapes fuel done rest
    | _ => .error .malformed
  | _, _, _ => .error .malformed

/-- Reads items up to the closing bracket, one for each name, behind those already read; gives also
whether all names have been served and the bracket is still to come. -/
def readItems (r : Record α) (shapes : String → Shape) :
    List String → List Json → List Token → Except TextFault (List Json × List Token × Bool)
  | [], done, ts => .ok (done, ts, true)
  | name :: names, done, ts => do
    let (v, rest) ← r.readField shapes name ts
    match names, rest with
    | _, .closeArray :: rest => return (done ++ [v], rest, false)
    | [], rest => return (done ++ [v], rest, true)
    | _ :: _, .comma :: rest => readItems r shapes names (done ++ [v]) rest
    | _ :: _, _ => .error .malformed

/-- Reads a structure from the front of a token list. -/
def readText (r : Record α) (shapes : String → Shape) (ts : List Token) :
    Except TextFault (α × List Token) :=
  match ts with
  | .openObject :: .closeObject :: rest => do
    return (← shaped (r.ofMembers []), rest)
  | .openObject :: rest => do
    let (ms, rest) ← r.readMembers shapes rest.length [] rest
    return (← shaped (r.ofMembers ms), rest)
  | .openArray :: .closeArray :: rest => do
    let (value, _) ← shaped (r.ofItems 0 "" [])
    return (value, rest)
  | .openArray :: rest => do
    let (items, rest, unclosed) ← r.readItems shapes r.names [] rest
    let (value, _) ← shaped (r.ofItems 0 "" items)
    if unclosed then .error .malformed else return (value, rest)
  | .null :: _ => .error .misshapen
  | .bool _ :: _ => .error .misshapen
  | .number (some _) :: _ => .error .misshapen
  | .string (some _) :: _ => .error .misshapen
  | _ => .error .malformed

/-- Reads a structure from a whole text. -/
def parse (r : Record α) (shapes : String → Shape) (text : List Char) : Except TextFault α := do
  let (value, rest) ← r.readText shapes (Json.tokens text)
  match rest with
  | [] => return value
  | _ :: _ => .error .malformed

end Record

end TurnRelay
