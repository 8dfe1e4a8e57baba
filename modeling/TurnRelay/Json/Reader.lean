import TurnRelay.Json.Value
import TurnRelay.Json.Token

/-!
# Reading JSON values

The structure of a text is read from its tokens with a stack of the containers that are still open.
Two readers share the grammar. The strict one builds a value: every token must have one, and at most
`maxDepth` containers may be open at a time. The lenient one passes over a value and checks its
structure only.

## Main definitions

* `Json.readValue`: the value at the front of a token list, and the tokens behind it.
* `Json.skipValue`: the tokens behind the value at the front.
* `Json.parseRaw?`: a whole text, members in their order and with their repetitions.
* `Json.parse?`: a whole text in normal form.
-/

namespace TurnRelay

namespace Json

/-- How many containers may be open at a time. -/
def maxDepth : Nat := 127

/-- A container that is still open, with what it holds so far, the newest first. -/
inductive Open where
  /-- An array. -/
  | array (done : List Json)
  /-- An object, and the name of the member that is being read. -/
  | object (done : Members) (key : String)

mutual

/-- The value at the front, to be put into the open containers, of which there may be `limit` at most;
gives the finished outermost value and the tokens behind it. -/
def readValue (limit : Nat) (outer : List Open) : List Token → Option (Json × List Token)
  | .null :: ts => closeValue limit .null outer ts
  | .bool b :: ts => closeValue limit (.bool b) outer ts
  | .number (some n) :: ts => closeValue limit (.number n) outer ts
  | .string (some s) :: ts => closeValue limit (.string (String.ofList s)) outer ts
  | .openArray :: .closeArray :: ts =>
    if outer.length < limit then closeValue limit (.array []) outer ts else none
  | .openArray :: ts =>
    if outer.length < limit then readValue limit (.array [] :: outer) ts else none
  | .openObject :: .closeObject :: ts =>
    if outer.length < limit then closeValue limit (.object []) outer ts else none
  | .openObject :: .string (some k) :: .colon :: ts =>
    if outer.length < limit then readValue limit (.object [] (String.ofList k) :: outer) ts else none
  | _ => none

/-- Puts a finished value into the innermost open container and goes on behind it. -/
def closeValue (limit : Nat) (v : Json) : List Open → List Token → Option (Json × List Token)
  | [], ts => some (v, ts)
  | .array done :: outer, .comma :: ts => readValue limit (.array (v :: done) :: outer) ts
  | .array done :: outer, .closeArray :: ts => closeValue limit (.array (v :: done).reverse) outer ts
  | .object done k :: outer, .comma :: .string (some k') :: .colon :: ts =>
    readValue limit (.object ((k, v) :: done) (String.ofList k') :: outer) ts
  | .object done k :: outer, .closeObject :: ts =>
    closeValue limit (.object ((k, v) :: done).reverse) outer ts
  | _, _ => none

end

mutual

/-- Passes over the value at the front; `outer` says of each open container whether it is an
object. -/
def skipValue (outer : List Bool) : List Token → Option (List Token)
  | .null :: ts => closeSkipped outer ts
  | .bool _ :: ts => closeSkipped outer ts
  | .number _ :: ts => closeSkipped outer ts
  | .string _ :: ts => closeSkipped outer ts
  | .openArray :: .closeArray :: ts => closeSkipped outer ts
  | .openArray :: ts => skipValue (false :: outer) ts
  | .openObject :: .closeObject :: ts => closeSkipped outer ts
  | .openObject :: .string _ :: .colon :: ts => skipValue (true :: outer) ts
  | _ => none

/-- Goes on behind a value that has been passed over. -/
def closeSkipped : List Bool → List Token → Option (List Token)
  | [], ts => some ts
  | false :: outer, .comma :: ts => skipValue (false :: outer) ts
  | false :: outer, .closeArray :: ts => closeSkipped outer ts
  | true :: outer, .comma :: .string _ :: .colon :: ts => skipValue (true :: outer) ts
  | true :: outer, .closeObject :: ts => closeSkipped outer ts
  | _, _ => none

end

/-- The value of a whole text, members in their order and with their repetitions. -/
def parseRaw? (text : List Char) : Option Json :=
  match readValue maxDepth [] (tokens text) with
  | some (v, []) => some v
  | _ => none

/-- The value of a whole text in normal form. -/
def parse? (text : List Char) : Option Json := (parseRaw? text).map normalize

end Json

end TurnRelay
