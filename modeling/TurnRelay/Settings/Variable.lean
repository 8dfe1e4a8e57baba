import TurnRelay.Settings.Toml
import TurnRelay.Text.Blank

/-!
# Settings in variables

A setting may be given by an environment variable. The variable's name, behind a common opening and in
either case, says where it belongs: two underscores stand between the names of nested tables. Its text
is a boolean, a number, a quoted string, a character between single quotes, an array in brackets, a
table in braces, or, if it is none of these, a string as it stands.

## Main definitions

* `Variable.value`: what a variable's text says.
* `Variable.path?`: where a variable belongs.
* `Variable.layer`: all variables together.
-/

namespace TurnRelay.Settings.Variable

/-! ### Texts -/

/-- The blanks that may stand between the parts of a text. -/
def isGap (c : Char) : Bool := c = ' ' || c = '\t' || c = '\n' || c = '\x0c' || c = '\r'

/-- Whether a character ends a bare word. -/
def isSeparator (c : Char) : Bool := c = ',' || c = '{' || c = '}' || c = '[' || c = ']'

/-- What a bare word says. -/
def word (cs : List Char) : Value :=
  let cs := Text.trimChars cs
  match if '.' ∈ cs then float? cs else none with
  | some x => .float x
  | none =>
    match natural? cs with
    | some n => .integer false n
    | none =>
      match signedInteger? cs with
      | some i => .integer true i
      | none => .string (String.ofList cs)

/-- The name in front of an equals sign, and the rest. -/
def name? : List Char → Option (String × List Char)
  | '"' :: cs => (Toml.basic? (cs.length + 1) cs).map fun (s, rest) => (String.ofList s, rest)
  | cs =>
    let name := cs.takeWhile Toml.isKeyChar
    if name = [] then none else some (String.ofList name, cs.drop name.length)

mutual

/-- The value at the front, and the rest. -/
def read? : Nat → List Char → Option (Value × List Char)
  | 0, _ => none
  | fuel + 1, cs => do
    let (v, rest) ←
      match cs.dropWhile isGap with
      | 't' :: 'r' :: 'u' :: 'e' :: rest => some (.bool true, rest)
      | 'f' :: 'a' :: 'l' :: 's' :: 'e' :: rest => some (.bool false, rest)
      | '{' :: rest => (readEntries? fuel rest).map fun (es, rest) => (Value.ofEntries es, rest)
      | '[' :: rest => (readItems? fuel rest).map fun (vs, rest) => (.array vs, rest)
      | '"' :: rest =>
        (Toml.basic? (rest.length + 1) rest).map fun (s, rest) => (.string (String.ofList s), rest)
      | '\'' :: c :: '\'' :: rest => some (.char c, rest)
      | '\'' :: _ => none
      | cs => some (word (cs.takeWhile (!isSeparator ·)), cs.dropWhile (!isSeparator ·))
    return (v, rest.dropWhile isGap)

/-- The items of an array up to its closing bracket, and the rest. -/
def readItems? : Nat → List Char → Option (List Value × List Char)
  | 0, _ => none
  | fuel + 1, cs =>
    match cs with
    | ']' :: rest => some ([], rest)
    | cs => do
      let (v, rest) ← read? fuel cs
      match rest with
      | ',' :: rest =>
        let (vs, rest) ← readItems? fuel rest
        return (v :: vs, rest)
      | ']' :: rest => return ([v], rest)
      | _ => none

/-- The entries of a table up to its closing brace, and the rest. -/
def readEntries? : Nat → List Char → Option (Value.Entries × List Char)
  | 0, _ => none
  | fuel + 1, cs =>
    match cs with
    | '}' :: rest => some ([], rest)
    | cs => do
      let (name, rest) ← name? (cs.dropWhile isGap)
      match rest.dropWhile isGap with
      | '=' :: rest =>
        let (v, rest) ← read? fuel rest
        match rest with
        | ',' :: rest =>
          let (es, rest) ← readEntries? fuel rest
          return ((name, v) :: es, rest)
        | '}' :: rest => return ([(name, v)], rest)
        | _ => none
      | _ => none

end

/-- What a variable's text says. -/
def value (text : String) : Value :=
  let cs := text.toList
  match read? (cs.length + 1) cs with
  | some (v, []) => v
  | _ => .string text

/-! ### Names -/

/-- What the names of variables begin with. -/
def opening : String := "chat_relay_"

/-- Characters with every two underscores replaced by a point. -/
def unfolded : List Char → List Char
  | '_' :: '_' :: cs => '.' :: unfolded cs
  | c :: cs => c :: unfolded cs
  | [] => []

/-- The pieces between points. -/
def pieces (cs : List Char) : List (List Char) :=
  cs.foldr (fun c ps => if c = '.' then [] :: ps else
    match ps with
    | p :: ps => (c :: p) :: ps
    | [] => [[c]]) [[]]

/-- The nested names that a variable's name stands for; none if it is no setting's. -/
def path? (name : String) : Option (List String) :=
  let cs := (Text.trimChars name.toList).map Char.toLower
  let start := opening.toList
  if start.isPrefixOf cs then
    let path := pieces (unfolded (cs.drop start.length))
    if [] ∈ path then none else some (path.map String.ofList)
  else none

/-- The table that variables say, later ones laid over earlier ones. -/
def layer (vars : List (String × String)) : Value :=
  vars.foldl (fun t (name, text) =>
    match path? name with
    | some path => t.overlay (Value.nested path (value text))
    | none => t) (.table [])

end TurnRelay.Settings.Variable
