import TurnRelay.Settings.Scalar
import TurnRelay.Settings.Value

/-!
# Settings files

A settings file is a TOML document: keys and values by line, sections in brackets, comments behind `#`.
The reader goes through the text once and puts each value into its place. It keeps track of how each
table came about, because a table may be opened only once: a section header may fill in a table that so
far only had sub-sections, and a dotted key may add to tables made by dotted keys.

Dates and times are read and kept as tables of a single entry, since no setting is one.

## Main definitions

* `Settings.Toml.parse?`: the table that a document holds; none if it is no TOML document.
-/

namespace TurnRelay.Settings.Toml

/-! ### Characters and lines -/

/-- Spaces and tabs skipped. -/
def skipBlanks : List Char → List Char
  | ' ' :: cs => skipBlanks cs
  | '\t' :: cs => skipBlanks cs
  | cs => cs

/-- Whether a character may stand in a comment or a string of one line. -/
def isPlain (c : Char) : Bool := c = '\t' || (decide (0x20 ≤ c.toNat) && c.toNat != 0x7f)

/-- A line end at the front skipped; none if there is something else. -/
def lineEnd? : List Char → Option (List Char)
  | '\n' :: cs => some cs
  | '\r' :: '\n' :: cs => some cs
  | _ => none

/-- A comment at the front skipped. -/
def skipComment : List Char → List Char
  | '#' :: cs => cs.dropWhile isPlain
  | cs => cs

/-- The rest of a line, which may hold only blanks and a comment. -/
def restOfLine? (cs : List Char) : Option (List Char) :=
  match skipComment (skipBlanks cs) with
  | [] => some []
  | cs => lineEnd? cs

/-- Blanks, line ends and comments skipped, at most `fuel` of them. -/
def skipLines : Nat → List Char → List Char
  | 0, cs => cs
  | fuel + 1, cs =>
    let cs := skipComment (skipBlanks cs)
    match lineEnd? cs with
    | some rest => skipLines fuel rest
    | none => cs

/-! ### Strings -/

/-- The number that hexadecimal digits denote. -/
def hexNumber? (cs : List Char) : Option Nat :=
  cs.foldlM (fun n c =>
    if isDigit c then some (16 * n + (c.toNat - 48))
    else if 'a' ≤ c ∧ c ≤ 'f' then some (16 * n + (c.toNat - 87))
    else if 'A' ≤ c ∧ c ≤ 'F' then some (16 * n + (c.toNat - 55))
    else none) 0

/-- The character of a number written with `size` hexadecimal digits, and the rest. -/
def numbered? (size : Nat) (cs : List Char) : Option (Char × List Char) := do
  if cs.length < size then none
  let n ← hexNumber? (cs.take size)
  if n < 0xD800 ∨ (0xDFFF < n ∧ n < 0x110000) then some (Char.ofNat n, cs.drop size) else none

/-- What stands behind a backslash, and the rest. -/
def escape? : List Char → Option (Char × List Char)
  | 'b' :: cs => some ('\x08', cs)
  | 't' :: cs => some ('\t', cs)
  | 'n' :: cs => some ('\n', cs)
  | 'f' :: cs => some ('\x0c', cs)
  | 'r' :: cs => some ('\r', cs)
  | '"' :: cs => some ('"', cs)
  | '\\' :: cs => some ('\\', cs)
  | 'u' :: cs => numbered? 4 cs
  | 'U' :: cs => numbered? 8 cs
  | _ => none

/-- The rest of a string in double quotes, and what follows it. -/
def basic? : Nat → List Char → Option (List Char × List Char)
  | 0, _ => none
  | _, [] => none
  | fuel + 1, c :: cs =>
    if c = '"' then some ([], cs)
    else if c = '\\' then do
      let (e, cs) ← escape? cs
      let (s, rest) ← basic? fuel cs
      return (e :: s, rest)
    else if isPlain c then do
      let (s, rest) ← basic? fuel cs
      return (c :: s, rest)
    else none

/-- The rest of a string in single quotes, and what follows it. -/
def literal? : List Char → Option (List Char × List Char)
  | [] => none
  | c :: cs =>
    if c = '\'' then some ([], cs)
    else if isPlain c then (literal? cs).map fun (s, rest) => (c :: s, rest)
    else none

/-- How many quotes stand at the front. -/
def countQuotes (q : Char) : List Char → Nat
  | [] => 0
  | c :: cs => if c = q then countQuotes q cs + 1 else 0

/-- Blanks and line ends skipped behind a backslash at the end of a line. -/
def skipFolded : List Char → List Char
  | ' ' :: cs => skipFolded cs
  | '\t' :: cs => skipFolded cs
  | '\n' :: cs => skipFolded cs
  | '\r' :: '\n' :: cs => skipFolded cs
  | cs => cs

/-- The rest of a string in three quotes, and what follows it. Up to two quotes may stand before the
closing ones. -/
def multiline? (q : Char) : Nat → List Char → Option (List Char × List Char)
  | 0, _ => none
  | _, [] => none
  | fuel + 1, c :: cs =>
    if c = q then
      let n := countQuotes q (c :: cs)
      if 6 ≤ n then none
      else if 3 ≤ n then some (List.replicate (n - 3) q, (c :: cs).drop n)
      else do
        let (s, rest) ← multiline? q fuel ((c :: cs).drop n)
        return (List.replicate n q ++ s, rest)
    else if c = '\\' ∧ q = '"' then
      match lineEnd? (skipBlanks cs) with
      | some rest => multiline? q fuel (skipFolded rest)
      | none => do
        let (e, cs) ← escape? cs
        let (s, rest) ← multiline? q fuel cs
        return (e :: s, rest)
    else
      match lineEnd? (c :: cs) with
      | some rest => do
        let (s, rest) ← multiline? q fuel rest
        return ('\n' :: s, rest)
      | none =>
        if isPlain c then do
          let (s, rest) ← multiline? q fuel cs
          return (c :: s, rest)
        else none

/-- A line end right behind the opening quotes does not count. -/
def trimFirstLine (cs : List Char) : List Char := (lineEnd? cs).getD cs

/-- The string at the front, and the rest. -/
def string? : List Char → Option (List Char × List Char)
  | '"' :: '"' :: '"' :: cs => multiline? '"' (cs.length + 1) (trimFirstLine cs)
  | '\'' :: '\'' :: '\'' :: cs => multiline? '\'' (cs.length + 1) (trimFirstLine cs)
  | '"' :: cs => basic? (cs.length + 1) cs
  | '\'' :: cs => literal? cs
  | _ => none

/-! ### Keys -/

/-- Whether a character may stand in a bare key. -/
def isKeyChar (c : Char) : Bool := c.isAlphanum || c = '_' || c = '-'

/-- One part of a key, and the rest. -/
def keyPart? (cs : List Char) : Option (String × List Char) :=
  match cs with
  | '"' :: '"' :: '"' :: _ => none
  | '\'' :: '\'' :: '\'' :: _ => none
  | '"' :: r => (basic? (r.length + 1) r).map fun (s, rest) => (String.ofList s, rest)
  | '\'' :: r => (literal? r).map fun (s, rest) => (String.ofList s, rest)
  | cs =>
    let name := cs.takeWhile isKeyChar
    if name = [] then none else some (String.ofList name, cs.drop name.length)

/-- A dotted key, its last part apart, and the rest; blanks may stand around the parts. -/
def key? : Nat → List Char → Option (List String × String × List Char)
  | 0, _ => none
  | fuel + 1, cs => do
    let (part, rest) ← keyPart? (skipBlanks cs)
    match skipBlanks rest with
    | '.' :: rest =>
      let (parts, last, rest) ← key? fuel rest
      return (part :: parts, last, rest)
    | rest => return ([], part, rest)

/-! ### Numbers, dates and words -/

/-- Underscores removed, each of which must stand between two digits. -/
def joined? (isOk : Char → Bool) (cs : List Char) : Option (List Char) :=
  let parts := cs.splitBy fun a b => (a != '_') && (b != '_')
  let rec go : List (List Char) → Option (List Char)
    | [] => none
    | [p] => if p.all isOk then some p else none
    | p :: ['_'] :: rest => if p.all isOk then (go rest).map (p ++ ·) else none
    | _ => none
  go parts

/-- An integer with a base other than ten. -/
def based? (base : Nat) (cs : List Char) : Option Value := do
  let ok (c : Char) : Bool := (hexNumber? [c]).any fun d => decide (d < base)
  let ds ← joined? ok cs
  let n := ds.foldl (fun n c => base * n + (hexNumber? [c]).getD 0) 0
  if ds ≠ [] ∧ n < Nat.pow 2 63 then some (.integer true n) else none

/-- A whole part does not begin with a zero unless it is one. -/
def isWhole (cs : List Char) : Bool :=
  match cs with
  | ['0'] => true
  | '0' :: _ => false
  | [] => false
  | _ => true

/-- A decimal integer or a floating-point number. One that is too large is none; one that is too small
is the negative infinity. -/
def number? (cs : List Char) : Option Value := do
  let (sign, size) :=
    match cs with
    | '+' :: r => (['+'], r)
    | '-' :: r => (['-'], r)
    | r => ([], r)
  if size = "inf".toList then
    return .float (.infinity (sign = ['-']))
  if size = "nan".toList then
    return .float ⟨0x7ff8000000000000⟩
  let run (c : Char) : Bool := isDigit c || c = '_'
  let whole ← joined? isDigit (size.takeWhile run)
  if ! isWhole whole then none
  let rest := size.dropWhile run
  if rest = [] then
    let i ← signedInteger? (sign ++ whole)
    return .integer true i
  let (fraction, rest) ←
    match rest with
    | '.' :: r => do
      let f ← joined? isDigit (r.takeWhile run)
      if f = [] then none else some ('.' :: f, r.dropWhile run)
    | r => some ([], r)
  let power ←
    match rest with
    | [] => some []
    | e :: r =>
      if e = 'e' ∨ e = 'E' then
        let (mark, r) :=
          match r with
          | '+' :: r => (['+'], r)
          | '-' :: r => (['-'], r)
          | r => ([], r)
        (joined? isDigit r).bind fun p => if p = [] then none else some ('e' :: mark ++ p)
      else none
  let x ← float? (sign ++ whole ++ fraction ++ power)
  if x = .infinity false then none else some (.float x)

/-- The number of two digits at the front, if it lies within bounds, and the rest. -/
def two? (low high : Nat) : List Char → Option (Nat × List Char)
  | a :: b :: cs => do
    let n ← digits? [a, b]
    if low ≤ n ∧ n ≤ high then some (n, cs) else none
  | _ => none

/-- A time of day at the front skipped. -/
def time? (cs : List Char) : Option (List Char) := do
  let (_, cs) ← two? 0 23 cs
  match cs with
  | ':' :: cs =>
    let (_, cs) ← two? 0 59 cs
    match cs with
    | ':' :: cs =>
      let (_, cs) ← two? 0 60 cs
      match cs with
      | '.' :: cs =>
        let rest := cs.dropWhile isDigit
        if rest.length = cs.length then none else some rest
      | cs => some cs
    | _ => none
  | _ => none

/-- An offset from universal time at the front skipped, if there is one. -/
def offset? : List Char → Option (List Char)
  | 'Z' :: cs => some cs
  | 'z' :: cs => some cs
  | c :: cs =>
    if c = '+' ∨ c = '-' then do
      let (_, cs) ← two? 0 23 cs
      match cs with
      | ':' :: cs => return (← two? 0 59 cs).2
      | _ => none
    else some (c :: cs)
  | [] => some []

/-- The number of days of a month. -/
def daysOf (year month : Nat) : Nat :=
  if month = 2 then
    if year % 4 = 0 ∧ (year % 100 ≠ 0 ∨ year % 400 = 0) then 29 else 28
  else if month = 4 ∨ month = 6 ∨ month = 9 ∨ month = 11 then 30 else 31

/-- A date at the front skipped. -/
def date? : List Char → Option (List Char)
  | a :: b :: c :: d :: '-' :: cs => do
    let year ← digits? [a, b, c, d]
    let (month, cs) ← two? 1 12 cs
    match cs with
    | '-' :: cs => return (← two? 1 (daysOf year month) cs).2
    | _ => none
  | _ => none

/-- A date, a time or both at the front skipped. -/
def moment? (cs : List Char) : Option (List Char) :=
  match date? cs with
  | none => time? cs
  | some rest =>
    match rest with
    | c :: r =>
      if c = 'T' ∨ c = 't' then (time? r).bind offset?
      else if c = ' ' ∧ (time? r).isSome then (time? r).bind offset?
      else some rest
    | [] => some []

/-- Whether a character belongs to a number or a word. -/
def isWordChar (c : Char) : Bool := c.isAlphanum || c = '_' || c = '-' || c = '+' || c = '.'

/-- The boolean, number, date or time at the front, and the rest. -/
def word? (cs : List Char) : Option (Value × List Char) :=
  match moment? cs with
  | some rest =>
    let text := String.ofList (cs.take (cs.length - rest.length))
    some (.table [("$__toml_private_datetime", .string text)], rest)
  | none => do
    let word := cs.takeWhile isWordChar
    let rest := cs.drop word.length
    let v ←
      match word with
      | ['t', 'r', 'u', 'e'] => some (.bool true)
      | ['f', 'a', 'l', 's', 'e'] => some (.bool false)
      | '0' :: 'x' :: ds => based? 16 ds
      | '0' :: 'o' :: ds => based? 8 ds
      | '0' :: 'b' :: ds => based? 2 ds
      | word => number? word
    return (v, rest)

/-! ### The document as a tree -/

/-- How a table came about. -/
inductive Origin where
  /-- Only as the place of something inside it. -/
  | implied
  /-- By a dotted key. -/
  | dotted
  /-- By a section header. -/
  | header
  deriving DecidableEq, Repr

/-- A place in a document. -/
inductive Node where
  /-- A value. -/
  | leaf (v : Value)
  /-- A table that may still grow. -/
  | table (origin : Origin) (entries : List (String × Node))
  /-- Tables under one name, the present one last. -/
  | series (tables : List (List (String × Node)))
  deriving Inhabited

/-- The entries of a table that may still grow. -/
abbrev Nodes := List (String × Node)

/-- The entry of a name. -/
def Nodes.find? (name : String) (ns : Nodes) : Option Node :=
  (List.find? (fun e => decide (e.1 = name)) ns).map (·.2)

/-- Puts an entry in place of the one of the same name, or behind the others. -/
def Nodes.put (name : String) (node : Node) (ns : Nodes) : Nodes :=
  if (Nodes.find? name ns).isSome then ns.map fun e => if e.1 = name then (name, node) else e
  else ns ++ [(name, node)]

/-- Changes the table at a path, making tables of the given origin on the way where there are none. A
dotted key neither goes through tables that a header opened nor adds to one that no dotted key made. -/
def descend (origin : Origin) (change : Nodes → Option Nodes) :
    List String → Nodes → Option Nodes
  | [], ns => change ns
  | name :: path, ns =>
    match Nodes.find? name ns with
    | none => do
      let inner ← descend origin change path []
      return Nodes.put name (.table origin inner) ns
    | some (.table o inner) =>
      if origin = .dotted ∧ (o = .header ∨ (path = [] ∧ o ≠ .dotted)) then none
      else do
        let inner ← descend origin change path inner
        return Nodes.put name (.table o inner) ns
    | some (.series tables) =>
      if origin = .dotted then none
      else
        match tables.getLast? with
        | none => none
        | some last => do
          let inner ← descend origin change path last
          return Nodes.put name (.series (tables.dropLast ++ [inner])) ns
    | some (.leaf _) => none

/-- Puts a value under a name that is not taken. -/
def place (name : String) (v : Value) (ns : Nodes) : Option Nodes :=
  if (Nodes.find? name ns).isSome then none else some (Nodes.put name (.leaf v) ns)

/-- Opens the table of a section header. -/
def openTable (name : String) (ns : Nodes) : Option Nodes :=
  match Nodes.find? name ns with
  | none => some (Nodes.put name (.table .header []) ns)
  | some (.table .implied inner) => some (Nodes.put name (.table .header inner) ns)
  | some _ => none

/-- Opens one more table of a series. -/
def openNext (name : String) (ns : Nodes) : Option Nodes :=
  match Nodes.find? name ns with
  | none => some (Nodes.put name (.series [[]]) ns)
  | some (.series tables) => some (Nodes.put name (.series (tables ++ [[]])) ns)
  | some _ => none

/-- A path through tables of which some are series: the last of each is meant. -/
def within (change : Nodes → Option Nodes) : List String → Nodes → Option Nodes
  | [], ns => change ns
  | name :: path, ns =>
    match Nodes.find? name ns with
    | some (.table o inner) => do
      let inner ← within change path inner
      return Nodes.put name (.table o inner) ns
    | some (.series tables) =>
      match tables.getLast? with
      | none => none
      | some last => do
        let inner ← within change path last
        return Nodes.put name (.series (tables.dropLast ++ [inner])) ns
    | _ => none

mutual

/-- The value at a place. -/
def Node.value : Node → Value
  | .leaf v => v
  | .table _ entries => .ofEntries (entryValues entries)
  | .series tables => .array (seriesValues tables)

/-- The values of entries. -/
def entryValues : List (String × Node) → Value.Entries
  | [] => []
  | (k, n) :: rest => (k, n.value) :: entryValues rest

/-- The values of the tables of a series. -/
def seriesValues : List (List (String × Node)) → List Value
  | [] => []
  | t :: rest => .ofEntries (entryValues t) :: seriesValues rest

end

/-! ### Values -/

mutual

/-- The value at the front, and the rest. -/
def value? : Nat → List Char → Option (Value × List Char)
  | 0, _ => none
  | fuel + 1, cs =>
    match cs with
    | '[' :: rest => (items? fuel (skipLines rest.length rest)).map fun (vs, rest) => (.array vs, rest)
    | '{' :: rest =>
      match skipBlanks rest with
      | '}' :: rest => some (.table [], rest)
      | rest => (members? fuel [] rest).map fun (ns, rest) => ((Node.table .dotted ns).value, rest)
    | '"' :: _ => (string? cs).map fun (s, rest) => (.string (String.ofList s), rest)
    | '\'' :: _ => (string? cs).map fun (s, rest) => (.string (String.ofList s), rest)
    | cs => word? cs

/-- The items of an array up to its closing bracket, and the rest. -/
def items? : Nat → List Char → Option (List Value × List Char)
  | 0, _ => none
  | fuel + 1, cs =>
    match cs with
    | ']' :: rest => some ([], rest)
    | cs => do
      let (v, rest) ← value? fuel cs
      match skipLines rest.length rest with
      | ']' :: rest => return ([v], rest)
      | ',' :: rest =>
        let (vs, rest) ← items? fuel (skipLines rest.length rest)
        return (v :: vs, rest)
      | _ => none

/-- The entries of an inline table up to its closing brace, put to those already read, and the
rest. -/
def members? : Nat → Nodes → List Char → Option (Nodes × List Char)
  | 0, _, _ => none
  | fuel + 1, ns, cs => do
    let (path, name, rest) ← key? cs.length cs
    match skipBlanks rest with
    | '=' :: rest =>
      let (v, rest) ← value? fuel (skipBlanks rest)
      let ns ← descend .dotted (place name v) path ns
      match skipBlanks rest with
      | '}' :: rest => return (ns, rest)
      | ',' :: rest => members? fuel ns rest
      | _ => none
    | _ => none

end

/-! ### Documents -/

/-- A section header behind its opening brackets: its path, and the rest of the text behind the
line. -/
def header? (close : List Char) (cs : List Char) : Option (List String × String × List Char) := do
  let (path, name, rest) ← key? cs.length cs
  if close.isPrefixOf rest then
    return (path, name, ← restOfLine? (rest.drop close.length))
  else none

/-- The lines of a document, read into the section at `here`. -/
def lines? : Nat → List String → Nodes → List Char → Option Nodes
  | 0, _, _, _ => none
  | fuel + 1, here, ns, cs =>
    match skipLines cs.length cs with
    | [] => some ns
    | '[' :: '[' :: rest => do
      let (path, name, rest) ← header? [']', ']'] rest
      let ns ← descend .implied (openNext name) path ns
      lines? fuel (path ++ [name]) ns rest
    | '[' :: rest => do
      let (path, name, rest) ← header? [']'] rest
      let ns ← descend .implied (openTable name) path ns
      lines? fuel (path ++ [name]) ns rest
    | cs => do
      let (path, name, rest) ← key? cs.length cs
      match skipBlanks rest with
      | '=' :: rest =>
        let (v, rest) ← value? (rest.length + 1) (skipBlanks rest)
        let ns ← within (descend .dotted (place name v) path) here ns
        lines? fuel here ns (← restOfLine? rest)
      | _ => none

/-- The table that a document holds. A byte order mark in front does not count. -/
def parse? (text : String) : Option Value :=
  let cs :=
    match text.toList with
    | c :: cs => if c.toNat = 0xfeff then cs else c :: cs
    | [] => []
  (lines? (cs.length + 1) [] [] cs).map fun ns => (Node.table .implied ns).value

end TurnRelay.Settings.Toml
