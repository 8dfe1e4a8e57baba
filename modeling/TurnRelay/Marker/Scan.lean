import TurnRelay.Marker.Basic

/-!
# Recognising markers

A text that begins with a marker's literal is examined from its start. It is a complete marker, or it
can no longer become one, or it ends too early to tell. The examination looks at characters one by
one and never takes back a verdict when more text follows.

A body that begins with a brace ends at the brace that balances it, and the closing bracket must
stand right behind. Any other body of a rendering ends at the first bracket that is not nested. In
both, what stands in a JSON string does not count.

## Main definitions

* `Marker.Verdict`: the outcome of an examination.
* `Marker.examine`: the examination.
* `Marker.firstLiteral`: the first literal in a text.
* `Marker.openTail`: the end of a text that more text could make a literal.
-/

namespace TurnRelay

namespace Marker

/-! ### Verdicts -/

/-- What is known of a text that begins with a marker's literal. Lengths count characters. -/
inductive Verdict where
  /-- The text ends too early to tell. -/
  | incomplete
  /-- A marker of the given length. -/
  | complete (marker : Marker) (length : Nat)
  /-- No marker; so many characters are plain text. -/
  | malformed (length : Nat)
  deriving DecidableEq, Repr

/-! ### Delimiters -/

/-- Where a scan of a body stands: outside of strings, inside one, or behind a backslash in one. -/
inductive Place where
  /-- Outside of strings. -/
  | code
  /-- Inside a string. -/
  | text
  /-- Behind a backslash inside a string. -/
  | escape
  deriving DecidableEq, Repr

/-- The place behind a character that is read inside a string. -/
def Place.inside (c : Char) : Place :=
  if c = '\\' then .escape else if c = '"' then .code else .text

/-- How many characters there are up to the brace that closes the outermost of `depth` open ones, that
brace included. -/
def balancedLength : Place → Nat → List Char → Option Nat
  | _, _, [] => none
  | .escape, depth, _ :: cs => (balancedLength .text depth cs).map (· + 1)
  | .text, depth, c :: cs => (balancedLength (.inside c) depth cs).map (· + 1)
  | .code, depth, c :: cs =>
    if c = '"' then (balancedLength .text depth cs).map (· + 1)
    else if c = '{' then (balancedLength .code (depth + 1) cs).map (· + 1)
    else if c = '}' then
      if depth ≤ 1 then some 1 else (balancedLength .code (depth - 1) cs).map (· + 1)
    else (balancedLength .code depth cs).map (· + 1)

/-- How many characters stand before the first bracket that closes nothing. -/
def unnestedLength : Place → Nat → List Char → Option Nat
  | _, _, [] => none
  | .escape, depth, _ :: cs => (unnestedLength .text depth cs).map (· + 1)
  | .text, depth, c :: cs => (unnestedLength (.inside c) depth cs).map (· + 1)
  | .code, depth, c :: cs =>
    if c = '"' then (unnestedLength .text depth cs).map (· + 1)
    else if c = '[' ∨ c = '{' then (unnestedLength .code (depth + 1) cs).map (· + 1)
    else if c = '}' then (unnestedLength .code (depth - 1) cs).map (· + 1)
    else if c = ']' then
      if depth = 0 then some 0 else (unnestedLength .code (depth - 1) cs).map (· + 1)
    else (unnestedLength .code depth cs).map (· + 1)

/-! ### Examination -/

/-- The verdict on a body between its delimiters, which ends the marker at `length`. -/
def settle (marker : Option Marker) (length : Nat) : Verdict :=
  match marker with
  | some m => .complete m length
  | none => .malformed length

/-- Examines a body that begins with a brace, `start` characters into the text. -/
def examineObject (parse : List Char → Option Marker) (start : Nat) (body : List Char) : Verdict :=
  match balancedLength .code 0 body with
  | none => .incomplete
  | some n =>
    match body.drop n with
    | [] => .incomplete
    | c :: _ =>
      if c = ']' then settle (parse (body.take n)) (start + n + 1) else .malformed (start + n)

/-- Examines what follows the literal of a dashboard. -/
def examineDashboard (start : Nat) : List Char → Verdict
  | [] => .incomplete
  | c :: cs =>
    if c = '{' then examineObject dashboardBody? start (c :: cs) else .malformed start

/-- Examines what follows the colon behind a component's name. -/
def examineProps (component : List Char) (start : Nat) : List Char → Verdict
  | [] => .incomplete
  | c :: cs =>
    if c = '{' then examineObject (renderBody? component) start (c :: cs)
    else
      match unnestedLength .code 0 (c :: cs) with
      | none => .incomplete
      | some n => settle (renderBody? component ((c :: cs).take n)) (start + n + 1)

/-- The characters that cannot stand in a component's name. -/
def endsName (c : Char) : Bool := c = ']' || c = '[' || c = '\n' || c = '\r'

/-- Examines what follows the literal of a rendering; `name` holds the component's name as far as
read, last character first. -/
def examineRender (start : Nat) (name : List Char) : List Char → Verdict
  | [] => .incomplete
  | c :: cs =>
    if c = ':' then
      if name = [] then .malformed (start + 1) else examineProps name.reverse (start + 1) cs
    else if endsName c then .malformed start
    else examineRender (start + 1) (c :: name) cs

/-- Examines a text that begins with the literal of a kind. -/
def examine (kind : Kind) (text : List Char) : Verdict :=
  let start := kind.literal.length
  match kind with
  | .dashboard => examineDashboard start (text.drop start)
  | .render => examineRender start [] (text.drop start)

/-! ### Literals in a text -/

/-- The kind whose literal a text begins with. -/
def literalAt (text : List Char) : Option Kind :=
  if Kind.dashboard.literal.isPrefixOf text then some .dashboard
  else if Kind.render.literal.isPrefixOf text then some .render
  else none

/-- The text before the first literal, its kind, and the text from it on. -/
def firstLiteral : List Char → Option (List Char × Kind × List Char)
  | [] => none
  | c :: cs =>
    match literalAt (c :: cs) with
    | some kind => some ([], kind, c :: cs)
    | none => (firstLiteral cs).map fun (before, kind, rest) => (c :: before, kind, rest)

/-- Whether a text is the beginning of a literal, shorter than the literal. -/
def isOpening (text : List Char) : Bool :=
  [Kind.dashboard, Kind.render].any fun kind =>
    decide (text.length < kind.literal.length) && text.isPrefixOf kind.literal

/-- The longest end of a text that is the beginning of a literal. -/
def openTail : List Char → List Char
  | [] => []
  | c :: cs => if isOpening (c :: cs) then c :: cs else openTail cs

end Marker

end TurnRelay
