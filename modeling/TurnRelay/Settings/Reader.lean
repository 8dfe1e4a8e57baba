import TurnRelay.Settings.Value
import TurnRelay.Text.Quoted

/-!
# Reading settings

A section of settings is read from a table or from an array. In a table the entries are looked at in
the order of their names, and the first that cannot be read is reported with the place where it
stands; entries of other names are passed over. In an array the entries stand by position. An entry
that is not there keeps the value it has by default, so nothing is ever missing.

## Main definitions

* `Misfit`, `Misfit.message`: what is wrong with a value, and its wording.
* `Complaint`: a misfit and its place.
* `Entry`, `readSection`: an entry of a section, and reading a section.
-/

namespace TurnRelay.Settings

/-- What stands where something else was expected. -/
inductive Found where
  /-- Nothing. -/
  | nothing
  /-- A boolean. -/
  | bool (b : Bool)
  /-- An integer; whether its source has signed ones. -/
  | integer (signed : Bool) (i : Int)
  /-- A floating-point number. -/
  | float (x : Binary64)
  /-- A text. -/
  | string (s : String)
  /-- An array. -/
  | sequence
  /-- A table. -/
  | map
  deriving DecidableEq, Repr

/-- What is wrong with a value. -/
inductive Misfit where
  /-- It is of another kind. -/
  | kind (found : Found) (expected : String)
  /-- It is of the right kind and not allowed. -/
  | range (found : Found) (expected : String)
  /-- It is not one of the names to choose from. -/
  | choice (name : String) (names : List String)
  deriving DecidableEq, Repr

/-- What is wrong, and where. -/
structure Complaint where
  /-- The names from the outermost table on. -/
  path : List String
  /-- What is wrong there. -/
  misfit : Misfit
  deriving DecidableEq, Repr

/-- What a value is, for a message. A character counts as a text. -/
def Value.found : Value → Found
  | .nothing => .nothing
  | .bool b => .bool b
  | .integer signed i => .integer signed i
  | .float x => .float x
  | .char c => .string (String.singleton c)
  | .string s => .string s
  | .array _ => .sequence
  | .table _ => .map

/-- The text of a floating-point number: positional, and without a point if it is whole. -/
def floatWords (x : Binary64) : String :=
  if x.isFinite then
    let cs := x.positionalChars
    String.ofList (if ['.', '0'].isSuffixOf cs then cs.take (cs.length - 2) else cs)
  else if x.fractionField = 0 then if x.isNegative then "-inf" else "inf"
  else "NaN"

/-- The words for what was found. -/
def Found.words : Found → String
  | .nothing => "unit"
  | .bool b => s!"bool {b}"
  | .integer true i => s!"signed int `{i}`"
  | .integer false i => s!"unsigned int `{i}`"
  | .float x => "float `" ++ floatWords x ++ "`"
  | .string s => "string " ++ Text.quoted s
  | .sequence => "sequence"
  | .map => "map"

/-- The wording of a misfit. -/
def Misfit.message : Misfit → String
  | .kind found expected => "invalid type: found " ++ found.words ++ ", expected " ++ expected
  | .range found expected => "invalid value " ++ found.words ++ ", expected " ++ expected
  | .choice name names =>
    "unknown variant: found `" ++ name ++ "`, expected `" ++
      String.intercalate " or " (names.map fun n => "`" ++ n ++ "`") ++ "`"

/-- The place of a complaint as one text. -/
def Complaint.place (c : Complaint) : String := String.intercalate "." c.path

/-- Reads a value of a type, or says what is wrong and where. -/
abbrev Reader (α : Type) := Value → Except Complaint α

/-- The complaint that a value itself is wrong. -/
def complain {α : Type} (misfit : Misfit) : Except Complaint α := .error ⟨[], misfit⟩

/-- A complaint about something inside a value is one about a longer path. -/
def within {α : Type} (name : String) : Except Complaint α → Except Complaint α
  | .ok a => .ok a
  | .error c => .error { c with path := name :: c.path }

namespace Reader

/-! ### Plain values -/

/-- A string; a character counts as one. -/
def string : Reader String
  | .string s => .ok s
  | .char c => .ok (String.singleton c)
  | v => complain (.kind v.found "a string")

/-- A natural number below `limit`; `name` is what the message calls it. -/
def natBelow (limit : Nat) (name : String) : Reader Nat
  | .integer signed i =>
    if 0 ≤ i ∧ i < limit then .ok i.toNat else complain (.range (.integer signed i) name)
  | v => complain (.kind v.found name)

/-- Either nothing or a value. -/
def option {α : Type} (r : Reader α) : Reader (Option α)
  | .nothing => .ok none
  | v => (r v).map some

/-- The items of an array from a position on. -/
def items {α : Type} (r : Reader α) : Nat → List Value → Except Complaint (List α)
  | _, [] => .ok []
  | i, v :: vs => do
    let a ← within (toString i) (r v)
    let as ← items r (i + 1) vs
    return a :: as

/-- An array of values. -/
def list {α : Type} (r : Reader α) : Reader (List α)
  | .array vs => items r 0 vs
  | v => complain (.kind v.found "a sequence")

end Reader

/-! ### Sections -/

/-- An entry of a section. -/
structure Entry (σ : Type) where
  /-- Its name. -/
  name : String
  /-- The section with the entry set to a value. -/
  set : Value → σ → Except Complaint σ

namespace Entry

variable {σ α : Type}

/-- The entry that is read by `read` and put into its place by `put`. -/
def reading (name : String) (read : Reader α) (put : α → σ → σ) : Entry σ :=
  ⟨name, fun v s => (read v).map fun a => put a s⟩

/-- Sets the entries that a table has, in the order of the table. -/
def setNamed (entries : List (Entry σ)) : Value.Entries → σ → Except Complaint σ
  | [], s => .ok s
  | (name, v) :: rest, s => do
    let s ←
      match entries.find? fun e => decide (e.name = name) with
      | some e => within name (e.set v s)
      | none => .ok s
    setNamed entries rest s

/-- Sets the entries that an array has, by position from the given one on. -/
def setPlaced : List (Entry σ) → Nat → List Value → σ → Except Complaint σ
  | e :: entries, i, v :: vs, s => do
    let s ← within (toString i) (e.set v s)
    setPlaced entries (i + 1) vs s
  | _, _, _, s => .ok s

end Entry

/-- Reads a section; `name` is what the messages call it. -/
def readSection {σ : Type} (name : String) (entries : List (Entry σ)) (default : σ) : Reader σ
  | .table es => Entry.setNamed entries es default
  | .array vs => Entry.setPlaced entries 0 vs default
  | v => complain (.kind v.found name)

end TurnRelay.Settings
