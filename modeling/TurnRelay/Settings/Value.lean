import TurnRelay.Number.Decimal

/-!
# Values of settings

What a settings file or a variable can say: scalars, arrays and tables. A table's entries are sorted by
name. Values are laid over one another: tables entry by entry, all else as a whole, the later one
winning.

## Main definitions

* `Settings.Value`: the values.
* `Value.overlay`: one value laid over another.
-/

namespace TurnRelay.Settings

/-- What a setting can be. -/
inductive Value where
  /-- Nothing is said. -/
  | nothing
  /-- A boolean. -/
  | bool (b : Bool)
  /-- An integer; whether its source has signed ones. -/
  | integer (signed : Bool) (i : Int)
  /-- A floating-point number. -/
  | float (x : Binary64)
  /-- A single character. -/
  | char (c : Char)
  /-- A text. -/
  | string (s : String)
  /-- An array. -/
  | array (items : List Value)
  /-- A table. -/
  | table (entries : List (String × Value))
  deriving Repr, Inhabited

namespace Value

/-! ### Equality -/

mutual

/-- Whether two values are the same. -/
def same : Value → Value → Bool
  | .nothing, .nothing => true
  | .bool a, .bool b => a == b
  | .integer s a, .integer t b => s == t && decide (a = b)
  | .float a, .float b => decide (a = b)
  | .char a, .char b => decide (a = b)
  | .string a, .string b => decide (a = b)
  | .array a, .array b => sameItems a b
  | .table a, .table b => sameEntries a b
  | _, _ => false

/-- Whether two arrays hold the same values. -/
def sameItems : List Value → List Value → Bool
  | [], [] => true
  | a :: as, b :: bs => same a b && sameItems as bs
  | _, _ => false

/-- Whether two tables hold the same entries in the same order. -/
def sameEntries : List (String × Value) → List (String × Value) → Bool
  | [], [] => true
  | (k, a) :: as, (l, b) :: bs => decide (k = l) && same a b && sameEntries as bs
  | _, _ => false

end

mutual

theorem same_iff : ∀ a b : Value, same a b = true ↔ a = b
  | .nothing, b => by cases b <;> simp [same]
  | .bool a, b => by cases b <;> simp [same]
  | .integer s a, b => by cases b <;> simp [same]
  | .float a, b => by cases b <;> simp [same]
  | .char a, b => by cases b <;> simp [same]
  | .string a, b => by cases b <;> simp [same]
  | .array a, b => by cases b <;> simp [same, sameItems_iff a]
  | .table a, b => by cases b <;> simp [same, sameEntries_iff a]

theorem sameItems_iff : ∀ a b : List Value, sameItems a b = true ↔ a = b
  | [], b => by cases b <;> simp [sameItems]
  | a :: as, b => by cases b <;> simp [sameItems, same_iff a, sameItems_iff as]

theorem sameEntries_iff : ∀ a b : List (String × Value), sameEntries a b = true ↔ a = b
  | [], b => by cases b <;> simp [sameEntries]
  | (k, a) :: as, b => by
    cases b with
    | nil => simp [sameEntries]
    | cons e es => simp [sameEntries, same_iff a, sameEntries_iff as, Prod.ext_iff]

end

instance : DecidableEq Value := fun a b => decidable_of_iff _ (same_iff a b)

/-! ### Tables -/

/-- The entries of a table. -/
abbrev Entries := List (String × Value)

/-- The entry of a name. -/
def find? (name : String) : Entries → Option Value
  | [] => none
  | (k, v) :: rest => if k = name then some v else find? name rest

/-- Puts an entry into sorted entries, in place of the one of the same name. -/
def put (name : String) (value : Value) : Entries → Entries
  | [] => [(name, value)]
  | (k, v) :: rest =>
    if name < k then (name, value) :: (k, v) :: rest
    else if name = k then (name, value) :: rest
    else (k, v) :: put name value rest

/-- Puts the value that `merge` makes of the present entry and `value`. -/
def putWith (merge : Value → Value) (name : String) (value : Value) : Entries → Entries
  | [] => [(name, value)]
  | (k, v) :: rest =>
    if name < k then (name, value) :: (k, v) :: rest
    else if name = k then (name, merge v) :: rest
    else (k, v) :: putWith merge name value rest

/-- A table of entries in any order. -/
def ofEntries (es : Entries) : Value := .table (es.foldl (fun t e => put e.1 e.2 t) [])

mutual

/-- A value laid over another: tables entry by entry, all else as a whole. -/
def onto : (upper lower : Value) → Value
  | .table upper, lower =>
    match lower with
    | .table lower => .table (entriesOnto upper lower)
    | _ => .table upper
  | .nothing, _ => .nothing
  | .bool b, _ => .bool b
  | .integer s i, _ => .integer s i
  | .float x, _ => .float x
  | .char c, _ => .char c
  | .string s, _ => .string s
  | .array items, _ => .array items

/-- Entries laid over others. -/
def entriesOnto : (upper lower : List (String × Value)) → List (String × Value)
  | [], lower => lower
  | (k, v) :: upper, lower => entriesOnto upper (putWith (onto v) k v lower)

end

/-- A value laid over another. -/
def overlay (lower upper : Value) : Value := upper.onto lower

/-- A value under names nested into one another. -/
def nested : List String → Value → Value
  | [], v => v
  | name :: names, v => .table [(name, nested names v)]

end Value

end TurnRelay.Settings
