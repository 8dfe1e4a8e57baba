import TurnRelay.Json.Number

/-!
# JSON values

A value keeps an object's members as a list. As read from a text the members stand in the order of
the text and a name may be repeated; in *normal form* they are in increasing order of their names,
each name once, and the last member of a name has won.

## Main definitions

* `Json`: the values.
* `Json.insert`, `Json.find?`: the member list as a sorted table.
* `Json.normalize`: the normal form.
-/

namespace TurnRelay

/-- A JSON value. -/
inductive Json where
  /-- The literal `null`. -/
  | null
  /-- The literals `true` and `false`. -/
  | bool (b : Bool)
  /-- A number. -/
  | number (n : Json.Number)
  /-- A string. -/
  | string (s : String)
  /-- An array. -/
  | array (items : List Json)
  /-- An object. -/
  | object (members : List (String × Json))
  deriving Repr, Inhabited

namespace Json

/-! ### Equality -/

mutual

/-- Whether two values are the same. -/
def same : Json → Json → Bool
  | .null, .null => true
  | .bool a, .bool b => a == b
  | .number a, .number b => decide (a = b)
  | .string a, .string b => decide (a = b)
  | .array a, .array b => sameItems a b
  | .object a, .object b => sameMembers a b
  | _, _ => false

/-- Whether two lists hold the same values. -/
def sameItems : List Json → List Json → Bool
  | [], [] => true
  | a :: as, b :: bs => same a b && sameItems as bs
  | _, _ => false

/-- Whether two lists hold the same members. -/
def sameMembers : List (String × Json) → List (String × Json) → Bool
  | [], [] => true
  | (k, a) :: as, (l, b) :: bs => decide (k = l) && same a b && sameMembers as bs
  | _, _ => false

end

mutual

theorem same_iff : ∀ a b : Json, same a b = true ↔ a = b
  | .null, b => by cases b <;> simp [same]
  | .bool a, b => by cases b <;> simp [same]
  | .number a, b => by cases b <;> simp [same]
  | .string a, b => by cases b <;> simp [same]
  | .array a, b => by cases b <;> simp [same, sameItems_iff a]
  | .object a, b => by cases b <;> simp [same, sameMembers_iff a]

theorem sameItems_iff : ∀ a b : List Json, sameItems a b = true ↔ a = b
  | [], b => by cases b <;> simp [sameItems]
  | a :: as, b => by cases b <;> simp [sameItems, same_iff a, sameItems_iff as]

theorem sameMembers_iff : ∀ a b : List (String × Json), sameMembers a b = true ↔ a = b
  | [], b => by cases b <;> simp [sameMembers]
  | (k, a) :: as, b => by
    cases b with
    | nil => simp [sameMembers]
    | cons m ms => simp [sameMembers, same_iff a, sameMembers_iff as, Prod.ext_iff]

end

instance : DecidableEq Json := fun a b => decidable_of_iff _ (same_iff a b)

/-- The members of an object. -/
abbrev Members := List (String × Json)

/-- The integer `n`. -/
def ofNat (n : Nat) : Json := .number (.integer n)

/-! ### Members as a table -/

/-- The value of the first member of a name. -/
def find? (key : String) : Members → Option Json
  | [] => none
  | (k, v) :: rest => if k = key then some v else find? key rest

/-- Puts a member into a list sorted by name, in place of the member of the same name. -/
def insert (key : String) (value : Json) : Members → Members
  | [] => [(key, value)]
  | (k, v) :: rest =>
    if key < k then (key, value) :: (k, v) :: rest
    else if key = k then (key, value) :: rest
    else (k, v) :: insert key value rest

/-- A list of members as a sorted table, in which the last member of a name has won. -/
def table (members : Members) : Members :=
  members.foldl (fun t m => insert m.1 m.2 t) []

/-- An object with the given members. -/
def ofMembers (members : Members) : Json := .object (table members)

/-! ### Normal form -/

mutual

/-- Every object sorted by name, the last member of a name winning. -/
def normalize : Json → Json
  | .null => .null
  | .bool b => .bool b
  | .number n => .number n
  | .string s => .string s
  | .array items => .array (normalizeItems items)
  | .object members => .object (table (normalizeMembers members))

/-- The normal forms of an array's items. -/
def normalizeItems : List Json → List Json
  | [] => []
  | v :: vs => normalize v :: normalizeItems vs

/-- The members with their values in normal form, names and order as they were. -/
def normalizeMembers : List (String × Json) → List (String × Json)
  | [] => []
  | (k, v) :: ms => (k, normalize v) :: normalizeMembers ms

end

/-! ### Looking inside -/

/-- The value of an object's member; none for other values. -/
def get? (v : Json) (key : String) : Option Json :=
  match v with
  | .object members => find? key members
  | _ => none

/-- The text of a string. -/
def string? : Json → Option String
  | .string s => some s
  | _ => none

end Json

end TurnRelay
