import TurnRelay.Json.Value
import TurnRelay.Text.Quoted

/-!
# Reading typed data from JSON values

A structure is read from an object or from an array. In an object the members are looked at in the
order of the value and the first that cannot be read is reported; afterwards the fields are checked
in their order, and the first that must be there and is not is reported. Members of other names are
passed over. An array holds the fields by position; the last ones may be missing where the field
says so, and no item may be left over.

## Main definitions

* `DecodeError`, `DecodeError.message`: what can be wrong, and its wording.
* `Field`, `Record`: a field, and a structure as a row of fields.
* `Record.decode`: reads a structure.
-/

namespace TurnRelay

/-- What stands where something else was expected. -/
inductive Found where
  /-- A boolean. -/
  | bool (b : Bool)
  /-- A number. -/
  | number (n : Json.Number)
  /-- A string. -/
  | string (s : String)
  /-- The literal `null`. -/
  | null
  /-- An object. -/
  | map
  /-- An array. -/
  | sequence
  deriving DecidableEq, Repr

/-- Why a value is not of the type asked for. -/
inductive DecodeError where
  /-- A field is not there. -/
  | missingField (name : String)
  /-- A field is there twice. -/
  | duplicateField (name : String)
  /-- A value of another kind. -/
  | invalidType (found : Found) (expected : String)
  /-- A value of the right kind that is not allowed. -/
  | invalidValue (found : Found) (expected : String)
  /-- An array with too few or too many items. -/
  | invalidLength (length : Nat) (expected : String)
  /-- A name that is not one of the choices. -/
  | unknownVariant (name : String) (choices : List String)
  deriving DecidableEq, Repr

/-- What a value is, for a message. -/
def Json.found : Json → Found
  | .null => .null
  | .bool b => .bool b
  | .number n => .number n
  | .string s => .string s
  | .array _ => .sequence
  | .object _ => .map

/-- The words for what was found. -/
def Found.words : Found → String
  | .bool b => s!"boolean `{b}`"
  | .number (.integer i) => s!"integer `{i}`"
  | .number (.float x) => "floating point `" ++ String.ofList (Json.Number.float x).chars ++ "`"
  | .string s => "string " ++ Text.quoted s
  | .null => "null"
  | .map => "map"
  | .sequence => "sequence"

/-- A name between backticks. -/
def ticked (name : String) : String := "`" ++ name ++ "`"

/-- A list of names to choose from. -/
def choiceWords : List String → String
  | [] => "no variants"
  | [a] => ticked a
  | [a, b] => ticked a ++ " or " ++ ticked b
  | names => "one of " ++ String.intercalate ", " (names.map ticked)

/-- The wording of an error. -/
def DecodeError.message : DecodeError → String
  | .missingField name => "missing field " ++ ticked name
  | .duplicateField name => "duplicate field " ++ ticked name
  | .invalidType found expected => "invalid type: " ++ found.words ++ ", expected " ++ expected
  | .invalidValue found expected => "invalid value: " ++ found.words ++ ", expected " ++ expected
  | .invalidLength n expected => s!"invalid length {n}, expected " ++ expected
  | .unknownVariant name choices =>
    "unknown variant " ++ ticked name ++ ", expected " ++ choiceWords choices

/-- Reads a value of a type, or says why not. -/
abbrev Decoder (α : Type) := Json → Except DecodeError α

namespace Decoder

/-! ### Plain values -/

/-- Any value. -/
def any : Decoder Json := .ok

/-- A string. -/
def string : Decoder String
  | .string s => .ok s
  | v => .error (.invalidType v.found "a string")

/-- A boolean. -/
def bool : Decoder Bool
  | .bool b => .ok b
  | v => .error (.invalidType v.found "a boolean")

/-- A natural number below `limit`; `name` is what the message calls it. -/
def natBelow (limit : Nat) (name : String) : Decoder Nat
  | .number (.integer i) =>
    if 0 ≤ i ∧ i < limit then .ok i.toNat
    else .error (.invalidValue (.number (.integer i)) name)
  | v => .error (.invalidType v.found name)

/-- An unsigned 32-bit number. -/
def word32 : Decoder UInt32 := fun v => (natBelow UInt32.size "u32" v).map UInt32.ofNat

/-- An unsigned 64-bit number. -/
def word64 : Decoder UInt64 := fun v => (natBelow UInt64.size "u64" v).map UInt64.ofNat

/-- Either `null` or a value. -/
def option {α : Type} (d : Decoder α) : Decoder (Option α)
  | .null => .ok none
  | v => (d v).map some

/-- An array of values. -/
def list {α : Type} (d : Decoder α) : Decoder (List α)
  | .array items => items.mapM d
  | v => .error (.invalidType v.found "a sequence")

end Decoder

/-! ### Structures -/

/-- A field of a structure. -/
structure Field (α : Type) where
  /-- The name of the member. -/
  name : String
  /-- How its value is read. -/
  read : Decoder α
  /-- What stands for it if the object has no such member. -/
  absent : Option α
  /-- What stands for it if the array ends before it. -/
  trailing : Option α

namespace Field

variable {α : Type}

/-- A field that must be there. -/
def required (name : String) (read : Decoder α) : Field α := ⟨name, read, none, none⟩

/-- A field with a value for when it is not there. -/
def withDefault (name : String) (read : Decoder α) (value : α) : Field α :=
  ⟨name, read, some value, some value⟩

/-- A field that may be missing or `null`. -/
def optional (name : String) (read : Decoder α) : Field (Option α) :=
  ⟨name, Decoder.option read, some none, some none⟩

/-- A field that may be missing from an object or `null`, and has its place in an array. -/
def placed (name : String) (read : Decoder α) : Field (Option α) :=
  ⟨name, Decoder.option read, some none, none⟩

end Field

/-- A structure read as a row of fields. -/
structure Record (α : Type) where
  /-- The names of the fields, in order. -/
  names : List String
  /-- Whether a member of a known name can be read; others pass. -/
  check : String → Json → Except DecodeError Unit
  /-- The structure, from members that all pass. -/
  ofMembers : Json.Members → Except DecodeError α
  /-- The structure from an array's items, given the position of the first and what is expected;
  gives also the items left over. -/
  ofItems : Nat → String → List Json → Except DecodeError (α × List Json)

namespace Record

variable {α β : Type}

/-- The structure without fields. -/
def unit (value : α) : Record α where
  names := []
  check := fun _ _ => .ok ()
  ofMembers := fun _ => .ok value
  ofItems := fun _ _ items => .ok (value, items)

/-- One more field behind those of a structure. -/
def field (r : Record (α → β)) (f : Field α) : Record β where
  names := r.names ++ [f.name]
  check := fun key v =>
    if key = f.name then (f.read v).map fun _ => () else r.check key v
  ofMembers := fun ms => do
    let build ← r.ofMembers ms
    match Json.find? f.name ms with
    | some v => return build (← f.read v)
    | none =>
      match f.absent with
      | some a => return build a
      | none => .error (.missingField f.name)
  ofItems := fun start expected items => do
    let (build, rest) ← r.ofItems start expected items
    match rest with
    | v :: rest => return (build (← f.read v), rest)
    | [] =>
      match f.trailing with
      | some a => return (build a, [])
      | none => .error (.invalidLength (start + r.names.length) expected)

/-- Checks members in their order. -/
def checkAll (r : Record α) : Json.Members → Except DecodeError Unit
  | [] => .ok ()
  | (k, v) :: ms => do
    r.check k v
    r.checkAll ms

/-- Reads a structure from the members of an object. -/
def fromMembers (r : Record α) (ms : Json.Members) : Except DecodeError α := do
  r.checkAll ms
  r.ofMembers ms

/-- The words for a structure with its number of fields. -/
def sized (r : Record α) (name : String) : String :=
  name ++ s!" with {r.names.length} " ++ if r.names.length = 1 then "element" else "elements"

/-- Reads a structure from the items of an array. -/
def fromItems (r : Record α) (name : String) (items : List Json) : Except DecodeError α := do
  let (value, rest) ← r.ofItems 0 (r.sized name) items
  match rest with
  | [] => return value
  | _ :: _ => .error (.invalidLength items.length "fewer elements in array")

/-- Reads a structure; `name` is what the messages call it. -/
def decode (r : Record α) (name : String) : Decoder α
  | .object ms => r.fromMembers ms
  | .array items => r.fromItems name items
  | v => .error (.invalidType v.found name)

end Record

/-! ### Writing -/

namespace Json

/-- A member that is written only if it has a value. -/
def member? {α : Type} (name : String) (write : α → Json) : Option α → Members
  | none => []
  | some a => [(name, write a)]

/-- An array of strings. -/
def strings (ss : List String) : Json := .array (ss.map .string)

/-- A 32-bit number. -/
def ofWord32 (n : UInt32) : Json := .ofNat n.toNat

/-- A 64-bit number. -/
def ofWord64 (n : UInt64) : Json := .ofNat n.toNat

end Json

end TurnRelay
