/-!
# Tables

Small tables with one entry for a key, in the order in which the keys were first put in.

## Main definitions

* `Table`: the tables, with `get?`, `set`, `modify` and `erase`.
-/

namespace TurnRelay

/-- Entries by key. -/
structure Table (κ α : Type) where
  /-- The entries, one for a key. -/
  entries : List (κ × α)
  deriving Repr, DecidableEq

namespace Table

variable {κ α : Type} [DecidableEq κ]

/-- No entries. -/
def empty : Table κ α := ⟨[]⟩

/-- The entry of a key. -/
def get? (t : Table κ α) (k : κ) : Option α :=
  (t.entries.find? fun e => decide (e.1 = k)).map (·.2)

/-- Whether a key has an entry. -/
def contains (t : Table κ α) (k : κ) : Bool := (t.get? k).isSome

/-- The number of entries. -/
def size (t : Table κ α) : Nat := t.entries.length

/-- The entries without their keys. -/
def values (t : Table κ α) : List α := t.entries.map (·.2)

/-- Puts an entry in place of the one of the same key, or behind the others. -/
def set (t : Table κ α) (k : κ) (a : α) : Table κ α :=
  if t.contains k then ⟨t.entries.map fun e => if e.1 = k then (k, a) else e⟩
  else ⟨t.entries ++ [(k, a)]⟩

/-- Changes the entry of a key, if there is one. -/
def modify (t : Table κ α) (k : κ) (f : α → α) : Table κ α :=
  ⟨t.entries.map fun e => if e.1 = k then (e.1, f e.2) else e⟩

/-- Removes the entry of a key. -/
def erase (t : Table κ α) (k : κ) : Table κ α := ⟨t.entries.filter fun e => decide (e.1 ≠ k)⟩

end Table

end TurnRelay
