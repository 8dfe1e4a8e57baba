import TurnRelay.Text.Utf8

/-!
# Query strings

The part of an address behind the question mark: names and values, separated by ampersands. In both a
plus sign stands for a space, and a percent sign with two hexadecimal digits for a byte.

## Main definitions

* `Web.Form.parse`: the names and values, in their order.
-/

namespace TurnRelay.Web.Form

/-- The number of a hexadecimal digit. -/
def hexDigit? (b : Nat) : Option Nat :=
  if 48 ≤ b ∧ b ≤ 57 then some (b - 48)
  else if 65 ≤ b ∧ b ≤ 70 then some (b - 55)
  else if 97 ≤ b ∧ b ≤ 102 then some (b - 87)
  else none

/-- Bytes with their percent signs and plus signs resolved. A percent sign that no two digits follow
stands for itself. -/
def resolve : List Nat → List Nat
  | [] => []
  | 37 :: a :: b :: bs =>
    match hexDigit? a, hexDigit? b with
    | some x, some y => (16 * x + y) :: resolve bs
    | _, _ => 37 :: resolve (a :: b :: bs)
  | 43 :: bs => 32 :: resolve bs
  | b :: bs => b :: resolve bs

/-- A name or a value. -/
def decode (cs : List Char) : String :=
  String.ofList (Text.decodeLossy (resolve (Text.bytes cs)))

/-- The pieces between ampersands. -/
def pieces (cs : List Char) : List (List Char) :=
  cs.foldr (fun c ps => if c = '&' then [] :: ps else
    match ps with
    | p :: ps => (c :: p) :: ps
    | [] => [[c]]) [[]]

/-- The names and values of a query string. A piece without an equals sign is a name alone. -/
def parse (cs : List Char) : List (String × String) :=
  ((pieces cs).filter (· ≠ [])).map fun p =>
    (decode (p.takeWhile (· ≠ '=')), decode ((p.dropWhile (· ≠ '=')).drop 1))

/-- The value of a name; none if the name is not there, and a fault if it is there twice. -/
def value? (name : String) (pairs : List (String × String)) : Option (Option String) :=
  match pairs.filter fun p => decide (p.1 = name) with
  | [] => some none
  | [p] => some (some p.2)
  | _ => none

end TurnRelay.Web.Form
