import TurnRelay.Number.Decimal

/-!
# Numbers in settings

The decimal texts of integers and floating-point numbers that settings are written with.

## Main definitions

* `Settings.natural?`, `Settings.signedInteger?`: integers.
* `Settings.float?`: floating-point numbers, correctly rounded.
-/

namespace TurnRelay.Settings

/-- Whether a character is a decimal digit. -/
def isDigit (c : Char) : Bool := decide ('0' ≤ c ∧ c ≤ '9')

/-- The number that a text of at least one digit denotes. -/
def digits? (cs : List Char) : Option Nat :=
  if cs ≠ [] ∧ cs.all isDigit then some (ofDigits cs) else none

/-- A natural number below `2 ^ 64`, perhaps with a plus sign. -/
def natural? (cs : List Char) : Option Nat := do
  let n ← digits? (match cs with | '+' :: r => r | r => r)
  if n < UInt64.size then some n else none

/-- An integer of 64 bits, perhaps with a sign. -/
def signedInteger? (cs : List Char) : Option Int := do
  let i ← match cs with
    | '-' :: r => (digits? r).map fun n => -(n : Int)
    | '+' :: r => (digits? r).map fun n => (n : Int)
    | r => (digits? r).map fun n => (n : Int)
  if -(Nat.pow 2 63 : Int) ≤ i ∧ i < Nat.pow 2 63 then some i else none

/-- The double nearest to `digits * 10 ^ exponent`. The exponent is first brought into a range beyond
which every such number is an infinity or zero. -/
def nearestFloat (negative : Bool) (digits : Nat) (exponent : Int) (length : Nat) : Binary64 :=
  let bound : Int := 400 + length
  let e := max (-bound) (min bound exponent)
  if e < 0 then .ofRatio negative digits (Nat.pow 10 e.natAbs)
  else .ofRatio negative (digits * Nat.pow 10 e.natAbs) 1

/-- The exponent behind an `e`, or none at all. -/
def exponent? : List Char → Option Int
  | [] => some 0
  | c :: cs =>
    if c = 'e' ∨ c = 'E' then
      match cs with
      | '-' :: r => (digits? r).map fun n => -(n : Int)
      | '+' :: r => (digits? r).map fun n => (n : Int)
      | r => (digits? r).map fun n => (n : Int)
    else none

/-- The size of a floating-point number: digits with a point somewhere among them or none, and perhaps
an exponent. -/
def unsignedFloat? (negative : Bool) (cs : List Char) : Option Binary64 := do
  let whole := cs.takeWhile isDigit
  let rest := cs.dropWhile isDigit
  let (fraction, rest) :=
    match rest with
    | '.' :: r => (r.takeWhile isDigit, r.dropWhile isDigit)
    | r => ([], r)
  if whole = [] ∧ fraction = [] then none
  let e ← exponent? rest
  let ds := whole ++ fraction
  return nearestFloat negative (ofDigits ds) (e - fraction.length) ds.length

/-- A floating-point number, perhaps with a sign. -/
def float? : List Char → Option Binary64
  | '-' :: cs => unsignedFloat? true cs
  | '+' :: cs => unsignedFloat? false cs
  | cs => unsignedFloat? false cs

end TurnRelay.Settings
