import TurnRelay.Number.Binary64

/-!
# Decimal text of numbers

Digits of natural numbers, the shortest decimal that reads back as a given double, and the two ways
of writing such a decimal: positional, and with an exponent.

The shortest decimal is found on the decimal grids from one digit upwards. On each grid only the two
neighbours of the value need a look: if any point of the grid rounds to the double, so does one of
them. The first grid with a hit gives the fewest digits; of two hits the nearer one is taken, and an
exact tie goes as the caller says.

## Main definitions

* `digitsOf`: the decimal digits of a natural number.
* `Binary64.shortest`: the shortest decimal that rounds to a double.
* `Decimal.positional`, `Decimal.scientific`: its two notations.
-/

namespace TurnRelay

/-! ### Digits -/

/-- The character of a digit below ten. -/
def digitChar (d : Nat) : Char := Char.ofNat (48 + d)

/-- The decimal digits of a natural number, most significant first; `0` has one digit. -/
def digitsOf (n : Nat) : List Char :=
  if n < 10 then [digitChar n] else digitsOf (n / 10) ++ [digitChar (n % 10)]
termination_by n
decreasing_by omega

/-- How many decimal digits a natural number has, none for `0`. -/
def digitCount (n : Nat) : Nat :=
  if n = 0 then 0 else digitCount (n / 10) + 1
termination_by n
decreasing_by omega

/-- The value of a list of digits. -/
def ofDigits (ds : List Char) : Nat :=
  ds.foldl (fun n c => 10 * n + (c.toNat - 48)) 0

/-- The text of an integer, with a minus sign in front of a negative one. -/
def integerChars (i : Int) : List Char :=
  if i < 0 then '-' :: digitsOf i.natAbs else digitsOf i.natAbs

/-- A number `digits * 10 ^ exponent`. -/
structure Decimal where
  /-- The digits, read as one integer. -/
  digits : Nat
  /-- The power of ten. -/
  exponent : Int
  deriving DecidableEq, Repr

namespace Decimal

/-- As a ratio of natural numbers. -/
def ratio (d : Decimal) : Nat × Nat :=
  if d.exponent < 0 then (d.digits, Nat.pow 10 d.exponent.natAbs)
  else (d.digits * Nat.pow 10 d.exponent.natAbs, 1)

/-- Zeros at the end of the digits moved into the exponent, at most `fuel` of them. -/
def dropZeros : Nat → Decimal → Decimal
  | 0, d => d
  | fuel + 1, d =>
    if d.digits ≠ 0 ∧ d.digits % 10 = 0 then dropZeros fuel ⟨d.digits / 10, d.exponent + 1⟩ else d

/-- Positional notation, with at least one digit on each side of the point. -/
def positional (d : Decimal) : List Char :=
  let ds := digitsOf d.digits
  if 0 ≤ d.exponent then ds ++ List.replicate d.exponent.natAbs '0' ++ ['.', '0']
  else
    let places := d.exponent.natAbs
    if places < ds.length then
      ds.take (ds.length - places) ++ '.' :: ds.drop (ds.length - places)
    else '0' :: '.' :: (List.replicate (places - ds.length) '0' ++ ds)

/-- Notation with an exponent: one digit, the others after a point, and the power of ten without a
plus sign. -/
def scientific (d : Decimal) : List Char :=
  let ds := digitsOf d.digits
  let power := integerChars (d.exponent + ds.length - 1)
  match ds with
  | [] => 'e' :: power
  | [c] => c :: 'e' :: power
  | c :: cs => c :: '.' :: (cs ++ 'e' :: power)

/-- The position of the first digit: `d` lies below `10 ^ d.pointPosition` and not below a tenth of
it. -/
def pointPosition (d : Decimal) : Int := d.exponent + (digitsOf d.digits).length

end Decimal

namespace Binary64

/-! ### The shortest decimal -/

/-- Which of two equally near decimals is taken. -/
inductive TieRule where
  /-- The one whose last digit is even. -/
  | even
  /-- The larger one. -/
  | up
  deriving DecidableEq, Repr

/-- The half-way points to the two neighbouring doubles, in quarters of the unit `2 ^ exponent`. Just
above a power of two the lower neighbour is only half as far away. -/
def quarterBounds (x : Binary64) : Nat × Nat :=
  let m := x.significand
  let low := if m = Nat.pow 2 52 ∧ -1074 < x.exponent then 4 * m - 1 else 4 * m - 2
  (low, 4 * m + 2)

/-- Whether `num / den` rounds to the magnitude of `x`. -/
def covers (x : Binary64) (num den : Nat) : Bool :=
  let (low, high) := x.quarterBounds
  let (n, d) := scaleDown (4 * num) den x.exponent
  if x.significand % 2 = 0 then decide (low * d ≤ n ∧ n ≤ high * d)
  else decide (low * d < n ∧ n < high * d)

/-- The exponent of the first decimal digit of `num / den`. -/
def decimalExponent (num den : Nat) : Int :=
  if den ≤ num then (digitCount (num / den) : Int) - 1
  else -(digitCount ((den - 1) / num) : Int)

/-- The decimal on the grid of `10 ^ scale` that rounds to `x` and lies nearest to it. -/
def nearestOnGrid (tie : TieRule) (x : Binary64) (scale : Int) : Option Decimal :=
  let (num, den) := x.magnitude
  let power := Nat.pow 10 scale.natAbs
  let (n, d) := if scale < 0 then (num * power, den) else (num, den * power)
  let below : Decimal := ⟨n / d, scale⟩
  let above : Decimal := ⟨n / d + 1, scale⟩
  let hits (c : Decimal) : Bool := let (a, b) := c.ratio; x.covers a b
  match hits below, hits above with
  | false, false => none
  | true, false => some below
  | false, true => some above
  | true, true =>
    let r := n % d
    if 2 * r < d then some below
    else if d < 2 * r then some above
    else match tie with
      | .up => some above
      | .even => some (if (n / d) % 2 = 0 then below else above)

/-- The first hit on the grids of `count` and more digits, `fuel` grids at most. -/
def firstHit (tie : TieRule) (x : Binary64) (top : Int) : Nat → Nat → Option Decimal
  | 0, _ => none
  | fuel + 1, count =>
    match nearestOnGrid tie x (top - count + 1) with
    | some d => some d
    | none => firstHit tie x top fuel (count + 1)

/-- The shortest decimal that rounds to the magnitude of a finite double, nearest to it among those
of its length. Seventeen digits always suffice. -/
def shortest (tie : TieRule) (x : Binary64) : Decimal :=
  if x.significand = 0 then ⟨0, 0⟩
  else
    let (num, den) := x.magnitude
    match firstHit tie x (decimalExponent num den) 17 1 with
    | some d => d.dropZeros 20
    | none => ⟨0, 0⟩

/-- The sign in front of a number's text. -/
def signChars (x : Binary64) : List Char := if x.isNegative then ['-'] else []

/-- Positional text, whatever the size of the number. -/
def positionalChars (x : Binary64) : List Char :=
  x.signChars ++ (x.shortest .up).positional

end Binary64

end TurnRelay
