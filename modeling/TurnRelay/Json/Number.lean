import TurnRelay.Number.Decimal

/-!
# Numbers of JSON texts

A number is an integer that fits in 64 bits, signed or unsigned, or else a 64-bit float. Its written
form keeps the two apart: an integer has neither point nor exponent, a float always has one.

A float's text is the shortest decimal that reads back, with an even digit on a tie; it is positional
when the first digit stands at most sixteen places before the point or at most five after it. Reading
scales the first digits of the text, as many as fit in 64 bits, by a power of ten; each scaling rounds
once.

## Main definitions

* `Json.Number`: the numbers of JSON values.
* `Json.Number.chars`: the written form.
* `Json.NumberText.value?`: the number a text denotes, none if it is too large for a float.
-/

namespace TurnRelay

namespace Json

/-- A number of a JSON value. -/
inductive Number where
  /-- An integer; those read from a text lie between `-2 ^ 63` and `2 ^ 64 - 1`. -/
  | integer (i : Int)
  /-- A 64-bit float. -/
  | float (x : Binary64)
  deriving DecidableEq, Repr, Inhabited

/-- The integers that a text can denote exactly. -/
def IntegerFits (i : Int) : Prop := -(Nat.pow 2 63 : Int) ≤ i ∧ i < UInt64.size

instance (i : Int) : Decidable (IntegerFits i) := inferInstanceAs (Decidable (_ ∧ _))

namespace Number

/-! ### Writing -/

/-- The text of a finite float. -/
def floatChars (x : Binary64) : List Char :=
  let d := x.shortest .even
  let place := d.pointPosition
  x.signChars ++
    if d.digits = 0 ∨ (-5 < place ∧ place ≤ 16) then d.positional
    else d.scientific

/-- The written form of a number. -/
def chars : Number → List Char
  | .integer i => integerChars i
  | .float x => floatChars x

end Number

/-! ### Reading -/

/-- The parts of a number's text: an optional minus sign, the digits before the point, those after
it, and the exponent with its sign. -/
structure NumberText where
  /-- Whether a minus sign stands in front. -/
  negative : Bool
  /-- The digits before the point. -/
  whole : List Char
  /-- The digits after the point, if there is one. -/
  fraction : Option (List Char)
  /-- Whether the exponent is negative, and its digits. -/
  exponent : Option (Bool × List Char)
  deriving DecidableEq, Repr

namespace NumberText

/-- Appends digits to a significand for as long as it fits in 64 bits; gives also the digits left. -/
def accumulate (significand : Nat) : List Char → Nat × List Char
  | [] => (significand, [])
  | c :: cs =>
    let next := 10 * significand + (c.toNat - 48)
    if next < UInt64.size then accumulate next cs else (significand, c :: cs)

/-- The powers of ten that a double holds without overflow are `10 ^ 0` to `10 ^ 308`. -/
def maxPower : Nat := 308

/-- Scales a double by a power of ten, in steps of at most `10 ^ 308`; none if it overflows. -/
def scale (x : Binary64) (exponent : Int) : Nat → Option Binary64
  | 0 => some x
  | fuel + 1 =>
    if 0 ≤ exponent then
      if exponent.natAbs ≤ maxPower then
        let y := x.mul (.ofNat (Nat.pow 10 exponent.natAbs))
        if y.isFinite then some y else none
      else if x.significand = 0 then some x else none
    else if exponent.natAbs ≤ maxPower then
      some (x.div (.ofNat (Nat.pow 10 exponent.natAbs)))
    else if x.significand = 0 then some x
    else scale (x.div (.ofNat (Nat.pow 10 maxPower))) (exponent + maxPower) fuel

/-- The float that a significand and a power of ten denote. Below `10 ^ -400` every 64-bit
significand has become zero, so four steps suffice. -/
def floatOf (negative : Bool) (significand : Nat) (exponent : Int) : Option Binary64 :=
  (scale (.ofNat significand) exponent 4).map fun x => if negative then x.neg else x

/-- The largest exponent that is added up; a larger one stands for any. -/
def exponentLimit : Nat := Nat.pow 2 31 - 1

/-- The number that a text denotes; none if it is too large for a float. -/
def value? (t : NumberText) : Option Number :=
  let (whole, excess) := accumulate 0 t.whole
  if t.fraction.isNone ∧ t.exponent.isNone ∧ excess = [] then
    if t.negative then
      if 0 < whole ∧ whole ≤ Nat.pow 2 63 then some (.integer (-(whole : Int)))
      else some (.float (Binary64.ofNat whole).neg)
    else some (.integer whole)
  else
    let places := t.fraction.getD []
    let (significand, rest) := accumulate whole places
    let shift : Int := (excess.length : Int) - ((places.length : Int) - (rest.length : Int))
    match t.exponent with
    | none => (floatOf t.negative significand shift).map .float
    | some (negative, digits) =>
      let e := ofDigits digits
      if exponentLimit < e then
        if significand ≠ 0 ∧ ¬ negative then none else some (.float (.zero t.negative))
      else
        (floatOf t.negative significand (if negative then shift - e else shift + e)).map .float

end NumberText

end Json

end TurnRelay
