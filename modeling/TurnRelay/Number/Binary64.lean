/-!
# 64-bit floating-point numbers

A `Binary64` is the bit pattern of an IEEE 754 double: a sign, an 11-bit exponent and a 52-bit
fraction. Its arithmetic is done exactly on natural numbers and rounded once, to the nearest double
and on a tie to the one whose significand is even. Nothing here uses the machine's own floats, so
every result can be computed by the kernel as well.

## Main definitions

* `Binary64.ofRatio`: the double nearest to a ratio of natural numbers.
* `Binary64.magnitude`: the exact absolute value of a finite double, as a ratio.
* `Binary64.mul`, `Binary64.div`: product and quotient of finite doubles.
-/

namespace TurnRelay

/-- A 64-bit binary floating-point number, held as its bit pattern. -/
structure Binary64 where
  /-- One sign bit, eleven exponent bits, fifty-two fraction bits. -/
  bits : UInt64
  deriving DecidableEq, Repr, Inhabited

/-- The integer nearest to `num / den`; halfway between two, the even one. -/
def roundHalfEven (num den : Nat) : Nat :=
  let q := num / den
  let r := num % den
  if 2 * r < den then q
  else if den < 2 * r then q + 1
  else q + q % 2

/-- `num / den` divided by `2 ^ q`, as a ratio. -/
def scaleDown (num den : Nat) (q : Int) : Nat × Nat :=
  let power := Nat.pow 2 q.natAbs
  if q < 0 then (num * power, den) else (num, den * power)

namespace Binary64

/-! ### Fields -/

/-- Whether the sign bit is set. -/
def isNegative (x : Binary64) : Bool := decide (Nat.pow 2 63 ≤ x.bits.toNat)

/-- The eleven exponent bits. -/
def exponentField (x : Binary64) : Nat := x.bits.toNat / Nat.pow 2 52 % 2048

/-- The fifty-two fraction bits. -/
def fractionField (x : Binary64) : Nat := x.bits.toNat % Nat.pow 2 52

/-- Neither an infinity nor a NaN. -/
def isFinite (x : Binary64) : Bool := x.exponentField != 2047

/-- The integer `m` of the magnitude `m * 2 ^ q`. -/
def significand (x : Binary64) : Nat :=
  if x.exponentField = 0 then x.fractionField else Nat.pow 2 52 + x.fractionField

/-- The integer `q` of the magnitude `m * 2 ^ q`. -/
def exponent (x : Binary64) : Int :=
  if x.exponentField = 0 then -1074 else (x.exponentField : Int) - 1075

/-- The exact magnitude of a finite double, as a ratio. -/
def magnitude (x : Binary64) : Nat × Nat :=
  if x.exponent < 0 then (x.significand, Nat.pow 2 x.exponent.natAbs)
  else (x.significand * Nat.pow 2 x.exponent.natAbs, 1)

/-! ### Rounding -/

/-- Assembles a sign and the lower sixty-three bits. -/
def ofParts (negative : Bool) (rest : Nat) : Binary64 :=
  ⟨UInt64.ofNat ((if negative then Nat.pow 2 63 else 0) + rest)⟩

/-- The infinity of the given sign. -/
def infinity (negative : Bool) : Binary64 := ofParts negative (2047 * Nat.pow 2 52)

/-- The zero of the given sign. -/
def zero (negative : Bool) : Binary64 := ofParts negative 0

/-- The exponent `q` at which `num / den` has a significand below `2 ^ 53`, at least `-1074`. -/
def ratioExponent (num den : Nat) : Int :=
  let guess := (Nat.log2 num : Int) - (Nat.log2 den : Int) - 53
  let (n, d) := scaleDown num den guess
  max (-1074) (if n / d < Nat.pow 2 53 then guess else guess + 1)

/-- The double nearest to `num / den` with the given sign. A carry out of the significand runs into
the exponent bits, which is the next double; past the largest finite one it is the infinity. -/
def ofRatio (negative : Bool) (num den : Nat) : Binary64 :=
  if num = 0 then zero negative
  else
    let q := ratioExponent num den
    let (n, d) := scaleDown num den q
    let m := roundHalfEven n d
    let rest := if m < Nat.pow 2 52 then m else (q + 1074).toNat * Nat.pow 2 52 + m
    if 2047 * Nat.pow 2 52 ≤ rest then infinity negative else ofParts negative rest

/-- The double nearest to a natural number. -/
def ofNat (n : Nat) : Binary64 := ofRatio false n 1

/-- The opposite number. -/
def neg (x : Binary64) : Binary64 := ⟨x.bits ^^^ 0x8000000000000000⟩

/-! ### Arithmetic on finite doubles -/

/-- The product, rounded once. -/
def mul (x y : Binary64) : Binary64 :=
  let (a, b) := x.magnitude
  let (c, d) := y.magnitude
  ofRatio (x.isNegative != y.isNegative) (a * c) (b * d)

/-- The quotient, rounded once; the divisor is not zero. -/
def div (x y : Binary64) : Binary64 :=
  let (a, b) := x.magnitude
  let (c, d) := y.magnitude
  ofRatio (x.isNegative != y.isNegative) (a * d) (b * c)

/-- The sum of two doubles of positive sign, rounded once. -/
def addMagnitudes (x y : Binary64) : Binary64 :=
  let (a, b) := x.magnitude
  let (c, d) := y.magnitude
  ofRatio false (a * d + c * b) (b * d)

end Binary64

end TurnRelay
