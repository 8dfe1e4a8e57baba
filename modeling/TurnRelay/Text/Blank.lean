/-!
# Blank text

The characters with the Unicode property `White_Space`, and trimming them off. A text of such
characters alone counts as blank; `U+200B` and `U+FEFF` are not among them.

## Main definitions

* `Text.isBlank`: the property.
* `Text.trim`: a text without the blanks at its two ends.
-/

namespace TurnRelay

namespace Text

/-- The Unicode property `White_Space`. -/
def isBlank (c : Char) : Bool :=
  let n := c.toNat
  decide ((9 ≤ n ∧ n ≤ 13) ∨ n = 0x20 ∨ n = 0x85 ∨ n = 0xa0 ∨ n = 0x1680 ∨
    (0x2000 ≤ n ∧ n ≤ 0x200a) ∨ n = 0x2028 ∨ n = 0x2029 ∨ n = 0x202f ∨ n = 0x205f ∨ n = 0x3000)

/-- Characters without the blanks at either end. -/
def trimChars (cs : List Char) : List Char :=
  ((cs.dropWhile isBlank).reverse.dropWhile isBlank).reverse

/-- A text without the blanks at either end. -/
def trim (s : String) : String := String.ofList (trimChars s.toList)

/-- Whether a text has only blanks. -/
def allBlank (s : String) : Bool := s.toList.all isBlank

end Text

end TurnRelay
