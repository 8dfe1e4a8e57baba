/-!
# What a text adds to the one before

A run reports its text cumulatively. What is new in a text, compared with the one before, is
everything behind their longest common beginning; if the text extends the one before, that is what it
adds.

## Main definitions

* `Turn.suffixBehind`: what is new.
* `Turn.suffixes`: what each of several texts adds.
-/

namespace TurnRelay.Turn

/-- What `current` holds behind its longest common beginning with `previous`. -/
def suffixBehind : (previous current : List Char) → List Char
  | p :: ps, c :: cs => if p = c then suffixBehind ps cs else c :: cs
  | _, cs => cs

/-- What each text adds to the one before it, the first to `previous`. -/
def suffixes (previous : List Char) : List (List Char) → List (List Char)
  | [] => []
  | t :: ts => suffixBehind previous t :: suffixes t ts

end TurnRelay.Turn
