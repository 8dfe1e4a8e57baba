/-!
# Names of requests

In a rehearsal the requests that reach the gateway go by their numbers, from one on: a script can say
`"#2"` for the name of the second request, and a report says `#2` where that name stands. Names that
never reached the gateway as the name of a request are not shown.

## Main definitions

* `Naming.name`: a name that differs from all others.
* `Naming.fill`: the names in a text of the script.
* `Naming.shown`: a text as it is reported.
-/

namespace TurnRelay.Rehearsal.Naming

/-- What all names begin with. -/
def stem : List Char := "00000000-0000-4000-8000-".toList

/-- How long a name's number is. -/
def numberLength : Nat := 12

/-- The name of a number. -/
def name (n : Nat) : String :=
  let digits := (toString n).toList
  String.ofList (stem ++ List.replicate (numberLength - digits.length) '0' ++ digits)

/-- What stands for a name that never reached the gateway. -/
def unknown : String := "<uuid>"

/-- What stands for a name, given the names that have reached the gateway in their order. -/
def standIn (arrived : List String) (id : String) : String :=
  match arrived.idxOf? id with
  | some i => "#" ++ toString (i + 1)
  | none => unknown

/-- A text with a stand-in for each name; the first `skip` characters belong to a name that is done. -/
def shownFrom (arrived : List String) (skip : Nat) : List Char → List Char
  | [] => []
  | c :: cs =>
    if 0 < skip then shownFrom arrived (skip - 1) cs
    else if stem.isPrefixOf (c :: cs) then
      let id := String.ofList ((c :: cs).take (stem.length + numberLength))
      (standIn arrived id).toList ++ shownFrom arrived (stem.length + numberLength - 1) cs
    else c :: shownFrom arrived 0 cs

/-- A text as it is reported. -/
def shown (arrived : List String) (text : String) : String :=
  String.ofList (shownFrom arrived 0 text.toList)

/-- The name that a quoted number stands for: the text begins behind the opening quote. Gives also the
length of what is replaced. -/
def quoted? (arrived : List String) : List Char → Option (String × Nat)
  | '#' :: cs =>
    let digits := cs.takeWhile Char.isDigit
    match cs.drop digits.length, (String.ofList digits).toNat? with
    | '"' :: _, some n =>
      if toString n = String.ofList digits ∧ 0 < n then
        arrived[n - 1]?.map (·, digits.length + 1)
      else none
    | _, _ => none
  | _ => none

/-- A text with the names that quoted numbers stand for; the first `skip` characters belong to a number
that is done. -/
def fillFrom (arrived : List String) (skip : Nat) : List Char → List Char
  | [] => []
  | c :: cs =>
    if 0 < skip then fillFrom arrived (skip - 1) cs
    else if c = '"' then
      match quoted? arrived cs with
      | some (id, n) => '"' :: (id.toList ++ fillFrom arrived n cs)
      | none => '"' :: fillFrom arrived 0 cs
    else c :: fillFrom arrived 0 cs

/-- A text of the script with the names of the requests that have arrived. -/
def fill (arrived : List String) (text : String) : String :=
  String.ofList (fillFrom arrived 0 text.toList)

end TurnRelay.Rehearsal.Naming
