import TurnRelay.Settings.Scalar

/-!
# Addresses to listen on

An address is a host and a port with a colon between. A host is four numbers with points between, or up
to eight groups of hexadecimal digits in brackets, where a double colon stands for the groups that are
left out and the last two groups may be written as four numbers.

## Main definitions

* `Web.isListenAddress`: whether a text is an address.
-/

namespace TurnRelay.Web

/-- The pieces between occurrences of a character. -/
def splitAt (sep : Char) (cs : List Char) : List (List Char) :=
  cs.foldr (fun c ps => if c = sep then [] :: ps else
    match ps with
    | p :: ps => (c :: p) :: ps
    | [] => [[c]]) [[]]

/-- Whether characters are a number below 256, without zeros in front. -/
def isOctet (cs : List Char) : Bool :=
  match Settings.digits? cs with
  | some n => decide (n < 256) && decide (cs.length ≤ 3) && (cs.length == 1 || cs.head? != some '0')
  | none => false

/-- Whether characters are four numbers with points between. -/
def isDotted (cs : List Char) : Bool :=
  let ps := splitAt '.' cs
  ps.length == 4 && ps.all isOctet

/-- Whether characters are a group of hexadecimal digits. -/
def isGroup (cs : List Char) : Bool :=
  decide (1 ≤ cs.length ∧ cs.length ≤ 4) &&
    cs.all fun c => Settings.isDigit c || decide ('a' ≤ c ∧ c ≤ 'f') || decide ('A' ≤ c ∧ c ≤ 'F')

/-- The number of groups that characters are, none for no groups. -/
def groups? (cs : List Char) : Option Nat :=
  if cs = [] then some 0
  else
    let ps := splitAt ':' cs
    let ends := ps.getLast?.getD []
    if ps.dropLast.all isGroup then
      if isGroup ends then some ps.length
      else if isDotted ends then some (ps.length + 1)
      else none
    else none

/-- The parts before and behind the first double colon. -/
def splitGap : List Char → Option (List Char × List Char)
  | ':' :: ':' :: rest => some ([], rest)
  | c :: cs => (splitGap cs).map fun (a, b) => (c :: a, b)
  | [] => none

/-- Whether characters are groups, eight with those that are left out. -/
def isGrouped (cs : List Char) : Bool :=
  match splitGap cs with
  | none => groups? cs == some 8
  | some (front, back) =>
    match groups? front, groups? back with
    | some a, some b => decide (a + b < 8) && ! front.contains '.'
    | _, _ => false

/-- Whether characters are a port. -/
def isPort (cs : List Char) : Bool := (Settings.digits? cs).any fun n => decide (n < UInt16.size)

/-- Whether a text is an address to listen on. -/
def isListenAddress (text : String) : Bool :=
  match text.toList with
  | '[' :: cs =>
    match cs.dropWhile (· ≠ ']') with
    | ']' :: ':' :: port =>
      let host := cs.takeWhile (· ≠ ']')
      let scope := (host.dropWhile (· ≠ '%')).drop 1
      isGrouped (host.takeWhile (· ≠ '%')) && isPort port &&
        (! host.contains '%' || (Settings.digits? scope).any fun n => decide (n < UInt32.size))
    | _ => false
  | cs =>
    match splitAt ':' cs with
    | [host, port] => isDotted host && isPort port
    | _ => false

end TurnRelay.Web
