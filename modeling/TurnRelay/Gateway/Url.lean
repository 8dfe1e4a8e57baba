/-!
# Addresses of gateways

An address that cannot be taken apart is not dialed. It is made of a scheme, an authority and a path,
`ws://host:port/path`; an authority may begin with a user's name and holds at most one colon, the one
in front of the port, beside those between brackets.

## Main definitions

* `Gateway.Url.fault?`: what is wrong with an address.
-/

namespace TurnRelay.Gateway.Url

/-- Whether a character may stand in an address, percent signs apart. -/
def isUrlChar (c : Char) : Bool :=
  c.isAlphanum || "!#$&'()*+,-./:;=?@[]_~".toList.contains c

/-- Whether a character ends the authority. -/
def endsAuthority (c : Char) : Bool := c = '/' || c = '?' || c = '#'

/-- Whether a character may stand in a scheme. -/
def isSchemeChar (c : Char) : Bool := c.isAlphanum || c = '+' || c = '-' || c = '.'

/-- The rest of an address behind its scheme, if it has one. -/
def behindScheme? (cs : List Char) : Option (List Char) :=
  match cs.dropWhile isSchemeChar with
  | ':' :: '/' :: '/' :: rest => if 3 < cs.length then some rest else none
  | _ => none

/-- What has been seen of an authority. -/
structure Authority where
  /-- Colons outside brackets, behind the user's name. -/
  colons : Nat
  /-- Whether a bracket was opened. -/
  isOpened : Bool
  /-- Whether a bracket was closed. -/
  isClosed : Bool
  /-- Whether there is a percent sign outside the user's name. -/
  hasPercent : Bool
  /-- Whether an at sign came last. -/
  endsInAt : Bool

/-- What is wrong with an authority. -/
def authorityFault? : List Char → Authority → Option String
  | [], a =>
    if (a.isOpened != a.isClosed) || decide (1 < a.colons) || a.endsInAt || a.hasPercent then
      some "invalid authority"
    else none
  | c :: cs, a =>
    let a := { a with endsInAt := decide (c = '@') }
    if c = ':' then
      if 8 ≤ a.colons then some "invalid authority"
      else authorityFault? cs { a with colons := a.colons + 1 }
    else if c = '[' then
      if a.hasPercent || a.isOpened then some "invalid authority"
      else authorityFault? cs { a with isOpened := true }
    else if c = ']' then
      if ! a.isOpened || a.isClosed then some "invalid authority"
      else authorityFault? cs { a with isClosed := true, colons := 0, hasPercent := false }
    else if c = '@' then authorityFault? cs { a with colons := 0, hasPercent := false }
    else if c = '%' then authorityFault? cs { a with hasPercent := true }
    else if isUrlChar c then authorityFault? cs a
    else some "invalid uri character"

/-- Whether a character may stand in a path or behind it. -/
def isPathChar (c : Char) : Bool :=
  let n := c.toNat
  decide (n = 0x21 ∨ (0x24 ≤ n ∧ n ≤ 0x3b) ∨ n = 0x3d ∨ (0x3f ≤ n ∧ n ≤ 0x5f) ∨
    (0x61 ≤ n ∧ n ≤ 0x7e) ∨ 0x7f < n) || "\"\x7b\x7d?`".toList.contains c

/-- What is wrong with a path, from its slash on. -/
def pathFault? (cs : List Char) : Option String :=
  if (cs.takeWhile (· ≠ '#')).all isPathChar then none else some "invalid uri character"

/-- What is wrong with an address. -/
def fault? (url : String) : Option String :=
  match url.toList with
  | [] => some "HTTP format error: empty string"
  | cs =>
    let scheme := behindScheme? cs
    let rest := scheme.getD cs
    let authority := rest.takeWhile (! endsAuthority ·)
    let path := rest.dropWhile (! endsAuthority ·)
    let format (fault : Option String) : Option String := fault.map ("HTTP format error: " ++ ·)
    match cs with
    | '/' :: _ =>
      match pathFault? cs with
      | some f => format (some f)
      | none => some "URL error: No host name in the URL"
    | _ =>
      match authorityFault? authority ⟨0, false, false, false, false⟩ with
      | some f => format (some f)
      | none =>
        if scheme.isNone then
          if path = [] then none else format (some "invalid format")
        else if authority = [] then format (some "invalid format")
        else format (pathFault? path)

end TurnRelay.Gateway.Url
