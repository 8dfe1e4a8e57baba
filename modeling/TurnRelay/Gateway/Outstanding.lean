import TurnRelay.Gateway.Audience
import TurnRelay.Gateway.Fault

/-!
# Outstanding requests

The requests that were sent and have not been answered, by the name that their responses will carry.
Each belongs to a caller, who holds a ticket for the answer. A ticket is answered at most once; it is
worthless once nobody is left who could answer it.

## Main definitions

* `Gateway.Ticket`, `Gateway.Tickets`: the callers' side.
* `Gateway.Outstanding`: the requests.
-/

namespace TurnRelay.Gateway

/-- What a call comes to. -/
abbrev Answer := Except Fault Json

instance : DecidableEq Answer := fun a b =>
  match a, b with
  | .ok x, .ok y => if h : x = y then isTrue (h ▸ rfl) else isFalse fun e => h (by cases e; rfl)
  | .error x, .error y =>
    if h : x = y then isTrue (h ▸ rfl) else isFalse fun e => h (by cases e; rfl)
  | .ok _, .error _ => isFalse nofun
  | .error _, .ok _ => isFalse nofun

/-! ### Tickets -/

/-- What a caller can still expect of an answer. -/
inductive Ticket where
  /-- The caller waits. -/
  | waiting
  /-- The answer is there. -/
  | answered (a : Answer)
  /-- The caller has taken the answer. -/
  | spent
  /-- The caller has gone away. -/
  | abandoned
  deriving DecidableEq

/-- What a caller gets. -/
inductive Reply where
  /-- The answer. -/
  | answer (a : Answer)
  /-- Nothing yet. -/
  | nothing
  /-- Nothing any more. -/
  | lost
  deriving DecidableEq

/-- The tickets by number. -/
abbrev Tickets := Table Nat Ticket

namespace Tickets

/-- Whether a caller waits. -/
def isWaiting (ts : Tickets) (ticket : Nat) : Bool :=
  decide (ts.get? ticket = some .waiting)

/-- Gives an answer to a caller; if nobody waits for it, it is lost. -/
def answer (ts : Tickets) (ticket : Nat) (a : Answer) : Tickets :=
  ts.modify ticket fun t => if t = .waiting then .answered a else t

/-- The caller asks; `held` says whether anybody could still answer. -/
def ask (ts : Tickets) (ticket : Nat) (held : Bool) : Reply × Tickets :=
  match ts.get? ticket with
  | some (.answered a) => (.answer a, ts.set ticket .spent)
  | some .waiting => (if held then .nothing else .lost, ts)
  | _ => (.lost, ts)

/-- Nobody is left who could answer: a ticket without an answer is worth nothing. -/
def void (ts : Tickets) : Tickets := ⟨ts.entries.filter fun e => decide (e.2 ≠ .waiting)⟩

/-- The caller goes away. -/
def abandon (ts : Tickets) (ticket : Nat) : Tickets := ts.modify ticket fun _ => .abandoned

end Tickets

/-! ### Requests -/

/-- A request that has not been answered. -/
structure Request where
  /-- The method that was asked for. -/
  method : String
  /-- The caller's ticket. -/
  ticket : Nat
  /-- Who is to follow the run that a successful answer names. -/
  listener : Option Listener
  deriving DecidableEq, Repr

/-- The requests that have not been answered. -/
abbrev Outstanding := Table String Request

namespace Outstanding

/-- Whether a request belongs to a ticket. -/
def holds (o : Outstanding) (ticket : Nat) : Bool := o.values.any fun r => decide (r.ticket = ticket)

/-- The tickets of all requests. -/
def tickets (o : Outstanding) : List Nat := o.values.map (·.ticket)

/-- Removes the request of a name. -/
def take (o : Outstanding) (id : String) : Option Request × Outstanding := (o.get? id, o.erase id)

end Outstanding

end TurnRelay.Gateway
