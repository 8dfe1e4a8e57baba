import TurnRelay.Gateway.Mailbox

/-!
# The audience of runs

Who follows which run. A listener has a number and a mailbox; for a run and a number there is one
listener. A run's event goes to the mailboxes of all its listeners, and with a terminal event they are
done.

## Main definitions

* `Gateway.Audience`: the listeners.
* `Audience.add`, `Audience.remove`, `Audience.dispatch`: its operations.
-/

namespace TurnRelay.Gateway

/-- One who follows a run. -/
structure Listener where
  /-- The listener's number. -/
  id : Nat
  /-- The mailbox for the run's events. -/
  box : Nat
  deriving DecidableEq, Repr

/-- The listeners, each with the run that it follows. -/
structure Audience where
  /-- Run and listener. -/
  members : List (String × Listener)
  deriving DecidableEq, Repr

namespace Audience

/-- Nobody. -/
def empty : Audience := ⟨[]⟩

/-- The listeners of a run. -/
def listeners (a : Audience) (run : String) : List Listener :=
  (a.members.filter fun m => decide (m.1 = run)).map (·.2)

/-- The runs that are followed. -/
def runs (a : Audience) : List String := (a.members.map (·.1)).eraseDups

/-- Whether any listener has the mailbox. -/
def holds (a : Audience) (box : Nat) : Bool := a.members.any fun m => decide (m.2.box = box)

/-- Without the listener of a run and a number. -/
def without (a : Audience) (run : String) (id : Nat) : Audience :=
  ⟨a.members.filter fun m => ! (decide (m.1 = run) && decide (m.2.id = id))⟩

/-- A listener begins to follow a run; one whose mailbox is closed does not. -/
def add (accepts : Nat → Bool) (a : Audience) (run : String) (l : Listener) : Bool × Audience :=
  if accepts l.box then (true, ⟨(a.without run l.id).members ++ [(run, l)]⟩) else (false, a)

/-- A listener follows a run no longer; gives whether it did. -/
def remove (a : Audience) (run : String) (id : Nat) : Bool × Audience :=
  ((a.listeners run).any fun l => decide (l.id = id), a.without run id)

/-- The mailboxes that a run's event goes to, and who is left: listeners of the run whose mailbox is
closed are gone, and after a terminal event all of them. -/
def dispatch (accepts : Nat → Bool) (a : Audience) (e : Wire.RunEvent) : List Nat × Audience :=
  let kept := a.members.filter fun m => decide (m.1 ≠ e.runId) || accepts m.2.box
  let reached := (kept.filter fun m => decide (m.1 = e.runId)).map (·.2.box)
  (reached,
    ⟨if e.state.isTerminal then kept.filter fun m => decide (m.1 ≠ e.runId) else kept⟩)

end Audience

end TurnRelay.Gateway
