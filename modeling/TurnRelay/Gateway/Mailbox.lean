import TurnRelay.Table
import TurnRelay.Wire.Chat

/-!
# Mailboxes

A mailbox holds the events of a run that its reader has not taken yet. It takes new ones for as long
as the reader wants them. Its end is reached when it is empty and nothing more can come: the reader
refuses more, or nobody is left who could put anything in.

## Main definitions

* `Gateway.Mailbox`: a mailbox.
* `Mailbox.take`: what the reader gets.
-/

namespace TurnRelay.Gateway

/-- The events that a reader has not taken. -/
structure Mailbox where
  /-- The events, oldest first. -/
  queue : List Wire.RunEvent
  /-- Whether new events are taken in. -/
  isOpen : Bool
  deriving DecidableEq, Repr

/-- What a reader gets. -/
inductive Mail where
  /-- An event. -/
  | event (e : Wire.RunEvent)
  /-- Nothing yet. -/
  | nothing
  /-- Nothing any more. -/
  | ended
  deriving DecidableEq, Repr

namespace Mailbox

/-- A new mailbox. -/
def new : Mailbox := ⟨[], true⟩

/-- Puts an event in, if it is taken. -/
def deliver (b : Mailbox) (e : Wire.RunEvent) : Mailbox :=
  if b.isOpen then { b with queue := b.queue ++ [e] } else b

/-- No new events are taken; those inside stay. -/
def close (b : Mailbox) : Mailbox := { b with isOpen := false }

/-- The reader looks in; `sender` says whether anybody could still put something in. -/
def take (b : Mailbox) (sender : Bool) : Mail × Mailbox :=
  match b.queue with
  | e :: rest => (.event e, { b with queue := rest })
  | [] => (if b.isOpen && sender then .nothing else .ended, b)

end Mailbox

/-- The mailboxes by number. -/
abbrev Mailboxes := Table Nat Mailbox

namespace Mailboxes

/-- Whether a mailbox takes new events; one that is gone does not. -/
def accepts (bs : Mailboxes) (box : Nat) : Bool := (bs.get? box).any (·.isOpen)

/-- Nobody is left who could put anything in. -/
def close (bs : Mailboxes) : Mailboxes := ⟨bs.entries.map fun e => (e.1, e.2.close)⟩

/-- Puts an event into a mailbox. -/
def deliver (bs : Mailboxes) (box : Nat) (e : Wire.RunEvent) : Mailboxes :=
  bs.modify box (·.deliver e)

end Mailboxes

end TurnRelay.Gateway
