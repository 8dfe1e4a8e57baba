import TurnRelay.Gateway.Client
import TurnRelay.Turn.Task

/-!
# Turns over a client

A turn that relays a run of the gateway. It asks to be connected, asks for the run, and pulls the run's
events for as long as it waits for them. When it has ended, however it ended, it lets go of what it
still holds of the client.

## Main definitions

* `Turn.Live`: a turn and what it holds of a client.
* `Live.advance`: its next step, if nothing holds it up.
-/

namespace TurnRelay.Turn

open Gateway (Client)

/-- What a turn holds of a client. -/
inductive Source where
  /-- Nothing. -/
  | nothing
  /-- A call to be connected. -/
  | connecting (call : Nat)
  /-- A call for a run. -/
  | sending (call : Nat)
  /-- The stream of a run. -/
  | run (stream : Nat)
  deriving DecidableEq, Repr

/-- A turn over a client. -/
structure Live where
  /-- The message to relay. -/
  request : Request
  /-- The turn. -/
  task : Task
  /-- What it holds of the client. -/
  source : Source
  deriving DecidableEq, Repr

/-- Names for a request that nobody has used. -/
structure FreshNames where
  /-- The name of the request itself. -/
  id : String
  /-- A name by which the gateway knows a repetition. -/
  key : String

namespace Live

/-- A turn that has not begun. -/
def new (request : Request) (capacity : Nat) : Live := ⟨request, .new capacity, .nothing⟩

/-- What the gateway is asked. -/
def params (r : Request) (key : String) : Wire.SendParams where
  sessionKey := r.sessionKey
  message := r.message
  idempotencyKey := key
  timeoutMs := r.timeoutMs
  attachments := r.attachments

/-- No run could be started. -/
def fail (l : Live) : Live := { l with task := l.task.begin false, source := .nothing }

/-- The turn's own next step at a time; none if it has to wait. -/
def advance (c : Client) (now : Nat) (names : FreshNames) (l : Live) : Option (Live × Client) :=
  match l.task.advance with
  | some task => some ({ l with task := task }, c)
  | none =>
    match l.task.stage, l.source with
    | .starting, .nothing =>
      let (n, c) := c.connect now
      some ({ l with source := .connecting n }, c)
    | .starting, .connecting n =>
      match c.poll now n with
      | (none, _) => none
      | (some (.ok _), c) =>
        let (m, c) := c.send now names.id (params l.request names.key)
        some ({ l with source := .sending m }, c)
      | (some (.error _), c) => some (l.fail, c)
    | .starting, .sending n =>
      match c.poll now n with
      | (none, _) => none
      | (some (.ok (.run _ stream)), c) =>
        some ({ l with task := l.task.begin true, source := .run stream }, c)
      | (some _, c) => some (l.fail, c)
    | .pulling _, .run stream =>
      match c.pull now stream with
      | (.event e, c) => some ({ l with task := l.task.pull (some e) }, c)
      | (.ended, c) => some ({ l with task := l.task.pull none }, c)
      | (.nothing, _) =>
        if (c.streams.get? stream).any (·.deadline.isSome) then none
        else some (l, c.beginPull now stream)
    | .ended _, .connecting n => some ({ l with source := .nothing }, c.abandon n)
    | .ended _, .sending n => some ({ l with source := .nothing }, c.abandon n)
    | .ended _, .run stream => some ({ l with source := .nothing }, c.dropStream stream)
    | _, _ => none

/-- Whether the turn has ended and holds nothing any more. -/
def isOver (l : Live) : Bool := l.task.ending?.isSome && decide (l.source = .nothing)

end Live

end TurnRelay.Turn
