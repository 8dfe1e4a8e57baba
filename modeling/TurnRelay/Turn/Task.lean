import TurnRelay.Turn.Writer

/-!
# The turn as a task

A turn runs beside the one who reads its events, with a channel of limited room between them. One slot
of the channel is set aside for the closing event before anything else happens, so the turn can always
end it, however it ends itself. The turn waits for its run to start, then for the run's events one by
one, and whenever an event of its own finds no room. If the reader goes away the turn gives up.

A task that is abandoned (cancelled from outside, or because its run fails in the middle of a pull)
still closes the channel: the markers that are left go into whatever room there is, the text only
into the closing event. Nothing of that waits, but the reader may act in between.

## The model

The state says what the task is doing. `Task.advance` is the task's own next step, if nothing
holds it up; `begin`, `pull`, `cancel` and `crash` are what happens to it; `Task.read` and
`Task.hangUp` are what the reader does.

## Main definitions

* `Turn.Channel`: the channel.
* `Turn.Task`: the task, with its steps.
* `Task.settle`: the task's own steps until it has to wait.
-/

namespace TurnRelay.Turn

/-! ### The channel -/

/-- The channel between a turn and its reader. -/
structure Channel where
  /-- How many events it holds. -/
  capacity : Nat
  /-- The events that have not been read. -/
  queue : List Event
  /-- Whether a slot is set aside for the closing event. -/
  reserved : Bool
  /-- Whether the reader is still there. -/
  isOpen : Bool
  deriving DecidableEq, Repr

namespace Channel

/-- An empty channel. -/
def empty (capacity : Nat) : Channel := ⟨capacity, [], false, true⟩

/-- Whether there is room for one more event. -/
def hasRoom (c : Channel) : Bool :=
  decide (c.queue.length + (if c.reserved then 1 else 0) < c.capacity)

/-- Puts an event into the channel; without a reader it is lost. -/
def push (c : Channel) (e : Event) : Channel :=
  if c.isOpen then { c with queue := c.queue ++ [e] } else c

/-- Puts an event into the slot that was set aside. -/
def pushReserved (c : Channel) (e : Event) : Channel := { c.push e with reserved := false }

/-- Puts an event into the channel if there is room for it and the reader is there. -/
def tryPush (c : Channel) (e : Event) : Channel := if c.isOpen && c.hasRoom then c.push e else c

/-- The reader goes away and with it what was not read. -/
def close (c : Channel) : Channel := { c with queue := [], isOpen := false }

end Channel

/-! ### The task -/

/-- What a task does once its events have been sent. -/
inductive Next where
  /-- It waits for the run's next event. -/
  | pull (errored : Bool)
  /-- It sends what is left, and then the closing event. -/
  | flush (aborted : Bool) (outcome : Outcome)
  /-- It sends the closing event. -/
  | close (aborted : Bool) (outcome : Outcome)
  deriving DecidableEq, Repr

/-- How a task ends. -/
inductive Ending where
  /-- It returns. -/
  | returned (outcome : Outcome)
  /-- Its run failed in the middle of a pull. -/
  | crashed
  /-- It was cancelled. -/
  | cancelled
  deriving DecidableEq, Repr

/-- What a task is doing. -/
inductive Stage where
  /-- It has not set a slot aside yet. -/
  | opening
  /-- It waits for its run to start. -/
  | starting
  /-- It waits for the run's next event. -/
  | pulling (errored : Bool)
  /-- It has events to send. -/
  | sending (todo : List Event) (next : Next)
  /-- It gives up: the markers that are left may still go out, and then the closing event. -/
  | leaving (left : List Event) (ending : Ending)
  /-- It has sent the closing event, and looks whether the reader is still there. -/
  | settled (outcome : Outcome)
  /-- It has ended. -/
  | ended (ending : Ending)
  deriving DecidableEq, Repr

/-- A turn and its channel. -/
structure Task where
  /-- What it remembers of its texts. -/
  writer : Writer
  /-- What it is doing. -/
  stage : Stage
  /-- Where its events go. -/
  channel : Channel
  deriving DecidableEq, Repr

namespace Task

/-- A task that has not begun. -/
def new (capacity : Nat) : Task := ⟨.empty, .opening, .empty capacity⟩

/-- The ending of a task that has ended. -/
def ending? (t : Task) : Option Ending :=
  match t.stage with
  | .ended e => some e
  | _ => none

/-- The task gives up. If its slot is still set aside, what is withheld is settled and the channel is to
be closed with it. -/
def abandon (t : Task) (e : Ending) : Task :=
  if t.channel.reserved then
    let (writer, left) := t.writer.flush
    { t with writer := writer, stage := .leaving (left.filter Event.isMarker) e }
  else { t with stage := .ended e }

/-- What the task does next if it has nothing to send. -/
def proceed (t : Task) : Next → Task
  | .pull errored => { t with stage := .pulling errored }
  | .flush aborted outcome =>
    let (writer, left) := t.writer.flush
    { t with writer := writer, stage := .sending left (.close aborted outcome) }
  | .close aborted outcome =>
    { t with channel := t.channel.pushReserved (t.writer.closing aborted), stage := .settled outcome }

/-- The task's own next step; none if it has to wait. -/
def advance (t : Task) : Option Task :=
  match t.stage with
  | .opening =>
    if ! t.channel.isOpen then some (t.abandon (.returned .clientGone))
    else if t.channel.hasRoom then
      some { t with stage := .starting, channel := { t.channel with reserved := true } }
    else none
  | .starting => none
  | .pulling _ => if t.channel.isOpen then none else some (t.abandon (.returned .clientGone))
  | .sending [] next => some (t.proceed next)
  | .sending (e :: todo) next =>
    if ! t.channel.isOpen then
      some (t.abandon (.returned .clientGone))
    else if t.channel.hasRoom then
      some { t with stage := .sending todo next, channel := t.channel.push e }
    else none
  | .leaving [] e =>
    some { t with stage := .ended e, channel := t.channel.pushReserved (t.writer.closing false) }
  | .leaving (m :: left) e => some { t with stage := .leaving left e, channel := t.channel.tryPush m }
  | .settled outcome =>
    some { t with stage := .ended (.returned (if t.channel.isOpen then outcome else .clientGone)) }
  | .ended _ => none

/-! ### What happens to a task -/

/-- The run has started, or could not be. -/
def begin (t : Task) (started : Bool) : Task :=
  match t.stage with
  | .starting =>
    if started then { t with stage := .pulling false }
    else { t with stage := .sending [.error connectionFailed] (.flush false .startFailed) }
  | _ => t

/-- What follows an event of the run. -/
def nextAfter (errored : Bool) : Wire.RunState → Next
  | .delta => .pull errored
  | .final => .flush false .completed
  | .aborted => .flush true .aborted
  | .error => .pull true

/-- The task answers an event of the run. -/
def respond (t : Task) (errored : Bool) (e : Wire.RunEvent) : Task :=
  let (writer, events) := t.writer.answer e
  { t with writer := writer, stage := .sending events (nextAfter errored e.state) }

/-- The run yields an event, or none any more. -/
def pull (t : Task) (item : Option Wire.RunEvent) : Task :=
  match t.stage, item with
  | .pulling errored, some e => t.respond errored e
  | .pulling errored, none =>
    { t with stage := .sending [] (.flush false (if errored then .errored else .endedAbnormally)) }
  | _, _ => t

/-- The run fails in the middle of a pull. -/
def crash (t : Task) : Task :=
  match t.stage with
  | .pulling _ => t.abandon .crashed
  | _ => t

/-- The task is cancelled, if it is at a point where it may have to wait. -/
def cancel (t : Task) : Task :=
  match t.stage with
  | .opening => t.abandon .cancelled
  | .starting => t.abandon .cancelled
  | .pulling _ => t.abandon .cancelled
  | .sending (_ :: _) _ => t.abandon .cancelled
  | _ => t

/-! ### The reader -/

/-- The reader takes an event, if there is one. -/
def read (t : Task) : Option (Event × Task) :=
  match t.channel.queue with
  | [] => none
  | e :: rest => some (e, { t with channel := { t.channel with queue := rest } })

/-- Whether the reader has seen the end of the channel. -/
def atEnd (t : Task) : Bool :=
  t.channel.isOpen && t.channel.queue.isEmpty && t.ending?.isSome

/-- The reader goes away. -/
def hangUp (t : Task) : Task := { t with channel := t.channel.close }

/-! ### Settling -/

/-- A bound on the number of steps the task can take by itself. -/
def budget (t : Task) : Nat :=
  let left := t.writer.flush.2.length
  match t.stage with
  | .opening => left + 2
  | .starting => 0
  | .pulling _ => left + 2
  | .sending todo _ => todo.length + left + 3
  | .leaving todo _ => todo.length + 1
  | .settled _ => 1
  | .ended _ => 0

/-- At most so many of the task's own steps. -/
def advanceWithin : Nat → Task → Task
  | 0, t => t
  | fuel + 1, t =>
    match t.advance with
    | some t' => advanceWithin fuel t'
    | none => t

/-- The task's own steps until it has to wait. -/
def settle (t : Task) : Task := advanceWithin t.budget t

end Task

end TurnRelay.Turn
