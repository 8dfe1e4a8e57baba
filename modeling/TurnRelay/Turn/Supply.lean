import TurnRelay.Turn.Task

/-!
# A turn with a supply of run events

A run's events may be there before the turn asks for them. The supply holds them in order; the turn
takes the next one whenever it waits for it. With a supply, a turn is driven by what arrives and by
what its reader does, and everything that can happen by itself happens in between.

## Main definitions

* `Turn.Supply`: the events that have arrived.
* `Turn.Supplied`: a task and its supply, with `settle`.
* `Supplied.readUpTo`, `Supplied.readAll`: what a reader sees.
-/

namespace TurnRelay.Turn

/-- What a run yields when it is pulled. -/
inductive Item where
  /-- An event. -/
  | event (e : Wire.RunEvent)
  /-- No more events. -/
  | finished
  /-- The run fails in the middle of the pull. -/
  | crash
  deriving DecidableEq, Repr

/-- What has arrived from a run. -/
structure Supply where
  /-- Whether the run has been started, or could not be; none as long as neither is known. -/
  started : Option Bool
  /-- What the run yields, in order. -/
  items : List Item
  deriving DecidableEq, Repr

/-- A task and its supply. -/
structure Supplied where
  /-- The task. -/
  task : Task
  /-- What has arrived for it. -/
  supply : Supply
  deriving DecidableEq, Repr

namespace Supplied

/-- A task that has not begun, and nothing supplied. -/
def new (capacity : Nat) : Supplied := ⟨.new capacity, ⟨none, []⟩⟩

/-- The task starts as soon as it waits for that and the supply tells. -/
def start (s : Supplied) : Supplied :=
  let task := s.task.settle
  match task.stage, s.supply.started with
  | .starting, some ok => { s with task := (task.begin ok).settle }
  | _, _ => { s with task := task }

/-- The task takes items for as long as it waits for one. -/
def takeItems (t : Task) : List Item → Task × List Item
  | [] => (t, [])
  | item :: items =>
    match t.stage with
    | .pulling _ =>
      let t :=
        match item with
        | .event e => t.pull (some e)
        | .finished => t.pull none
        | .crash => t.crash
      takeItems t.settle items
    | _ => (t, item :: items)

/-- Everything that can happen by itself. -/
def settle (s : Supplied) : Supplied :=
  let s := s.start
  let (task, items) := takeItems s.task s.supply.items
  { task := task, supply := { s.supply with items := items } }

/-- The reader takes up to `n` events, everything else happening in between; gives also whether it
has seen the end. -/
def readUpTo : Nat → Supplied → List Event × Bool × Supplied
  | 0, s => ([], false, s)
  | n + 1, s =>
    match s.task.read with
    | none => ([], s.task.atEnd, s)
    | some (e, task) =>
      let (es, done, s) := readUpTo n ({ s with task := task }.settle)
      (e :: es, done, s)

/-- A bound on the events that can still be read: those waiting, those to be sent, and those for the
items to come. -/
def readBound (s : Supplied) : Nat :=
  let todo :=
    match s.task.stage with
    | .sending todo _ => todo.length
    | .leaving left _ => left.length
    | _ => 0
  let text (item : Item) : Nat :=
    match item with
    | .event e => ((e.text?.getD "").length) + 2
    | _ => 1
  s.task.channel.queue.length + todo + s.task.writer.sieve.withheld.length +
    s.supply.items.foldl (fun n item => n + text item) 0 + 3

/-- The reader takes everything there is. -/
def readAll (s : Supplied) : List Event × Bool × Supplied := readUpTo s.readBound s

end Supplied

end TurnRelay.Turn
