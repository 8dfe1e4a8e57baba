import TurnRelay.Turn.Event

/-!
# Tallies

Counts of turns and of the events that browsers have taken. The counts are 64-bit words and wrap.

## Main definitions

* `Turn.Tally`: the counts.
* `Tally.started`, `Tally.finished`, `Tally.emitted`: what changes them.
-/

namespace TurnRelay.Turn

/-- Counts of turns and events. -/
structure Tally where
  /-- Turns that have not ended. -/
  activeStreams : UInt64
  /-- Turns that were begun. -/
  turnsStarted : UInt64
  /-- Turns whose run completed. -/
  completed : UInt64
  /-- Turns whose run was stopped. -/
  aborted : UInt64
  /-- Turns whose run reported an error. -/
  errored : UInt64
  /-- Turns whose run ended without a terminal state. -/
  abnormal : UInt64
  /-- Turns without a run. -/
  startFailed : UInt64
  /-- Turns whose browser went away. -/
  clientGone : UInt64
  /-- Pieces of text taken. -/
  deltas : UInt64
  /-- Markers taken. -/
  markers : UInt64
  /-- Errors taken. -/
  errors : UInt64
  deriving DecidableEq, Repr

namespace Tally

/-- Nothing counted. -/
def empty : Tally := ⟨0, 0, 0, 0, 0, 0, 0, 0, 0, 0, 0⟩

/-- A turn begins. -/
def started (t : Tally) : Tally :=
  { t with activeStreams := t.activeStreams + 1, turnsStarted := t.turnsStarted + 1 }

/-- A turn ends. -/
def finished (t : Tally) (o : Outcome) : Tally :=
  let t := { t with activeStreams := t.activeStreams - 1 }
  match o with
  | .completed => { t with completed := t.completed + 1 }
  | .aborted => { t with aborted := t.aborted + 1 }
  | .errored => { t with errored := t.errored + 1 }
  | .endedAbnormally => { t with abnormal := t.abnormal + 1 }
  | .startFailed => { t with startFailed := t.startFailed + 1 }
  | .clientGone => { t with clientGone := t.clientGone + 1 }

/-- A browser takes an event. -/
def emitted (t : Tally) : Event → Tally
  | .delta _ => { t with deltas := t.deltas + 1 }
  | .marker _ => { t with markers := t.markers + 1 }
  | .error _ => { t with errors := t.errors + 1 }
  | .done _ _ => t

/-- The counts, for a report. -/
def encode (t : Tally) : Json :=
  .ofMembers [("active_streams", .ofWord64 t.activeStreams),
    ("turns", .ofMembers [("started", .ofWord64 t.turnsStarted),
      ("completed", .ofWord64 t.completed), ("aborted", .ofWord64 t.aborted),
      ("errored", .ofWord64 t.errored), ("abnormal", .ofWord64 t.abnormal),
      ("start_failed", .ofWord64 t.startFailed), ("client_gone", .ofWord64 t.clientGone)]),
    ("events", .ofMembers [("deltas", .ofWord64 t.deltas), ("markers", .ofWord64 t.markers),
      ("errors", .ofWord64 t.errors)])]

end Tally

end TurnRelay.Turn
