import TurnRelay.Settings.Basic
import TurnRelay.Turn.Live
import TurnRelay.Turn.Tally
import TurnRelay.Web.Response

/-!
# Streams of events

A turn as a browser sees it: a row of blocks, one for each event, with comments in between when nothing
was sent for a while. What is begun, ended and taken is counted.

## Main definitions

* `Web.EventStream`: a turn and its browser.
* `EventStream.begin`, `EventStream.report`, `EventStream.take`: what is counted.
* `EventStream.close`, `EventStream.remind`, `EventStream.hangUp`: what the browser sees or does besides.
-/

namespace TurnRelay.Web

/-- A turn and its browser. Times are in milliseconds. -/
structure EventStream where
  /-- The turn. -/
  live : Turn.Live
  /-- Whether the browser is there. -/
  isRead : Bool
  /-- When something was sent last. -/
  lastSent : Nat
  /-- Whether the turn's ending has been counted. -/
  isReported : Bool
  deriving DecidableEq, Repr

namespace EventStream

/-- A message is to be relayed: the turn is counted and its stream begins. -/
def begin (now : Nat) (manner : Settings.Manner) (r : Turn.Request) (t : Turn.Tally) :
    EventStream × Turn.Tally :=
  (⟨.new r manner.channelCapacity, true, now, false⟩, t.started)

/-- Counts the turn's ending, once. -/
def report (s : EventStream) (t : Turn.Tally) : Option (EventStream × Turn.Tally) :=
  if s.isReported then none
  else
    match s.live.task.ending? with
    | some (.returned o) => some ({ s with isReported := true }, t.finished o)
    | _ => none

/-- The browser takes an event. -/
def take (s : EventStream) (now : Nat) (t : Turn.Tally) :
    Option (String × EventStream × Turn.Tally) :=
  if ! s.isRead then none
  else
    match s.live.task.read with
    | none => none
    | some (e, task) =>
      some (e.block, { s with live := { s.live with task := task }, lastSent := now }, t.emitted e)

/-- The browser sees the end, after which nothing is sent to it. -/
def close (s : EventStream) : Option EventStream :=
  if s.isRead && s.live.task.atEnd then some { s with isRead := false } else none

/-- When a comment is due, if one can be. -/
def commentDue? (manner : Settings.Manner) (s : EventStream) : Option Nat :=
  if s.isRead then some (s.lastSent + 1000 * manner.keepAliveSecs) else none

/-- A comment is sent if one is due. -/
def remind (manner : Settings.Manner) (now : Nat) (s : EventStream) : Option EventStream :=
  if (s.commentDue? manner).any fun due => decide (due ≤ now) then some { s with lastSent := now }
  else none

/-- The browser goes away. -/
def hangUp (s : EventStream) : EventStream :=
  { s with isRead := false, live := { s.live with task := s.live.task.hangUp } }

/-- Whether nothing can happen any more. -/
def isOver (s : EventStream) : Bool := ! s.isRead && s.live.isOver

end EventStream

end TurnRelay.Web
