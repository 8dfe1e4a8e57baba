import TurnRelay.CommandLine.Asking
import TurnRelay.Web.Response

/-!
# Notes

What is worth a note while a rehearsal is played: how calls and commands end, what readers of runs get,
what the gateway sees of its lines, and what browsers are sent.

## Main definitions

* `Rehearsal.Note`: the notes.
-/

namespace TurnRelay.Rehearsal

open Gateway (Fault Sight)

/-- How a dial is answered. -/
inductive Policy where
  /-- The line is opened. -/
  | accept
  /-- The dial fails for a reason. -/
  | refuse (reason : String)
  /-- The dial is not answered until later. -/
  | hang
  deriving DecidableEq, Repr

/-- What is worth a note. -/
inductive Note where
  /-- A call ends. -/
  | called (name : String) (r : Except Fault Json)
  /-- There is no such stream, or it is being pulled. -/
  | noStream (name : String)
  /-- A pull ends: the event, the stream's run, and whether the stream has yielded a terminal event. -/
  | pulled (name : String) (event : Option Wire.RunEvent) (run : String) (sawTerminal : Bool)
  /-- A stream that is consumed to its end yields an event. -/
  | collected (name : String) (event : Wire.RunEvent)
  /-- A stream has been consumed to its end. -/
  | collectedAll (name : String)
  /-- A command line is wrong. -/
  | misused (name : String) (why : CommandLine.Refusal)
  /-- A command ends. -/
  | ran (name : String) (r : Except CommandLine.Failure Unit)
  /-- A command prints. -/
  | printed (text : String)
  /-- A dial is answered. -/
  | dialed (how : Policy)
  /-- The gateway sees something of a line. -/
  | saw (line : Nat) (what : Sight)
  /-- A browser is sent the head of a response. -/
  | head (name : String) (h : Web.Head)
  /-- A browser is sent a JSON body; none if it only wants the head. -/
  | body (name : String) (v : Option Json)
  /-- A browser is sent a block. -/
  | block (name : String) (text : String)
  /-- A browser has been sent all blocks. -/
  | blocksEnd (name : String)

end TurnRelay.Rehearsal
