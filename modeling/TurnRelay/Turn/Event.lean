import TurnRelay.Json.Printer
import TurnRelay.Marker.Basic
import TurnRelay.Text.Blank

/-!
# Events of a turn

What the browser is told while one of its messages is relayed: pieces of text, markers, errors, and at
the end that the turn is done, with the whole text. An event is written as a block of two lines, its
name and its payload as compact JSON, and a blank line behind.

## Main definitions

* `Turn.Event`: the events, with `name` and `payload`.
* `Turn.Event.block`: the written form.
* `Turn.Outcome`: how a turn ends.
-/

namespace TurnRelay.Turn

/-- What the browser is told. -/
inductive Event where
  /-- More text. -/
  | delta (text : List Char)
  /-- A marker found in the text. -/
  | marker (m : Marker)
  /-- Something went wrong. -/
  | error (message : String)
  /-- The turn is over; its whole text, and whether it was stopped. -/
  | done (text : List Char) (aborted : Bool)
  deriving DecidableEq, Repr

namespace Event

/-- The name of an event. -/
def name : Event → String
  | .delta _ => "delta"
  | .marker m => m.kind.name
  | .error _ => "error"
  | .done _ _ => "done"

/-- The payload of an event. -/
def payload : Event → Json
  | .delta text => .ofMembers [("text", .string (String.ofList text))]
  | .marker m => .ofMembers m.payload
  | .error message => .ofMembers [("error", .string message)]
  | .done text aborted =>
    .ofMembers (("text", .string (String.ofList text)) ::
      if aborted then [("aborted", .bool true)] else [])

/-- Whether an event ends the turn. -/
def isDone : Event → Bool
  | .done _ _ => true
  | _ => false

/-- Whether an event is a marker. -/
def isMarker : Event → Bool
  | .marker _ => true
  | _ => false

/-- The written form of an event. -/
def block (e : Event) : String :=
  "event: " ++ e.name ++ "\ndata: " ++ e.payload.compress ++ "\n\n"

end Event

/-- How a turn ends. -/
inductive Outcome where
  /-- The run completed. -/
  | completed
  /-- The run was stopped. -/
  | aborted
  /-- The run reported an error before its events ended. -/
  | errored
  /-- The run's events ended without a terminal state. -/
  | endedAbnormally
  /-- No run could be started. -/
  | startFailed
  /-- The browser went away. -/
  | clientGone
  deriving DecidableEq, Repr

/-! ### Requests -/

/-- A message to relay. -/
structure Request where
  /-- The conversation. -/
  sessionKey : String
  /-- What the user says. -/
  message : String
  /-- What goes with the message. -/
  attachments : Option (List Json)
  /-- How long the run may take. -/
  timeoutMs : Option UInt64
  deriving DecidableEq, Repr

/-- What the browser is told of a blank message. -/
def blankMessage : String := "message must not be empty"

/-- A blank message is not relayed. -/
def Request.isValid (r : Request) : Bool := ! Text.allBlank r.message

/-- The conversation that is asked for, or else the default one. -/
def sessionKey (default : String) (requested : Option String) : String :=
  match requested with
  | some key => if Text.allBlank key then default else Text.trim key
  | none => default

end TurnRelay.Turn
