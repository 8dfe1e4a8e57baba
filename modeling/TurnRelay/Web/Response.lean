import TurnRelay.Gateway.Connection
import TurnRelay.Turn.Tally
import TurnRelay.Web.Refusal

/-!
# Responses to browsers

A response begins with its head. Browsers of all origins may read it. What the relay says for itself is
a JSON body; the events of a turn follow one another as blocks of text, with a comment in between when
nothing else was sent for a while.

## Main definitions

* `Web.Head`: the head.
* `Web.healthBody`, `Web.readyBody`, `Web.liveBody`: what the relay says of itself.
-/

namespace TurnRelay.Web

/-- The head of a response. -/
structure Head where
  /-- The status. -/
  status : Nat
  /-- The type of the body. -/
  type : Option String
  /-- The methods that the path allows. -/
  allow : Option String
  deriving DecidableEq, Repr

namespace Head

/-- The head in front of a JSON body. -/
def json (status : Nat) : Head := ⟨status, some "application/json", none⟩

/-- The head in front of events. -/
def events : Head := ⟨200, some "text/event-stream", none⟩

/-- The head of a rejection. Where the request as such could be understood its fault is explained in a
text. -/
def rejection (status : Nat) (allow : Option String) : Head :=
  ⟨status, if status ∈ [400, 415, 422] then some "text/plain; charset=utf-8" else none, allow⟩

end Head

/-- The origins that may read responses. -/
def readableFrom : String := "*"

/-- The comment that is sent when nothing else is. -/
def comment : String := ":\n\n"

/-- Whether a status says that there is a connection. -/
def isConnected (s : Gateway.Status) : Bool := decide (s.state = "connected")

/-- How the relay and the connection are. -/
def healthBody (time : Option Nat → Json) (s : Gateway.Status) (tally : Turn.Tally) : Json :=
  .ofMembers [("status", .string (if isConnected s then "healthy" else "degraded")),
    ("gateway", s.encode time), ("active_streams", .ofWord64 tally.activeStreams)]

/-- The relay is there. -/
def liveBody : Json := .ofMembers [("status", .string "alive")]

/-- The status and the body that say whether there is a connection. -/
def readyBody (s : Gateway.Status) : Nat × Json :=
  if isConnected s then
    (200, .ofMembers [("status", .string "ready"), ("gateway", .string "connected")])
  else (503, .ofMembers [("status", .string "not_ready"), ("gateway", .string "disconnected")])

end TurnRelay.Web
