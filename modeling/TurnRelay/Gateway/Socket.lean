import TurnRelay.Table
import TurnRelay.Wire.Frame

/-!
# Sockets

The client's end of a socket. It is dialed first; once open it carries frames out, in their order, and
messages in. It ends when the supervisor has it closed, when the gateway closes it, when it breaks, or with
the process that it belongs to.

## Main definitions

* `Gateway.Socket`: the states.
* `Gateway.Sight`: what the gateway sees of a socket.
* `Gateway.Inbound`, `Inbound.ending?`: what comes in, and which of it ends the socket.
-/

namespace TurnRelay.Gateway

/-- The client's end of a socket. -/
inductive Socket where
  /-- It is to be dialed. -/
  | wanted
  /-- It is being dialed. -/
  | dialing
  /-- It is open: the frames to go out, and whether it is to be closed. -/
  | opened (queue : List Wire.Frame) (isCancelled : Bool)
  /-- It is no more. -/
  | ended
  deriving DecidableEq

/-- What the gateway sees of a socket. -/
inductive Sight where
  /-- It is open. -/
  | opened
  /-- A frame. -/
  | frame (f : Wire.Frame)
  /-- The answer to a ping. -/
  | pong (payload : String)
  /-- The client closes it. -/
  | closed
  /-- The client is gone without closing it. -/
  | gone
  deriving DecidableEq

/-- What comes in on a socket. -/
inductive Inbound where
  /-- A text. -/
  | text (t : String)
  /-- A message that is no text. -/
  | binary (payload : String)
  /-- A ping, which is answered at once. -/
  | ping (payload : String)
  /-- The gateway closes the socket, perhaps with a code and a reason. -/
  | close (why : Option (Nat × String))
  /-- The socket breaks. -/
  | broken
  deriving DecidableEq, Repr

/-- Whether a closing code may be sent. -/
def isClosingCode (code : Nat) : Bool :=
  decide ((1000 ≤ code ∧ code ≤ 1003) ∨ (1007 ≤ code ∧ code ≤ 1013) ∨ (3000 ≤ code ∧ code ≤ 4999))

/-- Why the socket ends, if it does. A code that may not be sent counts as a violation. -/
def Inbound.ending? : Inbound → Option String
  | .close none => some "closed by gateway"
  | .close (some (code, reason)) =>
    if isClosingCode code then some (s!"closed by gateway ({code}): " ++ reason)
    else some "closed by gateway (1002): Protocol violation"
  | .broken =>
    some "read failed: WebSocket protocol error: Connection reset without closing handshake"
  | _ => none

namespace Socket

/-- Whether frames can be handed to a socket. -/
def isOpen : Socket → Bool
  | .opened _ _ => true
  | _ => false

/-- A frame is to go out. -/
def enqueue (f : Wire.Frame) : Socket → Socket
  | .opened queue isCancelled => .opened (queue ++ [f]) isCancelled
  | s => s

/-- The socket is to be closed. -/
def cancel : Socket → Socket
  | .opened queue _ => .opened queue true
  | s => s

/-- The socket is open, and nobody has told it to close. -/
def isLoose : Socket → Bool
  | .opened _ isCancelled => ! isCancelled
  | _ => false

/-- The process of the client ends. A socket that was told to close still does so; one that was not is gone. -/
def drop (s : Socket) : Socket := if s.isLoose then .ended else s

end Socket

/-- The sockets of a client by epoch. -/
abbrev Sockets := Table Nat Socket

namespace Sockets

/-- Whether frames can be handed to the socket of an epoch. -/
def isOpen (ss : Sockets) (epoch : Nat) : Bool := (ss.get? epoch).any Socket.isOpen

/-- The socket of an epoch is open, and nobody has told it to close. -/
def isLoose (ss : Sockets) (epoch : Nat) : Bool := (ss.get? epoch).any Socket.isLoose

/-- The epochs of the sockets that are open and that nobody has told to close. -/
def loose (ss : Sockets) : List Nat := ss.entries.filterMap fun e => if e.2.isLoose then some e.1 else none

/-- The process of the client ends. -/
def drop (ss : Sockets) : Sockets := ⟨ss.entries.map fun e => (e.1, e.2.drop)⟩

/-- The epoch of a socket that is to be dialed. -/
def wanted? (ss : Sockets) : Option Nat :=
  (ss.entries.find? fun e => decide (e.2 = .wanted)).map (·.1)

end Sockets

end TurnRelay.Gateway
